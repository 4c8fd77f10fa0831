import Attestation.Base.Bytes

/-! The CBOR decoder of the iOS demo and the key it takes from an attestation object. A
reader walks the bytes by position. What Swift traps on, an `Int` that overflows or an
index out of range, is a panic here. -/

namespace Attestation.IosDemo

open Result

inductive CBORError where
  | truncated
  | unexpectedType (byte : UInt8)
  | missingKey (key : String)
  | malformedKey
  | missingField (field : ℤ)
  | wrongCurve
  deriving DecidableEq, Repr

/-- `Int(n)` or `Int64(n)` of a `UInt64`. -/
def toInt (n : ℕ) : Result CBORError ℕ := if n < 2 ^ 63 then .ok n else .error .panic

/-- `a + b` on `Int`. -/
def intAdd (a b : ℕ) : Result CBORError ℕ := if a + b < 2 ^ 63 then .ok (a + b) else .error .panic

/-- `for _ in 0..<n`, with the variables its body sets. -/
def times {σ : Type} (body : σ → Result CBORError σ) : ℕ → σ → Result CBORError σ
  | 0, s => pure s
  | n + 1, s => do
    let s ← body s
    times body n s

structure CBORReader where
  bytes : Bytes
  pos : ℕ := 0
  deriving DecidableEq, Repr

namespace CBORReader

def readByte (r : CBORReader) : Result CBORError (UInt8 × CBORReader) := do
  ensure (r.pos < r.bytes.length) .truncated
  let b ← index r.bytes r.pos
  pure (b, { r with pos := r.pos + 1 })

/-- The loops of `readLength`: `count` bytes more are shifted in. -/
def readBigEndian : ℕ → ℕ → CBORReader → Result CBORError (ℕ × CBORReader)
  | 0, v, r => pure (v, r)
  | count + 1, v, r => do
    let (b, r) ← r.readByte
    readBigEndian count (v <<< 8 ||| b.toNat) r

def readLength (info : UInt8) (r : CBORReader) : Result CBORError (ℕ × CBORReader) :=
  if info ≤ 23 then pure (info.toNat, r)
  else if info = 24 then do
    let (b, r) ← r.readByte
    pure (b.toNat, r)
  else if info = 25 then do
    let (a, r) ← r.readByte
    let (b, r) ← r.readByte
    pure (a.toNat <<< 8 ||| b.toNat, r)
  else if info = 26 then readBigEndian 4 0 r
  else if info = 27 then readBigEndian 8 0 r
  else fail (.unexpectedType info)

/-- What `readBytes` and `readText` do, each for its major type. -/
def readString (major : UInt8) (r : CBORReader) : Result CBORError (Bytes × CBORReader) := do
  let (h, r) ← r.readByte
  ensure (h >>> 5 = major) (.unexpectedType h)
  let (len, r) ← r.readLength (h &&& 0x1F)
  let len ← toInt len
  let stop ← intAdd r.pos len
  ensure (stop ≤ r.bytes.length) .truncated
  let slice ← slice r.bytes r.pos stop
  pure (slice, { r with pos := stop })

def readBytes (r : CBORReader) : Result CBORError (Bytes × CBORReader) := r.readString 2

/-- Bytes that are not UTF-8 are read as the empty string. -/
def readText (r : CBORReader) : Result CBORError (String × CBORReader) := do
  let (slice, r) ← r.readString 3
  pure ((String.fromUTF8? ⟨slice.toArray⟩).getD "", r)

def readInt (r : CBORReader) : Result CBORError (ℤ × CBORReader) := do
  let (h, r) ← r.readByte
  let (v, r) ← r.readLength (h &&& 0x1F)
  let v ← toInt v
  if h >>> 5 = 0 then pure ((v : ℤ), r)
  else if h >>> 5 = 1 then pure (-1 - (v : ℤ), r)
  else fail (.unexpectedType h)

/-- The position is moved past a string without a look at what is left. The calls are
nested `depth` deep at most. -/
def skipValue : ℕ → CBORReader → Result CBORError CBORReader
  | 0, _ => .error .panic
  | depth + 1, r => do
    let (h, r) ← r.readByte
    let major := h >>> 5
    let info := h &&& 0x1F
    if major = 0 ∨ major = 1 then do
      let (_, r) ← r.readLength info
      pure r
    else if major = 2 ∨ major = 3 then do
      let (n, r) ← r.readLength info
      let n ← toInt n
      let pos ← intAdd r.pos n
      pure { r with pos }
    else if major = 4 then do
      let (n, r) ← r.readLength info
      let n ← toInt n
      times (skipValue depth) n r
    else if major = 5 then do
      let (n, r) ← r.readLength info
      let n ← toInt n
      times (fun r => skipValue depth r >>= skipValue depth) n r
    else fail (.unexpectedType h)

def readMapHeader (r : CBORReader) : Result CBORError (ℕ × CBORReader) := do
  let (h, r) ← r.readByte
  ensure (h >>> 5 = 5) (.unexpectedType h)
  let (n, r) ← r.readLength (h &&& 0x1F)
  let n ← toInt n
  pure (n, r)

/-- `skipValue` with room for as many nested values as there are bytes. -/
def skip (r : CBORReader) : Result CBORError CBORReader := r.skipValue (r.bytes.length + 1)

end CBORReader

/-- The variables of the loop over the top-level map. -/
structure ObjectScan where
  reader : CBORReader
  authData : Option Bytes := none
  deriving DecidableEq, Repr

/-- Two strings are equal in Swift when they are canonically equivalent, and no other string
is so to these ASCII letters. -/
def ObjectScan.step (st : ObjectScan) : Result CBORError ObjectScan := do
  let (key, r) ← st.reader.readText
  if key = "authData" then do
    let (authData, r) ← r.readBytes
    pure { reader := r, authData := some authData }
  else do
    let r ← r.skip
    pure { st with reader := r }

/-- The variables of the loop over the COSE key. -/
structure KeyScan where
  reader : CBORReader
  x : Option Bytes := none
  y : Option Bytes := none
  kty : Option ℤ := none
  crv : Option ℤ := none
  deriving DecidableEq, Repr

def KeyScan.step (st : KeyScan) : Result CBORError KeyScan := do
  let (k, r) ← st.reader.readInt
  if k = 1 then do
    let (kty, r) ← r.readInt
    pure { st with reader := r, kty := some kty }
  else if k = 3 then do
    let (_, r) ← r.readInt
    pure { st with reader := r }
  else if k = -1 then do
    let (crv, r) ← r.readInt
    pure { st with reader := r, crv := some crv }
  else if k = -2 then do
    let (x, r) ← r.readBytes
    pure { st with reader := r, x := some x }
  else if k = -3 then do
    let (y, r) ← r.readBytes
    pure { st with reader := r, y := some y }
  else do
    let r ← r.skip
    pure { st with reader := r }

def extractAttestedPublicKey (attestationObject : Bytes) : Result CBORError Bytes := do
  let (n, r) ← (CBORReader.mk attestationObject 0).readMapHeader
  let object ← times ObjectScan.step n { reader := r }
  let ad ← okOr (.missingKey "authData") object.authData
  ensure (ad.length ≥ 37 + 18) .truncated
  let hi ← index ad 53
  let lo ← index ad 54
  let credIdLen := hi.toNat <<< 8 ||| lo.toNat
  let cosePkStart := 55 + credIdLen
  ensure (cosePkStart ≤ ad.length) .truncated
  let coseBytes ← slice ad cosePkStart ad.length
  let (cn, c) ← (CBORReader.mk coseBytes 0).readMapHeader
  let key ← times KeyScan.step cn { reader := c }
  ensure (key.kty = some 2) .wrongCurve
  ensure (key.crv = some 1) .wrongCurve
  let xb ← okOr (.missingField (-2)) key.x
  let yb ← okOr (.missingField (-2)) key.y
  ensure (xb.length = 32 ∧ yb.length = 32) (.missingField (-2))
  pure (0x04 :: xb ++ yb)

end Attestation.IosDemo
