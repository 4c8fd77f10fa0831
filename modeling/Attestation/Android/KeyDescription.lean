import Attestation.Android.Errors

/-! The decoder of Google's Key Attestation extension. The header fields are read
with the `der` crate; the elements of an AuthorizationList have tag numbers above
what the crate represents, so the list is walked with a TLV header parser of its
own, over 32-bit tag numbers and 64-bit lengths. -/

namespace Attestation.Android

open Result

/-- `1.3.6.1.4.1.11129.2.1.17`. -/
def oidAndroidKeyAttestation : ObjectIdentifier := ⟨[1, 3, 6, 1, 4, 1, 11129, 2, 1, 17]⟩

structure RootOfTrust where
  verifiedBootKey : Bytes
  deviceLocked : Bool
  verifiedBootState : VerifiedBootState
  verifiedBootHash : Option Bytes
  deriving DecidableEq, Repr

/-- The elements of an AuthorizationList the verifier reads, each optional. -/
structure AuthorizationList where
  /-- `[701]` -/
  creationDateTime : Option UInt64 := none
  /-- `[704]` -/
  rootOfTrust : Option RootOfTrust := none
  /-- `[705]` -/
  osVersion : Option UInt32 := none
  /-- `[706]` -/
  osPatchLevel : Option UInt32 := none
  /-- `[709]` -/
  attestationApplicationId : Option Bytes := none
  deriving DecidableEq, Repr

structure KeyDescription where
  attestationVersion : ℤ
  attestationSecurityLevel : SecurityLevel
  keymintVersion : ℤ
  keymintSecurityLevel : SecurityLevel
  attestationChallenge : Bytes
  uniqueId : Bytes
  softwareEnforced : AuthorizationList
  hardwareEnforced : AuthorizationList
  deriving DecidableEq, Repr

namespace KeyDescription

/-! ### Integers -/

def isNegative (bytes : Bytes) : Bool := ((bytes.head?.map fun b => b &&& 0x80 != 0)).getD false

/-- Contents copied to the end of an `n`-byte buffer filled with the sign. -/
def signExtend {ε : Type} (n : ℕ) (bytes : Bytes) : Result ε Bytes :=
  if bytes.length ≤ n then
    .ok (List.replicate (n - bytes.length) (if isNegative bytes then 0xFF else 0) ++ bytes)
  else .error .panic

/-- `from_be_bytes` of a signed type as wide as the buffer. -/
def fromBeBytes (buf : Bytes) : ℤ := (BitVec.ofNat (8 * buf.length) (ofBe buf)).toInt

/-- Decode an ASN.1 INTEGER as `i32`. Rejects values that don't fit. -/
def decodeI32 (r : Bytes) : Result Der.Error (ℤ × Bytes) := do
  let (bytes, r) ← Der.int r
  ensure (¬ bytes.length > 4) .overflow
  let buf ← signExtend 4 bytes
  pure (fromBeBytes buf, r)

/-- Decode an ASN.1 INTEGER as `u64`, rejecting negatives. -/
def decodeU64 (r : Bytes) : Result Der.Error (UInt64 × Bytes) := do
  let (bytes, r) ← Der.int r
  ensure (¬ isNegative bytes = true) (.value .integer)
  ensure (¬ bytes.length > 8) .overflow
  let buf ← signExtend 8 bytes
  pure (UInt64.ofNat (ofBe buf), r)

/-- Decode an ASN.1 ENUMERATED as `i32`. -/
def decodeEnumerated (r : Bytes) : Result Der.Error (ℤ × Bytes) := do
  let (body, r) ← Der.readValue .enumerated r
  ensure (¬ body.length > 4) .overflow
  let buf ← signExtend 4 body
  pure (fromBeBytes buf, r)

/-! ### Authorization lists -/

structure TlvHeader where
  /-- 0 universal, 1 application, 2 context-specific, 3 private. -/
  tagClass : UInt8
  constructed : Bool
  tagNumber : UInt32
  headerLength : ℕ
  bodyLength : ℕ
  deriving DecidableEq, Repr

/-- `n.checked_shl(7)?.checked_add(b)?`: the shift amount is in range, so the
shift drops high bits and only the addition can fail. -/
def pushTagByte (n : UInt32) (b : UInt8) : Option UInt32 :=
  let shifted := n <<< 7
  let low := (b &&& 0x7F).toNat
  if shifted.toNat + low < 2 ^ 32 then some (UInt32.ofNat (shifted.toNat + low)) else none

/-- The continuation bytes of a long-form tag number. -/
def longTag (bytes : Bytes) : ℕ → ℕ → UInt32 → Result Unit (UInt32 × ℕ)
  | 0, _, _ => .error .panic
  | fuel + 1, cur, n => do
    ensure (¬ cur ≥ bytes.length) ()
    let b ← index bytes cur
    let n ← okOr () (pushTagByte n b)
    if b &&& 0x80 = 0 then pure (n, cur + 1) else longTag bytes fuel (cur + 1) n

/-- `count` length bytes, pushed onto a 64-bit value. -/
def longLength (bytes : Bytes) : ℕ → ℕ → UInt64 → Result Unit (UInt64 × ℕ)
  | 0, cur, v => pure (v, cur)
  | count + 1, cur, v => do
    ensure (¬ cur ≥ bytes.length) ()
    let b ← index bytes cur
    let shifted := v <<< 8
    ensure (shifted.toNat + b.toNat < 2 ^ 64) ()
    longLength bytes count (cur + 1) (UInt64.ofNat (shifted.toNat + b.toNat))

/-- Parse the leading TLV header from `bytes[pos..]`. -/
def parseTlvHeader (bytes : Bytes) (pos : ℕ) : Result Unit TlvHeader := do
  ensure (¬ pos ≥ bytes.length) ()
  let first ← index bytes pos
  let low5 := first &&& 0x1F
  let (tagNumber, cur) ←
    if low5 < 0x1F then pure (low5.toUInt32, pos + 1)
    else longTag bytes (bytes.length + 1) (pos + 1) 0
  ensure (¬ cur ≥ bytes.length) ()
  let lenFirst ← index bytes cur
  let (bodyLength, cur) ←
    if lenFirst &&& 0x80 = 0 then pure (lenFirst.toUInt64, cur + 1)
    else do
      let n := (lenFirst &&& 0x7F).toNat
      -- indefinite or absurdly large
      ensure (¬ (n = 0 ∨ n > 4)) ()
      longLength bytes n (cur + 1) 0
  pure {
    tagClass := first >>> 6 &&& 0b11
    constructed := first &&& 0b00100000 != 0
    tagNumber := tagNumber
    headerLength := cur - pos
    bodyLength := bodyLength.toNat }

def decodeRootOfTrust (r : Bytes) : Result Der.Error (RootOfTrust × Bytes) := do
  let (body, r) ← Der.readValue .sequence r
  let br ← Der.sliceReader body
  let (verifiedBootKey, br) ← Der.octetString br
  let (deviceLocked, br) ← Der.bool br
  let (stateI, br) ← mapErr (fun _ => Der.Error.value .enumerated) (decodeEnumerated br)
  let verifiedBootState ← okOr (.value .enumerated) (VerifiedBootState.fromI32 stateI)
  let verifiedBootHash ←
    if br = [] then pure none
    else do
      let (hash, _) ← Der.octetString br
      pure (some hash)
  pure (⟨verifiedBootKey, deviceLocked, verifiedBootState, verifiedBootHash⟩, r)

/-- Store a context-specific element under its tag number; the bytes after its
value are not looked at, and a tag the verifier does not decode is ignored. -/
def storeElement (out : AuthorizationList) (tagNumber : UInt32) (inner : Bytes) :
    Result Der.Error AuthorizationList := do
  let ir ← Der.sliceReader inner
  match tagNumber.toNat with
  | 701 => do
    let (n, _) ← mapErr (fun _ => Der.Error.value .integer) (decodeU64 ir)
    pure { out with creationDateTime := some n }
  | 704 => do
    let (rot, _) ← decodeRootOfTrust ir
    pure { out with rootOfTrust := some rot }
  | 705 => do
    let (n, _) ← mapErr (fun _ => Der.Error.value .integer) (decodeI32 ir)
    pure { out with osVersion := some (UInt32.ofInt n) }
  | 706 => do
    let (n, _) ← mapErr (fun _ => Der.Error.value .integer) (decodeI32 ir)
    pure { out with osPatchLevel := some (UInt32.ofInt n) }
  | 709 => do
    let (v, _) ← Der.octetString ir
    pure { out with attestationApplicationId := some v }
  | _ => pure out

/-- The loop over the elements, from position `pos`. -/
def decodeElements (body : Bytes) : ℕ → ℕ → AuthorizationList → Result Der.Error AuthorizationList
  | 0, _, _ => .error .panic
  | fuel + 1, pos, out =>
    if pos < body.length then do
      let header ← mapErr (fun _ => Der.Error.value .sequence) (parseTlvHeader body pos)
      let valueStart ← usizeAdd pos header.headerLength
      let valueEnd ← usizeAdd valueStart header.bodyLength
      ensure (¬ valueEnd > body.length) (.length .sequence)
      let inner ← slice body valueStart valueEnd
      let out ← if header.tagClass = 2 then storeElement out header.tagNumber inner else pure out
      decodeElements body fuel valueEnd out
    else pure out

def decodeAuthorizationList (r : Bytes) : Result Der.Error (AuthorizationList × Bytes) := do
  let (body, r) ← Der.readValue .sequence r
  let out ← decodeElements body (body.length + 1) 0 {}
  pure (out, r)

/-! ### The extension -/

/-- `.map_err(|e| Error::Der(format!("{context}: {e}")))?`. -/
def context {α : Type} (what : String) (x : Result Der.Error α) : Result Error α :=
  mapErr (fun e => .der (what ++ ": " ++ e.message)) x

/-- Decode a security level, at one of its two places. -/
def decodeSecurityLevel (what : String) (br : Bytes) : Result Error (SecurityLevel × Bytes) := do
  let (i, br) ← context what (decodeEnumerated br)
  let level ← okOr (.der ("unknown SecurityLevel " ++ toString i)) (SecurityLevel.fromI32 i)
  pure (level, br)

def fromDer (bytes : Bytes) : Result Error KeyDescription := do
  let r ← context "KeyDescription outer" (Der.sliceReader bytes)
  let (header, r) ← mapErr (fun e => Error.der e.message) (Der.readHeader r)
  ensure (header.tag = .sequence) (.der ("expected SEQUENCE, got " ++ Der.Tag.debug header.tag))
  let (body, _) ← context "KeyDescription body" (Der.readSlice header.length r)
  let br ← context "KeyDescription body reader" (Der.sliceReader body)
  let (attestationVersion, br) ← context "attestationVersion" (decodeI32 br)
  let (attestationSecurityLevel, br) ← decodeSecurityLevel "attSecLevel" br
  let (keymintVersion, br) ← context "keymintVersion" (decodeI32 br)
  let (keymintSecurityLevel, br) ← decodeSecurityLevel "kmSecLevel" br
  let (attestationChallenge, br) ← context "attestationChallenge" (Der.octetString br)
  let (uniqueId, br) ← context "uniqueId" (Der.octetString br)
  let (softwareEnforced, br) ← context "softwareEnforced" (decodeAuthorizationList br)
  let (hardwareEnforced, _) ← context "hardwareEnforced" (decodeAuthorizationList br)
  pure {
    attestationVersion, attestationSecurityLevel, keymintVersion, keymintSecurityLevel,
    attestationChallenge, uniqueId, softwareEnforced, hardwareEnforced }

theorem context_raises {α : Type} (what : String) (x : Result Der.Error α) :
    Raises (fun e => ∃ m, e = Error.der m) (context what x) :=
  .mapErr fun _ => ⟨_, rfl⟩

theorem decodeSecurityLevel_raises (what : String) (br : Bytes) :
    Raises (fun e => ∃ m, e = Error.der m) (decodeSecurityLevel what br) := by
  refine .bind (context_raises _ _) fun _ => ?_
  exact .bind (.okOr ⟨_, rfl⟩) fun _ => .pure _

/-- A malformed extension is reported as a DER error. -/
theorem fromDer_raises (bytes : Bytes) :
    Raises (fun e => ∃ m, e = Error.der m) (fromDer bytes) := by
  refine .bind (context_raises _ _) fun r => ?_
  refine .bind (.mapErr fun _ => ⟨_, rfl⟩) fun _ => ?_
  refine .bind (.ensure ⟨_, rfl⟩) fun _ => ?_
  refine .bind (context_raises _ _) fun _ => ?_
  refine .bind (context_raises _ _) fun _ => ?_
  refine .bind (context_raises _ _) fun _ => ?_
  refine .bind (decodeSecurityLevel_raises _ _) fun _ => ?_
  refine .bind (context_raises _ _) fun _ => ?_
  refine .bind (decodeSecurityLevel_raises _ _) fun _ => ?_
  refine .bind (context_raises _ _) fun _ => ?_
  refine .bind (context_raises _ _) fun _ => ?_
  refine .bind (context_raises _ _) fun _ => ?_
  exact .bind (context_raises _ _) fun _ => .pure _

/-- The extension of a key at one security level with the given elements in its
hardware-enforced list and none in its software-enforced one. -/
def extension (level : UInt8) (challenge hardware : Bytes) : Extension :=
  ⟨oidAndroidKeyAttestation, Der.tlv .sequence
    (Der.tlv .integer [3] ++ Der.tlv .enumerated [level] ++ Der.tlv .integer [4] ++
      Der.tlv .enumerated [level] ++ Der.tlv .octetString challenge ++ Der.tlv .octetString [] ++
      Der.tlv .sequence [] ++ Der.tlv .sequence hardware)⟩

/-- The element `[704]` of a device with the given lock and boot state. -/
def rootOfTrustElement (bootKey : Bytes) (locked state : UInt8) : Bytes :=
  let rot := Der.tlv .sequence
    (Der.tlv .octetString bootKey ++ Der.tlv .boolean [locked] ++ Der.tlv .enumerated [state])
  [0xBF, 0x85, 0x40] ++ Der.encodeLength rot.length ++ rot

example : (fromDer (extension 1 [7] (rootOfTrustElement [9] 0xFF 0)).extnValue).map
    (fun kd => (kd.attestationSecurityLevel, kd.hardwareEnforced.rootOfTrust)) =
      .ok (.trustedEnvironment, some ⟨[9], true, .verified, none⟩) := by
  decide +kernel

end KeyDescription

end Attestation.Android
