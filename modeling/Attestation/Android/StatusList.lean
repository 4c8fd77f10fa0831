import Attestation.Android.Errors
import Mathlib.Data.List.AList

/-! Google's attestation status list: the revocation and suspension records of
attestation certificates, parsed by a scanner over the bytes of its JSON. Each
scanner function takes the position it starts at and returns the one it stops
at; a loop of the source runs on fuel, one unit for each byte of the text. -/

namespace Attestation.Android

open Result

structure StatusEntry where
  status : String
  reason : String
  deriving DecidableEq, Repr

/-- Keyed by certificate serial in lowercase hex, no leading-zero padding. -/
structure StatusList where
  entries : AList fun _ : String => StatusEntry

instance : DecidableEq StatusList := fun a b =>
  decidable_of_iff (a.entries.entries = b.entries.entries) <| by
    cases a
    cases b
    simp [AList.ext_iff]

namespace StatusList

/-! ### Scanning -/

def isWs (c : UInt8) : Bool := c = 0x20 || c = 0x0A || c = 0x0D || c = 0x09

def skipWs (bytes : Bytes) (pos : ℕ) : ℕ := pos + ((bytes.drop pos).takeWhile isWs).length

def peekChar (bytes : Bytes) (pos : ℕ) : Option UInt8 := bytes[pos]?

def expectChar (bytes : Bytes) (pos : ℕ) (c : UInt8) : Result Error ℕ := do
  let pos := skipWs bytes pos
  ensure (bytes[pos]? = some c) (.der ("status list JSON: expected '" ++
    String.singleton (Char.ofNat c.toNat) ++ "' at " ++ toString pos))
  pure (pos + 1)

/-- The position of the closing quotation mark, from the bytes left and the
position of the first of them. A backslash hides the byte after it. -/
def closingQuote : Bytes → ℕ → Option ℕ
  | [], _ => none
  | [c], pos => if c = 0x22 then some pos else none
  | c :: d :: rest, pos =>
    if c = 0x5C then closingQuote rest (pos + 2)
    else if c = 0x22 then some pos
    else closingQuote (d :: rest) (pos + 1)

def readString (bytes : Bytes) (pos : ℕ) : Result Error (String × ℕ) := do
  let pos := skipWs bytes pos
  ensure (bytes[pos]? = some 0x22)
    (.der ("status list JSON: expected string at " ++ toString pos))
  let start := pos + 1
  let stop ← okOr (.der "status list JSON: unterminated string")
    (closingQuote (bytes.drop start) start)
  let raw ← slice bytes start stop
  -- never fails: the text is UTF-8 and is cut at two quotation marks
  let s ← okOr (.der "status list utf8: ") (String.fromUTF8? ⟨raw.toArray⟩)
  pure (s, stop + 1)

/-- The members of a status object, from just after its opening brace. -/
def readMembers (bytes : Bytes) : ℕ → ℕ → StatusEntry → Result Error (StatusEntry × ℕ)
  | 0, _, _ => .error .panic
  | fuel + 1, pos, entry => do
    let (key, pos) ← readString bytes pos
    let pos ← expectChar bytes (skipWs bytes pos) 0x3A
    let (val, pos) ← readString bytes pos
    let entry := match key with
      | "status" => { entry with status := val }
      | "reason" => { entry with reason := val }
      | _ => entry
    let pos := skipWs bytes pos
    if peekChar bytes pos = some 0x2C then
      readMembers bytes fuel (skipWs bytes (pos + 1)) entry
    else pure (entry, pos)

def readStatusObject (bytes : Bytes) (pos : ℕ) : Result Error (StatusEntry × ℕ) := do
  let pos ← expectChar bytes pos 0x7B
  let pos := skipWs bytes pos
  let (entry, pos) ←
    if peekChar bytes pos = some 0x7D then pure (⟨"", ""⟩, pos)
    else readMembers bytes (bytes.length + 1) pos ⟨"", ""⟩
  let pos ← expectChar bytes pos 0x7D
  pure (entry, pos)

/-- The entries object, from just after its opening brace. -/
def readEntries (toLowercase : String → String) (bytes : Bytes) :
    ℕ → ℕ → AList (fun _ : String => StatusEntry) →
      Result Error (AList (fun _ : String => StatusEntry) × ℕ)
  | 0, _, _ => .error .panic
  | fuel + 1, pos, entries => do
    let (serial, pos) ← readString bytes pos
    let pos ← expectChar bytes (skipWs bytes pos) 0x3A
    let (entry, pos) ← readStatusObject bytes (skipWs bytes pos)
    let entries := entries.insert (toLowercase serial) entry
    let pos := skipWs bytes pos
    if peekChar bytes pos = some 0x2C then
      readEntries toLowercase bytes fuel (skipWs bytes (pos + 1)) entries
    else pure (entries, pos)

/-- The characters `str::trim` strips: Unicode `White_Space`. -/
def isWhiteSpace (c : Char) : Bool :=
  (9 ≤ c.toNat && c.toNat ≤ 13) || (0x2000 ≤ c.toNat && c.toNat ≤ 0x200A) ||
    [0x20, 0x85, 0xA0, 0x1680, 0x2028, 0x2029, 0x202F, 0x205F, 0x3000].contains c.toNat

/-- `json.trim_start_matches('\u{feff}').trim()`. -/
def trim (json : String) : String :=
  let cs := (json.toList.dropWhile (·.toNat = 0xFEFF)).dropWhile isWhiteSpace
  String.ofList (cs.reverse.dropWhile isWhiteSpace).reverse

/-- Parse a status list JSON blob. -/
def fromJson (cr : Crates) (json : String) : Result Error StatusList := do
  let bytes := asBytes (trim json)
  let pos ← expectChar bytes 0 0x7B
  let (key, pos) ← readString bytes (skipWs bytes pos)
  ensure (key = "entries")
    (.der ("status list expected top-level 'entries', got '" ++ key ++ "'"))
  let pos ← expectChar bytes (skipWs bytes pos) 0x3A
  let pos ← expectChar bytes (skipWs bytes pos) 0x7B
  let pos := skipWs bytes pos
  let (entries, pos) ←
    if peekChar bytes pos = some 0x7D then pure (∅, pos)
    else readEntries cr.toLowercase bytes (bytes.length + 1) pos ∅
  let pos ← expectChar bytes pos 0x7D
  let _ ← expectChar bytes (skipWs bytes pos) 0x7D
  pure ⟨entries⟩

def lookupSerial (list : StatusList) (serialHexLower : String) : Option StatusEntry :=
  list.entries.lookup serialHexLower

/-- The number of entries. -/
def len (list : StatusList) : ℕ := list.entries.keys.length

/-- A list with one entry. -/
def singleton (serial : String) (entry : StatusEntry) : StatusList := ⟨AList.singleton serial entry⟩

end StatusList

end Attestation.Android
