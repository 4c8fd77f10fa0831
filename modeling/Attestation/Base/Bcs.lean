import Attestation.Base.Uleb128

/-! BCS: a struct is the concatenation of its fields in declaration order, a
byte vector is its ULEB128 length and its bytes, a `u64` is eight little-endian
bytes. Concatenations of byte vectors are determined by their bytes, however
many fields they have. -/

namespace Attestation.Bcs

/-- `bcs::MAX_SEQUENCE_LENGTH`. -/
def maxSequenceLength : ℕ := 2 ^ 31 - 1

inductive Error where
  | exceededMaxLen (len : ℕ)
  deriving DecidableEq, Repr

def Error.message : Error → String
  | .exceededMaxLen len => "Exceeded max sequence length: " ++ toString len

/-- The encoding of a `vector<u8>`. -/
def bytes (bs : Bytes) : Bytes := uleb128 bs.length ++ bs

/-- The encoding of a `u64`. -/
def u64 (x : UInt64) : Bytes := leBytes 8 x.toNat

/-- The encoding of a struct whose fields are all `vector<u8>`. -/
def byteFields (fields : List Bytes) : Bytes := fields.flatMap bytes

/-- `bcs::to_bytes` of a struct whose fields are all `Vec<u8>`: the crate refuses
a sequence longer than its limit. -/
def toBytes (fields : List Bytes) : Except Error Bytes :=
  match fields.find? (fun f => maxSequenceLength < f.length) with
  | some f => .error (.exceededMaxLen f.length)
  | none => .ok (byteFields fields)

theorem bytes_selfDelimiting : SelfDelimiting bytes := uleb128_selfDelimiting.lengthPrefixed

theorem u64_selfDelimiting : SelfDelimiting u64 :=
  .of_length (fun _ => length_leBytes _ _) leBytes_u64_injective

/-- Two structs of byte vectors with the same encoding have the same fields, and
so the same number of them. -/
theorem byteFields_injective : Function.Injective byteFields :=
  bytes_selfDelimiting.flatMap_injective

theorem toBytes_eq_ok {fields : List Bytes} {bs : Bytes} (h : toBytes fields = .ok bs) :
    bs = byteFields fields := by
  unfold toBytes at h
  split at h
  · cases h
  · simpa using h.symm

theorem toBytes_of_short {fields : List Bytes} (h : ∀ f ∈ fields, f.length < 2 ^ 31) :
    toBytes fields = .ok (byteFields fields) := by
  have : fields.find? (fun f => maxSequenceLength < f.length) = none := by
    rw [List.find?_eq_none]
    intro f hf
    have hlen : f.length ≤ maxSequenceLength := Nat.le_pred_of_lt (h f hf)
    simpa using hlen
  simp [toBytes, this]

end Attestation.Bcs
