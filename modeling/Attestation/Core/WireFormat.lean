import Attestation.Base.BcsReader
import Attestation.Core.Outcome

/-! The BCS form of an outcome, in which one process hands it to another. The five fields
stand one behind the other in the order of their declaration and each says where it ends.
An outcome is written in one way, and nothing else is read as one. -/

namespace Attestation.Outcome

open Result Bcs

/-- `to_bcs`. -/
def toBcs (o : Outcome) : Except Bcs.Error Bytes := do
  let source ← serializeBytes (asBytes o.source)
  let attestedValue ← serializeBytes o.attestedValue
  let challenge ← serializeBytes o.challenge
  let timestampMs := u64 o.timestampMs
  let detailHash ← serializeBytes o.detailHash
  pure (source ++ attestedValue ++ challenge ++ timestampMs ++ detailHash)

/-- `from_bcs`. -/
def fromBcs (input : Bytes) : Except ReadError Outcome := do
  let (source, r) ← parseString input
  let (attestedValue, r) ← parseBytes r
  let (challenge, r) ← parseBytes r
  let (timestampMs, r) ← parseU64 r
  let (detailHash, r) ← parseBytes r
  endOfInput r
  pure { source, attestedValue, challenge, timestampMs, detailHash }

/-- The fields are within the limit of a sequence. -/
structure Short (o : Outcome) : Prop where
  source : (asBytes o.source).length < 2 ^ 31
  attestedValue : o.attestedValue.length < 2 ^ 31
  challenge : o.challenge.length < 2 ^ 31
  detailHash : o.detailHash.length < 2 ^ 31

/-- The fields one behind the other. -/
def layout (o : Outcome) : Bytes :=
  bytes (asBytes o.source) ++ bytes o.attestedValue ++ bytes o.challenge ++ u64 o.timestampMs ++
    bytes o.detailHash

theorem toBcs_eq_ok {o : Outcome} {b : Bytes} : o.toBcs = .ok b ↔ o.Short ∧ b = o.layout := by
  simp only [toBcs, bind_eq_ok, serializeBytes_eq_ok, pure_eq_ok]
  constructor
  · rintro ⟨_, ⟨hsource, rfl⟩, _, ⟨hvalue, rfl⟩, _, ⟨hchallenge, rfl⟩, _, ⟨hhash, rfl⟩, rfl⟩
    exact ⟨⟨hsource, hvalue, hchallenge, hhash⟩, rfl⟩
  · rintro ⟨h, rfl⟩
    exact ⟨_, ⟨h.source, rfl⟩, _, ⟨h.attestedValue, rfl⟩, _, ⟨h.challenge, rfl⟩, _,
      ⟨h.detailHash, rfl⟩, rfl⟩

/-- What is read as an outcome is what it is written as. -/
theorem fromBcs_eq_ok {o : Outcome} {b : Bytes} : fromBcs b = .ok o ↔ o.toBcs = .ok b := by
  obtain ⟨source, attestedValue, challenge, timestampMs, detailHash⟩ := o
  simp only [fromBcs, bind_eq_ok, Prod.exists, parseString_eq_ok, parseBytes_eq_ok, parseU64_eq_ok,
    endOfInput_eq_ok, pure_eq_ok, Outcome.mk.injEq, toBcs_eq_ok, layout]
  constructor
  · rintro ⟨_, _, ⟨hsource, rfl⟩, _, _, ⟨hvalue, rfl⟩, _, _, ⟨hchallenge, rfl⟩, _, _, rfl, _, _,
      ⟨hhash, rfl⟩, _, rfl, rfl, rfl, rfl, rfl, rfl⟩
    exact ⟨⟨hsource, hvalue, hchallenge, hhash⟩, by simp only [List.append_assoc, List.append_nil]⟩
  · rintro ⟨⟨hsource, hvalue, hchallenge, hhash⟩, rfl⟩
    refine ⟨_, _, ⟨hsource, ?_⟩, _, _, ⟨hvalue, rfl⟩, _, _, ⟨hchallenge, rfl⟩, _, _, rfl, _, [],
      ⟨hhash, rfl⟩, (), rfl, rfl, rfl, rfl, rfl, rfl⟩
    simp only [List.append_assoc, List.append_nil]

/-- Each field says where it ends. -/
theorem layout_selfDelimiting : SelfDelimiting layout := by
  rintro ⟨source, attestedValue, challenge, timestampMs, detailHash⟩
    ⟨source', attestedValue', challenge', timestampMs', detailHash'⟩ r s h
  simp only [layout, List.append_assoc] at h
  obtain ⟨hsource, h⟩ := bytes_selfDelimiting h
  obtain ⟨hvalue, h⟩ := bytes_selfDelimiting h
  obtain ⟨hchallenge, h⟩ := bytes_selfDelimiting h
  obtain ⟨htimestamp, h⟩ := u64_selfDelimiting h
  obtain ⟨hhash, h⟩ := bytes_selfDelimiting h
  rw [asBytes_injective hsource, hvalue, hchallenge, htimestamp, hhash]
  exact ⟨rfl, h⟩

/-- Of two strings that are read, neither goes on where the other ends. -/
theorem eq_of_isPrefix {o o' : Outcome} {b b' : Bytes} (h : fromBcs b = .ok o)
    (h' : fromBcs b' = .ok o') (hstart : b <+: b') : b = b' := by
  obtain ⟨-, rfl⟩ := toBcs_eq_ok.mp (fromBcs_eq_ok.mp h)
  obtain ⟨-, rfl⟩ := toBcs_eq_ok.mp (fromBcs_eq_ok.mp h')
  obtain ⟨rest, hrest⟩ := hstart
  obtain ⟨rfl, -⟩ := layout_selfDelimiting (hrest.trans (List.append_nil _).symm)
  rfl

/-- The format is canonical: an outcome is read back as it was written, what is read is
written as it was, and an encoding that is cut or goes on is not read. -/
theorem wireFormat_canonical :
    (∀ o : Outcome, o.Short → ∃ b, o.toBcs = .ok b ∧ fromBcs b = .ok o) ∧
    (∀ b o, fromBcs b = .ok o → o.toBcs = .ok b) ∧
    ∀ (o : Outcome) b, o.toBcs = .ok b → ∀ b', (b' <+: b ∨ b <+: b') → b' ≠ b →
      ∃ e, fromBcs b' = .error e := by
  refine ⟨fun o hshort => ?_, fun b o => fromBcs_eq_ok.mp, fun o b hb b' hstart hne => ?_⟩
  · have hb : o.toBcs = .ok o.layout := toBcs_eq_ok.mpr ⟨hshort, rfl⟩
    exact ⟨_, hb, fromBcs_eq_ok.mpr hb⟩
  · refine exists_eq_error fun o' ho' => hne ?_
    have ho := fromBcs_eq_ok.mpr hb
    rcases hstart with hstart | hstart
    · exact eq_of_isPrefix ho' ho hstart
    · exact (eq_of_isPrefix ho ho' hstart).symm

example : toBcs ⟨"ab", [0x10, 0x11], [0x20], 0x0102, [0xFE]⟩ = .ok [0x02, 0x61, 0x62, 0x02, 0x10,
    0x11, 0x01, 0x20, 0x02, 0x01, 0, 0, 0, 0, 0, 0, 0x01, 0xFE] := by decide +kernel

end Attestation.Outcome
