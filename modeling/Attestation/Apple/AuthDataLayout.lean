import Attestation.Apple.AuthData

/-! The layout of an authData record with attested credential data. The fields stand one
behind the other, and the two bytes in front of the credential id say where it ends and
the public key begins. Parsing and writing are inverse to each other, and a byte string
that is no such record is refused. -/

namespace Attestation.Apple

open Result

namespace AuthData

/-- The record as the bytes it is parsed from. -/
def build (a : AuthData) : Bytes :=
  a.rpIdHash.toList ++ (a.flags :: (beBytes 4 a.signCount.toNat ++ (a.aaguid.toList ++
    (beBytes 2 a.credentialId.length ++ (a.credentialId ++ a.credentialPublicKey)))))

/-- The attested-credential-data flag is set, and the length of the credential id fits
its two bytes. -/
structure WellFormed (a : AuthData) : Prop where
  flag : a.flags &&& atFlag ≠ 0
  credentialId : a.credentialId.length ≤ 65535

/-! ### Fixed-size fields -/

theorem exists_vector {n : ℕ} {bytes : Bytes} (h : bytes.length = n) :
    ∃ v : Vector UInt8 n, bytes = v.toList :=
  ⟨⟨bytes.toArray, by simpa using h⟩, by simp⟩

theorem beBytes_toList {n : ℕ} (v : Vector UInt8 n) : beBytes n (ofBe v.toList) = v.toList := by
  have h := beBytes_ofBe v.toList
  rwa [Vector.length_toList] at h

theorem ofBe_toList_lt {n : ℕ} (v : Vector UInt8 n) : ofBe v.toList < 256 ^ n := by
  have h := ofBe_lt v.toList
  rwa [Vector.length_toList] at h

theorem ofBe_signCount (count : UInt32) : UInt32.ofNat (ofBe (beBytes 4 count.toNat)) = count := by
  have hlt := count.toNat_lt
  rw [ofBe_beBytes, Nat.mod_eq_of_lt (by omega), UInt32.ofNat_toNat]

theorem beBytes_signCount (v : Vector UInt8 4) :
    beBytes 4 (UInt32.ofNat (ofBe v.toList)).toNat = v.toList := by
  have hlt := ofBe_toList_lt v
  rw [UInt32.toNat_ofNat', Nat.mod_eq_of_lt (by omega), beBytes_toList]

theorem sliceArray_returns {ε : Type} {n lo hi : ℕ} {bytes : Bytes} (h : lo + n = hi)
    (hhi : hi ≤ bytes.length) :
    Returns (slice bytes lo hi >>= toArray n : Result ε (Vector UInt8 n)) := by
  refine .bind (slice_returns (by omega) hhi) fun s hs => toArray_returns ?_
  obtain ⟨-, -, hlen, -⟩ := slice_eq_ok.mp hs
  omega

/-! ### The two directions -/

theorem parse_build {a : AuthData} (h : a.WellFormed) : parse a.build = .ok a := by
  obtain ⟨rpIdHash, flags, signCount, aaguid, credentialId, pk⟩ := a
  obtain ⟨hflag, hcid⟩ := h
  generalize hb : build _ = b
  obtain ⟨count, hcount⟩ := exists_vector (length_beBytes 4 signCount.toNat)
  obtain ⟨len, hlen⟩ := exists_vector (length_beBytes 2 credentialId.length)
  have hvalue : ofBe len.toList = credentialId.length := by
    rw [← hlen, ofBe_beBytes, Nat.mod_eq_of_lt (by simpa using Nat.lt_succ_of_le hcid)]
  simp only [build, hcount, hlen] at hb
  have htotal : b.length = 55 + credentialId.length + pk.length := by
    simp only [← hb, List.length_append, List.length_cons, Vector.length_toList]
    omega
  -- each field starts where the one before it ends
  have h0 : b.drop 0 = rpIdHash.toList ++ _ := hb.symm
  have h32 := drop_of_append h0
  rw [Vector.length_toList, Nat.zero_add] at h32
  obtain ⟨hflags, h33⟩ := drop_eq_cons_iff.mp h32
  have h37 := drop_of_append h33
  rw [Vector.length_toList] at h37
  have h53 := drop_of_append h37
  rw [Vector.length_toList] at h53
  have h55 := drop_of_append h53
  rw [Vector.length_toList] at h55
  have hpk := drop_of_append h55
  simp only [parse, bind_eq_ok, ensure_eq_ok, exists_const, pure_eq_ok, toArray_eq_ok, slice_eq_ok,
    index_eq_ok]
  refine ⟨by omega, rpIdHash, ⟨_, ⟨by omega, by omega, by simp, h32 ▸ h0⟩, rfl⟩, flags, hflags,
    count, ⟨_, ⟨by omega, by omega, by simp, h37 ▸ h33⟩, rfl⟩, hflag, by omega, aaguid,
    ⟨_, ⟨by omega, by omega, by simp, h53 ▸ h37⟩, rfl⟩, len,
    ⟨_, ⟨by omega, by omega, by simp, h55 ▸ h53⟩, rfl⟩, ?_⟩
  rw [hvalue]
  refine ⟨by omega, credentialId, ⟨by omega, by omega, by omega, hpk ▸ h55⟩, pk,
    ⟨by omega, le_rfl, by omega, ?_⟩, ?_⟩
  · rw [List.drop_length, List.append_nil]
    exact hpk
  · rw [← hcount, ofBe_signCount]

theorem eq_build_of_parse {b : Bytes} {a : AuthData} (h : parse b = .ok a) :
    a.WellFormed ∧ b = a.build := by
  simp only [parse, bind_eq_ok, ensure_eq_ok, exists_const, pure_eq_ok, toArray_eq_ok, slice_eq_ok,
    index_eq_ok] at h
  obtain ⟨-, rpIdHash, ⟨_, ⟨-, -, -, h0⟩, rfl⟩, flags, hflags, count, ⟨_, ⟨-, -, -, h33⟩, rfl⟩,
    hflag, -, aaguid, ⟨_, ⟨-, -, -, h37⟩, rfl⟩, len, ⟨_, ⟨-, -, -, h53⟩, rfl⟩, -, credentialId,
    ⟨-, -, hcid, h55⟩, pk, ⟨-, -, -, hpk⟩, rfl⟩ := h
  have h32 : b.drop 32 = flags :: b.drop 33 := drop_eq_cons_iff.mpr ⟨hflags, rfl⟩
  rw [List.drop_length, List.append_nil] at hpk
  rw [Nat.add_sub_cancel_left] at hcid
  refine ⟨⟨hflag, ?_⟩, ?_⟩
  · have hlt := ofBe_toList_lt len
    change credentialId.length ≤ 65535
    omega
  · rw [build]
    simp only [beBytes_signCount, hcid, beBytes_toList]
    rw [← hpk, ← h55, ← h53, ← h37, ← h33, ← h32, ← h0]
    rfl

theorem parse_returns (b : Bytes) : Returns (parse b) := by
  refine .bind (.ensure _ _) fun _ h37 => ?_
  have h37 := Nat.not_lt.mp (ensure_eq_ok.mp h37)
  refine .bind (sliceArray_returns rfl (by omega)) fun _ _ => ?_
  refine .bind (index_returns (by omega)) fun flags _ => ?_
  refine .bind (sliceArray_returns rfl h37) fun _ _ => .bind (.ensure _ _) fun _ _ => ?_
  refine .bind (.ensure _ _) fun _ h55 => ?_
  have h55 := Nat.not_lt.mp (ensure_eq_ok.mp h55)
  refine .bind (sliceArray_returns rfl (by omega)) fun _ _ => ?_
  refine .bind (sliceArray_returns rfl h55) fun len _ => .bind (.ensure _ _) fun _ hend => ?_
  have hend := Nat.not_lt.mp (ensure_eq_ok.mp hend)
  refine .bind (slice_returns (by omega) hend) fun _ _ => ?_
  exact .bind (slice_returns hend le_rfl) fun _ _ => .ok _

/-- A byte string is parsed to a record exactly when it is that record written out, and one
that is no record is refused with an error. -/
theorem parse_partition (b : Bytes) :
    (∀ a, parse b = .ok a ↔ a.WellFormed ∧ b = a.build) ∧
      ((∃ a, parse b = .ok a) ∨ ∃ e, parse b = fail e) := by
  refine ⟨fun a => ⟨eq_build_of_parse, ?_⟩, ?_⟩
  · rintro ⟨h, rfl⟩
    exact parse_build h
  · rcases hparse : parse b with (e | _) | a
    · exact .inr ⟨e, rfl⟩
    · exact absurd hparse (parse_returns b)
    · exact .inl ⟨a, rfl⟩

end AuthData

end Attestation.Apple
