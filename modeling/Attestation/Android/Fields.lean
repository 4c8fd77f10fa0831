import Attestation.Android.Elements

/-! What is stored of the elements of an AuthorizationList. An INTEGER is read in its
shortest form only and an ENUMERATED in any form of at most four octets, each with
its two's complement value; of the elements read under one tag number the last
counts. -/

namespace Attestation.Android.KeyDescription

open Result Der

/-! ### Integers -/

theorem isNegative_eq (bs : Bytes) : isNegative bs = decide (intValue bs < 0) := by
  cases bs with
  | nil => rfl
  | cons b bs =>
    have h : (b &&& 0x80 != 0) = decide (intValue (b :: bs) < 0) := by
      rw [Bool.eq_iff_iff, bne_iff_ne, ne_eq, and_0x80_eq_zero, decide_eq_true_iff,
        ← intValue_nonneg_iff b bs, not_le]
    exact h

theorem signExtend_eq_ok {ε : Type} {n : ℕ} {bs buf : Bytes} :
    (signExtend n bs : Result ε Bytes) = .ok buf ↔
      bs.length ≤ n ∧ buf = List.replicate (n - bs.length) (signOctet bs) ++ bs := by
  have hsign : (if isNegative bs then (0xFF : UInt8) else 0) = signOctet bs := by
    rw [isNegative_eq, signOctet]
    by_cases h : 0 ≤ intValue bs
    · simp [h, not_lt.mpr h]
    · simp [h, not_le.mp h]
  rw [signExtend, hsign]
  by_cases h : bs.length ≤ n
  · rw [if_pos h, Except.ok.injEq, eq_comm]
    exact (and_iff_right h).symm
  · rw [if_neg h]
    simp only [h, false_and, reduceCtorEq]

/-- The signed value of a sign-extended buffer is that of the octets in it. -/
theorem fromBeBytes_signExtend (k : ℕ) (bs : Bytes) :
    fromBeBytes (List.replicate k (signOctet bs) ++ bs) = intValue bs := by
  rw [fromBeBytes, toInt_ofBe, intValue_replicate_append]

theorem decodeI32_eq_ok {r r' : Bytes} {n : ℤ} :
    decodeI32 r = .ok (n, r') ↔
      ∃ contents, MinimalInt contents ∧ contents.length ≤ 4 ∧
        r = tlv .integer contents ++ r' ∧ n = intValue contents := by
  simp only [decodeI32, bind_eq_ok, ensure_eq_ok, exists_const, pure_eq_ok, Prod.exists,
    Prod.mk.injEq, int_eq_ok, signExtend_eq_ok, not_lt, gt_iff_lt]
  constructor
  · rintro ⟨contents, _, ⟨hmin, -, rfl⟩, hlen, _, ⟨-, rfl⟩, rfl, rfl⟩
    exact ⟨contents, hmin, hlen, rfl, fromBeBytes_signExtend _ _⟩
  · rintro ⟨contents, hmin, hlen, rfl, rfl⟩
    exact ⟨contents, r', ⟨hmin, hlen.trans (by decide), rfl⟩, hlen, _, ⟨hlen, rfl⟩,
      fromBeBytes_signExtend _ _, rfl⟩

theorem ofBe_replicate_append (k : ℕ) (bs : Bytes) :
    ofBe (List.replicate k 0x00 ++ bs) = ofBe bs := by
  induction k with
  | zero => rfl
  | succ k ih => rw [List.replicate_succ, List.cons_append, ofBe_cons, ih]; simp

theorem decodeU64_eq_ok {r r' : Bytes} {n : UInt64} :
    decodeU64 r = .ok (n, r') ↔
      ∃ contents, MinimalInt contents ∧ contents.length ≤ 8 ∧
        r = tlv .integer contents ++ r' ∧ (n.toNat : ℤ) = intValue contents := by
  have hvalue : ∀ contents : Bytes, contents.length ≤ 8 → 0 ≤ intValue contents →
      ((UInt64.ofNat (ofBe (List.replicate (8 - contents.length) (signOctet contents) ++
        contents))).toNat : ℤ) = intValue contents := by
    intro contents hlen hsign
    have hlt : ofBe contents < 2 ^ 64 :=
      lt_of_lt_of_le (ofBe_lt contents)
        ((Nat.pow_le_pow_right (by norm_num) hlen).trans (by norm_num))
    rw [signOctet, if_pos hsign, ofBe_replicate_append, UInt64.toNat_ofNat', Nat.mod_eq_of_lt hlt,
      intValue_of_nonneg hsign]
  simp only [decodeU64, bind_eq_ok, ensure_eq_ok, exists_const, pure_eq_ok, Prod.exists,
    Prod.mk.injEq, int_eq_ok, signExtend_eq_ok, not_lt, gt_iff_lt, isNegative_eq,
    decide_eq_true_iff]
  constructor
  · rintro ⟨contents, _, ⟨hmin, -, rfl⟩, hsign, hlen, _, ⟨-, rfl⟩, rfl, rfl⟩
    exact ⟨contents, hmin, hlen, rfl, hvalue contents hlen hsign⟩
  · rintro ⟨contents, hmin, hlen, rfl, hn⟩
    have hsign : 0 ≤ intValue contents := hn ▸ Int.natCast_nonneg _
    refine ⟨contents, r', ⟨hmin, hlen.trans (by decide), rfl⟩, hsign, hlen, _, ⟨hlen, rfl⟩, ?_, rfl⟩
    rw [← UInt64.toNat_inj, ← Nat.cast_inj (R := ℤ), hn]
    exact hvalue contents hlen hsign

/-- An `i32` is read from the shortest form of an integer in its range. -/
theorem decodeI32_iff {r r' : Bytes} {n : ℤ} :
    decodeI32 r = .ok (n, r') ↔
      -2 ^ 31 ≤ n ∧ n < 2 ^ 31 ∧ r = tlv .integer (encodeInt n) ++ r' := by
  have hrange : (encodeInt n).length ≤ 4 ↔ -2 ^ 31 ≤ n ∧ n < 2 ^ 31 := by
    rw [length_encodeInt_le_iff (by norm_num)]
    omega
  rw [decodeI32_eq_ok, ← and_assoc, ← hrange]
  constructor
  · rintro ⟨contents, hmin, hlen, rfl, rfl⟩
    rw [← minimalInt_iff.mp hmin]
    exact ⟨hlen, rfl⟩
  · rintro ⟨hlen, rfl⟩
    exact ⟨_, minimalInt_encodeInt n, hlen, rfl, (intValue_encodeInt n).symm⟩

/-- A `u64` is read from the shortest form of an integer of at most 63 bits. -/
theorem decodeU64_iff {r r' : Bytes} {n : UInt64} :
    decodeU64 r = .ok (n, r') ↔
      n.toNat < 2 ^ 63 ∧ r = tlv .integer (encodeInt n.toNat) ++ r' := by
  have hrange : (encodeInt n.toNat).length ≤ 8 ↔ n.toNat < 2 ^ 63 := by
    rw [length_encodeInt_le_iff (by norm_num)]
    omega
  rw [decodeU64_eq_ok, ← hrange]
  constructor
  · rintro ⟨contents, hmin, hlen, rfl, hn⟩
    rw [hn, ← minimalInt_iff.mp hmin]
    exact ⟨hlen, rfl⟩
  · rintro ⟨hlen, rfl⟩
    exact ⟨_, minimalInt_encodeInt _, hlen, rfl, (intValue_encodeInt _).symm⟩

theorem decodeEnumerated_eq_ok {r r' : Bytes} {n : ℤ} :
    decodeEnumerated r = .ok (n, r') ↔
      ∃ contents, contents.length ≤ 4 ∧ r = tlv .enumerated contents ++ r' ∧
        n = intValue contents := by
  have hreadable : Tag.enumerated.Readable := by decide
  simp only [decodeEnumerated, bind_eq_ok, ensure_eq_ok, exists_const, pure_eq_ok, Prod.exists,
    Prod.mk.injEq, readValue_eq_ok, hreadable, true_and, signExtend_eq_ok, not_lt, gt_iff_lt]
  constructor
  · rintro ⟨contents, _, ⟨-, rfl⟩, hlen, _, ⟨-, rfl⟩, rfl, rfl⟩
    exact ⟨contents, hlen, rfl, fromBeBytes_signExtend _ _⟩
  · rintro ⟨contents, hlen, rfl, rfl⟩
    exact ⟨contents, r', ⟨hlen.trans (by decide), rfl⟩, hlen, _, ⟨hlen, rfl⟩,
      fromBeBytes_signExtend _ _, rfl⟩

/-! ### Stored elements -/

/-- The decoder takes the element for one of tag number `t`. -/
def Element.ReadAs (e : Element) (t : ℕ) : Prop := e.tagClass = 2 ∧ e.tag % 2 ^ 32 = t

instance (e : Element) (t : ℕ) : Decidable (e.ReadAs t) := inferInstanceAs (Decidable (_ ∧ _))

def decodedTags : List ℕ := [701, 704, 705, 706, 709]

/-- Everything that storing an element can do. -/
inductive Stores (out : AuthorizationList) (e : Element) : AuthorizationList → Prop
  | ignored (h : ∀ t ∈ decodedTags, ¬ e.ReadAs t) : Stores out e out
  | creationDateTime {n : UInt64} {rest : Bytes} (h : e.ReadAs 701)
      (hn : decodeU64 e.inner = .ok (n, rest)) : Stores out e { out with creationDateTime := some n }
  | rootOfTrust {rot : RootOfTrust} {rest : Bytes} (h : e.ReadAs 704)
      (hrot : decodeRootOfTrust e.inner = .ok (rot, rest)) :
      Stores out e { out with rootOfTrust := some rot }
  | osVersion {n : ℤ} {rest : Bytes} (h : e.ReadAs 705) (hn : decodeI32 e.inner = .ok (n, rest)) :
      Stores out e { out with osVersion := some (UInt32.ofInt n) }
  | osPatchLevel {n : ℤ} {rest : Bytes} (h : e.ReadAs 706) (hn : decodeI32 e.inner = .ok (n, rest)) :
      Stores out e { out with osPatchLevel := some (UInt32.ofInt n) }
  | attestationApplicationId {v rest : Bytes} (h : e.ReadAs 709)
      (hv : octetString e.inner = .ok (v, rest)) :
      Stores out e { out with attestationApplicationId := some v }

theorem Element.store_eq_ok {out out' : AuthorizationList} {e : Element}
    (hinner : e.inner.length ≤ maxLength) : e.store out = .ok out' ↔ Stores out e out' := by
  have hreader : sliceReader e.inner = .ok e.inner := sliceReader_eq_ok.mpr ⟨hinner, rfl⟩
  have hnat : (UInt32.ofNat e.tag).toNat = e.tag % 2 ^ 32 := UInt32.toNat_ofNat'
  constructor
  · intro h
    rw [Element.store] at h
    split_ifs at h with hclass
    · rw [storeElement, hnat, bind_eq_ok] at h
      obtain ⟨ir, hir, h⟩ := h
      obtain rfl := Except.ok.inj (hreader.symm.trans hir)
      split at h
      · simp only [bind_eq_ok, mapErr_eq_ok, pure_eq_ok, Prod.exists] at h
        obtain ⟨n, rest, hn, rfl⟩ := h
        exact .creationDateTime ⟨hclass, ‹_›⟩ hn
      · simp only [bind_eq_ok, pure_eq_ok, Prod.exists] at h
        obtain ⟨rot, rest, hrot, rfl⟩ := h
        exact .rootOfTrust ⟨hclass, ‹_›⟩ hrot
      · simp only [bind_eq_ok, mapErr_eq_ok, pure_eq_ok, Prod.exists] at h
        obtain ⟨n, rest, hn, rfl⟩ := h
        exact .osVersion ⟨hclass, ‹_›⟩ hn
      · simp only [bind_eq_ok, mapErr_eq_ok, pure_eq_ok, Prod.exists] at h
        obtain ⟨n, rest, hn, rfl⟩ := h
        exact .osPatchLevel ⟨hclass, ‹_›⟩ hn
      · simp only [bind_eq_ok, pure_eq_ok, Prod.exists] at h
        obtain ⟨v, rest, hv, rfl⟩ := h
        exact .attestationApplicationId ⟨hclass, ‹_›⟩ hv
      · obtain rfl := pure_eq_ok.mp h
        refine .ignored ?_
        simp_all [decodedTags, Element.ReadAs]
    · obtain rfl := pure_eq_ok.mp h
      exact .ignored fun t _ hread => hclass hread.1
  · intro h
    rw [Element.store]
    cases h with
    | ignored h =>
      split_ifs with hclass
      · rw [storeElement, hnat, bind_eq_ok]
        refine ⟨_, hreader, ?_⟩
        split
        · exact absurd ⟨hclass, ‹_›⟩ (h 701 (by decide))
        · exact absurd ⟨hclass, ‹_›⟩ (h 704 (by decide))
        · exact absurd ⟨hclass, ‹_›⟩ (h 705 (by decide))
        · exact absurd ⟨hclass, ‹_›⟩ (h 706 (by decide))
        · exact absurd ⟨hclass, ‹_›⟩ (h 709 (by decide))
        · rfl
      · rfl
    | creationDateTime h hn =>
      rw [if_pos h.1, storeElement, hnat, h.2, hreader]
      simp only [Except.bind, bind, hn, mapErr]
      rfl
    | rootOfTrust h hrot =>
      rw [if_pos h.1, storeElement, hnat, h.2, hreader]
      simp only [Except.bind, bind, hrot]
      rfl
    | osVersion h hn =>
      rw [if_pos h.1, storeElement, hnat, h.2, hreader]
      simp only [Except.bind, bind, hn, mapErr]
      rfl
    | osPatchLevel h hn =>
      rw [if_pos h.1, storeElement, hnat, h.2, hreader]
      simp only [Except.bind, bind, hn, mapErr]
      rfl
    | attestationApplicationId h hv =>
      rw [if_pos h.1, storeElement, hnat, h.2, hreader]
      simp only [Except.bind, bind, hv]
      rfl

/-! ### Fields -/

theorem Element.ReadAs.unique {e : Element} {t t' : ℕ} (h : e.ReadAs t) (h' : e.ReadAs t') :
    t = t' := h.2.symm.trans h'.2

/-- A field of an AuthorizationList: its tag number, the decoder of its contents, and
what storing an element does to it. -/
structure Field (α : Type) where
  tag : ℕ
  decode : Bytes → Result Der.Error (α × Bytes)
  get : AuthorizationList → Option α
  get_empty : get {} = none
  stores : ∀ {out out' : AuthorizationList} {e : Element}, Stores out e out' →
    (e.ReadAs tag → ∃ v rest, decode e.inner = .ok (v, rest) ∧ get out' = some v) ∧
      (¬ e.ReadAs tag → get out' = get out)

/-- The cast keeps the residue. -/
theorem toNat_ofInt (n : ℤ) : ((UInt32.ofInt n).toNat : ℤ) = n % 2 ^ 32 := by
  rw [UInt32.ofInt, UInt32.toNat_ofNat']
  omega

/-- `n as u32` of a decoded `i32`. -/
def decodeU32 (r : Bytes) : Result Der.Error (UInt32 × Bytes) := do
  let (n, r) ← decodeI32 r
  pure (UInt32.ofInt n, r)

theorem decodeU32_eq_ok {r r' : Bytes} {v : UInt32} :
    decodeU32 r = .ok (v, r') ↔ ∃ n, decodeI32 r = .ok (n, r') ∧ v = UInt32.ofInt n := by
  simp only [decodeU32, bind_eq_ok, pure_eq_ok, Prod.exists, Prod.mk.injEq]
  constructor
  · rintro ⟨n, _, hn, rfl, rfl⟩
    exact ⟨n, hn, rfl⟩
  · rintro ⟨n, hn, rfl⟩
    exact ⟨n, r', hn, rfl, rfl⟩

namespace Field

def creationDateTime : Field UInt64 where
  tag := 701
  decode := decodeU64
  get := AuthorizationList.creationDateTime
  get_empty := rfl
  stores h := by
    cases h with
    | ignored h => exact ⟨fun hread => absurd hread (h 701 (by decide)), fun _ => rfl⟩
    | creationDateTime h hn => exact ⟨fun _ => ⟨_, _, hn, rfl⟩, fun hnot => absurd h hnot⟩
    | _ h => exact ⟨fun hread => absurd (h.unique hread) (by decide), fun _ => rfl⟩

def rootOfTrust : Field RootOfTrust where
  tag := 704
  decode := decodeRootOfTrust
  get := AuthorizationList.rootOfTrust
  get_empty := rfl
  stores h := by
    cases h with
    | ignored h => exact ⟨fun hread => absurd hread (h 704 (by decide)), fun _ => rfl⟩
    | rootOfTrust h hrot => exact ⟨fun _ => ⟨_, _, hrot, rfl⟩, fun hnot => absurd h hnot⟩
    | _ h => exact ⟨fun hread => absurd (h.unique hread) (by decide), fun _ => rfl⟩

def osVersion : Field UInt32 where
  tag := 705
  decode := decodeU32
  get := AuthorizationList.osVersion
  get_empty := rfl
  stores h := by
    cases h with
    | ignored h => exact ⟨fun hread => absurd hread (h 705 (by decide)), fun _ => rfl⟩
    | osVersion h hn =>
      exact ⟨fun _ => ⟨_, _, decodeU32_eq_ok.mpr ⟨_, hn, rfl⟩, rfl⟩, fun hnot => absurd h hnot⟩
    | _ h => exact ⟨fun hread => absurd (h.unique hread) (by decide), fun _ => rfl⟩

def osPatchLevel : Field UInt32 where
  tag := 706
  decode := decodeU32
  get := AuthorizationList.osPatchLevel
  get_empty := rfl
  stores h := by
    cases h with
    | ignored h => exact ⟨fun hread => absurd hread (h 706 (by decide)), fun _ => rfl⟩
    | osPatchLevel h hn =>
      exact ⟨fun _ => ⟨_, _, decodeU32_eq_ok.mpr ⟨_, hn, rfl⟩, rfl⟩, fun hnot => absurd h hnot⟩
    | _ h => exact ⟨fun hread => absurd (h.unique hread) (by decide), fun _ => rfl⟩

def attestationApplicationId : Field Bytes where
  tag := 709
  decode := octetString
  get := AuthorizationList.attestationApplicationId
  get_empty := rfl
  stores h := by
    cases h with
    | ignored h => exact ⟨fun hread => absurd hread (h 709 (by decide)), fun _ => rfl⟩
    | attestationApplicationId h hv => exact ⟨fun _ => ⟨_, _, hv, rfl⟩, fun hnot => absurd h hnot⟩
    | _ h => exact ⟨fun hread => absurd (h.unique hread) (by decide), fun _ => rfl⟩

end Field

/-- The last of the elements read under a tag number. -/
def lastRead (t : ℕ) (els : List Element) : Option Element :=
  els.reverse.find? fun e => e.ReadAs t

theorem lastRead_append_singleton (t : ℕ) (els : List Element) (e : Element) :
    lastRead t (els ++ [e]) = if e.ReadAs t then some e else lastRead t els := by
  rw [lastRead, List.reverse_append, List.reverse_singleton, List.singleton_append,
    List.find?_cons]
  by_cases h : e.ReadAs t <;> simp [h, lastRead]

theorem readAs_of_lastRead {t : ℕ} {els : List Element} {e : Element}
    (h : lastRead t els = some e) : e ∈ els ∧ e.ReadAs t := by
  have hread := List.find?_some h
  exact ⟨List.mem_reverse.mp (List.mem_of_find?_eq_some h), of_decide_eq_true hread⟩

theorem not_readAs_of_lastRead {t : ℕ} {els : List Element} (h : lastRead t els = none) :
    ∀ e ∈ els, ¬ e.ReadAs t := by
  intro e he hread
  exact List.find?_eq_none.mp h e (List.mem_reverse.mpr he) (decide_eq_true hread)

/-- A field holds what the last element read under its tag number carries. -/
theorem Field.get_of_foldlM {α : Type} (f : Field α) {els : List Element} {al : AuthorizationList}
    (hels : ∀ e ∈ els, e.inner.length ≤ maxLength) (h : els.foldlM Element.store {} = .ok al) :
    (lastRead f.tag els = none ∧ f.get al = none) ∨
      ∃ e v rest, lastRead f.tag els = some e ∧ f.decode e.inner = .ok (v, rest) ∧
        f.get al = some v := by
  induction els using List.reverseRecOn generalizing al with
  | nil =>
    obtain rfl := pure_eq_ok.mp h
    exact .inl ⟨rfl, f.get_empty⟩
  | append_singleton els e ih =>
    rw [List.foldlM_append, bind_eq_ok] at h
    obtain ⟨out, hout, h⟩ := h
    rw [List.foldlM_cons, bind_eq_ok] at h
    obtain ⟨out', hstore, h⟩ := h
    obtain rfl := pure_eq_ok.mp h
    obtain ⟨hread, hother⟩ := f.stores ((Element.store_eq_ok (hels e (by simp))).mp hstore)
    rw [lastRead_append_singleton]
    by_cases he : e.ReadAs f.tag
    · obtain ⟨v, rest, hv, hget⟩ := hread he
      exact .inr ⟨e, v, rest, if_pos he, hv, hget⟩
    · rw [if_neg he, hother he]
      exact ih (fun e he => hels e (by simp [he])) hout

/-- Every element read under the tag number of a field decodes. -/
theorem Field.decode_of_foldlM {α : Type} (f : Field α) {els : List Element}
    {out al : AuthorizationList} (hels : ∀ e ∈ els, e.inner.length ≤ maxLength)
    (h : els.foldlM Element.store out = .ok al) :
    ∀ e ∈ els, e.ReadAs f.tag → ∃ v rest, f.decode e.inner = .ok (v, rest) := by
  induction els generalizing out with
  | nil => simp
  | cons e els ih =>
    rw [List.foldlM_cons, bind_eq_ok] at h
    obtain ⟨out', hstore, hfold⟩ := h
    refine List.forall_mem_cons.mpr ⟨fun hread => ?_, ih (fun e he => hels e (by simp [he])) hfold⟩
    obtain ⟨v, rest, hv, -⟩ :=
      (f.stores ((Element.store_eq_ok (hels e (by simp))).mp hstore)).1 hread
    exact ⟨v, rest, hv⟩

/-- The contents of an element are part of the body. -/
theorem Elements.inner_length_le {body : Bytes} {els : List Element} (h : Elements body els) :
    ∀ e ∈ els, e.inner.length ≤ body.length := by
  induction h with
  | nil => simp
  | cons hheader hlen _ ih =>
    obtain ⟨ident, len, rfl, -⟩ := hheader
    refine List.forall_mem_cons.mpr ⟨?_, fun e he => (ih e he).trans ?_⟩
    · simp only [List.length_append]
      omega
    · simp only [List.length_append]
      omega

end Attestation.Android.KeyDescription
