import Attestation.Apple.CborItems
import Attestation.Apple.CborMaps
import Attestation.Base.Utf8
import Attestation.IosDemo.AppAttestCBOR

/-! The phone's reader against CBOR items. Where an item starts at the reader's position and
the reader gets past it, it has read what the item stands for and stops where the item ends.
The depth of nested calls it has room for is never used up. -/

namespace Attestation.IosDemo

open Result Cbor

namespace CBORReader

/-- What the reader has left. -/
def rest (r : CBORReader) : Bytes := r.bytes.drop r.pos

variable {r r' : CBORReader}

/-! ### Heads -/

theorem rest_of_readByte {b : UInt8} (h : r.readByte = .ok (b, r')) : r.rest = b :: r'.rest := by
  simp only [readByte, bind_eq_ok, index_eq_ok, pure_eq_ok, Prod.mk.injEq] at h
  obtain ⟨_, -, _, hbyte, rfl, rfl⟩ := h
  exact drop_eq_cons_iff.mpr ⟨hbyte, rfl⟩

theorem shiftLeft_or_toNat (v : ℕ) (b : UInt8) : v <<< 8 ||| b.toNat = v * 256 + b.toNat := by
  rw [← Nat.shiftLeft_add_eq_or_of_lt (i := 8) b.toNat_lt, Nat.shiftLeft_eq]

theorem rest_of_readBigEndian {count v n : ℕ} (h : readBigEndian count v r = .ok (n, r')) :
    ∃ argument, argument.length = count ∧ r.rest = argument ++ r'.rest ∧
      n = v * 256 ^ count + ofBe argument := by
  induction count generalizing v r with
  | zero =>
    obtain ⟨rfl, rfl⟩ := Prod.mk.inj (pure_eq_ok.mp h)
    exact ⟨[], rfl, rfl, by simp [ofBe]⟩
  | succ count ih =>
    simp only [readBigEndian, bind_eq_ok, Prod.exists] at h
    obtain ⟨b, r₁, hb, h⟩ := h
    obtain ⟨argument, hlength, hrest, hn⟩ := ih h
    refine ⟨b :: argument, by simp [hlength], ?_, ?_⟩
    · rw [rest_of_readByte hb, hrest, List.cons_append]
    · rw [hn, shiftLeft_or_toNat, ofBe_cons, hlength, pow_succ]
      ring

/-- The argument is the low bits themselves, or in one, two, four or eight bytes. -/
theorem rest_of_readLength {info : UInt8} {n : ℕ} (h : r.readLength info = .ok (n, r')) :
    (info.toNat < 24 ∧ n = info.toNat ∧ r' = r) ∨ ∃ k ≤ 3, info.toNat = 24 + k ∧
      ∃ argument, argument.length = 2 ^ k ∧ r.rest = argument ++ r'.rest ∧ n = ofBe argument := by
  unfold readLength at h
  split_ifs at h with h23 h24 h25 h26 h27
  · obtain ⟨rfl, rfl⟩ := Prod.mk.inj (pure_eq_ok.mp h)
    have hle : info.toNat ≤ 23 := UInt8.le_iff_toNat_le.mp h23
    exact .inl ⟨by omega, rfl, rfl⟩
  · simp only [bind_eq_ok, Prod.exists, pure_eq_ok, Prod.mk.injEq] at h
    obtain ⟨b, r₁, hb, rfl, rfl⟩ := h
    exact .inr ⟨0, by norm_num, by rw [h24]; rfl, [b], rfl, rest_of_readByte hb, by simp [ofBe]⟩
  · simp only [bind_eq_ok, Prod.exists, pure_eq_ok, Prod.mk.injEq] at h
    obtain ⟨a, r₁, ha, b, r₂, hb, rfl, rfl⟩ := h
    refine .inr ⟨1, by norm_num, by rw [h25]; rfl, [a, b], rfl, ?_, ?_⟩
    · rw [rest_of_readByte ha, rest_of_readByte hb]
      rfl
    · rw [shiftLeft_or_toNat]
      simp [ofBe, Nat.mul_comm]
  · obtain ⟨argument, hlength, hrest, hn⟩ := rest_of_readBigEndian h
    exact .inr ⟨2, by norm_num, by rw [h26]; rfl, argument, hlength, hrest, by rw [hn]; omega⟩
  · obtain ⟨argument, hlength, hrest, hn⟩ := rest_of_readBigEndian h
    exact .inr ⟨3, by norm_num, by rw [h27]; rfl, argument, hlength, hrest, by rw [hn]; omega⟩
  · exact absurd h fail_ne_ok

variable {v : Value} {text tail : Bytes}

/-- Behind the head of an item the reader has the item's contents. -/
theorem contents_of_readLength {b major : UInt8} {n : ℕ} {r₁ r₂ : CBORReader}
    (hitem : Item v text) (hrest : r.rest = text ++ tail) (hb : r.readByte = .ok (b, r₁))
    (hn : r₁.readLength (b &&& 0x1F) = .ok (n, r₂)) (hmajor : b >>> 5 = major)
    (hknown : major.toNat < 6) : Contents tail major.toNat n v r₂.rest := by
  subst hmajor
  have hlength := rest_of_readLength hn
  have hfirst := rest_of_readByte hb
  rcases hitem.cases_head tail with
    ⟨c, body, rfl, hopen⟩ | ⟨major, m, head, body, hlt, hhead, htext, hc⟩
  · rw [hfirst, List.cons_append, List.cons.injEq] at hrest
    obtain ⟨rfl, -⟩ := hrest
    rcases hopen with hopen | hopen
    · omega
    · rcases hlength with ⟨hlow, -⟩ | ⟨k, hk, hlow, -⟩ <;> omega
  · rw [hfirst, htext] at hrest
    cases hhead with
    | short hm =>
      obtain ⟨rfl, htail⟩ := List.cons.inj hrest
      obtain ⟨hhigh, hlow⟩ := @toNat_shiftRight_ofNat major m (by omega) (by omega)
      rw [hhigh]
      rw [hlow] at hlength
      rcases hlength with ⟨-, rfl, rfl⟩ | ⟨k, -, hk, -⟩
      · rwa [htail]
      · omega
    | long hk hargument =>
      rename_i k argument
      obtain ⟨rfl, htail⟩ := List.cons.inj hrest
      obtain ⟨hhigh, hlow⟩ := @toNat_shiftRight_ofNat major (24 + k) (by omega) (by omega)
      rw [hhigh]
      rw [hlow] at hlength
      rcases hlength with ⟨hlt24, -⟩ | ⟨k', -, hk', argument', hargument', hbytes, rfl⟩
      · omega
      · obtain rfl : k = k' := by omega
        obtain ⟨rfl, hbody⟩ := List.append_inj (hbytes.symm.trans htail)
          (hargument'.trans hargument.symm)
        rwa [hbody]

/-! ### Items -/

theorem toInt_eq_ok {n m : ℕ} : toInt n = .ok m ↔ n < 2 ^ 63 ∧ m = n := by
  unfold toInt
  split_ifs with h
  · rw [Except.ok.injEq, eq_comm]
    exact (and_iff_right h).symm
  · exact iff_of_false (fun h => nomatch h) (fun h' => h h'.1)

theorem intAdd_eq_ok {a b m : ℕ} : intAdd a b = .ok m ↔ a + b < 2 ^ 63 ∧ m = a + b :=
  toInt_eq_ok

/-- A string that is read is what the head announces. -/
theorem rest_of_readString {major : UInt8} {bs : Bytes} (h : r.readString major = .ok (bs, r')) :
    ∃ b r₁ r₂, r.readByte = .ok (b, r₁) ∧ b >>> 5 = major ∧
      r₁.readLength (b &&& 0x1F) = .ok (bs.length, r₂) ∧ r₂.rest = bs ++ r'.rest := by
  simp only [readString, bind_eq_ok, Prod.exists, ensure_eq_ok, exists_const, toInt_eq_ok,
    intAdd_eq_ok, slice_eq_ok, pure_eq_ok, Prod.mk.injEq] at h
  obtain ⟨b, r₁, hb, hmajor, n, r₂, hn, m, ⟨-, rfl⟩, stop, ⟨-, rfl⟩, -, slice, ⟨-, -, hlen, hdrop⟩,
    rfl, rfl⟩ := h
  rw [Nat.add_sub_cancel_left] at hlen
  exact ⟨b, r₁, r₂, hb, hmajor, hlen ▸ hn, hdrop⟩

theorem contents_of_readString {major : UInt8} {bs : Bytes} (hitem : Item v text)
    (hrest : r.rest = text ++ tail) (h : r.readString major = .ok (bs, r'))
    (hknown : major.toNat < 6) : Contents tail major.toNat bs.length v (bs ++ r'.rest) := by
  obtain ⟨b, r₁, r₂, hb, hmajor, hn, hstring⟩ := rest_of_readString h
  exact hstring ▸ contents_of_readLength hitem hrest hb hn hmajor hknown

theorem readBytes_item {bs : Bytes} (hitem : Item v text) (hrest : r.rest = text ++ tail)
    (h : r.readBytes = .ok (bs, r')) : v = .bytes bs ∧ r'.rest = tail := by
  obtain ⟨bs', rfl, hlen, hstring⟩ := contents_of_readString hitem hrest h (by decide)
  obtain ⟨rfl, htail⟩ := List.append_inj hstring hlen
  exact ⟨rfl, htail⟩

theorem readText_item {s : String} (hitem : Item v text) (hrest : r.rest = text ++ tail)
    (h : r.readText = .ok (s, r')) : v = .text s ∧ r'.rest = tail := by
  simp only [readText, bind_eq_ok, Prod.exists, pure_eq_ok, Prod.mk.injEq] at h
  obtain ⟨bs, _, hbs, rfl, rfl⟩ := h
  obtain ⟨s, rfl, hlen, hstring⟩ := contents_of_readString hitem hrest hbs (by decide)
  obtain ⟨rfl, htail⟩ := List.append_inj hstring hlen
  rw [fromUTF8?_eq_some.mpr rfl]
  exact ⟨rfl, htail⟩

theorem readInt_item {i : ℤ} (hitem : Item v text) (hrest : r.rest = text ++ tail)
    (h : r.readInt = .ok (i, r')) :
    v.asInteger.bind Apple.toI64 = some i ∧ r'.rest = tail := by
  simp only [readInt, bind_eq_ok, Prod.exists, toInt_eq_ok] at h
  obtain ⟨b, r₁, hb, n, r₂, hn, _, ⟨hlt, rfl⟩, h⟩ := h
  split_ifs at h with h0 h1
  · obtain ⟨rfl, htail⟩ := contents_of_readLength hitem hrest hb hn h0 (by decide)
    obtain ⟨rfl, rfl⟩ := Prod.mk.inj (pure_eq_ok.mp h)
    exact ⟨Apple.asI64_eq_some.mpr ⟨rfl, by omega, by omega⟩, htail⟩
  · obtain ⟨rfl, htail⟩ := contents_of_readLength hitem hrest hb hn h1 (by decide)
    obtain ⟨rfl, rfl⟩ := Prod.mk.inj (pure_eq_ok.mp h)
    exact ⟨Apple.asI64_eq_some.mpr ⟨rfl, by omega, by omega⟩, htail⟩
  · exact absurd h fail_ne_ok

theorem readMapHeader_item {n : ℕ} (hitem : Item v text) (hrest : r.rest = text ++ tail)
    (h : r.readMapHeader = .ok (n, r')) : ∃ es body, v = .map es ∧ n = es.length ∧
      Sequence (Pair Item) es body ∧ r'.rest = body ++ tail := by
  simp only [readMapHeader, bind_eq_ok, Prod.exists, ensure_eq_ok, exists_const, toInt_eq_ok,
    pure_eq_ok, Prod.mk.injEq] at h
  obtain ⟨b, r₁, hb, hmajor, n, r₂, hn, _, ⟨-, rfl⟩, rfl, rfl⟩ := h
  exact contents_of_readLength hitem hrest hb hn hmajor (by decide)

/-! ### Loops -/

/-- A loop over the values of a text goes in step with a fold over the values. -/
theorem times_sequence {σ α β : Type} {body : σ → Result CBORError σ} {T : α → Bytes → Prop}
    (left : σ → Bytes) (R : σ → β → Prop) (g : β → α → β)
    (hstep : ∀ {x text tail s s' b}, T x text → left s = text ++ tail → R s b → body s = .ok s' →
      left s' = tail ∧ R s' (g b x))
    {xs : List α} {text tail : Bytes} (hxs : Sequence T xs text) {s s' : σ} {b : β}
    (hleft : left s = text ++ tail) (hR : R s b) (h : times body xs.length s = .ok s') :
    left s' = tail ∧ R s' (xs.foldl g b) := by
  induction hxs generalizing s b with
  | nil =>
    obtain rfl := pure_eq_ok.mp h
    exact ⟨hleft, hR⟩
  | cons hx hxs ih =>
    obtain ⟨s₁, hs₁, h⟩ := bind_eq_ok.mp h
    rw [List.append_assoc] at hleft
    obtain ⟨hleft₁, hR₁⟩ := hstep hx hleft hR hs₁
    exact ih hleft₁ hR₁ h

theorem rest_of_times {α : Type} {skip : CBORReader → Result CBORError CBORReader}
    {T : α → Bytes → Prop}
    (hskip : ∀ {x text tail r r'}, T x text → r.rest = text ++ tail → skip r = .ok r' →
      r'.rest = tail)
    {xs : List α} (hxs : Sequence T xs text) (hrest : r.rest = text ++ tail)
    (h : times skip xs.length r = .ok r') : r'.rest = tail :=
  (times_sequence (b := ()) CBORReader.rest (fun _ _ => True) (fun _ _ => ())
    (fun hx hleft _ hs => ⟨hskip hx hleft hs, trivial⟩) hxs hrest trivial h).1

/-- A value that is skipped is the item that starts there. -/
theorem skipValue_item {depth : ℕ} (hitem : Item v text) (hrest : r.rest = text ++ tail)
    (h : r.skipValue depth = .ok r') : r'.rest = tail := by
  induction depth generalizing r r' v text tail with
  | zero => cases h
  | succ depth ih =>
    simp only [skipValue, bind_eq_ok, Prod.exists] at h
    obtain ⟨b, r₁, hb, h⟩ := h
    split_ifs at h with h01 h23 h4 h5
    · simp only [bind_eq_ok, Prod.exists, pure_eq_ok] at h
      obtain ⟨n, r₂, hn, rfl⟩ := h
      rcases h01 with hmajor | hmajor
      · exact (contents_of_readLength hitem hrest hb hn hmajor (by decide)).2
      · exact (contents_of_readLength hitem hrest hb hn hmajor (by decide)).2
    · simp only [bind_eq_ok, Prod.exists, toInt_eq_ok, intAdd_eq_ok, pure_eq_ok] at h
      obtain ⟨n, r₂, hn, _, ⟨-, rfl⟩, _, ⟨-, rfl⟩, rfl⟩ := h
      rcases h23 with hmajor | hmajor
      all_goals
        obtain ⟨_, -, rfl, hrest₂⟩ :=
          contents_of_readLength hitem hrest hb hn hmajor (by decide)
        exact drop_of_append hrest₂
    · simp only [bind_eq_ok, Prod.exists, toInt_eq_ok] at h
      obtain ⟨n, r₂, hn, _, ⟨-, rfl⟩, h⟩ := h
      obtain ⟨vs, body, -, rfl, hbody, hrest₂⟩ :=
        contents_of_readLength hitem hrest hb hn h4 (by decide)
      exact rest_of_times ih hbody hrest₂ h
    · simp only [bind_eq_ok, Prod.exists, toInt_eq_ok] at h
      obtain ⟨n, r₂, hn, _, ⟨-, rfl⟩, h⟩ := h
      obtain ⟨es, body, -, rfl, hbody, hrest₂⟩ :=
        contents_of_readLength hitem hrest hb hn h5 (by decide)
      refine rest_of_times (fun hx hleft hs => ?_) hbody hrest₂ h
      obtain ⟨hkey, hvalue⟩ := hx
      obtain ⟨r₃, hskip, hs⟩ := bind_eq_ok.mp hs
      rw [List.append_assoc] at hleft
      exact ih hvalue (ih hkey hleft hskip) hs
    · exact absurd h fail_ne_ok

/-! ### Depth -/

theorem length_le_of_readLength {info : UInt8} {n : ℕ} (h : r.readLength info = .ok (n, r')) :
    r'.rest.length ≤ r.rest.length := by
  rcases rest_of_readLength h with ⟨-, -, rfl⟩ | ⟨_, -, -, argument, -, hrest, -⟩
  · rfl
  · rw [hrest, List.length_append]
    exact Nat.le_add_left _ _

/-- Two loops whose bodies agree on what the loops meet. -/
theorem times_congr {σ : Type} {f g : σ → Result CBORError σ} {P : σ → Prop}
    (hstep : ∀ s s', P s → f s = .ok s' → P s') (heq : ∀ s, P s → f s = g s) {n : ℕ} {s : σ}
    (hs : P s) : times f n s = times g n s := by
  induction n generalizing s with
  | zero => rfl
  | succ n ih =>
    rw [times, times, ← heq s hs]
    exact bind_congr_ok fun s' hs' => ih (hstep s s' hs hs')

theorem times_invariant {σ : Type} {f : σ → Result CBORError σ} {P : σ → Prop}
    (hstep : ∀ s s', P s → f s = .ok s' → P s') {n : ℕ} {s s' : σ} (hs : P s)
    (h : times f n s = .ok s') : P s' := by
  induction n generalizing s with
  | zero => exact pure_eq_ok.mp h ▸ hs
  | succ n ih =>
    obtain ⟨s₁, hs₁, h⟩ := bind_eq_ok.mp h
    exact ih (hstep s s₁ hs hs₁) h

theorem length_le_of_skipValue {depth m : ℕ} (hm : r.rest.length ≤ m)
    (h : r.skipValue depth = .ok r') : r'.rest.length ≤ m := by
  induction depth generalizing r r' with
  | zero => cases h
  | succ depth ih =>
    simp only [skipValue, bind_eq_ok, Prod.exists] at h
    obtain ⟨b, r₁, hb, h⟩ := h
    have hbyte := congrArg List.length (rest_of_readByte hb)
    rw [List.length_cons] at hbyte
    have hlength : ∀ {n r₂}, r₁.readLength (b &&& 0x1F) = .ok (n, r₂) → r₂.rest.length ≤ m :=
      fun hn => (length_le_of_readLength hn).trans (by omega)
    split_ifs at h with h01 h23 h4 h5
    · simp only [bind_eq_ok, Prod.exists, pure_eq_ok] at h
      obtain ⟨n, r₂, hn, rfl⟩ := h
      exact hlength hn
    · simp only [bind_eq_ok, Prod.exists, toInt_eq_ok, intAdd_eq_ok, pure_eq_ok] at h
      obtain ⟨_, r₂, hn, n, -, pos, ⟨-, hpos⟩, rfl⟩ := h
      have hdrop : (r₂.bytes.drop pos).length ≤ (r₂.bytes.drop r₂.pos).length := by
        simp only [List.length_drop]
        omega
      exact hdrop.trans (hlength hn)
    · simp only [bind_eq_ok, Prod.exists, toInt_eq_ok] at h
      obtain ⟨_, r₂, hn, n, -, h⟩ := h
      exact times_invariant (P := fun s => s.rest.length ≤ m) (fun _ _ hs h => ih hs h)
        (hlength hn) h
    · simp only [bind_eq_ok, Prod.exists, toInt_eq_ok] at h
      obtain ⟨_, r₂, hn, n, -, h⟩ := h
      refine times_invariant (P := fun s => s.rest.length ≤ m) (fun _ _ hs h => ?_) (hlength hn) h
      obtain ⟨r₃, hkey, hvalue⟩ := bind_eq_ok.mp h
      exact ih (ih hs hkey) hvalue
    · exact absurd h fail_ne_ok

/-- With room for a level for each byte that is left, more room makes no difference. -/
theorem skipValue_depth {depth depth' : ℕ} (h : r.rest.length < depth)
    (h' : r.rest.length < depth') : r.skipValue depth = r.skipValue depth' := by
  induction depth generalizing r depth' with
  | zero => exact absurd h (Nat.not_lt_zero _)
  | succ depth ih =>
    obtain ⟨depth', rfl⟩ := Nat.exists_eq_add_one_of_ne_zero (Nat.ne_zero_of_lt h')
    rw [skipValue, skipValue]
    refine bind_congr_ok fun ⟨b, r₁⟩ hb => ?_
    have hbyte := congrArg List.length (rest_of_readByte hb)
    rw [List.length_cons] at hbyte
    have hroom : ∀ {n r₂}, r₁.readLength (b &&& 0x1F) = .ok (n, r₂) →
        r₂.rest.length < min depth depth' := fun hn =>
      (length_le_of_readLength hn).trans_lt (by omega)
    have hskip : ∀ s s' : CBORReader, s.rest.length < min depth depth' →
        s.skipValue depth = .ok s' → s'.rest.length < min depth depth' := fun _ _ hs h =>
      (length_le_of_skipValue le_rfl h).trans_lt hs
    have hagree : ∀ s : CBORReader, s.rest.length < min depth depth' →
        s.skipValue depth = s.skipValue depth' := fun s hs =>
      ih (hs.trans_le (min_le_left _ _)) (hs.trans_le (min_le_right _ _))
    dsimp only
    split_ifs
    · rfl
    · rfl
    · refine bind_congr_ok fun ⟨n, r₂⟩ hn => bind_congr_ok fun m _ => ?_
      exact times_congr hskip hagree (hroom hn)
    · refine bind_congr_ok fun ⟨n, r₂⟩ hn => bind_congr_ok fun m _ => ?_
      refine times_congr (P := fun s => s.rest.length < min depth depth') (fun s s' hs h => ?_)
        (fun s hs => ?_) (hroom hn)
      · obtain ⟨s₁, hkey, hvalue⟩ := bind_eq_ok.mp h
        exact hskip s₁ s' (hskip s s₁ hs hkey) hvalue
      · rw [← hagree s hs]
        exact bind_congr_ok fun s₁ hs₁ => hagree s₁ (hskip s s₁ hs hs₁)
    · rfl

/-- A value is skipped as by a reader without a limit to its depth. -/
theorem skip_eq {depth : ℕ} (h : r.bytes.length < depth) : r.skip = r.skipValue depth := by
  have hle : r.rest.length ≤ r.bytes.length := by
    rw [rest, List.length_drop]
    exact Nat.sub_le _ _
  exact skipValue_depth (by omega) (by omega)

end CBORReader

end Attestation.IosDemo
