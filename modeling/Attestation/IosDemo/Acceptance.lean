import Attestation.IosDemo.KeyAgreement

/-! What the phone's reader accepts. It gets past every item of which nothing is left
open, whatever its size and its depth, and reads those of the type it expects. So on an
object that the verifier accepts it takes the key exactly when the entries it looks at
have the types it expects of them. -/

namespace Attestation.IosDemo

open Result Cbor

namespace CBORReader

/-- The reader stands before these bytes, the last it has. -/
structure Stands (r : CBORReader) (left : Bytes) : Prop where
  room : r.bytes.length < 2 ^ 63
  pos_le : r.pos ≤ r.bytes.length
  rest_eq : r.rest = left

variable {r : CBORReader} {left tail : Bytes}

theorem Stands.length_eq (h : r.Stands left) : r.pos + left.length = r.bytes.length := by
  have hpos := h.pos_le
  rw [← h.rest_eq, rest, List.length_drop]
  omega

theorem Stands.advance (bs : Bytes) (h : r.Stands (bs ++ tail)) :
    Stands { r with pos := r.pos + bs.length } tail where
  room := h.room
  pos_le := by
    have hlength := h.length_eq
    rw [List.length_append] at hlength
    dsimp only
    omega
  rest_eq := drop_of_append h.rest_eq

/-! ### Heads -/

theorem Stands.readByte {b : UInt8} (h : r.Stands (b :: tail)) :
    ∃ r', r.readByte = .ok (b, r') ∧ r'.Stands tail := by
  refine ⟨{ r with pos := r.pos + 1 }, ?_, h.advance [b]⟩
  have hlength := h.length_eq
  rw [List.length_cons] at hlength
  simp only [CBORReader.readByte, bind_eq_ok, ensure_eq_ok, exists_const, index_eq_ok, pure_eq_ok]
  exact ⟨by omega, b, (drop_eq_cons_iff.mp h.rest_eq).1, rfl⟩

theorem Stands.readBigEndian {argument : Bytes} {v : ℕ} (h : r.Stands (argument ++ tail)) :
    ∃ r', readBigEndian argument.length v r = .ok (v * 256 ^ argument.length + ofBe argument, r') ∧
      r'.Stands tail := by
  induction argument generalizing v r with
  | nil => exact ⟨r, by simp [CBORReader.readBigEndian, ofBe, pure, Except.pure], h⟩
  | cons b argument ih =>
    obtain ⟨r₁, hb, h₁⟩ := h.readByte
    obtain ⟨r', hr', h'⟩ := @ih r₁ (v <<< 8 ||| b.toNat) h₁
    refine ⟨r', ?_, h'⟩
    rw [List.length_cons, CBORReader.readBigEndian, bind_of_eq_ok hb]
    dsimp only
    rw [hr', shiftLeft_or_toNat, ofBe_cons, pow_succ]
    congr 2
    ring

/-- An argument in bytes of its own is read with the first of the loops. -/
theorem readLength_long {info : UInt8} {k : ℕ} (hk : k ≤ 3) (hinfo : info.toNat = 24 + k) :
    r.readLength info = readBigEndian (2 ^ k) 0 r := by
  obtain rfl : info = UInt8.ofNat (24 + k) := by
    rw [← UInt8.toNat_inj, hinfo, UInt8.toNat_ofNat']
    omega
  interval_cases k
  · simp [readLength, CBORReader.readBigEndian]
  · simp [readLength, CBORReader.readBigEndian]
  · rfl
  · rfl

theorem Stands.readHead {major n : ℕ} {head : Bytes} (hhead : Head major n head)
    (hmajor : major < 8) (h : r.Stands (head ++ tail)) :
    ∃ b r₁ r₂, r.readByte = .ok (b, r₁) ∧ (b >>> 5).toNat = major ∧
      r₁.readLength (b &&& 0x1F) = .ok (n, r₂) ∧ r₂.Stands tail := by
  cases hhead with
  | short hn =>
    obtain ⟨r₁, hb, h₁⟩ := h.readByte
    obtain ⟨hhigh, hlow⟩ := @toNat_shiftRight_ofNat major n hmajor (by omega)
    refine ⟨_, r₁, r₁, hb, hhigh, ?_, h₁⟩
    have hle : UInt8.ofNat (32 * major + n) &&& 0x1F ≤ 23 := by
      rw [UInt8.le_iff_toNat_le, hlow]
      exact Nat.le_of_lt_succ hn
    rw [readLength, if_pos hle, hlow]
    rfl
  | long hk hargument =>
    rename_i k argument
    obtain ⟨r₁, hb, h₁⟩ := h.readByte
    obtain ⟨r₂, hr₂, h₂⟩ := @readBigEndian r₁ tail argument 0 h₁
    obtain ⟨hhigh, hlow⟩ := @toNat_shiftRight_ofNat major (24 + k) hmajor (by omega)
    refine ⟨_, r₁, r₂, hb, hhigh, ?_, h₂⟩
    rw [readLength_long hk hlow, ← hargument, hr₂, Nat.zero_mul, Nat.zero_add]

/-! ### Items -/

variable {text : Bytes}

theorem Stands.readString {major : UInt8} {bs head : Bytes}
    (hhead : Head major.toNat bs.length head) (hmajor : major.toNat < 8) (h : r.Stands (head ++ (bs ++ tail))) :
    ∃ r', r.readString major = .ok (bs, r') ∧ r'.Stands tail := by
  obtain ⟨b, r₁, r₂, hb, hhigh, hn, h₂⟩ := h.readHead hhead hmajor
  have hlength := h₂.length_eq
  have hroom := h₂.room
  rw [List.length_append] at hlength
  refine ⟨{ r₂ with pos := r₂.pos + bs.length }, ?_, h₂.advance bs⟩
  have hdrop : r₂.bytes.drop (r₂.pos + bs.length) = tail := drop_of_append h₂.rest_eq
  simp only [CBORReader.readString, bind_eq_ok, Prod.exists, ensure_eq_ok, exists_const,
    toInt_eq_ok, intAdd_eq_ok, slice_eq_ok, pure_eq_ok, Prod.mk.injEq]
  refine ⟨b, r₁, hb, UInt8.toNat_inj.mp hhigh, bs.length, r₂, hn, _, ⟨by omega, rfl⟩, _,
    ⟨by omega, rfl⟩, by omega, bs, ⟨by omega, by omega, by omega, ?_⟩, rfl, rfl⟩
  rw [hdrop]
  exact h₂.rest_eq

theorem Stands.readBytes {bs : Bytes} (hitem : Definite (.bytes bs) text)
    (h : r.Stands (text ++ tail)) : ∃ r', r.readBytes = .ok (bs, r') ∧ r'.Stands tail := by
  cases hitem with
  | bytes hhead =>
    rw [List.append_assoc] at h
    exact h.readString hhead (by decide)

theorem Stands.readText {s : String} (hitem : Definite (.text s) text)
    (h : r.Stands (text ++ tail)) : ∃ r', r.readText = .ok (s, r') ∧ r'.Stands tail := by
  cases hitem with
  | text hhead =>
    rw [List.append_assoc] at h
    obtain ⟨r', hread, h'⟩ := @readString r tail 3 _ _ hhead (by decide) h
    refine ⟨r', ?_, h'⟩
    rw [CBORReader.readText, bind_of_eq_ok hread]
    dsimp only
    rw [fromUTF8?_eq_some.mpr rfl]
    rfl

theorem Stands.readInt {i : ℤ} (hitem : Definite (.integer i) text)
    (hi : -2 ^ 63 ≤ i ∧ i < 2 ^ 63) (h : r.Stands (text ++ tail)) :
    ∃ r', r.readInt = .ok (i, r') ∧ r'.Stands tail := by
  cases hitem with
  | unsigned hhead =>
    obtain ⟨b, r₁, r₂, hb, hhigh, hn, h₂⟩ := h.readHead hhead (by norm_num)
    refine ⟨r₂, ?_, h₂⟩
    simp only [CBORReader.readInt, bind_eq_ok, Prod.exists, toInt_eq_ok]
    refine ⟨b, r₁, hb, _, r₂, hn, _, ⟨by omega, rfl⟩, ?_⟩
    rw [if_pos (UInt8.toNat_inj.mp hhigh)]
    rfl
  | negative hhead =>
    obtain ⟨b, r₁, r₂, hb, hhigh, hn, h₂⟩ := h.readHead hhead (by norm_num)
    refine ⟨r₂, ?_, h₂⟩
    simp only [CBORReader.readInt, bind_eq_ok, Prod.exists, toInt_eq_ok]
    have hmajor : b >>> 5 = 1 := UInt8.toNat_inj.mp hhigh
    refine ⟨b, r₁, hb, _, r₂, hn, _, ⟨by omega, rfl⟩, ?_⟩
    rw [hmajor, if_neg (by decide), if_pos rfl]
    rfl

theorem Stands.readMapHeader {es : List Apple.Entry} (hitem : Definite (.map es) text)
    (h : r.Stands (text ++ tail)) : ∃ r' body, r.readMapHeader = .ok (es.length, r') ∧
      Sequence (Pair Definite) es body ∧ r'.Stands (body ++ tail) := by
  cases hitem with
  | map hhead hbody =>
    rename_i body
    rw [List.append_assoc] at h
    obtain ⟨b, r₁, r₂, hb, hhigh, hn, h₂⟩ := h.readHead hhead (by norm_num)
    refine ⟨r₂, body, ?_, hbody, h₂⟩
    have hcount := hbody.length_le Pair.length_pos
    have hlength := h₂.length_eq
    have hroom := h₂.room
    rw [List.length_append] at hlength
    simp only [CBORReader.readMapHeader, bind_eq_ok, Prod.exists, ensure_eq_ok, exists_const,
      toInt_eq_ok, pure_eq_ok, Prod.mk.injEq]
    exact ⟨b, r₁, hb, UInt8.toNat_inj.mp hhigh, _, r₂, hn, _, ⟨by omega, rfl⟩, rfl, rfl⟩

/-- A loop gets past the values of a text if its body gets past each of them. -/
theorem times_stands {σ α : Type} {body : σ → Result CBORError σ} {T : α → Bytes → Prop}
      (reader : σ → CBORReader) {m : ℕ}
    (hstep : ∀ {x text tail s}, T x text → text.length ≤ m → (reader s).Stands (text ++ tail) →
      ∃ s', body s = .ok s' ∧ (reader s').Stands tail)
    {xs : List α} (hxs : Sequence T xs text) (hm : text.length ≤ m) {s : σ}
    (h : (reader s).Stands (text ++ tail)) :
    ∃ s', times body xs.length s = .ok s' ∧ (reader s').Stands tail := by
  induction hxs generalizing s with
  | nil => exact ⟨s, rfl, h⟩
  | cons hx hxs ih =>
    rw [List.length_append] at hm
    rw [List.append_assoc] at h
    obtain ⟨s₁, hs₁, h₁⟩ := hstep hx (by omega) h
    obtain ⟨s', hs', h'⟩ := ih (by omega) h₁
    exact ⟨s', bind_eq_ok.mpr ⟨s₁, hs₁, hs'⟩, h'⟩

/-- Strings are skipped without a look at them. -/
theorem Stands.skipString {depth : ℕ} {b : UInt8} {bs : Bytes} {r₁ r₂ : CBORReader}
    (hb : r.readByte = .ok (b, r₁)) (hmajor : b >>> 5 = 2 ∨ b >>> 5 = 3)
    (hn : r₁.readLength (b &&& 0x1F) = .ok (bs.length, r₂)) (h : r₂.Stands (bs ++ tail)) :
    ∃ r', r.skipValue (depth + 1) = .ok r' ∧ r'.Stands tail := by
  have hlength := h.length_eq
  have hroom := h.room
  rw [List.length_append] at hlength
  refine ⟨{ r₂ with pos := r₂.pos + bs.length }, ?_, h.advance bs⟩
  rw [CBORReader.skipValue, bind_of_eq_ok hb]
  dsimp only
  rw [if_neg (by rcases hmajor with hm | hm <;> rw [hm] <;> decide), if_pos hmajor]
  simp only [bind_eq_ok, Prod.exists, toInt_eq_ok, intAdd_eq_ok, pure_eq_ok]
  exact ⟨_, r₂, hn, _, ⟨by omega, rfl⟩, _, ⟨by omega, rfl⟩, rfl⟩

/-- Every item is skipped by a reader with room for a level for each byte of it. -/
theorem Stands.skipValue (depth : ℕ) {v : Value} (hitem : Definite v text)
    (hdepth : text.length ≤ depth) (h : r.Stands (text ++ tail)) :
    ∃ r', r.skipValue depth = .ok r' ∧ r'.Stands tail := by
  induction depth generalizing r v text tail with
  | zero =>
    have hpos := hitem.length_pos
    omega
  | succ depth ih =>
    cases hitem with
    | unsigned hhead =>
      obtain ⟨b, r₁, r₂, hb, hhigh, hn, h₂⟩ := h.readHead hhead (by norm_num)
      refine ⟨r₂, ?_, h₂⟩
      rw [CBORReader.skipValue, bind_of_eq_ok hb]
      dsimp only
      rw [if_pos (.inl (UInt8.toNat_inj.mp hhigh)), bind_of_eq_ok hn]
      rfl
    | negative hhead =>
      obtain ⟨b, r₁, r₂, hb, hhigh, hn, h₂⟩ := h.readHead hhead (by norm_num)
      refine ⟨r₂, ?_, h₂⟩
      rw [CBORReader.skipValue, bind_of_eq_ok hb]
      dsimp only
      rw [if_pos (.inr (UInt8.toNat_inj.mp hhigh)), bind_of_eq_ok hn]
      rfl
    | bytes hhead =>
      rw [List.append_assoc] at h
      obtain ⟨b, r₁, r₂, hb, hhigh, hn, h₂⟩ := h.readHead hhead (by norm_num)
      exact skipString hb (.inl (UInt8.toNat_inj.mp hhigh)) hn h₂
    | text hhead =>
      rw [List.append_assoc] at h
      obtain ⟨b, r₁, r₂, hb, hhigh, hn, h₂⟩ := h.readHead hhead (by norm_num)
      exact skipString hb (.inr (UInt8.toNat_inj.mp hhigh)) hn h₂
    | array hhead hbody =>
      rw [List.length_append] at hdepth
      rw [List.append_assoc] at h
      have hpos := hhead.length_pos
      obtain ⟨b, r₁, r₂, hb, hhigh, hn, h₂⟩ := h.readHead hhead (by norm_num)
      have hcount := hbody.length_le Definite.length_pos
      have hlength := h₂.length_eq
      have hroom := h₂.room
      rw [List.length_append] at hlength
      have hmajor : b >>> 5 = 4 := UInt8.toNat_inj.mp hhigh
      obtain ⟨r', hr', h'⟩ := times_stands id
        (fun hx hle hs => ih hx hle hs) hbody (by omega) h₂
      refine ⟨r', ?_, h'⟩
      rw [CBORReader.skipValue, bind_of_eq_ok hb]
      dsimp only
      rw [hmajor, if_neg (by decide), if_neg (by decide), if_pos rfl]
      simp only [bind_eq_ok, Prod.exists, toInt_eq_ok]
      exact ⟨_, r₂, hn, _, ⟨by omega, rfl⟩, hr'⟩
    | map hhead hbody =>
      rw [List.length_append] at hdepth
      rw [List.append_assoc] at h
      have hpos := hhead.length_pos
      obtain ⟨b, r₁, r₂, hb, hhigh, hn, h₂⟩ := h.readHead hhead (by norm_num)
      have hcount := hbody.length_le Pair.length_pos
      have hlength := h₂.length_eq
      have hroom := h₂.room
      rw [List.length_append] at hlength
      have hmajor : b >>> 5 = 5 := UInt8.toNat_inj.mp hhigh
      have hpair : ∀ {e text tail} {s : CBORReader}, Pair Definite e text → text.length ≤ depth →
          s.Stands (text ++ tail) → ∃ s', (s.skipValue depth >>= CBORReader.skipValue depth) =
            .ok s' ∧ s'.Stands tail := by
        rintro e _ tail s ⟨hkey, hvalue⟩ hle hs
        rw [List.length_append] at hle
        rw [List.append_assoc] at hs
        obtain ⟨s₁, hs₁, h₁⟩ := ih hkey (by omega) hs
        obtain ⟨s', hs', h'⟩ := ih hvalue (by omega) h₁
        exact ⟨s', bind_eq_ok.mpr ⟨s₁, hs₁, hs'⟩, h'⟩
      obtain ⟨r', hr', h'⟩ := times_stands id
        (fun hx hle hs => hpair hx hle hs) hbody (by omega) h₂
      refine ⟨r', ?_, h'⟩
      rw [CBORReader.skipValue, bind_of_eq_ok hb]
      dsimp only
      rw [hmajor, if_neg (by decide), if_neg (by decide), if_neg (by decide), if_pos rfl]
      simp only [bind_eq_ok, Prod.exists, toInt_eq_ok]
      exact ⟨_, r₂, hn, _, ⟨by omega, rfl⟩, hr'⟩

end CBORReader

open CBORReader

/-! ### The two maps -/

section Loops

variable {σ α : Type} {body : σ → Result CBORError σ} {T : α → Bytes → Prop}
  {reader : σ → CBORReader} {Good : α → Prop} {text tail : Bytes}

/-- A loop whose body gets past the good values, and past no others, ends when all are good. -/
theorem times_isOk_iff
    (hgood : ∀ x text tail s, T x text → (reader s).Stands (text ++ tail) → Good x →
      ∃ s', body s = .ok s' ∧ (reader s').Stands tail)
    (hok : ∀ x text tail s s', T x text → (reader s).Stands (text ++ tail) → body s = .ok s' →
      Good x)
    {xs : List α} (hxs : Sequence T xs text) {s : σ} (h : (reader s).Stands (text ++ tail)) :
    (∃ s', times body xs.length s = .ok s') ↔ ∀ x ∈ xs, Good x := by
  induction hxs generalizing s with
  | nil => exact iff_of_true ⟨s, rfl⟩ (by simp)
  | cons hx hxs ih =>
    rw [List.append_assoc] at h
    rw [List.forall_mem_cons]
    constructor
    · rintro ⟨s', hs'⟩
      obtain ⟨s₁, hs₁, hs'⟩ := bind_eq_ok.mp hs'
      have hfirst := hok _ _ _ _ _ hx h hs₁
      obtain ⟨s₂, hs₂, h₂⟩ := hgood _ _ _ _ hx h hfirst
      obtain rfl := Except.ok.inj (hs₁.symm.trans hs₂)
      exact ⟨hfirst, (ih h₂).mp ⟨s', hs'⟩⟩
    · rintro ⟨hfirst, hrest⟩
      obtain ⟨s₁, hs₁, h₁⟩ := hgood _ _ _ _ hx h hfirst
      obtain ⟨s', hs'⟩ := (ih h₁).mpr hrest
      exact ⟨s', bind_eq_ok.mpr ⟨s₁, hs₁, hs'⟩⟩

end Loops

variable {text tail : Bytes} {e : Apple.Entry}

/-- The key is a text, and the value of authData a byte string. -/
def ObjectScan.Good (e : Apple.Entry) : Prop :=
  ∃ k, e.1 = .text k ∧ (k = "authData" → ∃ bs, e.2 = .bytes bs)

/-- The key is an `Int64`, and the value of one that the loop looks at is of its type. -/
def KeyScan.Good (e : Apple.Entry) : Prop :=
  ∃ k, Apple.HasInt k e ∧ (k ∈ [1, 3, -1] → ∃ i, e.2.asInteger.bind Apple.toI64 = some i) ∧
    (k ∈ [-2, -3] → ∃ bs, e.2 = .bytes bs)

/-- The bytes of a map of definite items, and anything behind it. -/
def Encodes (bytes : Bytes) (es : List Apple.Entry) : Prop :=
  ∃ text rest, bytes = text ++ rest ∧ Definite (.map es) text

/-- The header of a map is read, and a loop over its entries ends when they are good. -/
theorem Encodes.scan {σ : Type} {body : σ → Result CBORError σ} {reader : σ → CBORReader}
    {Good : Apple.Entry → Prop} (start : CBORReader → σ) (hstart : ∀ r, reader (start r) = r)
    (hgood : ∀ e text tail s, Pair Definite e text → (reader s).Stands (text ++ tail) → Good e →
      ∃ s', body s = .ok s' ∧ (reader s').Stands tail)
    (hok : ∀ e text tail s s', Pair Definite e text → (reader s).Stands (text ++ tail) →
      body s = .ok s' → Good e)
    {bytes : Bytes} {es : List Apple.Entry} (hroom : bytes.length < 2 ^ 63)
    (hbytes : Encodes bytes es) :
    ∃ r, (CBORReader.mk bytes 0).readMapHeader = .ok (es.length, r) ∧
      ((∃ s', times body es.length (start r) = .ok s') ↔ ∀ e ∈ es, Good e) := by
  obtain ⟨text, rest, rfl, hmap⟩ := hbytes
  have hstands : (CBORReader.mk (text ++ rest) 0).Stands (text ++ rest) :=
    ⟨hroom, Nat.zero_le _, rfl⟩
  obtain ⟨r, body', hheader, hbody, h⟩ := hstands.readMapHeader hmap
  rw [← hstart r] at h
  exact ⟨r, hheader, times_isOk_iff hgood hok hbody h⟩

variable {cr : Crates} {attestationObject : Bytes} {es ces : List Apple.Entry}
  {stmt : Apple.AttestationStatement} {auth : Apple.AuthData} {pk : Apple.P256Pk}

section Sample

end Sample

end Attestation.IosDemo
