import Attestation.Base.Bytes
import Attestation.Base.SelfDelimiting

/-! UTF-8 texts read by position. A scanner over the bytes of a text that stops
only at ASCII bytes stops between characters, so what is left of the bytes at its
position is the encoding of the characters left. -/

namespace Attestation

/-- The UTF-8 bytes of a list of characters. -/
def utf8 (cs : List Char) : Bytes := cs.flatMap String.utf8EncodeChar

@[simp] theorem utf8_nil : utf8 [] = [] := rfl

@[simp] theorem utf8_cons (c : Char) (cs : List Char) :
    utf8 (c :: cs) = String.utf8EncodeChar c ++ utf8 cs := rfl

@[simp] theorem utf8_append (cs ds : List Char) : utf8 (cs ++ ds) = utf8 cs ++ utf8 ds :=
  List.flatMap_append

theorem asBytes_eq_utf8 (s : String) : asBytes s = utf8 s.toList := by
  rw [utf8, ← asBytes_ofList, String.ofList_toList]

theorem fromUTF8?_utf8 (cs : List Char) :
    String.fromUTF8? ⟨(utf8 cs).toArray⟩ = some (String.ofList cs) := by
  have hbytes : (⟨(utf8 cs).toArray⟩ : ByteArray) = (String.ofList cs).toByteArray := by
    apply ByteArray.ext
    apply Array.toList_inj.mp
    have := asBytes_ofList cs
    rw [asBytes, String.toUTF8_eq_toByteArray] at this
    exact this.symm
  rw [hbytes, String.fromUTF8?, dif_pos (String.ofList cs).isValidUTF8]
  rfl

/-- Bytes are read as a string exactly when they are its encoding. -/
theorem fromUTF8?_eq_some {bs : Bytes} {s : String} :
    String.fromUTF8? ⟨bs.toArray⟩ = some s ↔ bs = asBytes s := by
  constructor
  · intro h
    rw [String.fromUTF8?] at h
    split at h
    · rw [← Option.some.inj h]
      rfl
    · cases h
  · rintro rfl
    rw [asBytes_eq_utf8, fromUTF8?_utf8, String.ofList_toList]

/-! ### The bytes of a character -/

theorem utf8EncodeChar_of_ascii {c : Char} (h : c.toNat < 128) :
    String.utf8EncodeChar c = [UInt8.ofNat c.toNat] := by
  have h' : c.val.toNat ≤ 0x7F := by
    change c.toNat ≤ 0x7F
    omega
  simp only [String.utf8EncodeChar, if_pos h']
  rfl

theorem ofNat_toNat_inj {c d : Char} (hc : c.toNat < 128) (hd : d.toNat < 128) :
    UInt8.ofNat c.toNat = UInt8.ofNat d.toNat ↔ c = d := by
  rw [← UInt8.toNat_inj, UInt8.toNat_ofNat_of_lt' (hc.trans (by decide)),
    UInt8.toNat_ofNat_of_lt' (hd.trans (by decide)), Char.toNat_inj]

theorem le_of_mem_utf8EncodeChar {c : Char} (h : 128 ≤ c.toNat) :
    ∀ b ∈ String.utf8EncodeChar c, 128 ≤ b.toNat := by
  have h' : ¬ c.val.toNat ≤ 0x7F := by
    change ¬ c.toNat ≤ 0x7F
    omega
  simp only [String.utf8EncodeChar, if_neg h']
  split_ifs <;> simp <;> omega

theorem utf8EncodeChar_selfDelimiting : SelfDelimiting String.utf8EncodeChar := by
  intro c d r s h
  have hdecode : ∀ (c : Char) (r : Bytes), ByteArray.utf8DecodeChar?
      (String.utf8EncodeChar c ++ r).toByteArray 0 = some c := by
    intro c r
    rw [List.toByteArray_append, ByteArray.utf8DecodeChar?_utf8EncodeChar_append]
  obtain rfl : c = d := Option.some.inj ((hdecode c r).symm.trans (h ▸ hdecode d s))
  exact ⟨rfl, List.append_cancel_left h⟩

/-- A text whose bytes begin the bytes of another begins it. -/
theorem prefix_of_utf8_prefix {cs ds : List Char} (h : utf8 cs <+: utf8 ds) : cs <+: ds := by
  induction cs generalizing ds with
  | nil => exact List.nil_prefix
  | cons c cs ih =>
    obtain ⟨rest, hrest⟩ := h
    cases ds with
    | nil =>
      simp [String.utf8EncodeChar_ne_nil] at hrest
    | cons d ds =>
      rw [utf8_cons, List.append_assoc, utf8_cons] at hrest
      obtain ⟨rfl, htail⟩ := utf8EncodeChar_selfDelimiting hrest
      exact List.cons_prefix_cons.mpr ⟨rfl, ih ⟨rest, htail⟩⟩

theorem length_le_length_utf8 (cs : List Char) : cs.length ≤ (utf8 cs).length := by
  induction cs with
  | nil => simp
  | cons c cs ih =>
    have := List.length_pos_of_ne_nil (String.utf8EncodeChar_ne_nil (c := c))
    simp only [utf8_cons, List.length_cons, List.length_append]
    omega

/-! ### What is left of a text -/

/-- The bytes from the position on are those of the characters. -/
structure Rest (bytes : Bytes) (pos : ℕ) (cs : List Char) : Prop where
  length_eq : pos + (utf8 cs).length = bytes.length
  drop_eq : bytes.drop pos = utf8 cs

namespace Rest

variable {bytes : Bytes} {pos pos' : ℕ} {c : Char} {cs ds : List Char}

theorem start (cs : List Char) : Rest (utf8 cs) 0 cs := ⟨by simp, rfl⟩

theorem le (h : Rest bytes pos cs) : pos ≤ bytes.length := h.length_eq ▸ Nat.le_add_right _ _

theorem pos_eq (h : Rest bytes pos cs) (h' : Rest bytes pos' cs) : pos = pos' := by
  have := h.length_eq
  have := h'.length_eq
  omega

theorem append (h : Rest bytes pos (cs ++ ds)) : Rest bytes (pos + (utf8 cs).length) ds := by
  obtain ⟨hlen, hdrop⟩ := h
  constructor
  · rw [utf8_append, List.length_append] at hlen
    omega
  · rw [← List.drop_drop, hdrop, utf8_append, List.drop_left]

theorem cons (h : Rest bytes pos (c :: cs)) (hc : c.toNat < 128) : Rest bytes (pos + 1) cs := by
  have hrest := (show Rest bytes pos ([c] ++ cs) from h).append
  rwa [utf8_cons, utf8EncodeChar_of_ascii hc] at hrest

theorem getElem?_eq (h : Rest bytes pos cs) : bytes[pos]? = (utf8 cs).head? := by
  rw [← h.drop_eq, List.head?_drop]

/-- The byte at the position is an ASCII character exactly when the next
character is. -/
theorem getElem?_eq_some_iff (h : Rest bytes pos cs) (hc : c.toNat < 128) :
    bytes[pos]? = some (UInt8.ofNat c.toNat) ↔ ∃ ds, cs = c :: ds := by
  rw [h.getElem?_eq]
  rcases cs with _ | ⟨d, cs⟩
  · simp
  simp only [utf8_cons, List.cons.injEq, exists_and_left, exists_eq', and_true]
  by_cases hd : d.toNat < 128
  · rw [utf8EncodeChar_of_ascii hd, List.singleton_append, List.head?_cons, Option.some.injEq,
      ofNat_toNat_inj hd hc]
  · obtain ⟨b, bs, hbs⟩ := List.exists_cons_of_ne_nil (String.utf8EncodeChar_ne_nil (c := d))
    have hb := le_of_mem_utf8EncodeChar (Nat.le_of_not_lt hd) b (by simp [hbs])
    rw [hbs, List.cons_append, List.head?_cons, Option.some.injEq]
    refine iff_of_false ?_ (by rintro rfl; exact hd hc)
    rintro rfl
    rw [UInt8.toNat_ofNat_of_lt' (hc.trans (by decide))] at hb
    omega

end Rest

end Attestation
