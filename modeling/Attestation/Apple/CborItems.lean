import Attestation.Crates

/-! CBOR data items on the wire (RFC 8949). A head says the major type and an argument, in
any of the lengths that hold it; strings, arrays and maps of a definite length stand behind
a head with their length. What is read of a tag, a simple value, a float or an item of
indefinite length is left open. -/

namespace Attestation.Cbor

/-- A head: the argument in the first byte, or in one, two, four or eight bytes behind it. -/
inductive Head (major : ℕ) : ℕ → Bytes → Prop
  | short {n : ℕ} (hn : n < 24) : Head major n [UInt8.ofNat (32 * major + n)]
  | long {k : ℕ} {argument : Bytes} (hk : k ≤ 3) (hlength : argument.length = 2 ^ k) :
      Head major (ofBe argument) (UInt8.ofNat (32 * major + (24 + k)) :: argument)

/-- The first byte of a tag, a simple value or a float, of an item of indefinite length, or of
none. -/
def Open (b : UInt8) : Prop := 6 ≤ (b >>> 5).toNat ∨ 28 ≤ (b &&& 0x1F).toNat

/-- Texts of values one behind the other. -/
inductive Sequence {α : Type} (T : α → Bytes → Prop) : List α → Bytes → Prop
  | nil : Sequence T [] []
  | cons {x : α} {xs : List α} {text body : Bytes} (head : T x text) (tail : Sequence T xs body) :
      Sequence T (x :: xs) (text ++ body)

/-- The text of a key, and behind it that of its value. -/
inductive Pair (T : Value → Bytes → Prop) : Value × Value → Bytes → Prop
  | mk {k v : Value} {key value : Bytes} (hkey : T k key) (hvalue : T v value) :
      Pair T (k, v) (key ++ value)

/-- The text is an item and the value what it stands for. -/
inductive Item : Value → Bytes → Prop
  | unsigned {n : ℕ} {head : Bytes} (h : Head 0 n head) : Item (.integer n) head
  | negative {n : ℕ} {head : Bytes} (h : Head 1 n head) : Item (.integer (-1 - n)) head
  | bytes {bs head : Bytes} (h : Head 2 bs.length head) : Item (.bytes bs) (head ++ bs)
  | text {s : String} {head : Bytes} (h : Head 3 (asBytes s).length head) :
      Item (.text s) (head ++ asBytes s)
  | array {vs : List Value} {head body : Bytes} (h : Head 4 vs.length head)
      (hbody : Sequence Item vs body) : Item (.array vs) (head ++ body)
  | map {es : List (Value × Value)} {head body : Bytes} (h : Head 5 es.length head)
      (hbody : Sequence (Pair Item) es body) : Item (.map es) (head ++ body)
  | other {v : Value} {b : UInt8} {rest : Bytes} (h : Open b) : Item v (b :: rest)

/-- The text is an item of which nothing is left open. -/
inductive Definite : Value → Bytes → Prop
  | unsigned {n : ℕ} {head : Bytes} (h : Head 0 n head) : Definite (.integer n) head
  | negative {n : ℕ} {head : Bytes} (h : Head 1 n head) : Definite (.integer (-1 - n)) head
  | bytes {bs head : Bytes} (h : Head 2 bs.length head) : Definite (.bytes bs) (head ++ bs)
  | text {s : String} {head : Bytes} (h : Head 3 (asBytes s).length head) :
      Definite (.text s) (head ++ asBytes s)
  | array {vs : List Value} {head body : Bytes} (h : Head 4 vs.length head)
      (hbody : Sequence Definite vs body) : Definite (.array vs) (head ++ body)
  | map {es : List (Value × Value)} {head body : Bytes} (h : Head 5 es.length head)
      (hbody : Sequence (Pair Definite) es body) : Definite (.map es) (head ++ body)

/-- The reader decodes an item at the front of the bytes and ignores what follows it. -/
def ReadsItems (read : Bytes → Except String Value) : Prop :=
  ∀ bytes v, read bytes = .ok v → ∃ text rest, bytes = text ++ rest ∧ Item v text

/-- What stands behind the head of an item, by the head's major type and argument; `tail`
follows the item. -/
def Contents (tail : Bytes) : ℕ → ℕ → Value → Bytes → Prop
  | 0, n, v, rest => v = .integer n ∧ rest = tail
  | 1, n, v, rest => v = .integer (-1 - n) ∧ rest = tail
  | 2, n, v, rest => ∃ bs, v = .bytes bs ∧ n = bs.length ∧ rest = bs ++ tail
  | 3, n, v, rest => ∃ s, v = .text s ∧ n = (asBytes s).length ∧ rest = asBytes s ++ tail
  | 4, n, v, rest => ∃ vs body, v = .array vs ∧ n = vs.length ∧ Sequence Item vs body ∧
      rest = body ++ tail
  | 5, n, v, rest => ∃ es body, v = .map es ∧ n = es.length ∧ Sequence (Pair Item) es body ∧
      rest = body ++ tail
  | _, _, _, _ => False

/-- An item is a head with its contents, or one that is left open. -/
theorem Item.cases_head {v : Value} {text : Bytes} (h : Item v text) (tail : Bytes) :
    (∃ b rest, text = b :: rest ∧ Open b) ∨
      ∃ major n head rest, major < 6 ∧ Head major n head ∧ text ++ tail = head ++ rest ∧
        Contents tail major n v rest := by
  cases h with
  | unsigned h => exact .inr ⟨0, _, _, tail, by norm_num, h, rfl, rfl, rfl⟩
  | negative h => exact .inr ⟨1, _, _, tail, by norm_num, h, rfl, rfl, rfl⟩
  | bytes h => exact .inr ⟨2, _, _, _, by norm_num, h, List.append_assoc _ _ _, _, rfl, rfl, rfl⟩
  | text h => exact .inr ⟨3, _, _, _, by norm_num, h, List.append_assoc _ _ _, _, rfl, rfl, rfl⟩
  | array h hbody =>
    exact .inr ⟨4, _, _, _, by norm_num, h, List.append_assoc _ _ _, _, _, rfl, rfl, hbody, rfl⟩
  | map h hbody =>
    exact .inr ⟨5, _, _, _, by norm_num, h, List.append_assoc _ _ _, _, _, rfl, rfl, hbody, rfl⟩
  | other h => exact .inl ⟨_, _, rfl, h⟩

theorem Head.length_pos {major n : ℕ} {head : Bytes} (h : Head major n head) : 0 < head.length := by
  cases h <;> simp

mutual

theorem Definite.item : ∀ {v text}, Definite v text → Item v text
  | _, _, .unsigned h => .unsigned h
  | _, _, .negative h => .negative h
  | _, _, .bytes h => .bytes h
  | _, _, .text h => .text h
  | _, _, .array h hbody => .array h (Definite.items hbody)
  | _, _, .map h hbody => .map h (Definite.entries hbody)

theorem Definite.items : ∀ {vs body}, Sequence Definite vs body → Sequence Item vs body
  | _, _, .nil => .nil
  | _, _, .cons h hs => .cons h.item (Definite.items hs)

theorem Definite.entries :
    ∀ {es body}, Sequence (Pair Definite) es body → Sequence (Pair Item) es body
  | _, _, .nil => .nil
  | _, _, .cons (.mk hkey hvalue) hs => .cons (.mk hkey.item hvalue.item) (Definite.entries hs)

end

theorem Definite.length_pos {v : Value} {text : Bytes} (h : Definite v text) : 0 < text.length := by
  cases h with
  | unsigned h => exact h.length_pos
  | negative h => exact h.length_pos
  | bytes h => exact h.length_pos.trans_le (by simp)
  | text h => exact h.length_pos.trans_le (by simp)
  | array h _ => exact h.length_pos.trans_le (by simp)
  | map h _ => exact h.length_pos.trans_le (by simp)

theorem Pair.length_pos {e : Value × Value} {text : Bytes} (h : Pair Definite e text) :
    0 < text.length := by
  cases h with
  | mk hkey _ => exact hkey.length_pos.trans_le (by simp)

/-- There are no more values than bytes. -/
theorem Sequence.length_le {α : Type} {T : α → Bytes → Prop}
    (hT : ∀ {x text}, T x text → 0 < text.length) {xs : List α} {body : Bytes}
    (h : Sequence T xs body) : xs.length ≤ body.length := by
  induction h with
  | nil => exact le_rfl
  | cons hx _ ih =>
    have hpos := hT hx
    rw [List.length_cons, List.length_append]
    omega

/-- The first byte of a head has the major type in its high bits. -/
theorem toNat_shiftRight_ofNat {major info : ℕ} (hmajor : major < 8) (hinfo : info < 32) :
    (UInt8.ofNat (32 * major + info) >>> 5).toNat = major ∧
      (UInt8.ofNat (32 * major + info) &&& 0x1F).toNat = info := by
  have hvalue : (UInt8.ofNat (32 * major + info)).toNat = 32 * major + info := by
    rw [UInt8.toNat_ofNat']
    omega
  constructor
  · rw [UInt8.toNat_shiftRight, hvalue]
    simp only [UInt8.reduceToNat, Nat.reduceMod, Nat.shiftRight_eq_div_pow]
    omega
  · rw [toNat_and_0x1F, hvalue]
    omega

end Attestation.Cbor
