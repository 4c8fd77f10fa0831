import Attestation.Base.Hex
import Mathlib.Data.List.Forall2
import Mathlib.Data.List.TakeWhile

/-! The syntax of JSON objects over characters. How the characters between two
quotation marks are read, and what the values of an object are, are parameters:
one grammar serves the standard and a reader that departs from it. -/

namespace Attestation.Json

variable {σ τ α β : Type*}

/-! ### Objects -/

/-- JSON whitespace. -/
def isWs (c : Char) : Bool := c = ' ' || c = '\n' || c = '\r' || c = '\t'

def Ws (w : List Char) : Prop := ∀ c ∈ w, isWs c = true

/-- A quoted string, its characters read by the rule. -/
def Quoted (S : List Char → σ → Prop) (text : List Char) (s : σ) : Prop :=
  ∃ raw, S raw s ∧ text = '"' :: raw ++ ['"']

/-- A quoted name, a colon and a value. -/
def Member (S : List Char → σ → Prop) (V : List Char → α → Prop) (text : List Char) (m : σ × α) :
    Prop :=
  ∃ name w w' value, Quoted S name m.1 ∧ Ws w ∧ Ws w' ∧ V value m.2 ∧
    text = name ++ w ++ ':' :: w' ++ value

/-- One or more items with commas between them, and whitespace around each. -/
inductive Separated (P : List Char → α → Prop) : List Char → List α → Prop where
  | last {w text w' : List Char} {a : α} (hw : Ws w) (h : P text a) (hw' : Ws w') :
      Separated P (w ++ text ++ w') [a]
  | cons {w text w' rest : List Char} {a : α} {as : List α} (hw : Ws w) (h : P text a) (hw' : Ws w')
      (hrest : Separated P rest as) : Separated P (w ++ text ++ w' ++ ',' :: rest) (a :: as)

/-- Items between braces, or none. -/
inductive Braced (P : List Char → α → Prop) : List Char → List α → Prop where
  | empty {w : List Char} (hw : Ws w) : Braced P ('{' :: w ++ ['}']) []
  | items {body : List Char} {as : List α} (h : Separated P body as) :
      Braced P ('{' :: body ++ ['}']) as

/-- An object, as the list of its members. -/
def Object (S : List Char → σ → Prop) (V : List Char → α → Prop) :
    List Char → List (σ × α) → Prop :=
  Braced (Member S V)

section Heads
variable {S : List Char → σ → Prop} {V P : List Char → α → Prop} {text w rest : List Char}

theorem Quoted.head?_eq {s : σ} (h : Quoted S text s) : text.head? = some '"' := by
  obtain ⟨raw, -, rfl⟩ := h
  rfl

theorem Member.head?_eq {m : σ × α} (h : Member S V text m) : text.head? = some '"' := by
  obtain ⟨_, _, _, _, ⟨raw, -, rfl⟩, -, -, -, rfl⟩ := h
  rfl

theorem Braced.head?_eq {as : List α} (h : Braced P text as) : text.head? = some '{' := by
  cases h <;> rfl

/-- Whitespace is skipped up to a text that does not begin with any. -/
theorem dropWhile_ws_append {t : List Char} {c : Char} (hw : Ws w) (ht : t.head? = some c)
    (hc : isWs c = false) : (w ++ (t ++ rest)).dropWhile isWs = t ++ rest := by
  obtain ⟨ds, rfl⟩ := List.head?_eq_some_iff.mp ht
  rw [List.dropWhile_append_of_pos hw, List.cons_append, List.dropWhile_cons_of_neg (by simp [hc])]

theorem exists_ws_append {cs : List Char} (h : cs.dropWhile isWs = rest) :
    ∃ w, Ws w ∧ cs = w ++ rest :=
  ⟨cs.takeWhile isWs, fun _ hc => List.mem_takeWhile_imp hc, by
    rw [← h, List.takeWhile_append_dropWhile]⟩

theorem Separated.ws_append {as : List α} (hw : Ws w) (h : Separated P text as) :
    Separated P (w ++ text) as := by
  have happend : ∀ v, Ws v → Ws (w ++ v) := fun v hv => List.forall_mem_append.mpr ⟨hw, hv⟩
  cases h with
  | last hv h hw' => simpa using Separated.last (happend _ hv) h hw'
  | cons hv h hw' hrest => simpa using Separated.cons (happend _ hv) h hw' hrest

/-- After whitespace, a list of items begins as its items do. -/
theorem Separated.head?_dropWhile {c : Char} (hP : ∀ text a, P text a → text.head? = some c)
    (hc : isWs c = false) {as : List α} (h : Separated P text as) (rest : List Char) :
    ((text ++ rest).dropWhile isWs).head? = some c := by
  have hhead : ∀ {w item : List Char} {a : α} (tail : List Char), Ws w → P item a →
      ((w ++ (item ++ tail)).dropWhile isWs).head? = some c := by
    intro w item a tail hw hitem
    have := hP _ _ hitem
    rw [dropWhile_ws_append hw this hc, List.head?_append, this, Option.some_or]
  cases h with
  | last hw h hw' => simpa using hhead _ hw h
  | cons hw h hw' _ => simpa using hhead _ hw h

/-- There are no more items than characters. -/
theorem Separated.length_le {as : List α} (h : Separated P text as) : as.length ≤ text.length + 1 := by
  induction h with
  | last => simp
  | cons _ _ _ _ ih =>
    simp only [List.length_cons, List.length_append]
    omega

end Heads

/-! ### Two readings of one text

When each string has a reading of the second kind beside the one of the first,
so has each larger piece of text. -/

section Readings
variable {S : List Char → σ → Prop} {T : List Char → τ → Prop} {R : σ → τ → Prop}
  {V : List Char → α → Prop} {W : List Char → β → Prop} {Q : α → β → Prop} {text : List Char}

theorem Quoted.read (h : ∀ raw s, S raw s → ∃ t, T raw t ∧ R s t) {s : σ} (hs : Quoted S text s) :
    ∃ t, Quoted T text t ∧ R s t := by
  obtain ⟨raw, hraw, rfl⟩ := hs
  obtain ⟨t, ht, hR⟩ := h raw s hraw
  exact ⟨t, ⟨raw, ht, rfl⟩, hR⟩

theorem Member.read (h : ∀ raw s, S raw s → ∃ t, T raw t ∧ R s t)
    (hV : ∀ text a, V text a → ∃ b, W text b ∧ Q a b) {m : σ × α} (hm : Member S V text m) :
    ∃ n, Member T W text n ∧ R m.1 n.1 ∧ Q m.2 n.2 := by
  obtain ⟨name, w, w', value, hname, hw, hw', hvalue, rfl⟩ := hm
  obtain ⟨t, ht, hR⟩ := hname.read h
  obtain ⟨b, hb, hQ⟩ := hV value m.2 hvalue
  exact ⟨(t, b), ⟨name, w, w', value, ht, hw, hw', hb, rfl⟩, hR, hQ⟩

theorem Separated.read (hV : ∀ text a, V text a → ∃ b, W text b ∧ Q a b) {as : List α}
    (h : Separated V text as) : ∃ bs, Separated W text bs ∧ List.Forall₂ Q as bs := by
  induction h with
  | last hw h hw' =>
    obtain ⟨b, hb, hQ⟩ := hV _ _ h
    exact ⟨[b], .last hw hb hw', .cons hQ .nil⟩
  | cons hw h hw' _ ih =>
    obtain ⟨b, hb, hQ⟩ := hV _ _ h
    obtain ⟨bs, hbs, hQs⟩ := ih
    exact ⟨b :: bs, .cons hw hb hw' hbs, .cons hQ hQs⟩

theorem Braced.read (hV : ∀ text a, V text a → ∃ b, W text b ∧ Q a b) {as : List α}
    (h : Braced V text as) : ∃ bs, Braced W text bs ∧ List.Forall₂ Q as bs := by
  cases h with
  | empty hw => exact ⟨[], .empty hw, .nil⟩
  | items h =>
    obtain ⟨bs, hbs, hQ⟩ := h.read hV
    exact ⟨bs, .items hbs, hQ⟩

theorem Object.read (h : ∀ raw s, S raw s → ∃ t, T raw t ∧ R s t)
    (hV : ∀ text a, V text a → ∃ b, W text b ∧ Q a b) {ms : List (σ × α)}
    (hms : Object S V text ms) :
    ∃ ns, Object T W text ns ∧ List.Forall₂ (fun m n => R m.1 n.1 ∧ Q m.2 n.2) ms ns :=
  Braced.read (fun _ _ hm => hm.read h hV) hms

/-- A reading whose strings and values are related to those of another is one of
the same text. -/
theorem Object.transfer {T : List Char → τ → Prop} {R : σ → τ → Prop} {W : List Char → β → Prop}
    {Q : α → β → Prop} (h : ∀ raw s t, S raw s → R s t → T raw t)
    (hV : ∀ text a b, V text a → Q a b → W text b) {ms : List (σ × α)} {ns : List (τ × β)}
    (hms : Object S V text ms) (hread : List.Forall₂ (fun m n => R m.1 n.1 ∧ Q m.2 n.2) ms ns) :
    Object T W text ns := by
  have hmember : ∀ {text : List Char} {m : σ × α} {n : τ × β}, Member S V text m →
      R m.1 n.1 ∧ Q m.2 n.2 → Member T W text n := by
    rintro _ m n ⟨name, w, w', value, ⟨raw, hraw, rfl⟩, hw, hw', hvalue, rfl⟩ ⟨hR, hQ⟩
    exact ⟨_, w, w', value, ⟨raw, h raw _ _ hraw hR, rfl⟩, hw, hw', hV value _ _ hvalue hQ, rfl⟩
  have hseparated : ∀ {text : List Char} {ms : List (σ × α)}, Separated (Member S V) text ms →
      ∀ {ns : List (τ × β)}, List.Forall₂ (fun m n => R m.1 n.1 ∧ Q m.2 n.2) ms ns →
        Separated (Member T W) text ns := by
    intro text ms hms
    induction hms with
    | last hw hm hw' =>
      rintro _ (_ | ⟨hn, hnil⟩)
      cases hnil
      exact .last hw (hmember hm hn) hw'
    | cons hw hm hw' _ ih =>
      rintro _ (_ | ⟨hn, hns⟩)
      exact .cons hw (hmember hm hn) hw' (ih hns)
  cases hms with
  | empty hw =>
    cases hread
    exact .empty hw
  | items hms => exact .items (hseparated hms hread)

/-- A rule that allows more strings and values allows more objects. -/
theorem Object.mono {T : List Char → σ → Prop} {W : List Char → α → Prop}
    (h : ∀ raw s, S raw s → T raw s) (hV : ∀ text a, V text a → W text a) {ms : List (σ × α)}
    (hms : Object S V text ms) : Object T W text ms := by
  obtain ⟨ns, hns, hread⟩ := hms.read (R := Eq) (Q := Eq) (fun raw s hs => ⟨s, h raw s hs, rfl⟩)
    fun text a ha => ⟨a, hV text a ha, rfl⟩
  have heq : ms = ns := by
    rw [← List.forall₂_eq_eq_eq]
    exact hread.imp fun _ _ h => Prod.ext h.1 h.2
  exact heq ▸ hns

theorem Quoted.mono {T : List Char → σ → Prop} (h : ∀ raw s, S raw s → T raw s) {s : σ}
    (hs : Quoted S text s) : Quoted T text s := by
  obtain ⟨raw, hraw, rfl⟩ := hs
  exact ⟨raw, h raw s hraw, rfl⟩

/-- An object whose values are computed from others. -/
theorem object_map_iff {f : α → β} {ms : List (σ × β)} :
    Object S (fun text b => ∃ a, V text a ∧ b = f a) text ms ↔
      ∃ ns, Object S V text ns ∧ ms = ns.map (Prod.map id f) := by
  have hmap : ∀ {ms : List (σ × β)} {ns : List (σ × α)},
      List.Forall₂ (fun m n => m.1 = n.1 ∧ m.2 = f n.2) ms ns ↔ ms = ns.map (Prod.map id f) := by
    intro ms ns
    rw [← List.forall₂_eq_eq_eq, List.forall₂_map_right_iff]
    simp only [Prod.ext_iff, Prod.map_fst, Prod.map_snd, id_eq]
  constructor
  · intro h
    obtain ⟨ns, hns, hread⟩ := h.read (T := S) (W := V) (R := Eq) (Q := fun b a => b = f a)
      (fun _ s hs => ⟨s, hs, rfl⟩) fun _ _ hb => hb
    exact ⟨ns, hns, hmap.mp hread⟩
  · rintro ⟨ns, hns, rfl⟩
    obtain ⟨ms, hms, hread⟩ := hns.read (T := S) (W := fun text b => ∃ a, V text a ∧ b = f a)
      (R := Eq) (Q := fun a b => b = f a) (fun _ s hs => ⟨s, hs, rfl⟩)
      fun _ a ha => ⟨f a, ⟨a, ha, rfl⟩, rfl⟩
    rwa [hmap.mp (hread.flip.imp fun _ _ h => ⟨h.1.symm, h.2⟩)] at hms

end Readings

/-- Members that can be written make an object that can be written. -/
theorem exists_object {S : List Char → σ → Prop} {V : List Char → α → Prop} {ms : List (σ × α)}
    (h : ∀ m ∈ ms, (∃ raw, S raw m.1) ∧ ∃ text, V text m.2) : ∃ text, Object S V text ms := by
  have hnil : Ws [] := by simp [Ws]
  have hseparated : ∀ m ms, (∀ n ∈ m :: ms, (∃ raw, S raw n.1) ∧ ∃ text, V text n.2) →
      ∃ text, Separated (Member S V) text (m :: ms) := by
    intro m ms
    induction ms generalizing m with
    | nil =>
      intro h
      obtain ⟨⟨raw, hraw⟩, value, hvalue⟩ := h m (by simp)
      exact ⟨_, .last hnil ⟨_, [], [], value, ⟨raw, hraw, rfl⟩, hnil, hnil, hvalue, rfl⟩ hnil⟩
    | cons n ms ih =>
      intro h
      obtain ⟨rest, hrest⟩ := ih n fun n hn => h n (by simp [List.mem_cons.mp hn])
      obtain ⟨⟨raw, hraw⟩, value, hvalue⟩ := h m (by simp)
      exact ⟨_, .cons hnil ⟨_, [], [], value, ⟨raw, hraw, rfl⟩, hnil, hnil, hvalue, rfl⟩ hnil hrest⟩
  rcases ms with _ | ⟨m, ms⟩
  · exact ⟨_, .empty hnil⟩
  · obtain ⟨body, hbody⟩ := hseparated m ms h
    exact ⟨_, .items hbody⟩

/-- An object of one member. -/
theorem braced_singleton_iff {P : List Char → α → Prop} {text : List Char} {a : α} :
    Braced P text [a] ↔
      ∃ w item w', Ws w ∧ P item a ∧ Ws w' ∧ text = '{' :: (w ++ item ++ w') ++ ['}'] := by
  constructor
  · intro h
    cases h with
    | items h =>
      cases h with
      | last hw h hw' => exact ⟨_, _, _, hw, h, hw', rfl⟩
      | cons _ _ _ hrest => cases hrest
  · rintro ⟨w, item, w', hw, h, hw', rfl⟩
    exact .items (.last hw h hw')

/-! ### Strings -/

/-- The character a one-letter escape stands for. -/
def escaped? : Char → Option Char
  | '"' => some '"'
  | '\\' => some '\\'
  | '/' => some '/'
  | 'b' => some '\x08'
  | 'f' => some '\x0C'
  | 'n' => some '\n'
  | 'r' => some '\r'
  | 't' => some '\t'
  | _ => none

/-- The UTF-16 code unit of four hex digits of either case. -/
def codeUnit? (hex : List Char) : Option ℕ :=
  if hex.length = 4 then Hex.natOfDigits? 0 (hex.map Char.toLower) else none

theorem length_of_codeUnit? {hex : List Char} {u : ℕ} (h : codeUnit? hex = some u) :
    hex.length = 4 := by
  unfold codeUnit? at h
  split_ifs at h with hlength
  exact hlength

/-- The characters that the characters between two quotation marks stand for: no
control character stands for itself, and code units in the surrogate range stand
for a character in pairs. -/
inductive Decodes : List Char → List Char → Prop where
  | nil : Decodes [] []
  | char {c : Char} {raw cs : List Char} (hc : 0x20 ≤ c.toNat) (hquote : c ≠ '"')
      (hbackslash : c ≠ '\\') (h : Decodes raw cs) : Decodes (c :: raw) (c :: cs)
  | escape {e c : Char} {raw cs : List Char} (he : escaped? e = some c) (h : Decodes raw cs) :
      Decodes ('\\' :: e :: raw) (c :: cs)
  | unit {hex raw cs : List Char} {u : ℕ} (hu : codeUnit? hex = some u)
      (hscalar : u < 0xD800 ∨ 0xE000 ≤ u) (h : Decodes raw cs) :
      Decodes ('\\' :: 'u' :: (hex ++ raw)) (Char.ofNat u :: cs)
  | pair {hex hex' raw cs : List Char} {hi lo : ℕ} (hhi : codeUnit? hex = some hi)
      (hlo : codeUnit? hex' = some lo) (hhigh : 0xD800 ≤ hi ∧ hi < 0xDC00)
      (hlow : 0xDC00 ≤ lo ∧ lo < 0xE000) (h : Decodes raw cs) :
      Decodes ('\\' :: 'u' :: (hex ++ '\\' :: 'u' :: (hex' ++ raw)))
        (Char.ofNat (0x10000 + (hi - 0xD800) * 0x400 + (lo - 0xDC00)) :: cs)

/-- The characters between two quotation marks stand for the string. -/
def Contents (raw : List Char) (s : String) : Prop := Decodes raw s.toList

/-- No unescaped quotation mark ends the text, whatever its backslashes hide. -/
inductive Unclosed : List Char → Prop where
  | nil : Unclosed []
  | char {c : Char} {raw : List Char} (hquote : c ≠ '"') (hbackslash : c ≠ '\\')
      (h : Unclosed raw) : Unclosed (c :: raw)
  | escape {c : Char} {raw : List Char} (h : Unclosed raw) : Unclosed ('\\' :: c :: raw)

theorem Unclosed.append {raw raw' : List Char} (h : Unclosed raw) (h' : Unclosed raw') :
    Unclosed (raw ++ raw') := by
  induction h with
  | nil => exact h'
  | char hquote hbackslash _ ih => exact .char hquote hbackslash ih
  | escape _ ih => exact .escape ih

/-- Text without quotation marks and backslashes. -/
theorem Unclosed.of_plain {raw : List Char} (hquote : '"' ∉ raw) (hbackslash : '\\' ∉ raw) :
    Unclosed raw := by
  induction raw with
  | nil => exact .nil
  | cons c raw ih =>
    simp only [List.mem_cons, not_or] at hquote hbackslash
    exact .char (Ne.symm hquote.1) (Ne.symm hbackslash.1) (ih hquote.2 hbackslash.2)

theorem Unclosed.of_codeUnit? {hex : List Char} {u : ℕ} (h : codeUnit? hex = some u) :
    Unclosed hex := by
  have hdigits : ∀ (cs : List Char) (acc : ℕ), Hex.natOfDigits? acc cs ≠ none →
      ∀ c ∈ cs, Hex.digitVal? c ≠ none := by
    intro cs
    induction cs with
    | nil => simp
    | cons c cs ih =>
      intro acc hacc
      rcases hc : Hex.digitVal? c with _ | d
      · simp [Hex.natOfDigits?, hc] at hacc
      · rw [Hex.natOfDigits?, hc] at hacc
        simpa [hc] using ih _ hacc
  unfold codeUnit? at h
  split_ifs at h
  have hnot : ∀ c, Hex.digitVal? c.toLower = none → c ∉ hex := fun c hc hmem =>
    hdigits _ 0 (by rw [h]; simp) c.toLower (List.mem_map_of_mem hmem) hc
  exact .of_plain (hnot _ (by decide)) (hnot _ (by decide))

theorem Unclosed.quote_notMem {raw : List Char} (h : Unclosed raw) (hbackslash : '\\' ∉ raw) :
    '"' ∉ raw := by
  induction h with
  | nil => simp
  | char hquote _ _ ih =>
    simp only [List.mem_cons, not_or] at hbackslash ⊢
    exact ⟨Ne.symm hquote, ih hbackslash.2⟩
  | escape => simp at hbackslash

/-- A string of the standard ends where the reader that only skips escapes ends it. -/
theorem Decodes.unclosed {raw cs : List Char} (h : Decodes raw cs) : Unclosed raw := by
  induction h with
  | nil => exact .nil
  | char _ hquote hbackslash _ ih => exact .char hquote hbackslash ih
  | escape _ _ ih => exact .escape ih
  | unit hu _ _ ih => exact .escape ((Unclosed.of_codeUnit? hu).append ih)
  | pair hhi hlo _ _ _ ih =>
    exact .escape ((Unclosed.of_codeUnit? hhi).append (.escape ((Unclosed.of_codeUnit? hlo).append ih)))

/-- Text without control characters, quotation marks and backslashes is itself. -/
theorem Decodes.of_plain {raw : List Char} (h : ∀ c ∈ raw, 0x20 ≤ c.toNat ∧ c ≠ '"' ∧ c ≠ '\\') :
    Decodes raw raw := by
  induction raw with
  | nil => exact .nil
  | cons c raw ih =>
    simp only [List.forall_mem_cons] at h
    exact .char h.1.1 h.1.2.1 h.1.2.2 (ih h.2)

end Attestation.Json
