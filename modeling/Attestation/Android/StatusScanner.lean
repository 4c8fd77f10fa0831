import Attestation.Android.StatusList
import Attestation.Base.Json
import Attestation.Base.Utf8
import Mathlib.Data.List.DropRight

/-! What the status list scanner reads. Each scanner function reads, after any
whitespace, a text of a grammar over characters, and stops right after it. The
grammar is that of JSON objects, with every string taken verbatim: it runs to the
first quotation mark that no backslash hides, and escapes are not decoded. -/

namespace Attestation.Android.StatusList

open Result Json

variable {bytes : Bytes} {pos pos' : ℕ} {cs : List Char} {α β : Type}

/-- A string taken as it is written. -/
def Verbatim (raw : List Char) (s : String) : Prop := Unclosed raw ∧ s = String.ofList raw

/-- The function reads, after whitespace, a text of the grammar and its value. -/
def Reads (bytes : Bytes) (f : ℕ → Result Error (α × ℕ)) (P : List Char → α → Prop) : Prop :=
  ∀ ⦃pos cs⦄, Rest bytes pos cs → ∀ a pos', f pos = .ok (a, pos') ↔
    ∃ text rest, cs.dropWhile Json.isWs = text ++ rest ∧ P text a ∧ Rest bytes pos' rest

/-! ### Whitespace and single characters -/

theorem isWs_eq {c : Char} (hc : c.toNat < 128) : isWs (UInt8.ofNat c.toNat) = Json.isWs c := by
  have h : ∀ d : Char, d.toNat < 128 → (UInt8.ofNat c.toNat = UInt8.ofNat d.toNat ↔ c = d) :=
    fun d hd => ofNat_toNat_inj hc hd
  rw [Bool.eq_iff_iff]
  simp only [isWs, Json.isWs, Bool.or_eq_true, decide_eq_true_eq]
  exact or_congr (or_congr (or_congr (h ' ' (by decide)) (h '\n' (by decide)))
    (h '\r' (by decide))) (h '\t' (by decide))

theorem takeWhile_utf8 (cs : List Char) :
    (utf8 cs).takeWhile isWs = utf8 (cs.takeWhile Json.isWs) := by
  induction cs with
  | nil => rfl
  | cons c cs ih =>
    by_cases hc : c.toNat < 128
    · rw [utf8_cons, utf8EncodeChar_of_ascii hc, List.singleton_append, List.takeWhile_cons,
        List.takeWhile_cons, isWs_eq hc]
      split_ifs
      · rw [ih, utf8_cons, utf8EncodeChar_of_ascii hc, List.singleton_append]
      · rfl
    · have hws : Json.isWs c = false := by
        rw [Json.isWs]
        simp only [Bool.or_eq_false_iff, decide_eq_false_iff_not]
        refine ⟨⟨⟨?_, ?_⟩, ?_⟩, ?_⟩ <;> rintro rfl <;> exact hc (by decide)
      obtain ⟨b, bs, hbs⟩ := List.exists_cons_of_ne_nil (String.utf8EncodeChar_ne_nil (c := c))
      have hb := le_of_mem_utf8EncodeChar (Nat.le_of_not_lt hc) b (by simp [hbs])
      have hbws : isWs b = false := by
        simp only [isWs, Bool.or_eq_false_iff, decide_eq_false_iff_not]
        refine ⟨⟨⟨?_, ?_⟩, ?_⟩, ?_⟩ <;> rintro rfl <;> exact absurd hb (by decide)
      rw [utf8_cons, hbs, List.cons_append, List.takeWhile_cons_of_neg (by simp [hbws]),
        List.takeWhile_cons_of_neg (by simp [hws]), utf8_nil]

theorem rest_skipWs (h : Rest bytes pos cs) :
    Rest bytes (skipWs bytes pos) (cs.dropWhile Json.isWs) := by
  rw [skipWs, h.drop_eq, takeWhile_utf8]
  apply Rest.append
  rwa [List.takeWhile_append_dropWhile]

theorem peekChar_eq_some (h : Rest bytes pos cs) {c : Char} (hc : c.toNat < 128) {b : UInt8}
    (hb : b = UInt8.ofNat c.toNat) : peekChar bytes pos = some b ↔ ∃ ds, cs = c :: ds := by
  rw [peekChar, hb, h.getElem?_eq_some_iff hc]

theorem expectChar_eq_ok (h : Rest bytes pos cs) {c : Char} (hc : c.toNat < 128) {b : UInt8}
    (hb : b = UInt8.ofNat c.toNat) : expectChar bytes pos b = .ok pos' ↔
      ∃ rest, cs.dropWhile Json.isWs = c :: rest ∧ Rest bytes pos' rest := by
  have hskip := rest_skipWs h
  simp only [expectChar, bind_eq_ok, ensure_eq_ok, pure_eq_ok, exists_const, hb,
    hskip.getElem?_eq_some_iff hc]
  constructor
  · rintro ⟨⟨rest, hrest⟩, rfl⟩
    exact ⟨rest, hrest, (hrest ▸ hskip).cons hc⟩
  · rintro ⟨rest, hrest, hpos⟩
    exact ⟨⟨rest, hrest⟩, ((hrest ▸ hskip).cons hc).pos_eq hpos⟩

/-! ### Strings -/

theorem closingQuote_quote (rest : Bytes) (pos : ℕ) :
    closingQuote (0x22 :: rest) pos = some pos := by
  cases rest <;> simp [closingQuote]

theorem closingQuote_escape (b : UInt8) (rest : Bytes) (pos : ℕ) :
    closingQuote (0x5C :: b :: rest) pos = closingQuote rest (pos + 2) := by
  simp [closingQuote]

theorem closingQuote_cons {b : UInt8} (hquote : b ≠ 0x22) (hbackslash : b ≠ 0x5C) (rest : Bytes)
    (pos : ℕ) : closingQuote (b :: rest) pos = closingQuote rest (pos + 1) := by
  cases rest <;> simp [closingQuote, hquote, hbackslash]

/-- The bytes of a character that is not ASCII are passed over. -/
theorem closingQuote_append {bs : Bytes} (hbs : ∀ b ∈ bs, 128 ≤ b.toNat) (rest : Bytes) (pos : ℕ) :
    closingQuote (bs ++ rest) pos = closingQuote rest (pos + bs.length) := by
  induction bs generalizing pos with
  | nil => rfl
  | cons b bs ih =>
    obtain ⟨hb, hbs⟩ := List.forall_mem_cons.mp hbs
    rw [List.cons_append, closingQuote_cons, ih hbs, List.length_cons]
    · congr 1
      omega
    · rintro rfl
      exact absurd hb (by decide)
    · rintro rfl
      exact absurd hb (by decide)

theorem closingQuote_char {c : Char} (hquote : c ≠ '"') (hbackslash : c ≠ '\\') (cs : List Char)
    (pos : ℕ) : closingQuote (utf8 (c :: cs)) pos =
      closingQuote (utf8 cs) (pos + (String.utf8EncodeChar c).length) := by
  by_cases hc : c.toNat < 128
  · rw [utf8_cons, utf8EncodeChar_of_ascii hc, List.singleton_append, closingQuote_cons]
    · rfl
    · exact mt (ofNat_toNat_inj hc (by decide : '"'.toNat < 128)).mp hquote
    · exact mt (ofNat_toNat_inj hc (by decide : '\\'.toNat < 128)).mp hbackslash
  · rw [utf8_cons, closingQuote_append (le_of_mem_utf8EncodeChar (Nat.le_of_not_lt hc))]

/-- A backslash hides one byte; the other bytes of the character it hides are
passed over. -/
theorem closingQuote_escaped (c : Char) (cs : List Char) (pos : ℕ) :
    closingQuote (utf8 ('\\' :: c :: cs)) pos =
      closingQuote (utf8 cs) (pos + 1 + (String.utf8EncodeChar c).length) := by
  have hslash : String.utf8EncodeChar '\\' = [0x5C] := rfl
  obtain ⟨b, bs, hbs⟩ := List.exists_cons_of_ne_nil (String.utf8EncodeChar_ne_nil (c := c))
  have htail : ∀ b ∈ bs, 128 ≤ b.toNat := by
    by_cases hc : c.toNat < 128
    · rw [utf8EncodeChar_of_ascii hc, List.cons.injEq] at hbs
      simp [← hbs.2]
    · exact fun b hb => le_of_mem_utf8EncodeChar (Nat.le_of_not_lt hc) b (by simp [hbs, hb])
  rw [utf8_cons, utf8_cons, hslash, hbs, List.singleton_append, List.cons_append,
    closingQuote_escape, closingQuote_append htail, List.length_cons]
  congr 1
  omega

/-- The scanner stops at the first quotation mark that no backslash hides. -/
theorem closingQuote_eq_some {stop : ℕ} : closingQuote (utf8 cs) pos = some stop ↔
    ∃ raw rest, cs = raw ++ '"' :: rest ∧ Unclosed raw ∧ stop = pos + (utf8 raw).length := by
  induction hn : cs.length using Nat.strong_induction_on generalizing cs pos with
  | _ n ih =>
    constructor
    · intro h
      rcases cs with _ | ⟨c, cs⟩
      · simp [closingQuote] at h
      by_cases hquote : c = '"'
      · subst hquote
        rw [utf8_cons, show String.utf8EncodeChar '"' = [0x22] from rfl, List.singleton_append,
          closingQuote_quote] at h
        exact ⟨[], cs, rfl, .nil, by simpa using h.symm⟩
      by_cases hbackslash : c = '\\'
      · subst hbackslash
        rcases cs with _ | ⟨d, cs⟩
        · simp [show String.utf8EncodeChar '\\' = [0x5C] from rfl, closingQuote] at h
        rw [closingQuote_escaped] at h
        obtain ⟨raw, rest, rfl, hraw, rfl⟩ := (ih cs.length (by simp [← hn]) rfl).mp h
        refine ⟨'\\' :: d :: raw, rest, rfl, .escape hraw, ?_⟩
        simp only [utf8_cons, List.length_append, show (String.utf8EncodeChar '\\').length = 1 from rfl]
        omega
      · rw [closingQuote_char hquote hbackslash] at h
        obtain ⟨raw, rest, rfl, hraw, rfl⟩ := (ih cs.length (by simp [← hn]) rfl).mp h
        refine ⟨c :: raw, rest, rfl, .char hquote hbackslash hraw, ?_⟩
        simp only [utf8_cons, List.length_append]
        omega
    · rintro ⟨raw, rest, rfl, hraw, rfl⟩
      clear ih hn
      induction hraw generalizing pos with
      | nil =>
        rw [List.nil_append, utf8_cons, show String.utf8EncodeChar '"' = [0x22] from rfl,
          List.singleton_append, closingQuote_quote]
        rfl
      | char hquote hbackslash _ ih =>
        rw [List.cons_append, closingQuote_char hquote hbackslash, ih, utf8_cons, List.length_append,
          Nat.add_assoc]
      | escape _ ih =>
        rw [List.cons_append, List.cons_append, closingQuote_escaped, ih]
        simp only [utf8_cons, List.length_append, show (String.utf8EncodeChar '\\').length = 1 from rfl]
        congr 1
        omega

theorem slice_eq_utf8 {raw rest : List Char} (h : Rest bytes pos (raw ++ rest)) :
    (slice bytes pos (pos + (utf8 raw).length) : Result Error Bytes) = .ok (utf8 raw) := by
  have hle := h.append.le
  rw [slice, if_pos ⟨Nat.le_add_right _ _, hle⟩, h.drop_eq, utf8_append, Nat.add_sub_cancel_left,
    List.take_left]

theorem reads_readString : Reads bytes (readString bytes) (Quoted Verbatim) := by
  intro pos cs h s pos'
  have hskip := rest_skipWs h
  have hquote := hskip.getElem?_eq_some_iff (c := '"') (by decide)
  -- what follows the opening quotation mark
  have hscan : ∀ ds, cs.dropWhile Json.isWs = '"' :: ds → ∀ raw rest, ds = raw ++ '"' :: rest →
      Rest bytes (skipWs bytes pos + 1) (raw ++ '"' :: rest) ∧
        Rest bytes (skipWs bytes pos + 1 + (utf8 raw).length + 1) rest := by
    rintro ds hds raw rest rfl
    have hstart := (hds ▸ hskip).cons (by decide)
    exact ⟨hstart, hstart.append.cons (by decide)⟩
  rw [readString]
  simp only [bind_eq_ok, ensure_eq_ok, exists_const, okOr_eq_ok, pure_eq_ok, Prod.mk.injEq]
  constructor
  · rintro ⟨hopen, stop, hstop, raw', hslice, s', hs, rfl, rfl⟩
    obtain ⟨ds, hds⟩ := hquote.mp hopen
    have hopened : Rest bytes (skipWs bytes pos + 1) ds := (hds ▸ hskip).cons (by decide)
    rw [hopened.drop_eq, closingQuote_eq_some] at hstop
    obtain ⟨raw, rest, hraw, hunclosed, rfl⟩ := hstop
    obtain ⟨hstart, hrest⟩ := hscan ds hds raw rest hraw
    rw [slice_eq_utf8 hstart, Except.ok.injEq] at hslice
    rw [← hslice, fromUTF8?_utf8, Option.some.injEq] at hs
    exact ⟨'"' :: raw ++ ['"'], rest, by simp [hds, hraw], ⟨raw, ⟨hunclosed, hs.symm⟩, rfl⟩, hrest⟩
  · rintro ⟨_, rest, htext, ⟨raw, ⟨hunclosed, rfl⟩, rfl⟩, hpos⟩
    have hds : cs.dropWhile Json.isWs = '"' :: (raw ++ '"' :: rest) := by simp [htext]
    obtain ⟨hstart, hrest⟩ := hscan _ hds raw rest rfl
    refine ⟨hquote.mpr ⟨_, hds⟩, _, ?_, _, slice_eq_utf8 hstart, _, fromUTF8?_utf8 raw, rfl,
      hrest.pos_eq hpos⟩
    rw [hstart.drop_eq, closingQuote_eq_some]
    exact ⟨raw, rest, rfl, hunclosed, rfl⟩

/-! ### Members -/

/-- The loops of the two objects: an item, then another one after a comma. -/
def commaLoop (bytes : Bytes) (item : ℕ → Result Error (α × ℕ)) (add : β → α → β) :
    ℕ → ℕ → β → Result Error (β × ℕ)
  | 0, _, _ => .error .panic
  | fuel + 1, pos, acc => do
    let (a, pos) ← item pos
    let pos := skipWs bytes pos
    if peekChar bytes pos = some 0x2C then
      commaLoop bytes item add fuel (skipWs bytes (pos + 1)) (add acc a)
    else pure (add acc a, pos)

/-- A name, a colon and a value. -/
def member (bytes : Bytes) (value : ℕ → Result Error (α × ℕ)) (pos : ℕ) :
    Result Error ((String × α) × ℕ) := do
  let (key, pos) ← readString bytes pos
  let pos ← expectChar bytes (skipWs bytes pos) 0x3A
  let (val, pos) ← value pos
  pure ((key, val), pos)

/-- An object, its members added up. -/
def braces (bytes : Bytes) (item : ℕ → Result Error (α × ℕ)) (add : β → α → β) (init : β)
    (pos : ℕ) : Result Error (β × ℕ) := do
  let pos ← expectChar bytes pos 0x7B
  let pos := skipWs bytes pos
  let (acc, pos) ←
    if peekChar bytes pos = some 0x7D then pure (init, pos)
    else commaLoop bytes item add (bytes.length + 1) pos init
  let pos ← expectChar bytes pos 0x7D
  pure (acc, pos)

theorem Reads.skipWs {f : ℕ → Result Error (α × ℕ)} {P : List Char → α → Prop}
    (hf : Reads bytes f P) : Reads bytes (fun pos => f (skipWs bytes pos)) P := by
  intro pos cs h a pos'
  rw [hf (rest_skipWs h), List.dropWhile_idempotent]

theorem Reads.member {value : ℕ → Result Error (α × ℕ)} {V : List Char → α → Prop}
    (hvalue : Reads bytes value V)
    (hV : ∀ text a, V text a → ∃ c, text.head? = some c ∧ Json.isWs c = false) :
    Reads bytes (member bytes value) (Member Verbatim V) := by
  intro pos cs h m pos'
  simp only [StatusList.member, bind_eq_ok, pure_eq_ok, Prod.exists, Prod.mk.injEq]
  constructor
  · rintro ⟨key, pos₁, hkey, pos₂, hcolon, val, pos₃, hval, rfl, rfl⟩
    obtain ⟨name, rest₁, hname, hquoted, hpos₁⟩ := (reads_readString h _ _).mp hkey
    obtain ⟨rest₂, hrest₂, hpos₂⟩ :=
      (expectChar_eq_ok (rest_skipWs hpos₁) (c := ':') (by decide) rfl).mp hcolon
    obtain ⟨value, rest, hrest, hvaluetext, hpos⟩ := (hvalue hpos₂ _ _).mp hval
    rw [List.dropWhile_idempotent] at hrest₂
    obtain ⟨w, hw, rfl⟩ := exists_ws_append hrest₂
    obtain ⟨w', hw', rfl⟩ := exists_ws_append hrest
    exact ⟨name ++ w ++ ':' :: w' ++ value, rest, by simp [hname],
      ⟨name, w, w', value, hquoted, hw, hw', hvaluetext, rfl⟩, hpos⟩
  · rintro ⟨_, rest, htext, ⟨name, w, w', value, hquoted, hw, hw', hvaluetext, rfl⟩, hpos⟩
    simp only [List.append_assoc, List.cons_append] at htext
    have hpos₁ := (htext ▸ rest_skipWs h).append
    have hcolon : (w ++ ':' :: (w' ++ (value ++ rest))).dropWhile Json.isWs =
        ':' :: (w' ++ (value ++ rest)) :=
      dropWhile_ws_append (t := [':']) hw rfl (by decide)
    have hpos₂ := (hcolon ▸ rest_skipWs hpos₁).cons (by decide)
    obtain ⟨c, hhead, hc⟩ := hV _ _ hvaluetext
    have hval := (hvalue hpos₂ m.2 pos').mpr
      ⟨value, rest, dropWhile_ws_append hw' hhead hc, hvaluetext, hpos⟩
    have hexpect := (expectChar_eq_ok (rest_skipWs hpos₁) (c := ':') (by decide) rfl).mpr
      ⟨_, (List.dropWhile_idempotent _ _).trans hcolon, hpos₂⟩
    exact ⟨m.1, _, (reads_readString h _ _).mpr ⟨name, _, htext, hquoted, hpos₁⟩, _, hexpect, m.2,
      pos', hval, rfl, rfl⟩

section Braces
variable {item : ℕ → Result Error (α × ℕ)} {add : β → α → β} {P : List Char → α → Prop}

theorem commaLoop_comma {fuel pos₁ : ℕ} {acc : β} {a : α} (ha : item pos = .ok (a, pos₁))
    (hcomma : peekChar bytes (skipWs bytes pos₁) = some 0x2C) :
    commaLoop bytes item add (fuel + 1) pos acc =
      commaLoop bytes item add fuel (skipWs bytes (skipWs bytes pos₁ + 1)) (add acc a) := by
  rw [commaLoop, ha]
  exact if_pos hcomma

theorem commaLoop_last {fuel pos₁ : ℕ} {acc : β} {a : α} (ha : item pos = .ok (a, pos₁))
    (hlast : peekChar bytes (skipWs bytes pos₁) ≠ some 0x2C) :
    commaLoop bytes item add (fuel + 1) pos acc = .ok (add acc a, skipWs bytes pos₁) := by
  rw [commaLoop, ha]
  exact if_neg hlast

theorem commaLoop_sound (hitem : Reads bytes item P) {fuel : ℕ} {acc b : β} (h : Rest bytes pos cs)
    (hok : commaLoop bytes item add fuel pos acc = .ok (b, pos')) :
    ∃ body rest as, cs = body ++ rest ∧ Separated P body as ∧ b = as.foldl add acc ∧
      rest.dropWhile Json.isWs = rest ∧ Rest bytes pos' rest := by
  induction fuel generalizing pos cs acc with
  | zero => cases hok
  | succ fuel ih =>
    simp only [commaLoop, bind_eq_ok, Prod.exists] at hok
    obtain ⟨a, pos₁, ha, hok⟩ := hok
    obtain ⟨text, rest₁, htext, hP, hpos₁⟩ := (hitem h _ _).mp ha
    obtain ⟨w, hw, rfl⟩ := exists_ws_append htext
    have hskip := rest_skipWs hpos₁
    split_ifs at hok with hcomma
    · obtain ⟨ds, hds⟩ := (peekChar_eq_some hskip (c := ',') (by decide) rfl).mp hcomma
      have hnext := rest_skipWs ((hds ▸ hskip).cons (by decide))
      obtain ⟨body, rest, as, hbody, hsep, rfl, hws, hpos⟩ := ih hnext hok
      obtain ⟨w', hw', rfl⟩ := exists_ws_append hds
      obtain ⟨w'', hw'', rfl⟩ := exists_ws_append hbody
      exact ⟨w ++ text ++ w' ++ ',' :: (w'' ++ body), rest, a :: as, by simp,
        .cons hw hP hw' (hsep.ws_append hw''), rfl, hws, hpos⟩
    · obtain ⟨rfl, rfl⟩ := Prod.mk.inj (pure_eq_ok.mp hok)
      obtain ⟨w', hw', hrest₁⟩ := exists_ws_append (rfl : rest₁.dropWhile Json.isWs = _)
      exact ⟨w ++ text ++ w', _, [a], by simp [← hrest₁], .last hw hP hw', rfl,
        List.dropWhile_idempotent _ _, hskip⟩

theorem commaLoop_complete (hitem : Reads bytes item P)
    (hP : ∀ text a, P text a → text.head? = some '"') {body rest : List Char} {as : List α}
    (hsep : Separated P body as) (add : β → α → β) (acc : β) {fuel : ℕ} (hfuel : as.length ≤ fuel)
    (h : Rest bytes pos cs)
    (hcs : cs.dropWhile Json.isWs = (body ++ '}' :: rest).dropWhile Json.isWs) :
    ∃ pos', commaLoop bytes item add fuel pos acc = .ok (as.foldl add acc, pos') ∧
      Rest bytes pos' ('}' :: rest) := by
  induction hsep generalizing pos cs fuel acc with
  | @last w text w' a hw htext hw' =>
    obtain ⟨fuel, rfl⟩ := Nat.exists_eq_succ_of_ne_zero (Nat.ne_of_gt hfuel)
    have hstart : cs.dropWhile Json.isWs = text ++ (w' ++ '}' :: rest) := by
      rw [hcs, ← dropWhile_ws_append hw (hP _ _ htext) (by decide)]
      simp only [List.append_assoc]
    have hpos₁ := (hstart ▸ rest_skipWs h).append
    have hclose : (w' ++ '}' :: rest).dropWhile Json.isWs = '}' :: rest :=
      dropWhile_ws_append (t := ['}']) hw' rfl (by decide)
    have hskip := hclose ▸ rest_skipWs hpos₁
    refine ⟨_, commaLoop_last ((hitem h _ _).mpr ⟨text, _, hstart, htext, hpos₁⟩) ?_, hskip⟩
    intro hcomma
    obtain ⟨ds, hds⟩ := (peekChar_eq_some hskip (c := ',') (by decide) rfl).mp hcomma
    cases hds
  | @cons w text w' body a as hw htext hw' _ ih =>
    obtain ⟨fuel, rfl⟩ := Nat.exists_eq_succ_of_ne_zero (Nat.ne_of_gt (Nat.lt_of_lt_of_le
      (Nat.succ_pos _) hfuel))
    have hstart : cs.dropWhile Json.isWs = text ++ (w' ++ ',' :: (body ++ '}' :: rest)) := by
      rw [hcs, ← dropWhile_ws_append hw (hP _ _ htext) (by decide)]
      simp only [List.append_assoc, List.cons_append]
    have hpos₁ := (hstart ▸ rest_skipWs h).append
    have hcomma : (w' ++ ',' :: (body ++ '}' :: rest)).dropWhile Json.isWs =
        ',' :: (body ++ '}' :: rest) :=
      dropWhile_ws_append (t := [',']) hw' rfl (by decide)
    have hskip := hcomma ▸ rest_skipWs hpos₁
    obtain ⟨pos', hloop, hpos'⟩ := ih (add acc a) (Nat.le_of_succ_le_succ hfuel)
      (rest_skipWs (hskip.cons (by decide))) (List.dropWhile_idempotent _ _)
    refine ⟨pos', ?_, hpos'⟩
    rw [commaLoop_comma ((hitem h _ _).mpr ⟨text, _, hstart, htext, hpos₁⟩), hloop, List.foldl_cons]
    exact (peekChar_eq_some hskip (c := ',') (by decide) rfl).mpr ⟨_, rfl⟩

theorem braces_empty {init : β} {pos₁ pos₂ : ℕ} (hopen : expectChar bytes pos 0x7B = .ok pos₁)
    (hempty : peekChar bytes (skipWs bytes pos₁) = some 0x7D)
    (hclose : expectChar bytes (skipWs bytes pos₁) 0x7D = .ok pos₂) :
    braces bytes item add init pos = .ok (init, pos₂) := by
  simp only [braces, hopen, bind, Except.bind, if_pos hempty, pure, Except.pure, hclose]

theorem braces_items {init b : β} {pos₁ pos₂ pos₃ : ℕ}
    (hopen : expectChar bytes pos 0x7B = .ok pos₁)
    (hitems : peekChar bytes (skipWs bytes pos₁) ≠ some 0x7D)
    (hloop : commaLoop bytes item add (bytes.length + 1) (skipWs bytes pos₁) init = .ok (b, pos₂))
    (hclose : expectChar bytes pos₂ 0x7D = .ok pos₃) :
    braces bytes item add init pos = .ok (b, pos₃) := by
  simp only [braces, hopen, bind, Except.bind, if_neg hitems, hloop, pure, Except.pure, hclose]

theorem Reads.braces (hitem : Reads bytes item P)
    (hP : ∀ text a, P text a → text.head? = some '"') (add : β → α → β) (init : β) :
    Reads bytes (braces bytes item add init)
      (fun text b => ∃ as, Braced P text as ∧ b = as.foldl add init) := by
  intro pos cs h b pos'
  have hopen : ∀ {pos₁}, expectChar bytes pos 0x7B = .ok pos₁ ↔ _ :=
    expectChar_eq_ok h (c := '{') (by decide) rfl
  have hclose : ∀ {pos₂ pos₃ ds}, Rest bytes pos₂ ds →
      (expectChar bytes pos₂ 0x7D = .ok pos₃ ↔ _) := fun hds =>
    expectChar_eq_ok hds (c := '}') (by decide) rfl
  have hpeek : ∀ {pos₂ ds}, Rest bytes pos₂ ds → (peekChar bytes pos₂ = some 0x7D ↔ _) :=
    fun hds => peekChar_eq_some hds (c := '}') (by decide) rfl
  constructor
  · intro hok
    simp only [StatusList.braces, bind_eq_ok] at hok
    obtain ⟨pos₁, hpos₁, hok⟩ := hok
    obtain ⟨ds, hds, hrest₁⟩ := hopen.mp hpos₁
    have hskip := rest_skipWs hrest₁
    split_ifs at hok with hempty
    · simp only [bind_eq_ok, pure_eq_ok, Prod.exists, Prod.mk.injEq] at hok
      obtain ⟨_, _, ⟨rfl, rfl⟩, pos₃, hpos₃, rfl, rfl⟩ := hok
      obtain ⟨rest, hrest, hpos'⟩ := (hclose hskip).mp hpos₃
      obtain ⟨w, hw, rfl⟩ := exists_ws_append ((List.dropWhile_idempotent _ _).symm.trans hrest)
      exact ⟨'{' :: w ++ ['}'], rest, by simp [hds], ⟨[], .empty hw, rfl⟩, hpos'⟩
    · simp only [bind_eq_ok, pure_eq_ok, Prod.exists, Prod.mk.injEq] at hok
      obtain ⟨_, pos₂, hloop, pos₃, hpos₃, rfl, rfl⟩ := hok
      obtain ⟨body, rest₂, as, hbody, hsep, rfl, hws, hpos₂⟩ := commaLoop_sound hitem hskip hloop
      obtain ⟨rest, hrest, hpos'⟩ := (hclose hpos₂).mp hpos₃
      obtain rfl := hws.symm.trans hrest
      obtain ⟨w, hw, rfl⟩ := exists_ws_append hbody
      exact ⟨'{' :: (w ++ body) ++ ['}'], rest, by simp [hds], ⟨as, .items (hsep.ws_append hw), rfl⟩,
        hpos'⟩
  · rintro ⟨_, rest, htext, ⟨as, hbraced, rfl⟩, hpos'⟩
    cases hbraced with
    | @empty w hw =>
      have hcs : cs.dropWhile Json.isWs = '{' :: (w ++ '}' :: rest) := by simp [htext]
      have hrest₁ := (hcs ▸ rest_skipWs h).cons (by decide)
      have hdrop : (w ++ '}' :: rest).dropWhile Json.isWs = '}' :: rest :=
        dropWhile_ws_append (t := ['}']) hw rfl (by decide)
      have hskip := hdrop ▸ rest_skipWs hrest₁
      exact braces_empty (hopen.mpr ⟨_, hcs, hrest₁⟩) ((hpeek hskip).mpr ⟨rest, rfl⟩)
        ((hclose hskip).mpr ⟨rest, by simp [Json.isWs], hpos'⟩)
    | @items body _ hsep =>
      have hcs : cs.dropWhile Json.isWs = '{' :: (body ++ '}' :: rest) := by simp [htext]
      have hrest₁ := (hcs ▸ rest_skipWs h).cons (by decide)
      have hskip := rest_skipWs hrest₁
      have hlen : as.length ≤ bytes.length + 1 := by
        have hbody := length_le_length_utf8 (body ++ '}' :: rest)
        have := hsep.length_le
        have := hrest₁.length_eq
        simp only [List.length_append, List.length_cons] at hbody
        omega
      obtain ⟨pos₂, hloop, hpos₂⟩ := commaLoop_complete hitem hP hsep add init hlen hskip
        (List.dropWhile_idempotent _ _)
      refine braces_items (hopen.mpr ⟨_, hcs, hrest₁⟩) ?_ hloop
        ((hclose hpos₂).mpr ⟨rest, by simp [Json.isWs], hpos'⟩)
      intro hempty
      obtain ⟨ds, hds⟩ := (hpeek hskip).mp hempty
      have hhead := hsep.head?_dropWhile hP (by decide) ('}' :: rest)
      rw [hds] at hhead
      cases hhead

end Braces

end Attestation.Android.StatusList
