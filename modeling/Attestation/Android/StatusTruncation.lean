import Attestation.Android.StatusDocument

/-! Truncated status lists. A document the parser reads is determined by the text
it begins, so no cut before its final brace leaves a document behind; and the
parser never panics, so a cut text is refused with an error. -/

namespace Attestation.Android.StatusList

open Result Json

variable {bytes : Bytes} {pos : ℕ} {cs : List Char} {α β : Type}

/-! ### No scanner function panics -/

/-- The function returns at every position between two characters. -/
def Safe (bytes : Bytes) (f : ℕ → Result Error α) : Prop :=
  ∀ ⦃pos cs⦄, Rest bytes pos cs → Returns (f pos)

theorem expectChar_returns (bytes : Bytes) (pos : ℕ) (c : UInt8) :
    Returns (expectChar bytes pos c) :=
  .bind (.ensure _ _) fun _ _ => .ok _

theorem readString_safe : Safe bytes (readString bytes) := by
  intro pos cs h
  refine .bind (.ensure _ _) fun _ hopen => .bind (.okOr _ _) fun stop hstop => ?_
  have hskip := rest_skipWs h
  obtain ⟨ds, hds⟩ := (hskip.getElem?_eq_some_iff (c := '"') (by decide)).mp (ensure_eq_ok.mp hopen)
  have hstart : Rest bytes (skipWs bytes pos + 1) ds := (hds ▸ hskip).cons (by decide)
  rw [okOr_eq_ok, hstart.drop_eq, closingQuote_eq_some] at hstop
  obtain ⟨raw, rest, rfl, -, rfl⟩ := hstop
  -- the slice ends at the closing quotation mark
  rw [slice_eq_utf8 hstart]
  exact .bind (.ok _) fun _ _ => .bind (.okOr _ _) fun _ _ => .ok _

theorem Safe.skipWs {f : ℕ → Result Error α} (hf : Safe bytes f) :
    Safe bytes fun pos => f (skipWs bytes pos) :=
  fun _ _ h => hf (rest_skipWs h)

theorem Safe.member {value : ℕ → Result Error (α × ℕ)} (hvalue : Safe bytes value) :
    Safe bytes (member bytes value) := by
  intro pos cs h
  refine .bind (readString_safe h) fun ⟨key, pos₁⟩ hkey => ?_
  obtain ⟨_, rest, -, -, hrest⟩ := (reads_readString h _ _).mp hkey
  refine .bind (expectChar_returns _ _ _) fun pos₂ hpos₂ => ?_
  obtain ⟨_, -, hrest₂⟩ := (expectChar_eq_ok (rest_skipWs hrest) (c := ':') (by decide) rfl).mp hpos₂
  exact .bind (hvalue hrest₂) fun _ _ => .ok _

section Braces
variable {item : ℕ → Result Error (α × ℕ)} {add : β → α → β} {P : List Char → α → Prop}

/-- Every round of the loop leaves fewer characters, so the fuel lasts. -/
theorem commaLoop_returns (hitem : Reads bytes item P) (hsafe : Safe bytes item) {fuel : ℕ} {acc : β}
    (h : Rest bytes pos cs) (hfuel : cs.length < fuel) :
    Returns (commaLoop bytes item add fuel pos acc) := by
  induction fuel generalizing pos cs acc with
  | zero => exact absurd hfuel (Nat.not_lt_zero _)
  | succ fuel ih =>
    refine .bind (hsafe h) fun ⟨a, pos₁⟩ ha => ?_
    obtain ⟨text, rest, hcs, -, hrest⟩ := (hitem h _ _).mp ha
    have hskip := rest_skipWs hrest
    dsimp only
    split_ifs with hcomma
    · obtain ⟨ds, hds⟩ := (peekChar_eq_some hskip (c := ',') (by decide) rfl).mp hcomma
      refine ih (rest_skipWs ((hds ▸ hskip).cons (by decide))) ?_
      have h₁ := (List.dropWhile_suffix (l := cs) Json.isWs).length_le
      have h₂ := (List.dropWhile_suffix (l := rest) Json.isWs).length_le
      have h₃ := (List.dropWhile_suffix (l := ds) Json.isWs).length_le
      rw [hcs, List.length_append] at h₁
      rw [hds, List.length_cons] at h₂
      omega
    · exact .ok _

theorem braces_safe (hitem : Reads bytes item P) (hsafe : Safe bytes item) (add : β → α → β)
    (init : β) :
    Safe bytes (braces bytes item add init) := by
  intro pos cs h
  refine .bind (expectChar_returns _ _ _) fun pos₁ hpos₁ => ?_
  obtain ⟨rest, -, hrest⟩ := (expectChar_eq_ok h (c := '{') (by decide) rfl).mp hpos₁
  have hskip := rest_skipWs hrest
  dsimp only
  split_ifs
  · exact .bind (.ok _) fun _ _ => .bind (expectChar_returns _ _ _) fun _ _ => .ok _
  · refine .bind (commaLoop_returns hitem hsafe hskip ?_) fun _ _ =>
      .bind (expectChar_returns _ _ _) fun _ _ => .ok _
    have hlen := length_le_length_utf8 (rest.dropWhile Json.isWs)
    have := hskip.length_eq
    omega

end Braces

theorem readStatusObject_safe : Safe bytes (readStatusObject bytes) := by
  rw [readStatusObject_eq]
  exact braces_safe (reads_readString.member fun _ _ h => ⟨'"', h.head?_eq, by decide⟩)
    readString_safe.member _ _

theorem scan_returns (toLowercase : String → String) (cs : List Char) :
    Returns (scan toLowercase (utf8 cs)) := by
  refine .bind (expectChar_returns _ _ _) fun pos₁ hpos₁ => ?_
  obtain ⟨rest₁, -, hrest₁⟩ :=
    (expectChar_eq_ok (Rest.start cs) (c := '{') (by decide) rfl).mp hpos₁
  refine .bind (readString_safe.skipWs hrest₁) fun ⟨key, pos₂⟩ hkey => .bind (.ensure _ _) fun _ _ => ?_
  obtain ⟨_, rest₂, -, -, hrest₂⟩ := (reads_readString.skipWs hrest₁ _ _).mp hkey
  refine .bind (expectChar_returns _ _ _) fun pos₃ hpos₃ => ?_
  obtain ⟨rest₃, -, hrest₃⟩ :=
    (expectChar_eq_ok (rest_skipWs hrest₂) (c := ':') (by decide) rfl).mp hpos₃
  have hentries := braces_safe (reads_entry (utf8 cs)) readStatusObject_safe.skipWs.member
    (insertEntry toLowercase) ∅
  exact .bind (hentries.skipWs hrest₃) fun _ _ => .bind (expectChar_returns _ _ _) fun _ _ => .ok _

/-- The parser never panics. -/
theorem fromJson_returns (cr : Crates) (json : String) : Returns (fromJson cr json) := by
  rw [fromJson_eq_scan, asBytes_eq_utf8]
  intro h
  rcases hscan : scan cr.toLowercase (utf8 (trim json).toList) with e | r
  · rw [hscan] at h
    obtain rfl := Except.error.inj h
    exact scan_returns _ _ hscan
  · rw [hscan] at h
    cases h

/-! ### Cuts -/

/-- The parser, with the number of bytes it consumes up to and with the closing
brace: those stripped in front and those scanned. -/
def fromJsonConsumed (cr : Crates) (json : String) : Result Error (StatusList × ℕ) := do
  let (list, pos) ← scan cr.toLowercase (asBytes (trim json))
  pure (list, (utf8 (lead json)).length + pos)

/-- What is consumed is a document with what stands in front of it. -/
theorem fromJsonConsumed_of_document {cr : Crates} {json : String} {boms w text rest : List Char}
    {entries : List (String × List (String × String))}
    (hjson : json.toList = boms ++ w ++ text ++ rest) (hboms : ∀ c ∈ boms, c.toNat = 0xFEFF)
    (hw : ∀ c ∈ w, isWhiteSpace c = true) (hdocument : Document Verbatim text entries) :
    fromJsonConsumed cr json =
      .ok (ofEntries cr.toLowercase entries, (utf8 (boms ++ w ++ text)).length) := by
  obtain ⟨hlead, hscan⟩ := scan_of_document cr.toLowercase hjson hboms hw hdocument
  rw [fromJsonConsumed, hscan, hlead]
  simp only [utf8_append, List.length_append]
  rfl

/-- No cut before the closing brace of an accepted text is accepted. -/
theorem fromJson_cut {cr : Crates} {json : String} {list : StatusList}
    (haccepted : fromJson cr json = .ok list) :
    ∃ n, fromJsonConsumed cr json = .ok (list, n) ∧ ∀ k < n, ∀ cut : String,
      asBytes cut = (asBytes json).take k → ∃ e, fromJson cr cut = .error (.err e) := by
  obtain ⟨boms, w, text, rest, entries, hjson, hboms, hw, hdocument, rfl⟩ :=
    fromJson_eq_ok.mp haccepted
  have hconsumed : fromJsonConsumed cr json = _ :=
    fromJsonConsumed_of_document hjson hboms hw hdocument
  refine ⟨_, hconsumed, fun k hk cut hcut => ?_⟩
  rcases hresult : fromJson cr cut with (e | _) | list
  · exact ⟨e, rfl⟩
  · exact absurd hresult (fromJson_returns cr cut)
  · exfalso
    obtain ⟨boms', w', text', rest', entries', hcuttext, hboms', hw', hdocument', -⟩ :=
      fromJson_eq_ok.mp hresult
    rw [asBytes_eq_utf8, asBytes_eq_utf8] at hcut
    obtain ⟨more, hmore⟩ := prefix_of_utf8_prefix (hcut ▸ List.take_prefix k (utf8 json.toList))
    -- the document of the cut text is the one the parser reads in the whole text
    have hjson' : json.toList = boms' ++ w' ++ text' ++ (rest' ++ more) := by
      rw [← hmore, hcuttext]
      simp only [List.append_assoc]
    have hsame := hconsumed.symm.trans (fromJsonConsumed_of_document hjson' hboms' hw' hdocument')
    have hlen := congrArg List.length hcut
    rw [(Prod.mk.inj (Except.ok.inj hsame)).2] at hk
    rw [hcuttext, utf8_append, List.length_append, List.length_take] at hlen
    omega

/-- An empty list without its last brace. -/
theorem fromJson_cut_empty : ∃ e, fromJson (.ofTables [] []) "\x7b\"entries\":\x7b\x7d" =
    .error (.err e) := by
  obtain ⟨list, hlist⟩ := exists_eq_ok
    (x := fromJson (.ofTables [] []) "\x7b\"entries\":\x7b\x7d\x7d") (by decide +kernel)
  obtain ⟨n, hn, hcut⟩ := fromJson_cut hlist
  have hlength : (fromJsonConsumed (.ofTables [] []) "\x7b\"entries\":\x7b\x7d\x7d").map
      Prod.snd = .ok 14 := by decide +kernel
  rw [hn] at hlength
  obtain rfl : n = 14 := Except.ok.inj hlength
  exact hcut 13 (by decide) _ (by decide +kernel)

end Attestation.Android.StatusList
