import Attestation.Android.StatusScanner

/-! The status list parser against the grammar: it accepts the texts that begin,
after byte-order marks and whitespace, with a document of the documented shape,
strings taken verbatim, and returns the entries of that document. -/

namespace Attestation.Android.StatusList

open Result Json

variable {bytes : Bytes} {pos' : ℕ} {cs : List Char}

/-! ### Documents -/

/-- The documented shape: an object with the one member `entries`, an object that
has an object of strings for each serial. -/
def Document (S : List Char → String → Prop) :
    List Char → List (String × List (String × String)) → Prop :=
  fun text entries => Object S (Object S (Object S (Quoted S))) text [("entries", entries)]

theorem Document.mono {S T : List Char → String → Prop} (h : ∀ raw s, S raw s → T raw s)
    {text : List Char} {entries : List (String × List (String × String))}
    (hdocument : Document S text entries) : Document T text entries :=
  Object.mono h (fun _ _ => Object.mono h fun _ _ => Object.mono h fun _ _ => Quoted.mono h)
    hdocument

/-- A member of a status object sets the field it names. -/
def setMember (entry : StatusEntry) (m : String × String) : StatusEntry :=
  match m.1 with
  | "status" => { entry with status := m.2 }
  | "reason" => { entry with reason := m.2 }
  | _ => entry

/-- The entry a status object gives. -/
def entryOf (members : List (String × String)) : StatusEntry :=
  members.foldl setMember ⟨"", ""⟩

def insertEntry (toLowercase : String → String) (entries : AList fun _ : String => StatusEntry)
    (m : String × StatusEntry) : AList fun _ : String => StatusEntry :=
  entries.insert (toLowercase m.1) m.2

/-- The status list a document gives. -/
def ofEntries (toLowercase : String → String) (entries : List (String × List (String × String))) :
    StatusList :=
  ⟨(entries.map (Prod.map id entryOf)).foldl (insertEntry toLowercase) ∅⟩

theorem readMembers_eq (fuel pos : ℕ) (entry : StatusEntry) :
    readMembers bytes fuel pos entry =
      commaLoop bytes (member bytes (readString bytes)) setMember fuel pos entry := by
  induction fuel generalizing pos entry with
  | zero => rfl
  | succ fuel ih =>
    simp only [readMembers, commaLoop, member, bind_assoc, pure_bind, ih]
    rfl

theorem readStatusObject_eq : readStatusObject bytes =
    braces bytes (member bytes (readString bytes)) setMember ⟨"", ""⟩ := by
  funext pos
  simp only [readStatusObject, braces, readMembers_eq]

theorem readEntries_eq (toLowercase : String → String) (fuel pos : ℕ)
    (entries : AList fun _ : String => StatusEntry) :
    readEntries toLowercase bytes fuel pos entries =
      commaLoop bytes (member bytes fun pos => readStatusObject bytes (skipWs bytes pos))
        (insertEntry toLowercase) fuel pos entries := by
  induction fuel generalizing pos entries with
  | zero => rfl
  | succ fuel ih =>
    simp only [readEntries, commaLoop, member, bind_assoc, pure_bind, ih]
    rfl

theorem reads_readStatusObject : Reads bytes (readStatusObject bytes)
    fun text entry => ∃ ms, Object Verbatim (Quoted Verbatim) text ms ∧ entry = entryOf ms := by
  rw [readStatusObject_eq]
  refine Reads.braces (.member reads_readString fun _ _ h => ?_) (fun _ _ h => h.head?_eq) _ _
  exact ⟨'"', h.head?_eq, by decide⟩

/-- The parser, with the position it stops at. -/
def scan (toLowercase : String → String) (bytes : Bytes) : Result Error (StatusList × ℕ) := do
  let pos ← expectChar bytes 0 0x7B
  let (key, pos) ← readString bytes (skipWs bytes pos)
  ensure (key = "entries")
    (.der ("status list expected top-level 'entries', got '" ++ key ++ "'"))
  let pos ← expectChar bytes (skipWs bytes pos) 0x3A
  let (entries, pos) ←
    braces bytes (member bytes fun pos => readStatusObject bytes (skipWs bytes pos))
      (insertEntry toLowercase) ∅ (skipWs bytes pos)
  let pos ← expectChar bytes (skipWs bytes pos) 0x7D
  pure (⟨entries⟩, pos)

theorem fromJson_eq_scan (cr : Crates) (json : String) :
    fromJson cr json = (scan cr.toLowercase (asBytes (trim json))).map Prod.fst := by
  simp only [fromJson, scan, braces, readEntries_eq, Result.map_bind, bind_assoc, pure_bind]
  generalize asBytes (trim json) = bytes
  refine bind_congr fun _ => bind_congr fun _ => bind_congr fun _ => bind_congr fun _ =>
    bind_congr fun _ => ?_
  split_ifs <;> simp only [bind_assoc, pure_bind] <;> rfl

theorem reads_entry (bytes : Bytes) :
    Reads bytes (member bytes fun pos => readStatusObject bytes (skipWs bytes pos))
      (Member Verbatim fun text entry => ∃ ms, Object Verbatim (Quoted Verbatim) text ms ∧
        entry = entryOf ms) :=
  reads_readStatusObject.skipWs.member fun _ _ ⟨_, h, _⟩ => ⟨'{', h.head?_eq, by decide⟩

theorem reads_entries (bytes : Bytes) (toLowercase : String → String) : Reads bytes
    (braces bytes (member bytes fun pos => readStatusObject bytes (skipWs bytes pos))
      (insertEntry toLowercase) ∅)
    fun text e => ∃ ms, Object Verbatim (Object Verbatim (Quoted Verbatim)) text ms ∧
      e = (ofEntries toLowercase ms).entries := by
  have hobject := (reads_entry bytes).braces (fun _ _ h => h.head?_eq) (insertEntry toLowercase) ∅
  intro pos cs h e pos'
  rw [hobject h]
  refine exists_congr fun text => exists_congr fun rest => and_congr_right fun _ =>
    and_congr_left fun _ => ?_
  constructor
  · rintro ⟨as, has, rfl⟩
    obtain ⟨ms, hms, rfl⟩ := object_map_iff.mp has
    exact ⟨ms, hms, rfl⟩
  · rintro ⟨ms, hms, rfl⟩
    exact ⟨_, object_map_iff.mpr ⟨ms, hms, rfl⟩, rfl⟩

/-- The outer object has one member, which is named `entries`. -/
theorem scan_eq_ok_iff_member {toLowercase : String → String} {list : StatusList} :
    scan toLowercase bytes = .ok (list, pos') ↔ ∃ pos₁ entries pos₂,
      expectChar bytes 0 0x7B = .ok pos₁ ∧
        member bytes (fun pos => braces bytes
          (member bytes fun pos => readStatusObject bytes (skipWs bytes pos))
          (insertEntry toLowercase) ∅ (skipWs bytes pos)) (skipWs bytes pos₁) =
            .ok (("entries", entries), pos₂) ∧
        expectChar bytes (skipWs bytes pos₂) 0x7D = .ok pos' ∧ list = ⟨entries⟩ := by
  simp only [scan, member, bind_eq_ok, ensure_eq_ok, pure_eq_ok, Prod.exists, Prod.mk.injEq]
  constructor
  · rintro ⟨pos₁, hopen, _, pos₂, hkey, _, rfl, pos₃, hcolon, entries, pos₄, hentries, pos₅, hclose,
      rfl, rfl⟩
    exact ⟨pos₁, entries, pos₄, hopen, ⟨_, pos₂, hkey, pos₃, hcolon, entries, pos₄, hentries,
      ⟨rfl, rfl⟩, rfl⟩, hclose, rfl⟩
  · rintro ⟨pos₁, _, _, hopen, ⟨_, pos₂, hkey, pos₃, hcolon, entries, pos₄, hentries, ⟨rfl, rfl⟩,
      rfl⟩, hclose, rfl⟩
    exact ⟨pos₁, hopen, _, pos₂, hkey, (), rfl, pos₃, hcolon, entries, pos₄, hentries, pos', hclose,
      rfl, rfl⟩

theorem scan_eq_ok {toLowercase : String → String} {list : StatusList} :
    scan toLowercase (utf8 cs) = .ok (list, pos') ↔ ∃ text rest entries,
      cs.dropWhile Json.isWs = text ++ rest ∧ Document Verbatim text entries ∧
        list = ofEntries toLowercase entries ∧ Rest (utf8 cs) pos' rest := by
  have hstart := Rest.start cs
  have hmember := ((reads_entries (utf8 cs) toLowercase).skipWs.member fun _ _ ⟨_, h, _⟩ =>
    ⟨'{', h.head?_eq, by decide⟩).skipWs
  rw [scan_eq_ok_iff_member]
  constructor
  · rintro ⟨pos₁, _, pos₂, hopen, hbody, hclose, rfl⟩
    obtain ⟨rest₁, hrest₁, hpos₁⟩ := (expectChar_eq_ok hstart (c := '{') (by decide) rfl).mp hopen
    obtain ⟨item, rest₂, hitem, hname, hpos₂⟩ := (hmember hpos₁ _ _).mp hbody
    obtain ⟨rest, hrest, hpos'⟩ :=
      (expectChar_eq_ok (rest_skipWs hpos₂) (c := '}') (by decide) rfl).mp hclose
    obtain ⟨w, hw, rfl⟩ := exists_ws_append hitem
    obtain ⟨w', hw', rfl⟩ := exists_ws_append ((List.dropWhile_idempotent _ _).symm.trans hrest)
    obtain ⟨name, v, v', value, hquoted, hv, hv', ⟨ms, hms, rfl⟩, rfl⟩ := hname
    exact ⟨_, rest, ms, by simp [hrest₁], braced_singleton_iff.mpr ⟨w, _, w', hw,
      ⟨name, v, v', value, hquoted, hv, hv', hms, rfl⟩, hw', rfl⟩, rfl, hpos'⟩
  · rintro ⟨text, rest, ms, htext, hdocument, rfl, hpos'⟩
    obtain ⟨w, item, w', hw, hname, hw', rfl⟩ := braced_singleton_iff.mp hdocument
    have hcs : cs.dropWhile Json.isWs = '{' :: (w ++ (item ++ (w' ++ '}' :: rest))) := by
      simp [htext]
    have hpos₁ := (hcs ▸ rest_skipWs hstart).cons (by decide)
    have hitem : (w ++ (item ++ (w' ++ '}' :: rest))).dropWhile Json.isWs =
        item ++ (w' ++ '}' :: rest) :=
      dropWhile_ws_append hw hname.head?_eq (by decide)
    have hpos₂ := (hitem ▸ rest_skipWs hpos₁).append
    have hclose : (w' ++ '}' :: rest).dropWhile Json.isWs = '}' :: rest :=
      dropWhile_ws_append (t := ['}']) hw' rfl (by decide)
    obtain ⟨name, v, v', value, hquoted, hv, hv', hms, rfl⟩ := hname
    refine ⟨_, _, _, (expectChar_eq_ok hstart (c := '{') (by decide) rfl).mpr ⟨_, hcs, hpos₁⟩,
      (hmember hpos₁ _ _).mpr ⟨_, _, hitem, ⟨name, v, v', value, hquoted, hv, hv', ⟨ms, hms, rfl⟩,
        rfl⟩, hpos₂⟩, ?_, rfl⟩
    exact (expectChar_eq_ok (rest_skipWs hpos₂) (c := '}') (by decide) rfl).mpr
      ⟨rest, (List.dropWhile_idempotent _ _).trans hclose, hpos'⟩

/-! ### The characters around the document -/

/-- The characters `trim` strips in front. -/
def lead (json : String) : List Char :=
  json.toList.takeWhile (·.toNat = 0xFEFF) ++
    (json.toList.dropWhile (·.toNat = 0xFEFF)).takeWhile isWhiteSpace

theorem isWhiteSpace_of_isWs {c : Char} (h : Json.isWs c = true) : isWhiteSpace c = true := by
  simp only [Json.isWs, Bool.or_eq_true, decide_eq_true_eq] at h
  rcases h with ((rfl | rfl) | rfl) | rfl <;> decide

/-- A byte-order mark is not whitespace. -/
theorem not_bom_of_isWhiteSpace {c : Char} (h : isWhiteSpace c = true) : c.toNat ≠ 0xFEFF := by
  intro hc
  simp [isWhiteSpace, hc] at h

theorem toList_eq_lead_append (json : String) :
    ∃ tail, json.toList = lead json ++ (trim json).toList ++ tail := by
  refine ⟨((((json.toList.dropWhile (·.toNat = 0xFEFF)).dropWhile isWhiteSpace).reverse).takeWhile
    isWhiteSpace).reverse, ?_⟩
  rw [trim, String.toList_ofList, lead, List.append_assoc, ← List.reverse_append,
    List.takeWhile_append_dropWhile, List.reverse_reverse, List.append_assoc,
    List.takeWhile_append_dropWhile, List.takeWhile_append_dropWhile]

theorem Document.eq_braces {S : List Char → String → Prop} {text : List Char}
    {entries : List (String × List (String × String))} (h : Document S text entries) :
    ∃ body, text = '{' :: body ++ ['}'] := by
  obtain ⟨w, item, w', -, -, -, rfl⟩ := braced_singleton_iff.mp h
  exact ⟨_, rfl⟩

/-- What stands in front of a document is stripped, and no character of it. -/
theorem lead_eq {json : String} {boms w body rest : List Char}
    (hjson : json.toList = boms ++ w ++ ('{' :: body ++ ['}']) ++ rest)
    (hboms : ∀ c ∈ boms, c.toNat = 0xFEFF) (hw : ∀ c ∈ w, isWhiteSpace c = true) :
    lead json = boms ++ w ∧ ∃ rest', (trim json).toList = '{' :: body ++ ['}'] ++ rest' := by
  have hjson : json.toList = boms ++ (w ++ '{' :: (body ++ '}' :: rest)) := by simp [hjson]
  have hboms : ∀ c ∈ boms, decide (c.toNat = 0xFEFF) = true := by simpa using hboms
  have hnobom : ∃ d ds, w ++ '{' :: (body ++ '}' :: rest) = d :: ds ∧
      ¬ decide (d.toNat = 0xFEFF) = true := by
    rcases w with _ | ⟨d, w⟩
    · exact ⟨'{', _, rfl, by decide⟩
    · exact ⟨d, _, rfl, by simpa using not_bom_of_isWhiteSpace (hw d (by simp))⟩
  obtain ⟨d, ds, hds, hd⟩ := hnobom
  have htake : json.toList.takeWhile (·.toNat = 0xFEFF) = boms := by
    rw [hjson, List.takeWhile_append_of_pos hboms, hds,
      List.takeWhile_cons_of_neg (p := fun c : Char => c.toNat = 0xFEFF) hd, List.append_nil]
  have hdrop : json.toList.dropWhile (·.toNat = 0xFEFF) = w ++ '{' :: (body ++ '}' :: rest) := by
    rw [hjson, List.dropWhile_append_of_pos hboms, hds,
      List.dropWhile_cons_of_neg (p := fun c : Char => c.toNat = 0xFEFF) hd]
  have hbrace : ∀ {c : Char}, c = '{' ∨ c = '}' → ¬ isWhiteSpace c = true := by
    rintro c (rfl | rfl) <;> decide
  constructor
  · rw [lead, htake, hdrop, List.takeWhile_append_of_pos hw,
      List.takeWhile_cons_of_neg (hbrace (.inl rfl)), List.append_nil]
  · refine ⟨(rest.reverse.dropWhile isWhiteSpace).reverse, ?_⟩
    rw [trim, String.toList_ofList, hdrop, List.dropWhile_append_of_pos hw,
      List.dropWhile_cons_of_neg (hbrace (.inl rfl)), List.reverse_cons, List.reverse_append,
      List.reverse_cons, List.append_assoc, List.append_assoc, List.singleton_append,
      List.dropWhile_append]
    split_ifs with hrest
    · rw [List.dropWhile_cons_of_neg (hbrace (.inr rfl)), List.isEmpty_iff.mp hrest]
      simp
    · simp

/-- A document at the front of the text is what the parser reads. -/
theorem scan_of_document (toLowercase : String → String) {json : String}
    {boms w text rest : List Char} {entries : List (String × List (String × String))}
    (hjson : json.toList = boms ++ w ++ text ++ rest) (hboms : ∀ c ∈ boms, c.toNat = 0xFEFF)
    (hw : ∀ c ∈ w, isWhiteSpace c = true) (hdocument : Document Verbatim text entries) :
    lead json = boms ++ w ∧ scan toLowercase (asBytes (trim json)) =
      .ok (ofEntries toLowercase entries, (utf8 text).length) := by
  obtain ⟨body, rfl⟩ := hdocument.eq_braces
  obtain ⟨hlead, rest', htrim⟩ := lead_eq hjson hboms hw
  refine ⟨hlead, ?_⟩
  rw [asBytes_eq_utf8, scan_eq_ok]
  have hstart := Rest.start (trim json).toList
  nth_rewrite 2 [htrim] at hstart
  have hpos := hstart.append
  rw [Nat.zero_add] at hpos
  have hskip : (trim json).toList.dropWhile Json.isWs = '{' :: body ++ ['}'] ++ rest' := by
    simp [htrim, Json.isWs]
  exact ⟨_, rest', entries, hskip, hdocument, rfl, hpos⟩

/-- The parser accepts the texts with a document in front, after byte-order marks
and whitespace; what follows the document does not matter. -/
theorem fromJson_eq_ok {cr : Crates} {json : String} {list : StatusList} :
    fromJson cr json = .ok list ↔ ∃ boms w text rest entries,
      json.toList = boms ++ w ++ text ++ rest ∧ (∀ c ∈ boms, c.toNat = 0xFEFF) ∧
        (∀ c ∈ w, isWhiteSpace c = true) ∧ Document Verbatim text entries ∧
        list = ofEntries cr.toLowercase entries := by
  rw [fromJson_eq_scan, map_eq_ok]
  constructor
  · rintro ⟨⟨list, pos⟩, hscan, rfl⟩
    rw [asBytes_eq_utf8, scan_eq_ok] at hscan
    obtain ⟨text, rest, entries, htrim, hdocument, rfl, -⟩ := hscan
    obtain ⟨tail, htail⟩ := toList_eq_lead_append json
    obtain ⟨w, hw, hcs⟩ := exists_ws_append htrim
    refine ⟨json.toList.takeWhile (·.toNat = 0xFEFF), (json.toList.dropWhile
      (·.toNat = 0xFEFF)).takeWhile isWhiteSpace ++ w, text, rest ++ tail, entries, ?_, ?_, ?_,
      hdocument, rfl⟩
    · refine htail.trans ?_
      rw [hcs, lead]
      simp only [List.append_assoc]
    · exact fun c hc => by simpa using List.mem_takeWhile_imp hc
    · intro c hc
      rcases List.mem_append.mp hc with hc | hc
      · exact List.mem_takeWhile_imp hc
      · exact isWhiteSpace_of_isWs (hw c hc)
  · rintro ⟨boms, w, text, rest, entries, hjson, hboms, hw, hdocument, rfl⟩
    exact ⟨_, (scan_of_document _ hjson hboms hw hdocument).2, rfl⟩

/-- Whatever is put behind an accepted text is ignored. -/
theorem fromJson_append {cr : Crates} {json : String} {list : StatusList}
    (h : fromJson cr json = .ok list) (data : String) : fromJson cr (json ++ data) = .ok list := by
  rw [fromJson_eq_ok] at h ⊢
  obtain ⟨boms, w, text, rest, entries, hjson, hdocument⟩ := h
  refine ⟨boms, w, text, rest ++ data.toList, entries, ?_, hdocument⟩
  rw [String.toList_append, hjson, List.append_assoc]

end Attestation.Android.StatusList
