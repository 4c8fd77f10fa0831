import Attestation.Android.StatusDocument

/-! The entries of a rendered status list. A lookup finds the last pair whose
lowercased serial it asks for, with the last status and reason of that pair, and
no pair is lost whatever whitespace stands between the tokens. -/

namespace Attestation.Android.StatusList

open Result Json

variable {toLowercase : String → String} {α : Type}

/-! ### Repeated names -/

/-- The value of the last member of the name. -/
def lastValue (name : String) (members : List (String × String)) : Option String :=
  ((members.filter fun m => m.1 = name).getLast?).map Prod.snd

/-- The last pair whose lowercased serial is the key. -/
def lastPair (toLowercase : String → String) (key : String) (pairs : List (String × α)) :
    Option (String × α) :=
  (pairs.filter fun m => toLowercase m.1 = key).getLast?

theorem lastValue_append (name : String) (members : List (String × String))
    (m : String × String) : lastValue name (members ++ [m]) =
      if m.1 = name then some m.2 else lastValue name members := by
  unfold lastValue
  split_ifs with h <;> simp [h]

theorem lastPair_append (key : String) (pairs : List (String × α)) (m : String × α) :
    lastPair toLowercase key (pairs ++ [m]) =
      if toLowercase m.1 = key then some m else lastPair toLowercase key pairs := by
  unfold lastPair
  split_ifs with h <;> simp [h]

theorem lastPair_map {β : Type} (f : α → β) (key : String) (pairs : List (String × α)) :
    lastPair toLowercase key (pairs.map (Prod.map id f)) =
      (lastPair toLowercase key pairs).map (Prod.map id f) := by
  simp [lastPair, List.filter_map, Function.comp_def]

theorem setMember_eq (entry : StatusEntry) (m : String × String) : setMember entry m =
    ⟨if m.1 = "status" then m.2 else entry.status, if m.1 = "reason" then m.2 else entry.reason⟩ := by
  unfold setMember
  split
  · rename_i h
    rw [if_pos h, if_neg (by rw [h]; decide)]
  · rename_i h
    rw [if_neg (by rw [h]; decide), if_pos h]
  · rename_i hstatus hreason
    rw [if_neg hstatus, if_neg hreason]

/-- The fields of an entry are the last members of their names. -/
theorem entryOf_eq (members : List (String × String)) : entryOf members =
    ⟨(lastValue "status" members).getD "", (lastValue "reason" members).getD ""⟩ := by
  unfold entryOf
  induction members using List.reverseRecOn with
  | nil => rfl
  | append_singleton members m ih =>
    rw [List.foldl_append, ih, List.foldl_cons, List.foldl_nil, setMember_eq,
      lastValue_append, lastValue_append]
    split_ifs <;> rfl

/-! ### What a lookup finds -/

theorem lookup_foldl_insertEntry (key : String) (pairs : List (String × StatusEntry)) :
    (pairs.foldl (insertEntry toLowercase) ∅).lookup key =
      (lastPair toLowercase key pairs).map Prod.snd := by
  induction pairs using List.reverseRecOn with
  | nil => rfl
  | append_singleton pairs m ih =>
    rw [List.foldl_append, List.foldl_cons, List.foldl_nil, lastPair_append, insertEntry]
    split_ifs with h
    · rw [← h, AList.lookup_insert, Option.map_some]
    · rw [AList.lookup_insert_ne (Ne.symm h), ih]

theorem mem_foldl_insertEntry (key : String) (pairs : List (String × StatusEntry)) :
    key ∈ pairs.foldl (insertEntry toLowercase) ∅ ↔ key ∈ pairs.map fun m => toLowercase m.1 := by
  induction pairs using List.reverseRecOn with
  | nil => simp
  | append_singleton pairs m ih =>
    rw [List.foldl_append, List.foldl_cons, List.foldl_nil, insertEntry, AList.mem_insert, ih]
    simp [or_comm]

variable {pairs : List (String × List (String × String))}

theorem lookupSerial_ofEntries (key : String) : (ofEntries toLowercase pairs).lookupSerial key =
    (lastPair toLowercase key pairs).map fun m => entryOf m.2 := by
  rw [lookupSerial, ofEntries, lookup_foldl_insertEntry, lastPair_map, Option.map_map]
  rfl

theorem len_ofEntries : (ofEntries toLowercase pairs).len =
    (pairs.map fun m => toLowercase m.1).toFinset.card := by
  rw [len, ← List.toFinset_card_of_nodup (AList.keys_nodup _)]
  congr 1
  ext key
  rw [List.mem_toFinset, List.mem_toFinset, ← AList.mem_keys, ofEntries, mem_foldl_insertEntry,
    List.map_map]
  rfl

/-! ### Renderings -/

/-- A string without quotation marks and backslashes, as it is written. -/
def Plain (raw : List Char) (s : String) : Prop := raw = s.toList ∧ '"' ∉ raw ∧ '\\' ∉ raw

theorem Plain.verbatim {raw : List Char} {s : String} (h : Plain raw s) : Verbatim raw s := by
  obtain ⟨rfl, hquote, hbackslash⟩ := h
  exact ⟨.of_plain hquote hbackslash, String.ofList_toList.symm⟩

/-- A text that renders the pairs as a status list, with whitespace around it and
between its tokens and at most one byte-order mark in front. -/
def Renders (pairs : List (String × List (String × String))) (json : String) : Prop :=
  ∃ bom w text w', json.toList = bom ++ w ++ text ++ w' ∧ (bom = [] ∨ bom = ['\uFEFF']) ∧ Ws w ∧
    Ws w' ∧ Document Plain text pairs

/-- Every list of pairs of strings without quotation marks and backslashes has a
rendering. -/
theorem exists_renders (h : ∀ m ∈ pairs, (∃ raw, Plain raw m.1) ∧ ∀ n ∈ m.2,
    (∃ raw, Plain raw n.1) ∧ ∃ raw, Plain raw n.2) : ∃ json, Renders pairs json := by
  have hquoted : ∀ {s}, (∃ raw, Plain raw s) → ∃ text, Quoted Plain text s :=
    fun ⟨raw, hraw⟩ => ⟨_, raw, hraw, rfl⟩
  obtain ⟨value, hvalue⟩ := exists_object (V := Object Plain (Quoted Plain)) fun m hm =>
    ⟨(h m hm).1, exists_object fun n hn => ⟨((h m hm).2 n hn).1, hquoted ((h m hm).2 n hn).2⟩⟩
  have hname : ∃ raw, Plain raw "entries" := ⟨_, rfl, by decide, by decide⟩
  have hdocument : ∃ text, Document Plain text pairs := exists_object fun m hm => by
    obtain rfl := List.mem_singleton.mp hm
    exact ⟨hname, value, hvalue⟩
  obtain ⟨text, htext⟩ := hdocument
  exact ⟨String.ofList text, [], [], text, [], by simp, .inl rfl, by simp [Ws], by simp [Ws], htext⟩

/-- The parser reads back every rendering: each lookup finds the last pair of the
serial, and the length counts the serials. -/
theorem fromJson_of_renders (cr : Crates) {json : String} (h : Renders pairs json) :
    ∃ list, fromJson cr json = .ok list ∧
      (∀ key, list.lookupSerial key = (lastPair cr.toLowercase key pairs).map fun m =>
        ⟨(lastValue "status" m.2).getD "", (lastValue "reason" m.2).getD ""⟩) ∧
      list.len = (pairs.map fun m => cr.toLowercase m.1).toFinset.card := by
  obtain ⟨bom, w, text, w', hjson, hbom, hw, -, hdocument⟩ := h
  refine ⟨ofEntries cr.toLowercase pairs, ?_, fun key => ?_, len_ofEntries⟩
  · refine fromJson_eq_ok.mpr ⟨bom, w, text, w', pairs, hjson, ?_,
      fun c hc => isWhiteSpace_of_isWs (hw c hc), hdocument.mono fun _ _ h => h.verbatim, rfl⟩
    rcases hbom with rfl | rfl <;> simp
  · rw [lookupSerial_ofEntries]
    simp only [entryOf_eq]

/-- Two pairs of one serial, the second with a status, rendered behind a
byte-order mark and with some spaces. -/
theorem fromJson_of_renders_repeated : ∃ list,
    fromJson (.ofTables [] []) "\uFEFF \x7b\"entries\":\x7b\"AB\" :\x7b\x7d, \"ab\":\x7b\"status\":\"R\"\x7d\x7d\x7d" =
        .ok list ∧
      list.lookupSerial "ab" = some ⟨"R", ""⟩ ∧ list.len = 1 := by
  have hws : Ws [] := by simp [Ws]
  have hspace : Ws [' '] := by simp [Ws, Json.isWs]
  have hquoted : ∀ s : String, '"' ∉ s.toList → '\\' ∉ s.toList →
      Quoted Plain ('"' :: s.toList ++ ['"']) s := fun s h h' => ⟨s.toList, ⟨rfl, h, h'⟩, rfl⟩
  have hstatus : Object Plain (Quoted Plain) _ [("status", "R")] :=
    .items (.last hws ⟨_, [], [], _, hquoted "status" (by decide) (by decide), hws, hws,
      hquoted "R" (by decide) (by decide), rfl⟩ hws)
  have hentries : Object Plain (Object Plain (Quoted Plain)) _
      [("AB", []), ("ab", [("status", "R")])] :=
    .items (.cons hws ⟨_, [' '], [], _, hquoted "AB" (by decide) (by decide), hspace, hws,
      .empty hws, rfl⟩ hws (.last hspace ⟨_, [], [], _, hquoted "ab" (by decide) (by decide), hws, hws,
        hstatus, rfl⟩ hws))
  have hdocument : Document Plain _ [("AB", []), ("ab", [("status", "R")])] :=
    .items (.last hws ⟨_, [], [], _, hquoted "entries" (by decide) (by decide), hws, hws, hentries,
      rfl⟩ hws)
  have hrenders : Renders [("AB", []), ("ab", [("status", "R")])]
      "\uFEFF \x7b\"entries\":\x7b\"AB\" :\x7b\x7d, \"ab\":\x7b\"status\":\"R\"\x7d\x7d\x7d" :=
    ⟨['\uFEFF'], [' '], _, [], by decide +kernel, .inr rfl, hspace, hws, hdocument⟩
  obtain ⟨list, hlist, hlookup, hlen⟩ := fromJson_of_renders (.ofTables [] []) hrenders
  have hlower : ∀ s ∈ ["AB", "ab"], (Crates.ofTables [] []).toLowercase s = "ab" := by
    decide +kernel
  simp only [List.forall_mem_cons, List.not_mem_nil, false_implies, implies_true, and_true] at hlower
  refine ⟨list, hlist, (hlookup "ab").trans ?_, hlen.trans ?_⟩
  · simp [lastPair, lastValue, hlower]
  · simp [hlower]

end Attestation.Android.StatusList
