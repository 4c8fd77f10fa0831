import Attestation.Android.StatusEntries

/-! The status list parser beside JSON. The parser takes strings verbatim: it skips
what a backslash hides and decodes nothing, so it agrees with a JSON parser on the
documents without escapes and control characters, and looks a serial up under its
escapes where there are some. -/

namespace Attestation.Android.StatusList

open Result Json

variable {bytes : Bytes} {text text' rest rest' : List Char} {α : Type}

/-! ### One reading -/

/-- A function reads at most one value at the front of a text. -/
theorem Reads.unique {f : ℕ → Result Error (α × ℕ)} {P : List Char → α → Prop} {a a' : α} {c : Char}
    (hf : Reads (utf8 (text ++ rest)) f P) (h : P text a) (h' : P text' a')
    (heq : text ++ rest = text' ++ rest') (htext : text.head? = some c) (hc : Json.isWs c = false) :
    a = a' := by
  have hstart := Rest.start (text ++ rest)
  have hskip : (text ++ rest).dropWhile Json.isWs = text ++ rest :=
    dropWhile_ws_append (w := []) (by simp [Ws]) htext hc
  have hread := (hf hstart a _).mpr ⟨text, rest, hskip, h, hstart.append⟩
  have hstart' : Rest (utf8 (text ++ rest)) 0 (text' ++ rest') := heq ▸ hstart
  have hread' := (hf hstart a' _).mpr ⟨text', rest', hskip.trans heq, h', hstart'.append⟩
  exact (Prod.mk.inj (Except.ok.inj (hread.symm.trans hread'))).1

/-- The reader that keeps the items of an object. -/
theorem Reads.items {item : ℕ → Result Error (α × ℕ)} {P : List Char → α → Prop}
    (hitem : Reads bytes item P) (hP : ∀ text a, P text a → text.head? = some '"') :
    Reads bytes (StatusList.braces bytes item (fun as a => as ++ [a]) []) (Braced P) := by
  have hfold : ∀ as : List α, as.foldl (fun as a => as ++ [a]) [] = as := by
    intro as
    induction as using List.reverseRecOn with
    | nil => rfl
    | append_singleton as a ih => rw [List.foldl_append, ih, List.foldl_cons, List.foldl_nil]
  intro pos cs h as pos'
  rw [hitem.braces hP _ _ h]
  simp only [hfold, exists_eq_right']

/-- Objects of objects of objects of strings. -/
abbrev Nested (S : List Char → String → Prop) :
    List Char → List (String × List (String × List (String × String))) → Prop :=
  Object S (Object S (Object S (Quoted S)))

/-- At the front of a text there is at most one object, read in one way. -/
theorem nested_unique {ms ms' : List (String × List (String × List (String × String)))}
    (h : Nested Verbatim text ms) (h' : Nested Verbatim text' ms')
    (heq : text ++ rest = text' ++ rest') : ms = ms' := by
  have hstatus := (show Reads (utf8 (text ++ rest)) _ _ from reads_readString).member fun _ _ h =>
    ⟨'"', h.head?_eq, by decide⟩
  have hentry := (hstatus.items fun _ _ h => h.head?_eq).member fun _ _ h =>
    ⟨'{', Braced.head?_eq h, by decide⟩
  have htop := (hentry.items fun _ _ h => h.head?_eq).member fun _ _ h =>
    ⟨'{', Braced.head?_eq h, by decide⟩
  exact (htop.items fun _ _ h => h.head?_eq).unique h h' heq (Braced.head?_eq h) (by decide)

/-! ### Strings of the standard -/

/-- The string as it is written decodes to the other. -/
def Written (s t : String) : Prop := Decodes s.toList t.toList

/-- The relation of two strings, lifted to entries. -/
def EntriesRelated (R : String → String → Prop)
    (entries decoded : List (String × List (String × String))) : Prop :=
  List.Forall₂ (fun m n => R m.1 n.1 ∧
    List.Forall₂ (fun m n => R m.1 n.1 ∧ R m.2 n.2) m.2 n.2) entries decoded

theorem written_of_contents {raw : List Char} {s : String} (h : Contents raw s) :
    ∃ t, Verbatim raw t ∧ Written t s :=
  ⟨String.ofList raw, ⟨h.unclosed, rfl⟩, by rwa [Written, String.toList_ofList]⟩

theorem contents_of_written {raw : List Char} {s t : String} (h : Verbatim raw s)
    (hst : Written s t) : Contents raw t := by
  obtain ⟨-, rfl⟩ := h
  rwa [Written, String.toList_ofList] at hst

/-- The text of a JSON document is one the parser reads, with its strings as they
are written. -/
theorem exists_written {ms : List (String × List (String × List (String × String)))}
    (h : Nested Contents text ms) : ∃ ns, Nested Verbatim text ns ∧
      List.Forall₂ (fun n m => Written n.1 m.1 ∧ EntriesRelated Written n.2 m.2) ns ms := by
  have hstring : ∀ raw s, Contents raw s → ∃ t, Verbatim raw t ∧ flip Written s t :=
    fun _ _ => written_of_contents
  obtain ⟨ns, hns, hread⟩ := h.read hstring fun _ _ h => h.read hstring fun _ _ h =>
    h.read hstring fun _ _ h => h.read hstring
  refine ⟨ns, hns, hread.flip.imp fun _ _ ⟨hname, hentries⟩ => ⟨hname, ?_⟩⟩
  refine hentries.flip.imp fun _ _ ⟨hserial, hmembers⟩ => ⟨hserial, ?_⟩
  exact hmembers.flip.imp fun _ _ h => h

/-- A document whose strings are of the standard is a JSON document. -/
theorem Document.contents {R : String → String → Prop}
    {entries decoded : List (String × List (String × String))}
    (hR : ∀ raw s t, Verbatim raw s → R s t → Contents raw t) (hname : R "entries" "entries")
    (h : Document Verbatim text entries) (hrelated : EntriesRelated R entries decoded) :
    Document Contents text decoded := by
  have hquoted : ∀ text s t, Quoted Verbatim text s → R s t → Quoted Contents text t := by
    rintro _ s t ⟨raw, hraw, rfl⟩ hst
    exact ⟨raw, hR raw s t hraw hst, rfl⟩
  have hstatus : ∀ text ms ns, Object Verbatim (Quoted Verbatim) text ms →
      List.Forall₂ (fun m n => R m.1 n.1 ∧ R m.2 n.2) ms ns →
        Object Contents (Quoted Contents) text ns :=
    fun _ _ _ h hread => Object.transfer hR hquoted h hread
  have hentries : ∀ text ms ns, Object Verbatim (Object Verbatim (Quoted Verbatim)) text ms →
      EntriesRelated R ms ns → Object Contents (Object Contents (Quoted Contents)) text ns :=
    fun _ _ _ h hread => Object.transfer hR hstatus h hread
  exact Object.transfer hR hentries h (.cons ⟨hname, hrelated⟩ .nil)

/-! ### Agreement -/

/-- Agreement with JSON at one text: an accepted text is a JSON document of the
documented shape, with whitespace around it and at most one byte-order mark in
front, and each decoded serial is looked up with its decoded status and reason. -/
def AgreesWithJson (cr : Crates) (json : String) : Prop :=
  ∀ list, fromJson cr json = .ok list → ∃ bom w text w' entries,
    json.toList = bom ++ w ++ text ++ w' ∧ (bom = [] ∨ bom = ['\uFEFF']) ∧ Ws w ∧ Ws w' ∧
      Document Contents text entries ∧
      ∀ m ∈ entries, ∃ entry, list.lookupSerial (cr.toLowercase m.1) = some entry ∧
        lastValue "status" m.2 = some entry.status ∧ lastValue "reason" m.2 = some entry.reason

/-- No control character and no backslash. -/
def Unescaped (s : String) : Prop := ∀ c ∈ s.toList, 0x20 ≤ c.toNat ∧ c ≠ '\\'

instance (s : String) : Decidable (Unescaped s) := List.decidableBAll _ s.toList

/-- Without escapes and control characters a string is as it is written. -/
theorem contents_of_unescaped {raw : List Char} {s t : String} (h : Verbatim raw s)
    (hst : s = t ∧ Unescaped s) : Contents raw t := by
  obtain ⟨hunclosed, rfl⟩ := h
  obtain ⟨rfl, hplain⟩ := hst
  rw [Unescaped, String.toList_ofList] at hplain
  rw [Contents, String.toList_ofList]
  have hquote := hunclosed.quote_notMem fun h => (hplain _ h).2 rfl
  exact .of_plain fun c hc => ⟨(hplain c hc).1, fun h => hquote (h ▸ hc), (hplain c hc).2⟩

/-- No string of the entries has an escape or a control character. -/
def EntriesUnescaped (entries : List (String × List (String × String))) : Prop :=
  ∀ m ∈ entries, Unescaped m.1 ∧ ∀ n ∈ m.2, Unescaped n.1 ∧ Unescaped n.2

theorem EntriesUnescaped.related {entries : List (String × List (String × String))}
    (h : EntriesUnescaped entries) :
    EntriesRelated (fun s t => s = t ∧ Unescaped s) entries entries := by
  refine List.forall₂_same.mpr fun m hm => ⟨⟨rfl, (h m hm).1⟩, List.forall₂_same.mpr fun n hn => ?_⟩
  exact ⟨⟨rfl, ((h m hm).2 n hn).1⟩, rfl, ((h m hm).2 n hn).2⟩

theorem exists_lastPair (toLowercase : String → String) {pairs : List (String × α)} {m : String × α}
    (hm : m ∈ pairs) : ∃ last ∈ pairs, lastPair toLowercase (toLowercase m.1) pairs = some last ∧
      toLowercase last.1 = toLowercase m.1 := by
  have hne : pairs.filter (fun n => toLowercase n.1 = toLowercase m.1) ≠ [] :=
    List.ne_nil_of_mem (List.mem_filter.mpr ⟨hm, by simp⟩)
  have hlast := List.getLast_mem hne
  rw [List.mem_filter] at hlast
  exact ⟨_, hlast.1, List.getLast?_eq_some_getLast hne, by simpa using hlast.2⟩

/-- What the parser makes of the texts it accepts: they begin with a document of
verbatim strings, in which every key is looked up with the fields of the last
entry of the key. The document is a JSON document with the decoded strings
whenever they are strings of the standard, and with the same strings when none of
them has an escape or a control character. -/
theorem fromJson_verbatim {cr : Crates} {json : String} {list : StatusList}
    (h : fromJson cr json = .ok list) : ∃ boms w text rest entries,
      json.toList = boms ++ w ++ text ++ rest ∧ (∀ c ∈ boms, c.toNat = 0xFEFF) ∧
      (∀ c ∈ w, isWhiteSpace c = true) ∧ Document Verbatim text entries ∧
      (∀ m ∈ entries, ∃ last ∈ entries,
        lastPair cr.toLowercase (cr.toLowercase m.1) entries = some last ∧
        cr.toLowercase last.1 = cr.toLowercase m.1 ∧
        list.lookupSerial (cr.toLowercase m.1) =
          some ⟨(lastValue "status" last.2).getD "", (lastValue "reason" last.2).getD ""⟩) ∧
      (∀ decoded, EntriesRelated Written entries decoded → Document Contents text decoded) ∧
      (EntriesUnescaped entries → Document Contents text entries) := by
  obtain ⟨boms, w, text, rest, entries, hjson, hboms, hw, hdocument, rfl⟩ := fromJson_eq_ok.mp h
  refine ⟨boms, w, text, rest, entries, hjson, hboms, hw, hdocument, fun m hm => ?_, ?_, ?_⟩
  · obtain ⟨last, hmem, hlast, hkey⟩ := exists_lastPair cr.toLowercase hm
    refine ⟨last, hmem, hlast, hkey, ?_⟩
    rw [lookupSerial_ofEntries, hlast, Option.map_some, entryOf_eq]
  · exact fun _ => hdocument.contents (fun _ _ _ => contents_of_written) (.of_plain (by simp))
  · intro hplain
    exact hdocument.contents (fun _ _ _ => contents_of_unescaped) ⟨rfl, by simp [Unescaped]⟩ hplain.related

/-! ### An escaped serial -/

/-- A status list that revokes the serial `a`, written with an escape. -/
def escapedSerial : String :=
  "\x7b\"entries\":\x7b\"\\u0061\":\x7b\"status\":\"REVOKED\",\"reason\":\"X\"\x7d\x7d\x7d"

theorem escapedSerial_document : ∃ text, escapedSerial.toList = text ∧ Document Verbatim text
    [("\\u0061", [("status", "REVOKED"), ("reason", "X")])] := by
  have hws : Ws [] := by simp [Ws]
  have hquoted : ∀ s : String, Unclosed s.toList →
      Quoted Verbatim ('"' :: s.toList ++ ['"']) s :=
    fun s h => ⟨s.toList, ⟨h, String.ofList_toList.symm⟩, rfl⟩
  have hplain : ∀ s : String, '"' ∉ s.toList → '\\' ∉ s.toList → Unclosed s.toList :=
    fun _ => .of_plain
  have hserial : Unclosed "\\u0061".toList := .escape (.of_plain (by decide) (by decide))
  refine ⟨_, ?_, .items (.last hws ⟨_, [], [], _, hquoted _ (hplain _ (by decide) (by decide)), hws,
    hws, .items (.last hws ⟨_, [], [], _, hquoted _ hserial, hws, hws, .items (.cons hws ⟨_, [], [], _,
      hquoted _ (hplain _ (by decide) (by decide)), hws, hws,
      hquoted _ (hplain _ (by decide) (by decide)), rfl⟩ hws (.last hws ⟨_, [], [], _,
      hquoted _ (hplain _ (by decide) (by decide)), hws, hws,
      hquoted _ (hplain _ (by decide) (by decide)), rfl⟩ hws)), rfl⟩ hws), rfl⟩ hws)⟩
  decide +kernel

theorem fromJson_verbatim_escapedSerial : ∃ boms w text rest entries,
    escapedSerial.toList = boms ++ w ++ text ++ rest ∧ Document Verbatim text entries ∧
      (EntriesUnescaped entries → Document Contents text entries) := by
  obtain ⟨list, hlist⟩ := exists_eq_ok (x := fromJson (.ofTables [] []) escapedSerial)
    (by decide +kernel)
  obtain ⟨boms, w, text, rest, entries, hjson, -, -, hdocument, -, -, hplain⟩ :=
    fromJson_verbatim hlist
  exact ⟨boms, w, text, rest, entries, hjson, hdocument, hplain⟩

theorem eq_a_of_written {s : String} (h : Written "\\u0061" s) : s = "a" := by
  have h : Decodes ('\\' :: 'u' :: (['0', '0', '6', '1'] ++ [])) s.toList := h
  generalize hcs : s.toList = cs at h
  generalize hraw : '\\' :: 'u' :: (['0', '0', '6', '1'] ++ []) = raw at h
  cases h with
  | nil => cases hraw
  | char _ _ hbackslash =>
    cases hraw
    exact absurd rfl hbackslash
  | escape he =>
    cases hraw
    cases he
  | unit hu _ h =>
    simp only [List.cons.injEq, true_and] at hraw
    obtain ⟨rfl, rfl⟩ := List.append_inj hraw (length_of_codeUnit? hu).symm
    obtain rfl : 0x61 = _ := Option.some.inj hu
    cases h
    exact String.toList_inj.mp hcs
  | pair hhi =>
    simp only [List.cons.injEq, true_and] at hraw
    obtain ⟨-, htail⟩ := List.append_inj hraw (length_of_codeUnit? hhi).symm
    cases htail

/-- The parser accepts the list and does not find the serial. -/
theorem escapedSerial_missed : ¬ AgreesWithJson (.ofTables [] []) escapedSerial := by
  intro h
  obtain ⟨text₀, htext₀, hdocument₀⟩ := escapedSerial_document
  have hjson₀ : escapedSerial.toList = [] ++ [] ++ text₀ ++ [] := by simp [htext₀]
  have hlead₀ := (scan_of_document id hjson₀ (by simp) (by simp) hdocument₀).1
  obtain ⟨bom, w, text, w', entries, hjson, hbom, hw, -, hdocument, hfound⟩ :=
    h _ (fromJson_eq_ok.mpr ⟨_, _, _, _, _, hjson₀, by simp, by simp, hdocument₀, rfl⟩)
  obtain ⟨body, rfl⟩ := hdocument.eq_braces
  have hlead := (lead_eq hjson (by rcases hbom with rfl | rfl <;> simp) fun c hc =>
    isWhiteSpace_of_isWs (hw c hc)).1
  obtain ⟨rfl, rfl⟩ : bom = [] ∧ w = [] := by simpa using hlead.symm.trans hlead₀
  obtain ⟨ms, hms, hread⟩ := exists_written hdocument
  -- the JSON reading is of the text the parser reads, so of the same strings
  obtain rfl := nested_unique hdocument₀ hms (hjson₀.symm.trans hjson)
  obtain ⟨⟨-, hentries⟩, -⟩ := List.forall₂_cons.mp hread
  rcases hentries with _ | ⟨⟨hserial, -⟩, -⟩
  rename_i m _
  obtain ⟨entry, hentry, -⟩ := hfound m (by simp)
  rw [eq_a_of_written hserial, lookupSerial_ofEntries] at hentry
  have hlower : (Crates.ofTables [] []).toLowercase "\\u0061" ≠
    (Crates.ofTables [] []).toLowercase "a" := by decide +kernel
  simp [lastPair, hlower] at hentry

end Attestation.Android.StatusList
