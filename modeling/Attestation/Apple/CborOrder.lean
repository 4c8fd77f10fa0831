import Attestation.Apple.CborMaps

/-! The order of the entries of a map with distinct keys does not matter to the decoders,
at either level of an attestation object, and nor do entries under text keys they do not
read. What they return is read off the entries by key; a key that is no text is an error
wherever a loop comes to it. -/

namespace Attestation.Apple

open Result

/-! ### Reordered maps -/

/-- The entries in any order, with others added under text keys that are not listed. -/
def Reordered (keys : List String) (es es' : List Entry) : Prop :=
  ∃ added : List Entry, (∀ e ∈ added, ∃ k, e.1 = .text k ∧ k ∉ keys) ∧ (es ++ added).Perm es'

theorem Reordered.of_perm {keys : List String} {es es' : List Entry} (h : es.Perm es') :
    Reordered keys es es' :=
  ⟨[], by simp, by rwa [List.append_nil]⟩

section
variable {keys : List String} {es es' : List Entry}

/-- A property of every entry that the added ones have. -/
theorem Reordered.forall_iff (h : Reordered keys es es') {P : Entry → Prop}
    (hP : ∀ e k, e.1 = .text k → k ∉ keys → P e) : (∀ e ∈ es', P e) ↔ ∀ e ∈ es, P e := by
  obtain ⟨added, hadded, hperm⟩ := h
  simp only [← hperm.mem_iff, List.mem_append, or_imp, forall_and, and_iff_left_iff_imp]
  intro _ e he
  obtain ⟨k, hk, hnot⟩ := hadded e he
  exact hP e k hk hnot

theorem Reordered.textKeys_iff (h : Reordered keys es es') : TextKeys es' ↔ TextKeys es :=
  h.forall_iff fun _ k hk _ => ⟨k, hk⟩

/-- What the last match for a listed key is does not change. -/
theorem Reordered.lastMatch_eq (h : Reordered keys es es') {k : String} (hk : k ∈ keys)
    {p : Entry → Prop} [DecidablePred p] (hp : ∀ e, p e → HasText k e) (hunique : UniqueMatch p es) :
    lastMatch p es' = lastMatch p es := by
  obtain ⟨added, hadded, hperm⟩ := h
  refine hunique.lastMatch_of_perm (fun e he hpe => ?_) hperm
  obtain ⟨k', hk', hnot⟩ := hadded e he
  obtain rfl := (hasText_iff hk' k).mp (hp e hpe)
  exact hnot hk

theorem Reordered.textField_eq (h : Reordered keys es es') (hkeys : DistinctKeys es) {k : String}
    (hk : k ∈ keys) : textField k es' = textField k es := by
  rw [textField, h.lastMatch_eq hk (fun _ => id) (hkeys.uniqueText k), textField]

end

/-! ### The three kinds of map -/

def assertionKeys : List String := ["signature", "authenticatorData"]

def statementKeys : List String := ["x5c", "receipt"]

def objectKeys : List String := ["fmt", "authData", "attStmt"]

section
variable {es es' : List Entry}

theorem isAssertion_iff (h : Reordered assertionKeys es es') (hkeys : DistinctKeys es)
    {signature authData : Bytes} :
    IsAssertion es' signature authData ↔ IsAssertion es signature authData := by
  have hsignature := h.textField_eq hkeys (k := "signature") (by decide)
  have hauthData := h.textField_eq hkeys (k := "authenticatorData") (by decide)
  constructor
  · rintro ⟨htext, hs, ha⟩
    exact ⟨h.textKeys_iff.mp htext, hsignature ▸ hs, hauthData ▸ ha⟩
  · rintro ⟨htext, hs, ha⟩
    exact ⟨h.textKeys_iff.mpr htext, hsignature.trans hs, hauthData.trans ha⟩

theorem isStatement_iff (h : Reordered statementKeys es es') (hkeys : DistinctKeys es)
    {x5c : List Bytes} {receipt : Bytes} :
    IsStatement es' x5c receipt ↔ IsStatement es x5c receipt := by
  have hgood : (∀ e ∈ es', StatementEntries.Good e) ↔ ∀ e ∈ es, StatementEntries.Good e := by
    refine h.forall_iff fun e k hk hnot => ⟨⟨k, hk⟩, fun hx5c => ?_⟩
    obtain rfl := (hasText_iff hk _).mp hx5c
    exact absurd (by decide) hnot
  have hx5c := h.textField_eq hkeys (k := "x5c") (by decide)
  have hreceipt : lastMatch HasReceipt es' = lastMatch HasReceipt es := by
    refine h.lastMatch_eq (k := "receipt") (by decide) (fun _ he => he.1) ?_
    exact .of_nodup Prod.fst (.text "receipt") (fun _ he => asText_eq_some.mp he.1) hkeys
  constructor
  · rintro ⟨hg, hc, hr⟩
    exact ⟨hgood.mp hg, hx5c ▸ hc, hreceipt ▸ hr⟩
  · rintro ⟨hg, hc, hr⟩
    exact ⟨hgood.mpr hg, hx5c.trans hc, hreceipt ▸ hr⟩

theorem isObject_iff (h : Reordered objectKeys es es') (hkeys : DistinctKeys es)
    {stmt : AttestationStatement} : IsObject es' stmt ↔ IsObject es stmt := by
  have hfmt := h.textField_eq hkeys (k := "fmt") (by decide)
  have hauthData := h.textField_eq hkeys (k := "authData") (by decide)
  have hattStmt := h.textField_eq hkeys (k := "attStmt") (by decide)
  constructor
  · rintro ⟨htext, hf, ha, hs⟩
    exact ⟨h.textKeys_iff.mp htext, hfmt ▸ hf, hauthData ▸ ha, hattStmt ▸ hs⟩
  · rintro ⟨htext, hf, ha, hs⟩
    exact ⟨h.textKeys_iff.mpr htext, hfmt.trans hf, hauthData.trans ha, hattStmt ▸ hs⟩

end

/-! ### Both levels of an object -/

/-- The entries of an object in another order, those of its statement too. -/
inductive ReorderedObject : List Entry → List Entry → Prop
  | top {es es' : List Entry} (h : Reordered objectKeys es es') : ReorderedObject es es'
  | both {es es' rest as as' : List Entry} (hperm : es.Perm ((.text "attStmt", .map as) :: rest))
      (hkeys : DistinctKeys as) (hstmt : Reordered statementKeys as as')
      (h : Reordered objectKeys ((.text "attStmt", .map as') :: rest) es') : ReorderedObject es es'

section
variable {as as' rest : List Entry}

/-- An object changes with its statement. -/
theorem isObject_attStmt_iff (hkeys : DistinctKeys ((.text "attStmt", .map as) :: rest))
    {stmt : AttestationStatement} :
    IsObject ((.text "attStmt", .map as) :: rest) stmt ↔
      TextKeys rest ∧ textField "fmt" rest = some (.text stmt.fmt) ∧
        textField "authData" rest = some (.bytes stmt.authData) ∧
        IsStatement as stmt.x5c stmt.receipt := by
  have hother {k : String} (hk : "attStmt" ≠ k) :
      textField k ((.text "attStmt", .map as) :: rest) = textField k rest := by
    rw [textField, lastMatch_cons_of_neg fun h => hk ((hasText_iff rfl k).mp h), textField]
  have hfmt := hother (show "attStmt" ≠ "fmt" by decide)
  have hauthData := hother (show "attStmt" ≠ "authData" by decide)
  have hattStmt : textField "attStmt" ((.text "attStmt", .map as) :: rest) = some (.map as) :=
    hkeys.textField_eq_some_iff.mpr List.mem_cons_self
  constructor
  · rintro ⟨htext, hf, ha, as', hs, hstmt⟩
    obtain ⟨⟩ := hattStmt.symm.trans hs
    exact ⟨(List.forall_mem_cons.mp htext).2, hfmt ▸ hf, hauthData ▸ ha, hstmt⟩
  · rintro ⟨htext, hf, ha, hstmt⟩
    exact ⟨List.forall_mem_cons.mpr ⟨⟨_, rfl⟩, htext⟩, hfmt.trans hf, hauthData.trans ha, as,
      hattStmt, hstmt⟩

theorem ReorderedObject.isObject_iff {es es' : List Entry} (h : ReorderedObject es es')
    (hkeys : DistinctKeys es) {stmt : AttestationStatement} :
    IsObject es' stmt ↔ IsObject es stmt := by
  cases h with
  | top h => exact Apple.isObject_iff h hkeys
  | @both rest as as' hperm has hstmt h =>
    have hfront : DistinctKeys ((.text "attStmt", .map as) :: rest) :=
      (hperm.map Prod.fst).nodup_iff.mp hkeys
    -- the keys are those of the entries before the statement changed
    have hfront' : DistinctKeys ((.text "attStmt", .map as') :: rest) := hfront
    rw [Apple.isObject_iff h hfront', isObject_attStmt_iff hfront', isStatement_iff hstmt has,
      ← isObject_attStmt_iff hfront, Apple.isObject_iff (.of_perm hperm) hkeys]

end

/-! ### Keys that are no text -/

variable {cr : Crates} {bytes : Bytes} {es : List Entry}

theorem decodeAssertion_returns (cr : Crates) (bytes : Bytes) :
    Returns (decodeAssertion cr bytes) := by
  refine .bind (.ofExcept _ _) fun _ _ => .bind (.okOr _ _) fun _ _ => ?_
  refine .bind (.foldlM (fun _ _ => .bind (.okOr _ _) fun _ _ => .ok _) _ _) fun _ _ => ?_
  exact .bind (.okOr _ _) fun _ _ => .bind (.okOr _ _) fun _ _ => .ok _

theorem StatementEntries.step_returns (st : StatementEntries) (e : Entry) :
    Returns (st.step e) := by
  refine .bind (.okOr _ _) fun key _ => ?_
  split
  · refine .bind (.okOr _ _) fun arr _ => .bind (.mapM (fun _ => .okOr _ _) arr) fun _ _ => .ok _
  · split <;> exact .ok _
  · exact .ok _

theorem decodeAttestationObject_returns (cr : Crates) (bytes : Bytes) :
    Returns (decodeAttestationObject cr bytes) := by
  refine .bind (.ofExcept _ _) fun _ _ => .bind (.okOr _ _) fun _ _ => ?_
  refine .bind (.foldlM (fun _ _ => .bind (.okOr _ _) fun _ _ => .ok _) _ _) fun _ _ => ?_
  refine .bind (.okOr _ _) fun _ _ => .bind (.okOr _ _) fun _ _ => ?_
  refine .bind (.okOr _ _) fun _ _ => .bind (.okOr _ _) fun _ _ => ?_
  refine .bind (.foldlM StatementEntries.step_returns _ _) fun _ _ => ?_
  exact .bind (.okOr _ _) fun _ _ => .ok _

/-- One of the keys is no text. -/
def HasOtherKey (es : List Entry) : Prop := ∃ e ∈ es, ∀ k, e.1 ≠ .text k

theorem HasOtherKey.not_textKeys (h : HasOtherKey es) : ¬ TextKeys es := by
  obtain ⟨e, he, hne⟩ := h
  intro htext
  obtain ⟨k, hk⟩ := htext e he
  exact hne k hk

/-! ### The decoders -/

variable (cr) in
/-- The decoders read maps with distinct keys by key. -/
structure ReadsByKey : Prop where
  coseKey : ∀ {bytes es}, cr.cborFromReader bytes = .ok (.map es) → DistinctKeys es →
    ∀ pk, extractP256Pk cr bytes = .ok pk ↔ ∃ x y, IsP256Key es x y ∧ pk.toList = 0x04 :: x ++ y
  assertion_iff : ∀ {bytes es}, cr.cborFromReader bytes = .ok (.map es) → ∀ signature authData,
    decodeAssertion cr bytes = .ok (signature, authData) ↔ IsAssertion es signature authData
  object_iff : ∀ {bytes es}, cr.cborFromReader bytes = .ok (.map es) → ∀ stmt,
    decodeAttestationObject cr bytes = .ok stmt ↔ IsObject es stmt
  assertion : ∀ {bytes bytes' es es'}, cr.cborFromReader bytes = .ok (.map es) →
    cr.cborFromReader bytes' = .ok (.map es') → DistinctKeys es → Reordered assertionKeys es es' →
    ∀ parts, decodeAssertion cr bytes' = .ok parts ↔ decodeAssertion cr bytes = .ok parts
  object : ∀ {bytes bytes' es es'}, cr.cborFromReader bytes = .ok (.map es) →
    cr.cborFromReader bytes' = .ok (.map es') → DistinctKeys es → ReorderedObject es es' →
    ∀ stmt, decodeAttestationObject cr bytes' = .ok stmt ↔
      decodeAttestationObject cr bytes = .ok stmt
  assertion_otherKey : ∀ {bytes es}, cr.cborFromReader bytes = .ok (.map es) → HasOtherKey es →
    ∃ e, decodeAssertion cr bytes = fail e
  object_otherKey : ∀ {bytes es}, cr.cborFromReader bytes = .ok (.map es) → HasOtherKey es →
    ∃ e, decodeAttestationObject cr bytes = fail e
  attStmt_otherKey : ∀ {bytes es as}, cr.cborFromReader bytes = .ok (.map es) → DistinctKeys es →
    (.text "attStmt", .map as) ∈ es → HasOtherKey as →
    ∃ e, decodeAttestationObject cr bytes = fail e

/-- The key, the assertion and the object are read off their entries, in whatever order
these come, and a key that is no text is an error. -/
theorem readsByKey (cr : Crates) : ReadsByKey cr where
  coseKey hmap hkeys _ := extractP256Pk_iff hmap hkeys
  assertion_iff hmap _ _ := decodeAssertion_eq_ok hmap
  object_iff hmap _ := decodeAttestationObject_eq_ok hmap
  assertion hmap hmap' hkeys h := by
    rintro ⟨signature, authData⟩
    rw [decodeAssertion_eq_ok hmap, decodeAssertion_eq_ok hmap', isAssertion_iff h hkeys]
  object hmap hmap' hkeys h stmt := by
    rw [decodeAttestationObject_eq_ok hmap, decodeAttestationObject_eq_ok hmap',
      h.isObject_iff hkeys]
  assertion_otherKey hmap hother := by
    refine (decodeAssertion_returns cr _).exists_fail ?_
    rintro ⟨signature, authData⟩ hok
    exact hother.not_textKeys ((decodeAssertion_eq_ok hmap).mp hok).textKeys
  object_otherKey hmap hother := by
    refine (decodeAttestationObject_returns cr _).exists_fail fun stmt hok => ?_
    exact hother.not_textKeys ((decodeAttestationObject_eq_ok hmap).mp hok).textKeys
  attStmt_otherKey hmap hkeys hmem hother := by
    refine (decodeAttestationObject_returns cr _).exists_fail fun stmt hok => ?_
    obtain ⟨as, has, hstmt⟩ := ((decodeAttestationObject_eq_ok hmap).mp hok).attStmt
    obtain ⟨⟩ := has.symm.trans (hkeys.textField_eq_some_iff.mpr hmem)
    exact hother.not_textKeys fun e he => (hstmt.good e he).1

section Sample

/-- A key with an entry of its own, an assertion and an object in two orders each, and maps
with a key that is no text at either level. -/
def sampleMaps : List (Bytes × List Entry) :=
  [([1], [(.integer (-3), .bytes (.replicate 32 2)), (.integer 1, .integer 2),
      (.text "kid", .integer 9), (.integer (-1), .integer 1), (.integer 3, .integer (-7)),
      (.integer (-2), .bytes (.replicate 32 1))]),
    ([2], [(.text "signature", .bytes [5]), (.text "authenticatorData", .bytes [6])]),
    ([3], [(.text "authenticatorData", .bytes [6]), (.text "kid", .integer 9),
      (.text "signature", .bytes [5])]),
    ([4], [(.text "attStmt", .map [(.text "x5c", .array [.bytes [7]])]), (.text "fmt", .text "f"),
      (.text "authData", .bytes [8])]),
    ([5], [(.text "fmt", .text "f"),
      (.text "attStmt", .map [(.text "kid", .integer 9), (.text "x5c", .array [.bytes [7]])]),
      (.text "authData", .bytes [8])]),
    ([6], [(.integer 1, .integer 2)]),
    ([7], [(.text "attStmt", .map [(.integer 1, .integer 2)])])]

def orderCrates : Crates := .ofTables [] (sampleMaps.map fun p => (p.1, .map p.2))

theorem readsByKey_sample :
    (∃ pk, extractP256Pk orderCrates [1] = .ok pk) ∧
      decodeAssertion orderCrates [3] = .ok ([5], [6]) ∧
      decodeAttestationObject orderCrates [5] = .ok ⟨"f", [8], [[7]], []⟩ ∧
      (∃ e, decodeAssertion orderCrates [6] = fail e) ∧
      (∃ e, decodeAttestationObject orderCrates [6] = fail e) ∧
      ∃ e, decodeAttestationObject orderCrates [7] = fail e := by
  have h := readsByKey orderCrates
  refine ⟨?_, ?_, ?_, ?_, ?_, ?_⟩
  · refine ⟨⟨(0x04 :: .replicate 32 1 ++ .replicate 32 2).toArray, rfl⟩, (h.coseKey rfl ?_ _).mpr
      ⟨.replicate 32 1, .replicate 32 2, ⟨?_, ?_, ?_, rfl, rfl, ?_, ?_⟩, rfl⟩⟩ <;>
      simp [DistinctKeys]
  · have hreordered : Reordered assertionKeys
        [(.text "signature", .bytes [5]), (.text "authenticatorData", .bytes [6])] _ :=
      ⟨[(.text "kid", .integer 9)], by simp [assertionKeys],
        (List.Perm.swap _ _ _).trans ((List.Perm.swap _ _ _).cons _)⟩
    refine (h.assertion (rfl : orderCrates.cborFromReader [2] = _) rfl (by simp [DistinctKeys])
      hreordered _).mpr ((h.assertion_iff rfl [5] [6]).mpr ⟨?_, rfl, rfl⟩)
    simp [TextKeys]
  · have hreordered : ReorderedObject [(.text "attStmt", .map [(.text "x5c", .array [.bytes [7]])]),
        (.text "fmt", .text "f"), (.text "authData", .bytes [8])] _ :=
      .both (.refl _) (by simp [DistinctKeys])
        ⟨[(.text "kid", .integer 9)], by simp [statementKeys], .swap _ _ _⟩
        (.of_perm (.swap _ _ _))
    refine (h.object (rfl : orderCrates.cborFromReader [4] = _) rfl (by simp [DistinctKeys])
      hreordered _).mpr ((h.object_iff rfl _).mpr ⟨?_, rfl, rfl, _, rfl, ?_, rfl, rfl⟩)
    · simp [TextKeys]
    · exact List.forall_mem_singleton.mpr ⟨⟨_, rfl⟩, fun _ => ⟨[[7]], rfl⟩⟩
  · exact h.assertion_otherKey rfl (by simp [HasOtherKey])
  · exact h.object_otherKey rfl (by simp [HasOtherKey])
  · refine h.attStmt_otherKey rfl (by simp [DistinctKeys]) (List.mem_singleton_self _) ?_
    simp [HasOtherKey]

end Sample

end Attestation.Apple
