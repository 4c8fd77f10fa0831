import Attestation.Apple.Cbor
import Attestation.Base.LastMatch

/-! The decoders read a CBOR map by its keys. Each variable of their loops ends up with
what the last entry with its key carries, so where the keys are distinct neither the order
of the entries nor entries with other keys matter. A key that is no text stops a loop over
text keys. -/

namespace Attestation.Apple

open Result

/-! ### Keys -/

abbrev Entry := Cbor.Value × Cbor.Value

def HasText (k : String) (e : Entry) : Prop := e.1.asText = some k

instance (k : String) : DecidablePred (HasText k) := fun e =>
  inferInstanceAs (Decidable (e.1.asText = some k))

/-- The key is this integer, and an `i64`. -/
def HasInt (k : ℤ) (e : Entry) : Prop := e.1.asInteger.bind toI64 = some k

instance (k : ℤ) : DecidablePred (HasInt k) := fun e =>
  inferInstanceAs (Decidable (e.1.asInteger.bind toI64 = some k))

theorem asText_eq_some {v : Cbor.Value} {s : String} : v.asText = some s ↔ v = .text s := by
  cases v <;> simp [Cbor.Value.asText]

theorem asBytes_eq_some {v : Cbor.Value} {bs : Bytes} : v.asBytes = some bs ↔ v = .bytes bs := by
  cases v <;> simp [Cbor.Value.asBytes]

theorem asMap_eq_some {v : Cbor.Value} {es : List Entry} : v.asMap = some es ↔ v = .map es := by
  cases v <;> simp [Cbor.Value.asMap]

theorem asI64_eq_some {v : Cbor.Value} {i : ℤ} :
    v.asInteger.bind toI64 = some i ↔ v = .integer i ∧ -2 ^ 63 ≤ i ∧ i < 2 ^ 63 := by
  cases v with
  | integer n =>
    simp only [Cbor.Value.asInteger, Option.bind_some, toI64, Option.ite_none_right_eq_some,
      Option.some.injEq, Cbor.Value.integer.injEq]
    constructor
    · rintro ⟨h, rfl⟩
      exact ⟨rfl, h⟩
    · rintro ⟨rfl, h⟩
      exact ⟨h, rfl⟩
  | _ => simp [Cbor.Value.asInteger]

/-- No two entries have one key. -/
def DistinctKeys (es : List Entry) : Prop := (es.map Prod.fst).Nodup

theorem DistinctKeys.uniqueText {es : List Entry} (h : DistinctKeys es) (k : String) :
    UniqueMatch (HasText k) es :=
  .of_nodup Prod.fst (.text k) (fun _ hk => asText_eq_some.mp hk) h

theorem DistinctKeys.uniqueInt {es : List Entry} (h : DistinctKeys es) (k : ℤ) :
    UniqueMatch (HasInt k) es :=
  .of_nodup Prod.fst (.integer k) (fun _ hk => (asI64_eq_some.mp hk).1) h

/-- The value of the last entry with a text as its key. -/
def textField (k : String) (es : List Entry) : Option Cbor.Value :=
  (lastMatch (HasText k) es).map Prod.snd

/-- The value of the last entry with an integer as its key. -/
def intField (k : ℤ) (es : List Entry) : Option Cbor.Value :=
  (lastMatch (HasInt k) es).map Prod.snd

theorem DistinctKeys.textField_eq_some_iff {es : List Entry} (h : DistinctKeys es) {k : String}
    {v : Cbor.Value} : textField k es = some v ↔ (.text k, v) ∈ es := by
  simp only [textField, Option.map_eq_some_iff, (h.uniqueText k).lastMatch_eq_some_iff]
  constructor
  · rintro ⟨⟨_, _⟩, ⟨he, hk⟩, rfl⟩
    obtain rfl := asText_eq_some.mp hk
    exact he
  · exact fun he => ⟨_, ⟨he, rfl⟩, rfl⟩

theorem DistinctKeys.intField_eq_some_iff {es : List Entry} (h : DistinctKeys es) {k : ℤ}
    (hk : -2 ^ 63 ≤ k ∧ k < 2 ^ 63) {v : Cbor.Value} :
    intField k es = some v ↔ (.integer k, v) ∈ es := by
  simp only [intField, Option.map_eq_some_iff, (h.uniqueInt k).lastMatch_eq_some_iff]
  constructor
  · rintro ⟨⟨_, _⟩, ⟨he, hint⟩, rfl⟩
    obtain ⟨rfl, -⟩ := asI64_eq_some.mp hint
    exact he
  · exact fun he => ⟨_, ⟨he, asI64_eq_some.mpr ⟨rfl, hk⟩⟩, rfl⟩

/-- A variable set from the values of one key. -/
theorem elim_lastMatch {α : Type} {p : Entry → Prop} [DecidablePred p] (f : Cbor.Value → Option α)
    (es : List Entry) : (lastMatch p es).elim none (fun e => f e.2) =
      ((lastMatch p es).map Prod.snd).bind f := by
  cases lastMatch p es <;> rfl

/-- What is read of a value determines it. -/
theorem bind_eq_some_iff_eq {α : Type} {f : Cbor.Value → Option α} {a : α} {w : Cbor.Value}
    (hf : ∀ v, f v = some a ↔ v = w) {o : Option Cbor.Value} : o.bind f = some a ↔ o = some w := by
  simp only [Option.bind_eq_some_iff, hf, exists_eq_right]

/-! ### The COSE key -/

namespace CoseEntries

/-- Each variable is set by the entries with its key. -/
theorem step_eq (st : CoseEntries) (e : Entry) :
    st.step e = {
      kty := if HasInt 1 e then e.2.asInteger.bind toI64 else st.kty
      alg := if HasInt 3 e then e.2.asInteger.bind toI64 else st.alg
      crv := if HasInt (-1) e then e.2.asInteger.bind toI64 else st.crv
      x := if HasInt (-2) e then e.2.asBytes else st.x
      y := if HasInt (-3) e then e.2.asBytes else st.y } := by
  unfold step HasInt
  split <;> simp_all

/-- What the loop makes of a map. -/
theorem foldl_step (es : List Entry) :
    es.foldl step {} = {
      kty := (intField 1 es).bind fun v => v.asInteger.bind toI64
      alg := (intField 3 es).bind fun v => v.asInteger.bind toI64
      crv := (intField (-1) es).bind fun v => v.asInteger.bind toI64
      x := (intField (-2) es).bind Cbor.Value.asBytes
      y := (intField (-3) es).bind Cbor.Value.asBytes } := by
  have hkty := foldl_lastMatch (fun st e => congrArg kty (step_eq st e)) {} es
  have halg := foldl_lastMatch (fun st e => congrArg alg (step_eq st e)) {} es
  have hcrv := foldl_lastMatch (fun st e => congrArg crv (step_eq st e)) {} es
  have hx := foldl_lastMatch (fun st e => congrArg x (step_eq st e)) {} es
  have hy := foldl_lastMatch (fun st e => congrArg y (step_eq st e)) {} es
  rcases hst : es.foldl step {} with ⟨kty, alg, crv, x, y⟩
  simp only [hst] at hkty halg hcrv hx hy
  simp only [hkty, halg, hcrv, hx, hy, intField]
  simp only [elim_lastMatch (fun v => v.asInteger.bind toI64), elim_lastMatch Cbor.Value.asBytes]

end CoseEntries

/-- The entries of a P-256 key with the given coordinates, among any others. -/
structure IsP256Key (es : List Entry) (x y : Bytes) : Prop where
  kty : (.integer 1, .integer 2) ∈ es
  alg : (.integer 3, .integer (-7)) ∈ es
  crv : (.integer (-1), .integer 1) ∈ es
  length_x : x.length = 32
  length_y : y.length = 32
  x : (.integer (-2), .bytes x) ∈ es
  y : (.integer (-3), .bytes y) ∈ es

variable {cr : Crates} {bytes : Bytes} {es : List Entry}

theorem extractP256Pk_eq_ok (hmap : cr.cborFromReader bytes = .ok (.map es)) {pk : P256Pk} :
    extractP256Pk cr bytes = .ok pk ↔
      ∃ x y, intField 1 es = some (.integer 2) ∧ intField 3 es = some (.integer (-7)) ∧
        intField (-1) es = some (.integer 1) ∧ intField (-2) es = some (.bytes x) ∧
        intField (-3) es = some (.bytes y) ∧ x.length = 32 ∧ y.length = 32 ∧
        pk.toList = 0x04 :: x ++ y := by
  have hvalue {k i : ℤ} (hi : -2 ^ 63 ≤ i ∧ i < 2 ^ 63) :
      ((intField k es).bind fun v => v.asInteger.bind toI64) = some i ↔
        intField k es = some (.integer i) :=
    bind_eq_some_iff_eq fun _ => asI64_eq_some.trans (and_iff_left hi)
  have hbytes {k : ℤ} {bs : Bytes} : (intField k es).bind Cbor.Value.asBytes = some bs ↔
      intField k es = some (.bytes bs) := bind_eq_some_iff_eq fun _ => asBytes_eq_some
  simp only [extractP256Pk, hmap, ofExcept_eq_ok, bind_eq_ok, okOr_eq_ok, ensure_eq_ok,
    exists_const, Except.ok.injEq, exists_eq_left', asMap_eq_some, Cbor.Value.map.injEq,
    CoseEntries.foldl_step, toArray_eq_ok, hvalue (by norm_num : (-2 ^ 63 : ℤ) ≤ 2 ∧ (2 : ℤ) < 2 ^ 63),
    hvalue (by norm_num : (-2 ^ 63 : ℤ) ≤ -7 ∧ (-7 : ℤ) < 2 ^ 63),
    hvalue (by norm_num : (-2 ^ 63 : ℤ) ≤ 1 ∧ (1 : ℤ) < 2 ^ 63), hbytes, not_or, not_not]
  constructor
  · rintro ⟨hkty, halg, hcrv, x, hx, y, hy, ⟨hlenx, hleny⟩, hpk⟩
    exact ⟨x, y, hkty, halg, hcrv, hx, hy, hlenx, hleny, hpk.symm⟩
  · rintro ⟨x, y, hkty, halg, hcrv, hx, hy, hlenx, hleny, hpk⟩
    exact ⟨hkty, halg, hcrv, x, hx, y, hy, ⟨hlenx, hleny⟩, hpk.symm⟩

/-- A key is extracted exactly from a map with its entries. -/
theorem extractP256Pk_iff (hmap : cr.cborFromReader bytes = .ok (.map es)) (h : DistinctKeys es)
    {pk : P256Pk} :
    extractP256Pk cr bytes = .ok pk ↔ ∃ x y, IsP256Key es x y ∧ pk.toList = 0x04 :: x ++ y := by
  simp only [extractP256Pk_eq_ok hmap, h.intField_eq_some_iff (k := 1) (by norm_num),
    h.intField_eq_some_iff (k := 3) (by norm_num), h.intField_eq_some_iff (k := -1) (by norm_num),
    h.intField_eq_some_iff (k := -2) (by norm_num), h.intField_eq_some_iff (k := -3) (by norm_num)]
  constructor
  · rintro ⟨x, y, hkty, halg, hcrv, hx, hy, hlenx, hleny, hpk⟩
    exact ⟨x, y, ⟨hkty, halg, hcrv, hlenx, hleny, hx, hy⟩, hpk⟩
  · rintro ⟨x, y, ⟨hkty, halg, hcrv, hlenx, hleny, hx, hy⟩, hpk⟩
    exact ⟨x, y, hkty, halg, hcrv, hx, hy, hlenx, hleny, hpk⟩

/-! ### Maps with text keys -/

/-- Every key is a text. -/
def TextKeys (es : List Entry) : Prop := ∀ e ∈ es, ∃ k, e.1 = .text k

theorem asText_okOr {msg : String} {e : Entry} {k : String} :
    (okOr (.cbor msg) e.1.asText : Result Error String) = .ok k ↔ e.1 = .text k := by
  rw [okOr_eq_ok, asText_eq_some]

/-! ### The assertion -/

namespace AssertionEntries

theorem step_spec {st st' : AssertionEntries} {e : Entry} (h : st.step e = .ok st') :
    st' = {
      signature := if HasText "signature" e then e.2.asBytes else st.signature
      authData := if HasText "authenticatorData" e then e.2.asBytes else st.authData } := by
  simp only [step, bind_eq_ok, okOr_eq_ok, pure_eq_ok] at h
  obtain ⟨key, hkey, rfl⟩ := h
  unfold HasText
  split <;> simp_all

theorem step_isOk (st : AssertionEntries) (e : Entry) :
    (∃ st', st.step e = .ok st') ↔ ∃ k, e.1 = .text k := by
  simp only [step, bind_eq_ok, asText_okOr, pure_eq_ok]
  exact ⟨fun ⟨_, k, hk, _⟩ => ⟨k, hk⟩, fun ⟨k, hk⟩ => ⟨_, k, hk, rfl⟩⟩

/-- What the loop makes of a map. -/
theorem foldlM_step {st : AssertionEntries} :
    es.foldlM step {} = .ok st ↔ TextKeys es ∧ st = {
      signature := (textField "signature" es).bind Cbor.Value.asBytes
      authData := (textField "authenticatorData" es).bind Cbor.Value.asBytes } := by
  refine eq_ok_iff (exists_foldlM_eq_ok_iff (fun e _ st => step_isOk st e) {}) fun st h => ?_
  have hsignature := foldlM_lastMatch h fun _ _ _ h => congrArg signature (step_spec h)
  have hauthData := foldlM_lastMatch h fun _ _ _ h => congrArg authData (step_spec h)
  obtain ⟨signature, authData⟩ := st
  simp only at hsignature hauthData
  simp only [hsignature, hauthData, textField, elim_lastMatch Cbor.Value.asBytes]

end AssertionEntries

/-- The entries of an assertion. -/
structure IsAssertion (es : List Entry) (signature authData : Bytes) : Prop where
  textKeys : TextKeys es
  signature : textField "signature" es = some (.bytes signature)
  authData : textField "authenticatorData" es = some (.bytes authData)

theorem decodeAssertion_eq_ok (hmap : cr.cborFromReader bytes = .ok (.map es))
    {signature authData : Bytes} :
    decodeAssertion cr bytes = .ok (signature, authData) ↔ IsAssertion es signature authData := by
  have hbytes {o : Option Cbor.Value} {bs : Bytes} : o.bind Cbor.Value.asBytes = some bs ↔
      o = some (.bytes bs) := bind_eq_some_iff_eq fun _ => asBytes_eq_some
  simp only [decodeAssertion, hmap, ofExcept_eq_ok, bind_eq_ok, okOr_eq_ok, Except.ok.injEq,
    exists_eq_left', asMap_eq_some, Cbor.Value.map.injEq, AssertionEntries.foldlM_step, pure_eq_ok,
    Prod.mk.injEq]
  constructor
  · rintro ⟨_, ⟨htext, rfl⟩, _, hsignature, _, hauthData, rfl, rfl⟩
    exact ⟨htext, hbytes.mp hsignature, hbytes.mp hauthData⟩
  · rintro ⟨htext, hsignature, hauthData⟩
    exact ⟨_, ⟨htext, rfl⟩, _, hbytes.mpr hsignature, _, hbytes.mpr hauthData, rfl, rfl⟩

/-! ### The attestation statement -/

/-- The certificates in the value of `x5c`. -/
def certsOf (v : Cbor.Value) : Result Error (List Bytes) := do
  let arr ← okOr (.cbor "x5c is not an array") v.asArray
  arr.mapM fun c => okOr (.cbor "x5c element is not bytes") c.asBytes

theorem certsOf_eq_ok {v : Cbor.Value} {certs : List Bytes} :
    certsOf v = .ok certs ↔ v = .array (certs.map .bytes) := by
  have harray {vs : List Cbor.Value} : v.asArray = some vs ↔ v = .array vs := by
    cases v <;> simp [Cbor.Value.asArray]
  simp only [certsOf, bind_eq_ok, okOr_eq_ok, mapM_eq_ok, asBytes_eq_some, harray]
  constructor
  · rintro ⟨vs, rfl, hvs⟩
    have heq := List.forall₂_map_right_iff.mpr hvs
    rw [List.forall₂_eq_eq_eq] at heq
    rw [heq]
  · rintro rfl
    exact ⟨_, rfl, List.forall₂_map_left_iff.mpr (List.forall₂_same.mpr fun _ _ => rfl)⟩

/-- An entry that sets the receipt: the key and a byte string. -/
def HasReceipt (e : Entry) : Prop := HasText "receipt" e ∧ e.2.asBytes.isSome = true

instance : DecidablePred HasReceipt := fun _ => inferInstanceAs (Decidable (_ ∧ _))

theorem hasText_iff {e : Entry} {key : String} (h : e.1 = .text key) (k : String) :
    HasText k e ↔ key = k := by
  rw [HasText, h]
  exact Option.some_inj

namespace StatementEntries

theorem step_spec {st st' : StatementEntries} {e : Entry} (h : st.step e = .ok st') :
    st' = {
      x5c := if HasText "x5c" e then Except.toOption (certsOf e.2) else st.x5c
      receipt := if HasReceipt e then e.2.asBytes.getD [] else st.receipt } := by
  simp only [step, bind_eq_ok, asText_okOr] at h
  obtain ⟨key, hkey, h⟩ := h
  simp only [HasReceipt, hasText_iff hkey]
  split at h
  · simp only [bind_eq_ok, pure_eq_ok] at h
    obtain ⟨arr, harr, certs, hcerts, rfl⟩ := h
    have hcertsOf : certsOf e.2 = .ok certs := bind_eq_ok.mpr ⟨arr, harr, hcerts⟩
    simp [hcertsOf, Except.toOption]
  · split at h <;> obtain rfl := pure_eq_ok.mp h <;> simp [*]
  · rename_i hx5c hreceipt
    obtain rfl := pure_eq_ok.mp h
    rw [if_neg hx5c, if_neg fun h => hreceipt h.1]

/-- The entry has a text key, and under `x5c` an array of byte strings. -/
def Good (e : Entry) : Prop :=
  (∃ k, e.1 = .text k) ∧ (HasText "x5c" e → ∃ certs : List Bytes, e.2 = .array (certs.map .bytes))

theorem step_isOk (st : StatementEntries) (e : Entry) : (∃ st', st.step e = .ok st') ↔ Good e := by
  simp only [step, bind_eq_ok, asText_okOr, Good, ← certsOf_eq_ok]
  constructor
  · rintro ⟨st', key, hkey, h⟩
    refine ⟨⟨key, hkey⟩, fun hx5c => ?_⟩
    obtain rfl := (hasText_iff hkey _).mp hx5c
    simp only [bind_eq_ok] at h
    obtain ⟨arr, harr, certs, hcerts, -⟩ := h
    exact ⟨certs, bind_eq_ok.mpr ⟨arr, harr, hcerts⟩⟩
  · rintro ⟨⟨key, hkey⟩, hx5c⟩
    simp only [hasText_iff hkey] at hx5c
    by_cases hk : key = "x5c"
    · obtain ⟨certs, hcertsOf⟩ := hx5c hk
      obtain ⟨arr, harr, hcerts⟩ := bind_eq_ok.mp hcertsOf
      subst hk
      exact ⟨_, _, hkey, bind_eq_ok.mpr ⟨arr, harr, bind_eq_ok.mpr ⟨certs, hcerts, rfl⟩⟩⟩
    · refine ⟨if HasReceipt e then { st with receipt := e.2.asBytes.getD [] } else st, key, hkey, ?_⟩
      simp only [HasReceipt, hasText_iff hkey]
      split
      · exact absurd rfl hk
      · split <;> simp [*, pure, Except.pure]
      · rename_i hreceipt
        rw [if_neg fun h => hreceipt h.1]
        rfl

/-- What the loop makes of a map. -/
theorem foldlM_step {st : StatementEntries} :
    es.foldlM step {} = .ok st ↔ (∀ e ∈ es, Good e) ∧ st = {
      x5c := (textField "x5c" es).bind fun v => Except.toOption (certsOf v)
      receipt := (lastMatch HasReceipt es).elim [] fun e => e.2.asBytes.getD [] } := by
  refine eq_ok_iff (exists_foldlM_eq_ok_iff (fun e _ st => step_isOk st e) {}) fun st h => ?_
  have hx5c := foldlM_lastMatch h fun _ _ _ h => congrArg x5c (step_spec h)
  have hreceipt := foldlM_lastMatch h fun _ _ _ h => congrArg receipt (step_spec h)
  obtain ⟨x5c, receipt⟩ := st
  simp only at hx5c hreceipt
  simp only [hx5c, hreceipt, textField, elim_lastMatch fun v => Except.toOption (certsOf v)]

end StatementEntries

/-- The entries of an attestation statement. -/
structure IsStatement (es : List Entry) (x5c : List Bytes) (receipt : Bytes) : Prop where
  good : ∀ e ∈ es, StatementEntries.Good e
  x5c : textField "x5c" es = some (.array (x5c.map .bytes))
  receipt : ((lastMatch HasReceipt es).elim [] fun e => e.2.asBytes.getD []) = receipt

/-! ### The attestation object -/

namespace ObjectEntries

theorem step_spec {st st' : ObjectEntries} {e : Entry} (h : st.step e = .ok st') :
    st' = {
      fmt := if HasText "fmt" e then e.2.asText else st.fmt
      authData := if HasText "authData" e then e.2.asBytes else st.authData
      attStmt := if HasText "attStmt" e then some e.2 else st.attStmt } := by
  simp only [step, bind_eq_ok, asText_okOr, pure_eq_ok] at h
  obtain ⟨key, hkey, rfl⟩ := h
  simp only [hasText_iff hkey]
  split <;> simp_all

theorem step_isOk (st : ObjectEntries) (e : Entry) :
    (∃ st', st.step e = .ok st') ↔ ∃ k, e.1 = .text k := by
  simp only [step, bind_eq_ok, asText_okOr, pure_eq_ok]
  exact ⟨fun ⟨_, k, hk, _⟩ => ⟨k, hk⟩, fun ⟨k, hk⟩ => ⟨_, k, hk, rfl⟩⟩

/-- What the loop makes of a map. -/
theorem foldlM_step {st : ObjectEntries} :
    es.foldlM step {} = .ok st ↔ TextKeys es ∧ st = {
      fmt := (textField "fmt" es).bind Cbor.Value.asText
      authData := (textField "authData" es).bind Cbor.Value.asBytes
      attStmt := textField "attStmt" es } := by
  refine eq_ok_iff (exists_foldlM_eq_ok_iff (fun e _ st => step_isOk st e) {}) fun st h => ?_
  have hfmt := foldlM_lastMatch h fun _ _ _ h => congrArg fmt (step_spec h)
  have hauthData := foldlM_lastMatch h fun _ _ _ h => congrArg authData (step_spec h)
  have hattStmt := foldlM_lastMatch h fun _ _ _ h => congrArg attStmt (step_spec h)
  obtain ⟨fmt, authData, attStmt⟩ := st
  simp only at hfmt hauthData hattStmt
  simp only [hfmt, hauthData, hattStmt, textField, elim_lastMatch Cbor.Value.asText,
    elim_lastMatch Cbor.Value.asBytes, elim_lastMatch some, Option.bind_fun_some]

end ObjectEntries

/-- The entries of an attestation object. -/
structure IsObject (es : List Entry) (stmt : AttestationStatement) : Prop where
  textKeys : TextKeys es
  fmt : textField "fmt" es = some (.text stmt.fmt)
  authData : textField "authData" es = some (.bytes stmt.authData)
  attStmt : ∃ as, textField "attStmt" es = some (.map as) ∧ IsStatement as stmt.x5c stmt.receipt

theorem decodeAttestationObject_eq_ok (hmap : cr.cborFromReader bytes = .ok (.map es))
    {stmt : AttestationStatement} :
    decodeAttestationObject cr bytes = .ok stmt ↔ IsObject es stmt := by
  obtain ⟨fmt, authData, x5c, receipt⟩ := stmt
  have htoOption {v : Cbor.Value} {certs : List Bytes} :
      Except.toOption (certsOf v) = some certs ↔ certsOf v = .ok certs := by
    cases certsOf v <;> simp [Except.toOption]
  have hfmt {o : Option Cbor.Value} : o.bind Cbor.Value.asText = some fmt ↔ o = some (.text fmt) :=
    bind_eq_some_iff_eq fun _ => asText_eq_some
  have hbytes {o : Option Cbor.Value} {bs : Bytes} : o.bind Cbor.Value.asBytes = some bs ↔
      o = some (.bytes bs) := bind_eq_some_iff_eq fun _ => asBytes_eq_some
  have hx5c {o : Option Cbor.Value} {certs : List Bytes} :
      (o.bind fun v => Except.toOption (certsOf v)) = some certs ↔
        o = some (.array (certs.map .bytes)) :=
    bind_eq_some_iff_eq fun _ => htoOption.trans certsOf_eq_ok
  simp only [decodeAttestationObject, hmap, ofExcept_eq_ok, bind_eq_ok, okOr_eq_ok,
    Except.ok.injEq, exists_eq_left', asMap_eq_some, Cbor.Value.map.injEq,
    ObjectEntries.foldlM_step, StatementEntries.foldlM_step, pure_eq_ok]
  constructor
  · rintro ⟨_, ⟨htext, rfl⟩, _, hf, _, ha, _, hs, as, rfl, _, ⟨hgood, rfl⟩, _, hc, ⟨⟩⟩
    exact ⟨htext, hfmt.mp hf, hbytes.mp ha, as, hs, hgood, hx5c.mp hc, rfl⟩
  · rintro ⟨htext, hf, ha, as, hs, hgood, hc, rfl⟩
    exact ⟨_, ⟨htext, rfl⟩, _, hfmt.mpr hf, _, hbytes.mpr ha, _, hs, as, rfl, _,
      ⟨hgood, rfl⟩, _, hx5c.mpr hc, rfl⟩

end Attestation.Apple
