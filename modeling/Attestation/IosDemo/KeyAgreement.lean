import Attestation.Apple.AuthDataLayout
import Attestation.Base.P256
import Attestation.IosDemo.Reader

/-! The phone and the verifier take the same key from an attestation object. The phone's
reader walks the bytes, the verifier decodes a tree and walks that. Both meet the same
entries in the same order, at either level, and let a later entry with the same key replace
an earlier one. -/

namespace Attestation.IosDemo

open Result Cbor

open CBORReader

variable {text tail : Bytes} {e : Apple.Entry}

/-! ### The two maps -/

/-- An entry of the top-level map sets the variable the verifier sets. -/
theorem ObjectScan.step_pair {st st' : ObjectScan} (he : Pair Item e text)
    (hrest : st.reader.rest = text ++ tail) (h : st.step = .ok st') : st'.reader.rest = tail ∧
      st'.authData = if Apple.HasText "authData" e then e.2.asBytes else st.authData := by
  obtain ⟨k, v⟩ := e
  obtain ⟨hkey, hvalue⟩ := he
  simp only [ObjectScan.step, bind_eq_ok, Prod.exists] at h
  obtain ⟨key, r, hread, h⟩ := h
  rw [List.append_assoc] at hrest
  obtain ⟨rfl, hrest⟩ := readText_item hkey hrest hread
  have hiff := Apple.hasText_iff (e := (.text key, v)) rfl "authData"
  simp only [hiff]
  split_ifs at h ⊢ with hauthData
  · simp only [bind_eq_ok, Prod.exists, pure_eq_ok] at h
    obtain ⟨bs, r', hbs, rfl⟩ := h
    obtain ⟨rfl, hrest⟩ := readBytes_item hvalue hrest hbs
    exact ⟨hrest, rfl⟩
  · simp only [bind_eq_ok, pure_eq_ok] at h
    obtain ⟨r', hskip, rfl⟩ := h
    exact ⟨skipValue_item hvalue hrest hskip, rfl⟩

/-- The variables of the phone's loop over the COSE key hold what those of the verifier do. -/
structure KeyScan.Matches (st : KeyScan) (entries : Apple.CoseEntries) : Prop where
  x : st.x = entries.x
  y : st.y = entries.y
  kty : st.kty = entries.kty
  crv : st.crv = entries.crv

theorem KeyScan.step_pair {st st' : KeyScan} {entries : Apple.CoseEntries} (he : Pair Item e text)
    (hrest : st.reader.rest = text ++ tail) (hst : st.Matches entries) (h : st.step = .ok st') :
    st'.reader.rest = tail ∧ st'.Matches (entries.step e) := by
  obtain ⟨keyValue, v⟩ := e
  obtain ⟨hkey, hvalue⟩ := he
  simp only [KeyScan.step, bind_eq_ok, Prod.exists] at h
  obtain ⟨k, r, hread, h⟩ := h
  rw [List.append_assoc] at hrest
  obtain ⟨hk, hrest⟩ := readInt_item hkey hrest hread
  split_ifs at h with h1 h3 hn1 hn2 hn3 <;> simp only [bind_eq_ok, Prod.exists, pure_eq_ok] at h
  · obtain ⟨kty, r', hkty, rfl⟩ := h
    obtain ⟨hi, hrest⟩ := readInt_item hvalue hrest hkty
    simp only [Apple.CoseEntries.step, hk, h1]
    exact ⟨hrest, hst.x, hst.y, hi.symm, hst.crv⟩
  · obtain ⟨alg, r', halg, rfl⟩ := h
    obtain ⟨-, hrest⟩ := readInt_item hvalue hrest halg
    simp only [Apple.CoseEntries.step, hk, h3]
    exact ⟨hrest, hst.x, hst.y, hst.kty, hst.crv⟩
  · obtain ⟨crv, r', hcrv, rfl⟩ := h
    obtain ⟨hi, hrest⟩ := readInt_item hvalue hrest hcrv
    simp only [Apple.CoseEntries.step, hk, hn1]
    exact ⟨hrest, hst.x, hst.y, hst.kty, hi.symm⟩
  · obtain ⟨x, r', hx, rfl⟩ := h
    obtain ⟨rfl, hrest⟩ := readBytes_item hvalue hrest hx
    simp only [Apple.CoseEntries.step, hk, hn2]
    exact ⟨hrest, rfl, hst.y, hst.kty, hst.crv⟩
  · obtain ⟨y, r', hy, rfl⟩ := h
    obtain ⟨rfl, hrest⟩ := readBytes_item hvalue hrest hy
    simp only [Apple.CoseEntries.step, hk, hn3]
    exact ⟨hrest, hst.x, rfl, hst.kty, hst.crv⟩
  · obtain ⟨r', hskip, rfl⟩ := h
    refine ⟨skipValue_item hvalue hrest hskip, ?_⟩
    -- a key that neither reader knows
    have hstep : entries.step (keyValue, v) = entries := by
      unfold Apple.CoseEntries.step
      split <;> simp_all
    rw [hstep]
    exact ⟨hst.x, hst.y, hst.kty, hst.crv⟩

variable {cr : Crates} {bytes : Bytes} {n : ℕ} {r : CBORReader}

/-- Where the verifier decodes a value, the phone's reader stands before a map's entries once
it has read a header. -/
theorem entries_of_readMapHeader {v : Value} (hread : ReadsItems cr.cborFromReader)
    (hvalue : cr.cborFromReader bytes = .ok v)
    (hheader : (CBORReader.mk bytes 0).readMapHeader = .ok (n, r)) :
    ∃ es body tail, v = .map es ∧ n = es.length ∧ Sequence (Pair Item) es body ∧
      r.rest = body ++ tail := by
  obtain ⟨text, tail, hbytes, hitem⟩ := hread bytes v hvalue
  have hrest : (CBORReader.mk bytes 0).rest = text ++ tail := hbytes
  obtain ⟨es, body, hes, hn, hbody, hleft⟩ := readMapHeader_item hitem hrest hheader
  exact ⟨es, body, tail, hes, hn, hbody, hleft⟩

/-- Both find the same authData. -/
theorem authData_of_decode {stmt : Apple.AttestationStatement} {object : ObjectScan}
    (hread : ReadsItems cr.cborFromReader)
    (hobject : Apple.decodeAttestationObject cr bytes = .ok stmt)
    (hheader : (CBORReader.mk bytes 0).readMapHeader = .ok (n, r))
    (hscan : times ObjectScan.step n { reader := r } = .ok object) :
    object.authData = some stmt.authData := by
  obtain ⟨v, hvalue⟩ : ∃ v, cr.cborFromReader bytes = .ok v := by
    obtain ⟨v, hv, -⟩ := bind_eq_ok.mp hobject
    exact ⟨v, ofExcept_eq_ok.mp hv⟩
  obtain ⟨es, body, tail, rfl, rfl, hbody, hrest⟩ := entries_of_readMapHeader hread hvalue hheader
  have hfield := ((Apple.decodeAttestationObject_eq_ok hvalue).mp hobject).authData
  obtain ⟨-, hfold⟩ := times_sequence (fun st => st.reader.rest)
    (fun (st : ObjectScan) (authData : Option Bytes) => st.authData = authData)
    (fun authData e => if Apple.HasText "authData" e then e.2.asBytes else authData)
    (fun he hleft hst h => hst ▸ ObjectScan.step_pair he hleft h) hbody hrest rfl hscan
  have hlast : id (es.foldl _ none) = _ :=
    foldl_lastMatch (p := Apple.HasText "authData") (f := fun e => e.2.asBytes) (fun _ _ => rfl)
      none es
  rw [hfold]
  refine hlast.trans ?_
  rw [id, Apple.elim_lastMatch Value.asBytes, ← Apple.textField, hfield]
  rfl

/-- The variables of both loops over the COSE key end up the same. -/
theorem matches_of_decode {es : List Apple.Entry} {key : KeyScan}
    (hread : ReadsItems cr.cborFromReader) (hvalue : cr.cborFromReader bytes = .ok (.map es))
    (hheader : (CBORReader.mk bytes 0).readMapHeader = .ok (n, r))
    (hscan : times KeyScan.step n { reader := r } = .ok key) :
    key.Matches (es.foldl Apple.CoseEntries.step {}) := by
  obtain ⟨es', body, tail, hes, rfl, hbody, hrest⟩ := entries_of_readMapHeader hread hvalue hheader
  obtain rfl := Value.map.inj hes
  exact (times_sequence (fun st => st.reader.rest) KeyScan.Matches
    Apple.CoseEntries.step (fun he hleft hst h => KeyScan.step_pair he hleft hst h) hbody hrest
    ⟨rfl, rfl, rfl, rfl⟩ hscan).2

/-- The coordinates the phone puts together are those of the verifier's key. -/
theorem key_of_scan {key : KeyScan} {pk : Apple.P256Pk} {xb yb : Bytes}
    (hread : ReadsItems cr.cborFromReader) (hpk : Apple.extractP256Pk cr bytes = .ok pk)
    (hheader : (CBORReader.mk bytes 0).readMapHeader = .ok (n, r))
    (hscan : times KeyScan.step n { reader := r } = .ok key) (hx : key.x = some xb)
    (hy : key.y = some yb) : 0x04 :: xb ++ yb = pk.toList := by
  simp only [Apple.extractP256Pk, bind_eq_ok, ofExcept_eq_ok, okOr_eq_ok, toArray_eq_ok,
    Apple.asMap_eq_some] at hpk
  obtain ⟨_, hvalue, es, rfl, -, -, -, -, -, -, x, hx', y, hy', -, -, hkey⟩ := hpk
  have hmatches := matches_of_decode hread hvalue hheader hscan
  obtain rfl := Option.some.inj (hx.symm.trans (hmatches.x.trans hx'))
  obtain rfl := Option.some.inj (hy.symm.trans (hmatches.y.trans hy'))
  exact hkey

/-- The two bytes at position 53 say where the key begins. -/
theorem coseBytes_of_parse {ad coseBytes : Bytes} {auth : Apple.AuthData} {hi lo : UInt8}
    (hparse : Apple.AuthData.parse ad = .ok auth)
    (hhi : (index ad 53 : Result CBORError UInt8) = .ok hi)
    (hlo : (index ad 54 : Result CBORError UInt8) = .ok lo)
    (hslice : (slice ad (55 + (hi.toNat <<< 8 ||| lo.toNat)) ad.length : Result CBORError Bytes) =
      .ok coseBytes) : coseBytes = auth.credentialPublicKey := by
  obtain ⟨hwf, hbuild⟩ := Apple.AuthData.eq_build_of_parse hparse
  have hfields : ad.drop 53 = beBytes 2 auth.credentialId.length ++
      (auth.credentialId ++ auth.credentialPublicKey) := by
    have hhash : auth.rpIdHash.toList.drop 53 = [] := List.drop_eq_nil_of_le (by simp)
    have hcount : (beBytes 4 auth.signCount.toNat).drop 20 = [] := List.drop_eq_nil_of_le (by simp)
    rw [hbuild]
    simp [Apple.AuthData.build, List.drop_append, hhash, hcount]
  have hbytes : ad.drop 53 = [hi, lo] ++ ad.drop 55 := by
    rw [drop_eq_cons_iff.mpr ⟨index_eq_ok.mp hhi, drop_eq_cons_iff.mpr ⟨index_eq_ok.mp hlo, rfl⟩⟩]
    rfl
  obtain ⟨hlength, hrest⟩ := List.append_inj (hbytes.symm.trans hfields) (by simp)
  have hvalue : hi.toNat <<< 8 ||| lo.toNat = auth.credentialId.length := by
    have hcredentialId := hwf.credentialId
    have hbe := congrArg ofBe hlength
    rw [ofBe_beBytes, Nat.mod_eq_of_lt (by omega)] at hbe
    rw [shiftLeft_or_toNat, ← hbe]
    simp [ofBe, Nat.mul_comm]
  obtain ⟨-, -, -, hdrop⟩ := slice_eq_ok.mp hslice
  rw [List.drop_length, List.append_nil, hvalue, drop_of_append hrest] at hdrop
  exact hdrop.symm

/-- Where the phone and the verifier take a key from an attestation object, it is the same
key. -/
theorem extracted_keys_agree {cr : Crates} (hread : ReadsItems cr.cborFromReader)
    {attestationObject phoneKey : Bytes} {stmt : Apple.AttestationStatement} {auth : Apple.AuthData}
    {pk : Apple.P256Pk} (hphone : extractAttestedPublicKey attestationObject = .ok phoneKey)
    (hobject : Apple.decodeAttestationObject cr attestationObject = .ok stmt)
    (hparse : Apple.AuthData.parse stmt.authData = .ok auth)
    (hkey : Apple.extractP256Pk cr auth.credentialPublicKey = .ok pk) : phoneKey = pk.toList := by
  simp only [extractAttestedPublicKey, bind_eq_ok, Prod.exists, okOr_eq_ok, ensure_eq_ok,
    exists_const, pure_eq_ok] at hphone
  obtain ⟨n, r, hheader, object, hscan, ad, had, -, hi, hhi, lo, hlo, -, coseBytes, hslice, cn, c,
    hcoseHeader, key, hcoseScan, -, -, xb, hxb, yb, hyb, -, rfl⟩ := hphone
  obtain rfl := Option.some.inj ((authData_of_decode hread hobject hheader hscan).symm.trans had)
  obtain rfl := coseBytes_of_parse hparse hhi hlo hslice
  exact key_of_scan hread hkey hcoseHeader hcoseScan hxb hyb

section Sample

theorem readsItems_ofTables {certificates : List Certificate} {items : List (Bytes × Value)}
    (h : ∀ p ∈ items, ∃ text rest, p.1 = text ++ rest ∧ Item p.2 text) :
    ReadsItems (Crates.ofTables certificates items).cborFromReader := by
  intro bytes v hv
  simp only [Crates.ofTables] at hv
  split at hv
  · rename_i v' hlookup
    obtain rfl := Except.ok.inj hv
    obtain ⟨before, after, rfl, -⟩ := List.lookup_eq_some_iff.mp hlookup
    exact h (bytes, v') (by simp)
  · cases hv

/-- A COSE key with an unknown nested entry, a key that occurs twice and is written with a
longer head than it needs, and a byte behind it. -/
def sampleKey : Bytes :=
  [0xA7, 0x05, 0x81, 0x01, 0x01, 0x03, 0x18, 0x01, 0x02, 0x22, 0x58, 0x20] ++
    beBytes 32 P256.generator.y ++ [0x03, 0x26, 0x20, 0x01, 0x21, 0x58, 0x20] ++
    beBytes 32 P256.generator.x ++ [0xFF]

def sampleKeyEntries : List Apple.Entry :=
  [(.integer 5, .array [.integer 1]), (.integer 1, .integer 3), (.integer 1, .integer 2),
    (.integer (-3), .bytes (beBytes 32 P256.generator.y)), (.integer 3, .integer (-7)),
    (.integer (-1), .integer 1), (.integer (-2), .bytes (beBytes 32 P256.generator.x))]

theorem item_unsigned (n : ℕ) (hn : n < 24) : Item (.integer n) [UInt8.ofNat n] := by
  have h := Item.unsigned (.short hn)
  rwa [Nat.mul_zero, Nat.zero_add] at h

theorem item_negative (n : ℕ) (hn : n < 24) : Item (.integer (-1 - n)) [UInt8.ofNat (32 + n)] :=
  .negative (.short hn)

theorem item_bytes {bs : Bytes} (h : 23 < bs.length ∧ bs.length < 256) :
    Item (.bytes bs) ([0x58, UInt8.ofNat bs.length] ++ bs) := by
  have hargument : ofBe [UInt8.ofNat bs.length] = bs.length := by
    rw [ofBe_cons, UInt8.toNat_ofNat_of_lt' h.2]
    simp [ofBe]
  have hhead := @Head.long 2 0 [UInt8.ofNat bs.length] (by norm_num) rfl
  rw [hargument] at hhead
  exact .bytes hhead

theorem item_sampleKey :
    ∃ text, sampleKey = text ++ [0xFF] ∧ Item (.map sampleKeyEntries) text := by
  have hlen : ∀ x, 23 < (beBytes 32 x).length ∧ (beBytes 32 x).length < 256 := by simp
  refine ⟨_, ?_, .map (.short (by decide)) <|
    .cons (.mk (item_unsigned 5 (by norm_num))
      (.array (.short (by decide)) (.cons (item_unsigned 1 (by norm_num)) .nil))) <|
    .cons (.mk (item_unsigned 1 (by norm_num)) (item_unsigned 3 (by norm_num))) <|
    .cons (.mk (.unsigned (@Head.long 0 0 [1] (by norm_num) rfl))
      (item_unsigned 2 (by norm_num))) <|
    .cons (.mk (item_negative 2 (by norm_num)) (item_bytes (hlen _))) <|
    .cons (.mk (item_unsigned 3 (by norm_num)) (item_negative 6 (by norm_num))) <|
    .cons (.mk (item_negative 0 (by norm_num)) (item_unsigned 1 (by norm_num))) <|
    .cons (.mk (item_negative 1 (by norm_num)) (item_bytes (hlen _))) .nil⟩
  decide +kernel

def sampleAuthData : Bytes :=
  beBytes 32 1 ++ [0x40] ++ beBytes 4 0 ++ beBytes 16 2 ++ [0, 1, 9] ++ sampleKey

/-- An attestation object whose authData occurs twice, with a byte behind it. -/
def sampleObject : Bytes :=
  [0xA4] ++ [0x67] ++ asBytes "attStmt" ++ [0xA1, 0x63] ++ asBytes "x5c" ++ [0x80, 0x68] ++
    asBytes "authData" ++ [0x41, 7, 0x63] ++ asBytes "fmt" ++ [0x61] ++ asBytes "f" ++ [0x68] ++
    asBytes "authData" ++ [0x58, 0x8C] ++ sampleAuthData ++ [0]

def sampleObjectEntries : List Apple.Entry :=
  [(.text "attStmt", .map [(.text "x5c", .array [])]), (.text "authData", .bytes [7]),
    (.text "fmt", .text "f"), (.text "authData", .bytes sampleAuthData)]

theorem item_text (s : String) (h : (asBytes s).length < 24) :
    Item (.text s) ([UInt8.ofNat (96 + (asBytes s).length)] ++ asBytes s) :=
  .text (.short h)

theorem item_sampleObject :
    ∃ text, sampleObject = text ++ [0] ∧ Item (.map sampleObjectEntries) text := by
  refine ⟨_, ?_, .map (.short (by decide)) <|
    .cons (.mk (item_text "attStmt" (by decide +kernel)) (.map (.short (by decide)) <|
      .cons (.mk (item_text "x5c" (by decide +kernel)) (.array (.short (by decide)) .nil)) .nil)) <|
    .cons (.mk (item_text "authData" (by decide +kernel)) (.bytes (.short (by decide)))) <|
    .cons (.mk (item_text "fmt" (by decide +kernel)) (item_text "f" (by decide +kernel))) <|
    .cons (.mk (item_text "authData" (by decide +kernel)) (item_bytes (by decide +kernel))) .nil⟩
  decide +kernel

def sampleReader : Crates :=
  .ofTables [] [(sampleObject, .map sampleObjectEntries), (sampleKey, .map sampleKeyEntries)]

theorem extracted_keys_agree_sample : ∃ phoneKey stmt auth pk,
    extractAttestedPublicKey sampleObject = .ok phoneKey ∧
      Apple.decodeAttestationObject sampleReader sampleObject = .ok stmt ∧
      Apple.AuthData.parse stmt.authData = .ok auth ∧
      Apple.extractP256Pk sampleReader auth.credentialPublicKey = .ok pk ∧
      phoneKey = pk.toList := by
  have hread : ReadsItems sampleReader.cborFromReader := by
    obtain ⟨object, hobject, hitem⟩ := item_sampleObject
    obtain ⟨key, hkey, hkeyItem⟩ := item_sampleKey
    refine readsItems_ofTables ?_
    simpa using ⟨⟨object, ⟨_, hobject⟩, hitem⟩, ⟨key, ⟨_, hkey⟩, hkeyItem⟩⟩
  obtain ⟨phoneKey, hphone⟩ := exists_eq_ok (x := extractAttestedPublicKey sampleObject)
    (by decide +kernel)
  obtain ⟨stmt, hobject⟩ := exists_eq_ok
    (x := Apple.decodeAttestationObject sampleReader sampleObject) (by decide +kernel)
  have hauthData : (Apple.decodeAttestationObject sampleReader sampleObject).map
      (fun stmt => stmt.authData) = .ok sampleAuthData := by decide +kernel
  rw [hobject] at hauthData
  have hstmt : stmt.authData = sampleAuthData := Except.ok.inj hauthData
  obtain ⟨auth, hauth⟩ := exists_eq_ok (x := Apple.AuthData.parse sampleAuthData)
    (by decide +kernel)
  have hcose : (Apple.AuthData.parse sampleAuthData).map (fun auth => auth.credentialPublicKey) =
      .ok sampleKey := by decide +kernel
  rw [hauth] at hcose
  have hpk : auth.credentialPublicKey = sampleKey := Except.ok.inj hcose
  obtain ⟨pk, hkey⟩ := exists_eq_ok (x := Apple.extractP256Pk sampleReader sampleKey)
    (by decide +kernel)
  rw [← hstmt] at hauth
  rw [← hpk] at hkey
  exact ⟨phoneKey, stmt, auth, pk, hphone, hobject, hauth, hkey,
    extracted_keys_agree hread hphone hobject hauth hkey⟩

end Sample

end Attestation.IosDemo
