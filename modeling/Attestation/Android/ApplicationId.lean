import Attestation.Android.Layout

/-! The blob of the element `[709]`: the packages a key belongs to, and the digests
of the certificates that sign them. Both sets are read to their ends by a loop. An
application id written in DER is read back when its versions fit an `i64`, and
refused otherwise. -/

namespace Attestation.Android

open Result Der KeyDescription

structure PackageInfo where
  packageName : Bytes
  version : ℤ
  deriving DecidableEq, Repr

structure AttestationApplicationId where
  packageInfos : List PackageInfo
  signatureDigests : List Bytes
  deriving DecidableEq, Repr

/-! ### Reading -/

/-- `.map_err(|e| Error::Der(e.to_string()))?`. -/
def derError {α : Type} (x : Result Der.Error α) : Result Error α :=
  mapErr (fun e => .der e.message) x

def decodeI64FromInt (bytes : Bytes) : Result Error ℤ := do
  ensure (¬ bytes.length > 8) (.der "AAID version > i64")
  let buf ← signExtend 8 bytes
  pure (fromBeBytes buf)

/-- A package of the first set; bytes behind its version are not looked at. -/
def decodePackageInfo (pr : Bytes) : Result Error (PackageInfo × Bytes) := do
  let (h, pr) ← derError (readHeader pr)
  ensure (h.tag = .sequence) (.der ("AAID PackageInfo expected SEQ got " ++ Tag.debug h.tag))
  let (pbody, pr) ← derError (readSlice h.length pr)
  let pbr ← derError (sliceReader pbody)
  let (name, pbr) ← derError (octetString pbr)
  let (versionInt, _) ← derError (int pbr)
  let version ← decodeI64FromInt versionInt
  pure (⟨name, version⟩, pr)

def attestationApplicationId (bytes : Bytes) : Result Error AttestationApplicationId := do
  let reader ← context "AAID outer" (sliceReader bytes)
  let (header, reader) ← derError (readHeader reader)
  ensure (header.tag = .sequence) (.der ("AAID expected SEQUENCE got " ++ Tag.debug header.tag))
  let (body, _) ← context "AAID body" (readSlice header.length reader)
  let br ← context "AAID body reader" (sliceReader body)
  let (pkgsHeader, br) ← derError (readHeader br)
  ensure (pkgsHeader.tag = .set)
    (.der ("AAID packageInfos expected SET got " ++ Tag.debug pkgsHeader.tag))
  let (pkgsBody, br) ← derError (readSlice pkgsHeader.length br)
  let pr ← derError (sliceReader pkgsBody)
  let packageInfos ← readAll decodePackageInfo (pr.length + 1) pr []
  let (sigsHeader, br) ← derError (readHeader br)
  ensure (sigsHeader.tag = .set)
    (.der ("AAID signatureDigests expected SET got " ++ Tag.debug sigsHeader.tag))
  let (sigsBody, _) ← derError (readSlice sigsHeader.length br)
  let sr ← derError (sliceReader sigsBody)
  let signatureDigests ← readAll (fun r => derError (octetString r)) (sr.length + 1) sr []
  pure { packageInfos, signatureDigests }

/-! ### Writing -/

def PackageInfo.toDer (info : PackageInfo) : Bytes :=
  tlv .sequence (tlv .octetString info.packageName ++ tlv .integer (encodeInt info.version))

/-- The two sets, each in the order of its list. -/
def AttestationApplicationId.toDer (aaid : AttestationApplicationId) : Bytes :=
  tlv .sequence (tlv .set (aaid.packageInfos.flatMap PackageInfo.toDer) ++
    tlv .set (aaid.signatureDigests.flatMap (tlv .octetString)))

/-- The range of an `i64`. -/
def InI64 (n : ℤ) : Prop := -2 ^ 63 ≤ n ∧ n < 2 ^ 63

instance : DecidablePred InI64 := fun _ => inferInstanceAs (Decidable (_ ∧ _))

/-! ### The round trip -/

theorem decodeI64FromInt_encodeInt (n : ℤ) :
    decodeI64FromInt (encodeInt n) = if InI64 n then .ok n else fail (.der "AAID version > i64") := by
  have hrange : (encodeInt n).length ≤ 8 ↔ InI64 n := by
    rw [length_encodeInt_le_iff (by norm_num), InI64]
    omega
  split_ifs with h
  · have hlen := hrange.mpr h
    simp only [decodeI64FromInt, bind_eq_ok, ensure_eq_ok, exists_const, signExtend_eq_ok,
      pure_eq_ok, gt_iff_lt, not_lt]
    refine ⟨hlen, _, ⟨hlen, rfl⟩, ?_⟩
    rw [fromBeBytes_signExtend, intValue_encodeInt]
  · have hlen : ¬ ¬ (encodeInt n).length > 8 := by
      rw [gt_iff_lt, not_lt, hrange]
      exact h
    rw [decodeI64FromInt, ensure, if_neg hlen]
    rfl

theorem derError_eq_ok {α : Type} {x : Result Der.Error α} {a : α} :
    derError x = .ok a ↔ x = .ok a := mapErr_eq_ok

/-- What the loop over the packages makes of one that is written. -/
def PackageInfo.check (info : PackageInfo) : Result Error PackageInfo :=
  if InI64 info.version then .ok info else fail (.der "AAID version > i64")

theorem decodePackageInfo_toDer {info : PackageInfo} (hlen : info.toDer.length ≤ maxLength)
    (r : Bytes) : decodePackageInfo (info.toDer ++ r) = info.check.map fun x => (x, r) := by
  set fields := tlv .octetString info.packageName ++ tlv .integer (encodeInt info.version)
    with hfields
  have hbody : fields.length ≤ maxLength :=
    (length_le_tlv_append .sequence fields []).trans (by rwa [List.append_nil])
  have hname : octetString fields = .ok (info.packageName, tlv .integer (encodeInt info.version)) :=
    octetString_eq_ok.mpr ⟨(length_le_tlv_append _ _ _).trans hbody, rfl⟩
  have hversion : int (tlv .integer (encodeInt info.version)) = .ok (encodeInt info.version, []) := by
    refine int_eq_ok.mpr ⟨minimalInt_encodeInt _, ?_, (List.append_nil _).symm⟩
    have htail : (tlv .integer (encodeInt info.version)).length ≤ maxLength :=
      length_le_of_append_le _ _ hbody
    exact (length_le_tlv_append .integer _ []).trans (by rwa [List.append_nil])
  rw [decodePackageInfo]
  refine (bind_of_eq_ok (derError_eq_ok.mpr (readHeader_tlv (by decide) hbody r))).trans ?_
  refine (bind_of_eq_ok (a := ()) (ensure_eq_ok.mpr rfl)).trans ?_
  refine (bind_of_eq_ok (derError_eq_ok.mpr (readSlice_append fields r))).trans ?_
  refine (bind_of_eq_ok (derError_eq_ok.mpr (sliceReader_eq_ok.mpr ⟨hbody, rfl⟩))).trans ?_
  refine (bind_of_eq_ok (derError_eq_ok.mpr hname)).trans ?_
  refine (bind_of_eq_ok (derError_eq_ok.mpr hversion)).trans ?_
  refine (congrArg (· >>= _) (decodeI64FromInt_encodeInt info.version)).trans ?_
  rw [PackageInfo.check]
  split_ifs <;> rfl

theorem length_le_flatMap {α : Type} (write : α → Bytes) {xs : List α} {x : α} (h : x ∈ xs) :
    (write x).length ≤ (xs.flatMap write).length := by
  obtain ⟨as, bs, rfl⟩ := List.append_of_mem h
  simp only [List.flatMap_append, List.flatMap_cons, List.length_append]
  omega

theorem readAll_packageInfos {infos : List PackageInfo}
    (hlen : (infos.flatMap PackageInfo.toDer).length ≤ maxLength) :
    readAll decodePackageInfo ((infos.flatMap PackageInfo.toDer).length + 1)
        (infos.flatMap PackageInfo.toDer) [] =
      if ∀ info ∈ infos, InI64 info.version then .ok infos
      else fail (.der "AAID version > i64") := by
  rw [readAll_flatMap PackageInfo.toDer PackageInfo.check (fun _ _ => List.cons_ne_nil _ _)
    (fun info hinfo => decodePackageInfo_toDer ((length_le_flatMap _ hinfo).trans hlen))
    (Nat.lt_succ_self _)]
  have hcheck : infos.mapM PackageInfo.check =
      if ∀ info ∈ infos, InI64 info.version then .ok infos
      else fail (.der "AAID version > i64") := mapM_check infos
  rw [hcheck]
  split_ifs <;> rfl

theorem readAll_signatureDigests {digests : List Bytes}
    (hlen : (digests.flatMap (tlv .octetString)).length ≤ maxLength) :
    readAll (fun r => derError (octetString r))
        ((digests.flatMap (tlv .octetString)).length + 1) (digests.flatMap (tlv .octetString)) [] =
      .ok digests := by
  have hread : ∀ d ∈ digests, ∀ r, derError (octetString (tlv .octetString d ++ r)) =
      (Except.ok d : Result Error Bytes).map fun x => (x, r) := by
    intro d hd r
    have hd := (length_le_flatMap (tlv .octetString) hd).trans hlen
    refine derError_eq_ok.mpr (octetString_eq_ok.mpr ⟨?_, rfl⟩)
    exact (length_le_tlv_append .octetString d []).trans (by rwa [List.append_nil])
  rw [readAll_flatMap (tlv .octetString) Except.ok (fun _ _ => List.cons_ne_nil _ _) hread
    (Nat.lt_succ_self _)]
  have hcollect : digests.mapM (Except.ok : Bytes → Result Error Bytes) = .ok digests := by
    have hpure := List.mapM_pure (m := Result Error) (l := digests) (f := id)
    rwa [List.map_id] at hpure
  rw [hcollect]
  rfl

/-- An application id is read back as it was written when every version is an `i64`, and
refused otherwise. -/
theorem attestationApplicationId_toDer (aaid : AttestationApplicationId)
    (h : aaid.toDer.length < 2 ^ 28) :
    attestationApplicationId aaid.toDer =
      if ∀ info ∈ aaid.packageInfos, InI64 info.version then .ok aaid
      else fail (.der "AAID version > i64") := by
  obtain ⟨infos, digests⟩ := aaid
  set packages := infos.flatMap PackageInfo.toDer with hpackages
  set signatures := digests.flatMap (tlv .octetString) with hsignatures
  set sets := tlv .set packages ++ tlv .set signatures with hsets
  have hder : (⟨infos, digests⟩ : AttestationApplicationId).toDer = tlv .sequence sets ++ [] :=
    (List.append_nil _).symm
  have hmax : (tlv .sequence sets ++ []).length ≤ maxLength := hder ▸ Nat.le_of_lt_succ h
  have hbody : sets.length ≤ maxLength := (length_le_tlv_append _ _ _).trans hmax
  have hpkgs : packages.length ≤ maxLength := (length_le_tlv_append _ _ _).trans hbody
  have hsigsDer : tlv .set signatures = tlv .set signatures ++ [] := (List.append_nil _).symm
  have hsigs : signatures.length ≤ maxLength :=
    (length_le_tlv_append .set _ []).trans (hsigsDer ▸ length_le_of_append_le _ _ hbody)
  have hset : Tag.set.Readable := by decide
  have hreader : sliceReader (tlv .sequence sets ++ []) = .ok (tlv .sequence sets ++ []) :=
    sliceReader_eq_ok.mpr ⟨hmax, rfl⟩
  rw [hder, attestationApplicationId]
  refine (bind_of_eq_ok (mapErr_eq_ok.mpr hreader)).trans ?_
  refine (bind_of_eq_ok (derError_eq_ok.mpr (readHeader_tlv (by decide) hbody []))).trans ?_
  refine (bind_of_eq_ok (a := ()) (ensure_eq_ok.mpr rfl)).trans ?_
  refine (bind_of_eq_ok (mapErr_eq_ok.mpr (readSlice_append sets []))).trans ?_
  refine (bind_of_eq_ok (mapErr_eq_ok.mpr (sliceReader_eq_ok.mpr ⟨hbody, rfl⟩))).trans ?_
  refine (bind_of_eq_ok (derError_eq_ok.mpr (readHeader_tlv hset hpkgs _))).trans ?_
  refine (bind_of_eq_ok (a := ()) (ensure_eq_ok.mpr rfl)).trans ?_
  refine (bind_of_eq_ok (derError_eq_ok.mpr (readSlice_append packages _))).trans ?_
  refine (bind_of_eq_ok (derError_eq_ok.mpr (sliceReader_eq_ok.mpr ⟨hpkgs, rfl⟩))).trans ?_
  refine (congrArg (· >>= _) (readAll_packageInfos hpkgs)).trans ?_
  split_ifs
  · rw [hsigsDer]
    refine (bind_of_eq_ok (derError_eq_ok.mpr (readHeader_tlv hset hsigs []))).trans ?_
    refine (bind_of_eq_ok (a := ()) (ensure_eq_ok.mpr rfl)).trans ?_
    refine (bind_of_eq_ok (derError_eq_ok.mpr (readSlice_append signatures []))).trans ?_
    refine (bind_of_eq_ok (derError_eq_ok.mpr (sliceReader_eq_ok.mpr ⟨hsigs, rfl⟩))).trans ?_
    exact bind_of_eq_ok (readAll_signatureDigests hsigs)
  · rfl

theorem attestationApplicationId_toDer_packages :
    let aaid : AttestationApplicationId :=
      ⟨[⟨[97], 29⟩, ⟨[], -129⟩, ⟨[97], 2 ^ 63 - 1⟩], [[7, 8], []]⟩
    attestationApplicationId aaid.toDer = .ok aaid := by
  intro aaid
  rw [attestationApplicationId_toDer aaid (by decide +kernel)]
  exact if_pos (by decide)

end Attestation.Android
