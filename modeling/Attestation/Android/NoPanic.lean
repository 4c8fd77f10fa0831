import Attestation.Android.ApplicationId

/-! No extension crashes its decoders, and none keeps them busy for ever. Every guard of
the walk over an AuthorizationList comes before the access it is for: a header lies in
the bytes, takes two of them at least and announces fewer than `2 ^ 32`, so the two
additions behind it do not overflow and the position grows. Integers are copied into a
buffer only when they fit. -/

namespace Attestation.Android

open Result Der

namespace KeyDescription

/-! ### Integers -/

theorem signExtend_returns {ε : Type} {n : ℕ} {bytes : Bytes} (h : bytes.length ≤ n) :
    Returns (signExtend n bytes : Result ε Bytes) := by
  rw [signExtend, if_pos h]
  exact .ok _

theorem decodeI32_returns (r : Bytes) : Returns (decodeI32 r) := by
  refine .bind (int_returns r) ?_
  rintro ⟨bytes, r'⟩ -
  refine .bind (.ensure _ _) fun _ hlen => ?_
  exact .bind (signExtend_returns (Nat.not_lt.mp (ensure_eq_ok.mp hlen))) fun _ _ => .ok _

theorem decodeU64_returns (r : Bytes) : Returns (decodeU64 r) := by
  refine .bind (int_returns r) ?_
  rintro ⟨bytes, r'⟩ -
  refine .bind (.ensure _ _) fun _ _ => .bind (.ensure _ _) fun _ hlen => ?_
  exact .bind (signExtend_returns (Nat.not_lt.mp (ensure_eq_ok.mp hlen))) fun _ _ => .ok _

theorem decodeEnumerated_returns (r : Bytes) : Returns (decodeEnumerated r) := by
  refine .bind (readValue_returns _ r) ?_
  rintro ⟨body, r'⟩ -
  refine .bind (.ensure _ _) fun _ hlen => ?_
  exact .bind (signExtend_returns (Nat.not_lt.mp (ensure_eq_ok.mp hlen))) fun _ _ => .ok _

/-! ### Headers -/

/-- The tag loop reads a byte it has checked for, and there are not more of them than the
fuel. -/
theorem longTag_returns {bytes : Bytes} {fuel cur : ℕ} (n : UInt32) (hpos : 0 < fuel)
    (hfuel : bytes.length < fuel + cur) : Returns (longTag bytes fuel cur n) := by
  induction fuel generalizing cur n with
  | zero => omega
  | succ fuel ih =>
    refine .bind (.ensure _ _) fun _ hcur => ?_
    have hcur := Nat.not_le.mp (ensure_eq_ok.mp hcur)
    refine .bind (index_returns hcur) fun b _ => .bind (.okOr _ _) fun m _ => ?_
    split_ifs
    · exact .ok _
    · exact ih m (by omega) (by omega)

theorem longLength_returns (bytes : Bytes) (count cur : ℕ) (v : UInt64) :
    Returns (longLength bytes count cur v) := by
  induction count generalizing cur v with
  | zero => exact .ok _
  | succ count ih =>
    refine .bind (.ensure _ _) fun _ hcur => ?_
    refine .bind (index_returns (Nat.not_le.mp (ensure_eq_ok.mp hcur))) fun b _ => ?_
    exact .bind (.ensure _ _) fun _ _ => ih _ _

theorem tagNumberAt_returns (bytes : Bytes) (pos : ℕ) (first : UInt8) :
    Returns (tagNumberAt bytes pos first) := by
  rw [tagNumberAt]
  split_ifs
  · exact .ok _
  · exact longTag_returns 0 (Nat.succ_pos _) (by omega)

theorem bodyLengthAt_returns (bytes : Bytes) (cur : ℕ) (lenFirst : UInt8) :
    Returns (bodyLengthAt bytes cur lenFirst) := by
  rw [bodyLengthAt]
  split_ifs
  · exact .ok _
  · exact .bind (.ensure _ _) fun _ _ => longLength_returns _ _ _ _

theorem parseTlvHeader_returns (bytes : Bytes) (pos : ℕ) : Returns (parseTlvHeader bytes pos) := by
  rw [parseTlvHeader_eq]
  refine .bind (.ensure _ _) fun _ hpos => ?_
  refine .bind (index_returns (Nat.not_le.mp (ensure_eq_ok.mp hpos))) fun first _ => ?_
  refine .bind (tagNumberAt_returns bytes pos first) ?_
  rintro ⟨tagNumber, cur⟩ -
  refine .bind (.ensure _ _) fun _ hcur => ?_
  refine .bind (index_returns (Nat.not_le.mp (ensure_eq_ok.mp hcur))) fun lenFirst _ => ?_
  exact .bind (bodyLengthAt_returns bytes cur lenFirst) fun _ _ => .ok _

/-- A header that was parsed lies in the bytes, and announces at most four octets' worth. -/
theorem parseTlvHeader_bounds {bytes : Bytes} {pos : ℕ} {header : TlvHeader}
    (h : parseTlvHeader bytes pos = .ok header) :
    0 < header.headerLength ∧ pos + header.headerLength ≤ bytes.length ∧
      header.bodyLength < 2 ^ 32 := by
  obtain ⟨raw, rest, ⟨ident, len, hdrop, hid, hlen, hfive, hi, hl⟩, rfl⟩ :=
    parseTlvHeader_eq_ok.mp h
  obtain ⟨ident', rfl⟩ := hid.exists_cons
  have hpos := length_lt_of_drop_eq_cons hdrop
  have htotal := congrArg List.length hdrop
  have hbody : raw.length < 2 ^ 32 := lt_of_lt_of_le (hlen.lt_of_length_le hfive) (by norm_num)
  simp only [List.length_drop, List.length_append, hi, hl] at htotal
  simp only [List.length_cons] at hi
  refine ⟨?_, ?_, hbody⟩
  · simp only [RawHeader.parsed]
    omega
  · simp only [RawHeader.parsed]
    omega

/-! ### Lists -/

theorem decodeRootOfTrust_returns (r : Bytes) : Returns (decodeRootOfTrust r) := by
  refine .bind (readValue_returns _ r) fun _ _ => .bind (sliceReader_returns _) fun _ _ => ?_
  refine .bind (readValue_returns _ _) fun _ _ => .bind (bool_returns _) fun _ _ => ?_
  refine .bind (.mapErr (decodeEnumerated_returns _)) ?_
  rintro ⟨stateI, br⟩ -
  refine .bind (.okOr _ _) fun _ _ => ?_
  dsimp only
  split_ifs
  · exact .ok _
  · refine .bind (readValue_returns _ _) fun _ _ => .ok _

theorem storeElement_returns (out : AuthorizationList) (tagNumber : UInt32) (inner : Bytes) :
    Returns (storeElement out tagNumber inner) := by
  refine .bind (sliceReader_returns inner) fun ir _ => ?_
  dsimp only
  split
  · exact .bind (.mapErr (decodeU64_returns ir)) fun _ _ => .ok _
  · exact .bind (decodeRootOfTrust_returns ir) fun _ _ => .ok _
  · exact .bind (.mapErr (decodeI32_returns ir)) fun _ _ => .ok _
  · exact .bind (.mapErr (decodeI32_returns ir)) fun _ _ => .ok _
  · exact .bind (readValue_returns _ ir) fun _ _ => .ok _
  · exact .ok _

/-- One round of the loop either stops or goes on behind the position it was at. -/
theorem decodeElements_returns {body : Bytes} {fuel pos : ℕ} (out : AuthorizationList)
    (hbody : body.length < 2 ^ 63) (hpos : 0 < fuel) (hfuel : body.length < fuel + pos) :
    Returns (decodeElements body fuel pos out) := by
  induction fuel generalizing pos out with
  | zero => omega
  | succ fuel ih =>
    rw [decodeElements]
    split_ifs with hlt
    · refine .bind (.mapErr (parseTlvHeader_returns body pos)) fun header hheader => ?_
      obtain ⟨hpositive, hin, hshort⟩ := parseTlvHeader_bounds (mapErr_eq_ok.mp hheader)
      have hstart : usizeAdd pos header.headerLength =
          (.ok (pos + header.headerLength) : Result Der.Error ℕ) := if_pos (by omega)
      have hend : usizeAdd (pos + header.headerLength) header.bodyLength =
          (.ok (pos + header.headerLength + header.bodyLength) : Result Der.Error ℕ) :=
        if_pos (by omega)
      rw [hstart]
      refine .bind (.ok _) ?_
      rintro _ ⟨⟩
      rw [hend]
      refine .bind (.ok _) ?_
      rintro _ ⟨⟩
      refine .bind (.ensure _ _) fun _ hle => ?_
      have hle := Nat.not_lt.mp (ensure_eq_ok.mp hle)
      rw [slice, if_pos ⟨by omega, hle⟩]
      refine .bind (.ok _) fun inner _ => ?_
      split_ifs
      · exact .bind (storeElement_returns out _ _) fun out' _ => ih out' (by omega) (by omega)
      · exact .bind (.ok _) fun out' _ => ih out' (by omega) (by omega)
    · exact .ok _

theorem decodeAuthorizationList_returns (r : Bytes) : Returns (decodeAuthorizationList r) := by
  refine .bind (readValue_returns _ r) ?_
  rintro ⟨body, r'⟩ hbody
  obtain ⟨-, hlen, -⟩ := readValue_eq_ok.mp hbody
  have hmax : maxLength < 2 ^ 63 := by decide
  exact .bind (decodeElements_returns {} (by omega) (by omega) (by omega)) fun _ _ => .ok _

/-! ### The extension -/

theorem decodeSecurityLevel_returns (what : String) (br : Bytes) :
    Returns (decodeSecurityLevel what br) :=
  .bind (.mapErr (decodeEnumerated_returns br)) fun _ _ => .bind (.okOr _ _) fun _ _ => .ok _

theorem fromDer_returns (bytes : Bytes) : Returns (fromDer bytes) := by
  refine .bind (.mapErr (sliceReader_returns bytes)) fun _ _ => ?_
  refine .bind (.mapErr (readHeader_returns _)) fun _ _ => .bind (.ensure _ _) fun _ _ => ?_
  refine .bind (.mapErr (readSlice_returns _ _)) fun _ _ => ?_
  refine .bind (.mapErr (sliceReader_returns _)) fun br _ => ?_
  refine .bind (.mapErr (decodeI32_returns br)) fun _ _ => ?_
  refine .bind (decodeSecurityLevel_returns _ _) fun _ _ => ?_
  refine .bind (.mapErr (decodeI32_returns _)) fun _ _ => ?_
  refine .bind (decodeSecurityLevel_returns _ _) fun _ _ => ?_
  refine .bind (.mapErr (readValue_returns _ _)) fun _ _ => ?_
  refine .bind (.mapErr (readValue_returns _ _)) fun _ _ => ?_
  refine .bind (.mapErr (decodeAuthorizationList_returns _)) fun _ _ => ?_
  exact .bind (.mapErr (decodeAuthorizationList_returns _)) fun _ _ => .ok _

end KeyDescription

open KeyDescription

/-! ### The application id -/

theorem decodeI64FromInt_returns (bytes : Bytes) : Returns (decodeI64FromInt bytes) := by
  refine .bind (.ensure _ _) fun _ hlen => ?_
  exact .bind (signExtend_returns (Nat.not_lt.mp (ensure_eq_ok.mp hlen))) fun _ _ => .ok _

theorem decodePackageInfo_returns (pr : Bytes) : Returns (decodePackageInfo pr) := by
  refine .bind (.mapErr (readHeader_returns pr)) fun _ _ => .bind (.ensure _ _) fun _ _ => ?_
  refine .bind (.mapErr (readSlice_returns _ _)) fun _ _ => ?_
  refine .bind (.mapErr (sliceReader_returns _)) fun _ _ => ?_
  refine .bind (.mapErr (readValue_returns _ _)) fun _ _ => ?_
  refine .bind (.mapErr (int_returns _)) fun _ _ => ?_
  exact .bind (decodeI64FromInt_returns _) fun _ _ => .ok _

theorem length_lt_of_decodePackageInfo {pr pr' : Bytes} {info : PackageInfo}
    (h : decodePackageInfo pr = .ok (info, pr')) : pr'.length < pr.length := by
  simp only [decodePackageInfo, bind_eq_ok, derError_eq_ok, pure_eq_ok, Prod.exists,
    Prod.mk.injEq] at h
  obtain ⟨_, r, hheader, _, -, _, r', hslice, _, -, _, _, -, _, _, -, _, -, -, rfl⟩ := h
  exact (length_le_of_readSlice hslice).trans_lt (length_lt_of_readHeader hheader)

theorem length_lt_of_octetString {r r' d : Bytes} (h : derError (octetString r) = .ok (d, r')) :
    r'.length < r.length := by
  obtain ⟨-, rfl⟩ := octetString_eq_ok.mp (derError_eq_ok.mp h)
  simp only [tlv, List.length_append, List.length_cons]
  omega

theorem attestationApplicationId_returns (bytes : Bytes) :
    Returns (attestationApplicationId bytes) := by
  have hpackages (pr : Bytes) : Returns (readAll decodePackageInfo (pr.length + 1) pr []) :=
    readAll_returns decodePackageInfo_returns length_lt_of_decodePackageInfo (Nat.lt_succ_self _) []
  have hdigests (sr : Bytes) :
      Returns (readAll (fun r => derError (octetString r)) (sr.length + 1) sr []) :=
    readAll_returns (fun r => .mapErr (readValue_returns _ r)) length_lt_of_octetString
      (Nat.lt_succ_self _) []
  refine .bind (.mapErr (sliceReader_returns bytes)) fun _ _ => ?_
  refine .bind (.mapErr (readHeader_returns _)) fun _ _ => .bind (.ensure _ _) fun _ _ => ?_
  refine .bind (.mapErr (readSlice_returns _ _)) fun _ _ => ?_
  refine .bind (.mapErr (sliceReader_returns _)) fun _ _ => ?_
  refine .bind (.mapErr (readHeader_returns _)) fun _ _ => .bind (.ensure _ _) fun _ _ => ?_
  refine .bind (.mapErr (readSlice_returns _ _)) fun _ _ => ?_
  refine .bind (.mapErr (sliceReader_returns _)) fun pr _ => .bind (hpackages pr) fun _ _ => ?_
  refine .bind (.mapErr (readHeader_returns _)) fun _ _ => .bind (.ensure _ _) fun _ _ => ?_
  refine .bind (.mapErr (readSlice_returns _ _)) fun _ _ => ?_
  exact .bind (.mapErr (sliceReader_returns _)) fun sr _ => .bind (hdigests sr) fun _ _ => .ok _

/-- Both decoders return on every byte string. A header of it is read in range and is not
empty, the position behind what it announces fits a machine word, and no integer is copied
into a buffer that is too small. -/
theorem extension_decoders_return (bytes : Bytes) (h : bytes.length < 2 ^ 28) :
    Returns (KeyDescription.fromDer bytes) ∧ Returns (attestationApplicationId bytes) ∧
      Returns (decodeAuthorizationList bytes) ∧
      (∀ pos, Returns (parseTlvHeader bytes pos)) ∧
      (∀ pos header, parseTlvHeader bytes pos = .ok header →
        pos < pos + header.headerLength ∧ pos + header.headerLength ≤ bytes.length ∧
          pos + header.headerLength + header.bodyLength < 2 ^ 64) ∧
      Returns (decodeI32 bytes) ∧ Returns (decodeU64 bytes) ∧ Returns (decodeEnumerated bytes) ∧
      Returns (decodeI64FromInt bytes) := by
  refine ⟨fromDer_returns bytes, attestationApplicationId_returns bytes,
    decodeAuthorizationList_returns bytes, parseTlvHeader_returns bytes, ?_,
    decodeI32_returns bytes, decodeU64_returns bytes, decodeEnumerated_returns bytes,
    decodeI64FromInt_returns bytes⟩
  intro pos header hheader
  obtain ⟨hpositive, hin, hshort⟩ := parseTlvHeader_bounds hheader
  exact ⟨by omega, hin, by omega⟩

/-- An element `[704]` that announces `2 ^ 32 - 1` octets and has none. -/
def overlongElement : Bytes := [0xBF, 0x85, 0x40, 0x84, 0xFF, 0xFF, 0xFF, 0xFF]

theorem extension_decoders_return_overlongElement :
    parseTlvHeader overlongElement 0 = .ok ⟨2, true, 704, 8, 2 ^ 32 - 1⟩ ∧
      Returns (decodeAuthorizationList (tlv .sequence overlongElement)) ∧
      0 + 8 + (2 ^ 32 - 1) < 2 ^ 64 := by
  have hheader : parseTlvHeader overlongElement 0 = .ok ⟨2, true, 704, 8, 2 ^ 32 - 1⟩ := by
    decide +kernel
  refine ⟨hheader, (extension_decoders_return _ (by decide +kernel)).2.2.1, ?_⟩
  exact ((extension_decoders_return overlongElement (by decide)).2.2.2.2.1 0 _ hheader).2.2

end Attestation.Android
