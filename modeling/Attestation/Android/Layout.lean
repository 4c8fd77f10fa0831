import Attestation.Android.Fields

/-! The layout of a KeyDescription extension that is accepted: the contents of each
value, and the bytes that are left unread behind the RootOfTrust's hash, behind the
eighth field and behind the outer SEQUENCE. An extension has at most one layout. -/

namespace Attestation.Android.KeyDescription

open Result Der

/-! ### The RootOfTrust -/

/-- The contents of the values of a RootOfTrust. -/
structure RootOfTrustLayout where
  bootKey : Bytes
  locked : Bool
  state : Bytes
  hash : Option Bytes
  unread : Bytes

namespace RootOfTrustLayout

def body (ℓ : RootOfTrustLayout) : Bytes :=
  tlv .octetString ℓ.bootKey ++ (tlv .boolean [boolByte ℓ.locked] ++ (tlv .enumerated ℓ.state ++
    ((ℓ.hash.map (tlv .octetString)).getD [] ++ ℓ.unread)))

/-- The values are those of a RootOfTrust the decoder returns. -/
structure Decodes (ℓ : RootOfTrustLayout) (rot : RootOfTrust) : Prop where
  bootKey : ℓ.bootKey = rot.verifiedBootKey
  locked : ℓ.locked = rot.deviceLocked
  state_length : ℓ.state.length ≤ 4
  state : VerifiedBootState.fromI32 (intValue ℓ.state) = some rot.verifiedBootState
  hash : ℓ.hash = rot.verifiedBootHash
  unread : ℓ.hash = none → ℓ.unread = []

end RootOfTrustLayout

theorem length_le_tlv_append (t : Tag) (body r : Bytes) :
    body.length ≤ (tlv t body ++ r).length := by
  simp only [tlv, List.length_append, List.length_cons]
  omega

theorem tlv_append_ne_nil (t : Tag) (body r : Bytes) : tlv t body ++ r ≠ [] := by simp [tlv]

theorem length_le_of_append_le {n : ℕ} (xs ys : Bytes) (h : (xs ++ ys).length ≤ n) :
    ys.length ≤ n := by
  rw [List.length_append] at h
  omega

/-- A value in front of a string that is short enough is determined by the whole. -/
theorem tlv_append_inj {t t' : Tag} {body body' r r' : Bytes}
    (hlen : (tlv t body ++ r).length ≤ maxLength) (h : tlv t body ++ r = tlv t' body' ++ r') :
    body = body' ∧ r = r' ∧ r.length ≤ maxLength :=
  have hinj := tlv_inj ((length_le_tlv_append t body r).trans hlen)
    ((length_le_tlv_append t' body' r').trans (h ▸ hlen)) h
  ⟨hinj.2.1, hinj.2.2, length_le_of_append_le _ _ hlen⟩

theorem decodeRootOfTrust_eq_ok {r r' : Bytes} {rot : RootOfTrust} :
    decodeRootOfTrust r = .ok (rot, r') ↔
      ∃ ℓ : RootOfTrustLayout, ℓ.body.length ≤ maxLength ∧ r = tlv .sequence ℓ.body ++ r' ∧
        ℓ.Decodes rot := by
  simp only [decodeRootOfTrust, bind_eq_ok, Prod.exists, readValue_eq_ok, sequence_readable,
    true_and, sliceReader_eq_ok, octetString_eq_ok, bool_eq_ok, mapErr_eq_ok,
    decodeEnumerated_eq_ok, okOr_eq_ok]
  constructor
  · rintro ⟨body, _, ⟨hlen, rfl⟩, _, ⟨-, rfl⟩, bootKey, _, ⟨-, rfl⟩, locked, _, rfl, _, tail,
      ⟨contents, hcontents, rfl, rfl⟩, state, hstate, h⟩
    split_ifs at h with htail
    · simp only [bind_eq_ok, pure_eq_ok, exists_eq_left', Prod.mk.injEq] at h
      obtain ⟨rfl, rfl⟩ := h
      subst htail
      exact ⟨⟨bootKey, locked, contents, none, []⟩, hlen, rfl,
        ⟨rfl, rfl, hcontents, hstate, rfl, fun _ => rfl⟩⟩
    · simp only [bind_eq_ok, pure_eq_ok, Prod.exists, octetString_eq_ok, Prod.mk.injEq] at h
      obtain ⟨hash, unread, ⟨-, rfl⟩, _, rfl, rfl, rfl⟩ := h
      exact ⟨⟨bootKey, locked, contents, some hash, unread⟩, hlen, rfl,
        ⟨rfl, rfl, hcontents, hstate, rfl, fun h => by cases h⟩⟩
  · rintro ⟨⟨bootKey, locked, contents, hash, unread⟩, hlen, rfl, hdecodes⟩
    obtain ⟨key, lock, state, hash'⟩ := rot
    obtain ⟨rfl, rfl, hcontents, hstate, rfl, hunread⟩ := hdecodes
    have htail := length_le_of_append_le _ _ (length_le_of_append_le _ _
      (length_le_of_append_le _ _ hlen))
    refine ⟨_, r', ⟨hlen, rfl⟩, _, ⟨hlen, rfl⟩, bootKey, _,
      ⟨(length_le_tlv_append _ _ _).trans hlen, rfl⟩, locked, _, rfl, _, _,
      ⟨contents, hcontents, rfl, rfl⟩, state, hstate, ?_⟩
    cases hash with
    | none =>
      obtain rfl : unread = [] := hunread rfl
      rfl
    | some hash =>
      simp only [Option.map_some, Option.getD_some]
      rw [if_neg (tlv_append_ne_nil _ _ _)]
      simp only [bind_eq_ok, pure_eq_ok, Prod.exists, octetString_eq_ok]
      exact ⟨hash, unread, ⟨(length_le_tlv_append _ _ _).trans htail, rfl⟩, _, rfl, rfl⟩

/-- The values in front of the hash are determined by the body. -/
theorem RootOfTrustLayout.body_inj {ℓ ℓ' : RootOfTrustLayout} (hlen : ℓ.body.length ≤ maxLength)
    (h : ℓ.body = ℓ'.body) :
    ℓ.bootKey = ℓ'.bootKey ∧ ℓ.locked = ℓ'.locked ∧ ℓ.state = ℓ'.state ∧
      (ℓ.hash.map (tlv .octetString)).getD [] ++ ℓ.unread =
        (ℓ'.hash.map (tlv .octetString)).getD [] ++ ℓ'.unread ∧
      ((ℓ.hash.map (tlv .octetString)).getD [] ++ ℓ.unread).length ≤ maxLength := by
  obtain ⟨hkey, h, hlen⟩ := tlv_append_inj hlen h
  obtain ⟨hlocked, h, hlen⟩ := tlv_append_inj hlen h
  obtain ⟨hstate, h, hlen⟩ := tlv_append_inj hlen h
  have hbool : ∀ b c : Bool, [boolByte b] = [boolByte c] → b = c := by decide
  exact ⟨hkey, hbool _ _ hlocked, hstate, h, hlen⟩

theorem RootOfTrustLayout.Decodes.unique {ℓ ℓ' : RootOfTrustLayout} {rot rot' : RootOfTrust}
    {r r' : Bytes} (h : ℓ.Decodes rot) (h' : ℓ'.Decodes rot') (hlen : ℓ.body.length ≤ maxLength)
    (hlen' : ℓ'.body.length ≤ maxLength)
    (heq : tlv .sequence ℓ.body ++ r = tlv .sequence ℓ'.body ++ r') : ℓ = ℓ' := by
  obtain ⟨-, hbody, -⟩ := tlv_inj hlen hlen' heq
  obtain ⟨hkey, hlocked, hstate, htail, hlen⟩ := body_inj hlen hbody
  have hunread := h.unread
  have hunread' := h'.unread
  obtain ⟨bootKey, locked, contents, hash, unread⟩ := ℓ
  obtain ⟨bootKey', locked', contents', hash', unread'⟩ := ℓ'
  simp only at hkey hlocked hstate
  subst hkey hlocked hstate
  cases hash with
  | none =>
    obtain rfl : unread = [] := hunread rfl
    cases hash' with
    | none =>
      obtain rfl : unread' = [] := hunread' rfl
      rfl
    | some hash' => exact absurd htail.symm (tlv_append_ne_nil _ _ _)
  | some hash =>
    cases hash' with
    | none =>
      obtain rfl : unread' = [] := hunread' rfl
      exact absurd htail (tlv_append_ne_nil _ _ _)
    | some hash' =>
      obtain ⟨rfl, rfl, -⟩ := tlv_append_inj hlen htail
      rfl

/-- A RootOfTrust laid out in the body of a list: at the start of the last element that
is read under its tag number. -/
def RootOfTrustIn (body : Bytes) (rl : RootOfTrustLayout) : Prop :=
  ∃ els e r, Elements body els ∧ lastRead 704 els = some e ∧ rl.body.length ≤ maxLength ∧
    e.inner = tlv .sequence rl.body ++ r

theorem RootOfTrustIn.length_le {body : Bytes} {rl : RootOfTrustLayout}
    (h : RootOfTrustIn body rl) : rl.body.length ≤ maxLength := by
  obtain ⟨_, _, _, _, _, hlen, _⟩ := h
  exact hlen

theorem RootOfTrustIn.body_eq {body : Bytes} {rl rl' : RootOfTrustLayout}
    (h : RootOfTrustIn body rl) (h' : RootOfTrustIn body rl') : rl.body = rl'.body := by
  obtain ⟨els, e, r, hels, hlast, hlen, hinner⟩ := h
  obtain ⟨els', e', r', hels', hlast', hlen', hinner'⟩ := h'
  obtain rfl := hels.unique hels'
  obtain rfl := Option.some.inj (hlast.symm.trans hlast')
  exact (tlv_inj hlen hlen' (hinner.symm.trans hinner')).2.1

theorem RootOfTrustIn.state_eq {body : Bytes} {rl rl' : RootOfTrustLayout}
    (h : RootOfTrustIn body rl) (h' : RootOfTrustIn body rl') : rl.state = rl'.state :=
  (RootOfTrustLayout.body_inj h.length_le (h.body_eq h')).2.2.1

/-! ### The extension -/

/-- The contents of the values of an extension. -/
structure Layout where
  attestationVersion : Bytes
  attestationSecurityLevel : Bytes
  keymintVersion : Bytes
  keymintSecurityLevel : Bytes
  attestationChallenge : Bytes
  uniqueId : Bytes
  softwareEnforced : Bytes
  hardwareEnforced : Bytes
  /-- Behind the eighth field. -/
  unreadFields : Bytes
  /-- Behind the outer SEQUENCE. -/
  unread : Bytes

/-- The body of a list whose elements are stored as `al`. -/
def DecodesList (body : Bytes) (al : AuthorizationList) : Prop :=
  ∃ els, Elements body els ∧ els.foldlM Element.store {} = .ok al

/-- The RootOfTrust of a list is the one laid out in its body. -/
theorem DecodesList.rootOfTrust {body : Bytes} {al : AuthorizationList}
    (h : DecodesList body al) (hbody : body.length ≤ maxLength) :
    (al.rootOfTrust = none ∧ ∀ rl, ¬ RootOfTrustIn body rl) ∨
      ∃ rot rl, al.rootOfTrust = some rot ∧ RootOfTrustIn body rl ∧ rl.Decodes rot := by
  obtain ⟨els, hels, hfold⟩ := h
  have hlen : ∀ e ∈ els, e.inner.length ≤ maxLength :=
    fun e he => (hels.inner_length_le e he).trans hbody
  rcases Field.rootOfTrust.get_of_foldlM hlen hfold with
    ⟨hnone, hget⟩ | ⟨e, rot, rest, hlast, hdecode, hget⟩
  · refine .inl ⟨hget, fun rl hrl => ?_⟩
    obtain ⟨els', e, -, hels', hlast, -⟩ := hrl
    obtain rfl := hels.unique hels'
    have hnone' : lastRead 704 els = none := hnone
    rw [hnone'] at hlast
    cases hlast
  · obtain ⟨rl, hrl, hinner, hrot⟩ := decodeRootOfTrust_eq_ok.mp hdecode
    exact .inr ⟨rot, rl, hget, ⟨els, e, rest, hels, hlast, hrl, hinner⟩, hrot⟩

namespace Layout

def body (ℓ : Layout) : Bytes :=
  tlv .integer ℓ.attestationVersion ++ (tlv .enumerated ℓ.attestationSecurityLevel ++
    (tlv .integer ℓ.keymintVersion ++ (tlv .enumerated ℓ.keymintSecurityLevel ++
      (tlv .octetString ℓ.attestationChallenge ++ (tlv .octetString ℓ.uniqueId ++
        (tlv .sequence ℓ.softwareEnforced ++ (tlv .sequence ℓ.hardwareEnforced ++
          ℓ.unreadFields)))))))

def toDer (ℓ : Layout) : Bytes := tlv .sequence ℓ.body ++ ℓ.unread

/-- The values are those of the description the decoder returns. -/
structure Decodes (ℓ : Layout) (kd : KeyDescription) : Prop where
  attestationVersion_minimal : MinimalInt ℓ.attestationVersion
  attestationVersion_length : ℓ.attestationVersion.length ≤ 4
  attestationVersion : kd.attestationVersion = intValue ℓ.attestationVersion
  attestationSecurityLevel_length : ℓ.attestationSecurityLevel.length ≤ 4
  attestationSecurityLevel :
    SecurityLevel.fromI32 (intValue ℓ.attestationSecurityLevel) = some kd.attestationSecurityLevel
  keymintVersion_minimal : MinimalInt ℓ.keymintVersion
  keymintVersion_length : ℓ.keymintVersion.length ≤ 4
  keymintVersion : kd.keymintVersion = intValue ℓ.keymintVersion
  keymintSecurityLevel_length : ℓ.keymintSecurityLevel.length ≤ 4
  keymintSecurityLevel :
    SecurityLevel.fromI32 (intValue ℓ.keymintSecurityLevel) = some kd.keymintSecurityLevel
  attestationChallenge : ℓ.attestationChallenge = kd.attestationChallenge
  uniqueId : ℓ.uniqueId = kd.uniqueId
  softwareEnforced : DecodesList ℓ.softwareEnforced kd.softwareEnforced
  hardwareEnforced : DecodesList ℓ.hardwareEnforced kd.hardwareEnforced

/-- The parts of an extension that is short enough are short enough. -/
theorem length_le {ℓ : Layout} (h : ℓ.toDer.length ≤ maxLength) :
    ℓ.body.length ≤ maxLength ∧ ℓ.attestationChallenge.length ≤ maxLength ∧
      ℓ.uniqueId.length ≤ maxLength ∧ ℓ.softwareEnforced.length ≤ maxLength ∧
      ℓ.hardwareEnforced.length ≤ maxLength := by
  have hbody : ℓ.body.length ≤ maxLength := (length_le_tlv_append _ _ _).trans h
  refine ⟨hbody, ?_⟩
  simp only [body, tlv, List.length_append, List.length_cons] at hbody
  omega

/-- An extension has one layout. -/
theorem toDer_inj {ℓ ℓ' : Layout} (hlen : ℓ.toDer.length ≤ maxLength)
    (h : ℓ.toDer = ℓ'.toDer) : ℓ = ℓ' := by
  obtain ⟨hbody, hunread, -⟩ := tlv_append_inj hlen h
  obtain ⟨h1, hbody, hlen⟩ := tlv_append_inj (length_le hlen).1 hbody
  obtain ⟨h2, hbody, hlen⟩ := tlv_append_inj hlen hbody
  obtain ⟨h3, hbody, hlen⟩ := tlv_append_inj hlen hbody
  obtain ⟨h4, hbody, hlen⟩ := tlv_append_inj hlen hbody
  obtain ⟨h5, hbody, hlen⟩ := tlv_append_inj hlen hbody
  obtain ⟨h6, hbody, hlen⟩ := tlv_append_inj hlen hbody
  obtain ⟨h7, hbody, hlen⟩ := tlv_append_inj hlen hbody
  obtain ⟨h8, h9, -⟩ := tlv_append_inj hlen hbody
  cases ℓ
  cases ℓ'
  simp_all

end Layout

theorem decodeSecurityLevel_eq_ok {what : String} {br br' : Bytes} {level : SecurityLevel} :
    decodeSecurityLevel what br = .ok (level, br') ↔
      ∃ contents, contents.length ≤ 4 ∧ br = tlv .enumerated contents ++ br' ∧
        SecurityLevel.fromI32 (intValue contents) = some level := by
  simp only [decodeSecurityLevel, context, bind_eq_ok, mapErr_eq_ok, okOr_eq_ok, pure_eq_ok,
    Prod.exists, Prod.mk.injEq, decodeEnumerated_eq_ok]
  constructor
  · rintro ⟨_, _, ⟨contents, hlen, rfl, rfl⟩, _, hlevel, rfl, rfl⟩
    exact ⟨contents, hlen, rfl, hlevel⟩
  · rintro ⟨contents, hlen, rfl, hlevel⟩
    exact ⟨_, br', ⟨contents, hlen, rfl, rfl⟩, level, hlevel, rfl, rfl⟩

theorem decodeAuthorizationList_iff {r r' : Bytes} {al : AuthorizationList} :
    decodeAuthorizationList r = .ok (al, r') ↔
      ∃ body, body.length ≤ maxLength ∧ r = tlv .sequence body ++ r' ∧ DecodesList body al := by
  rw [decodeAuthorizationList_eq_ok]
  constructor
  · rintro ⟨body, els, hlen, hr, hels, hfold⟩
    exact ⟨body, hlen, hr, els, hels, hfold⟩
  · rintro ⟨body, hlen, hr, els, hels, hfold⟩
    exact ⟨body, els, hlen, hr, hels, hfold⟩

/-- The decoder accepts exactly the extensions that have a layout it can decode. -/
theorem fromDer_eq_ok {bytes : Bytes} {kd : KeyDescription} :
    fromDer bytes = .ok kd ↔
      bytes.length ≤ maxLength ∧ ∃ ℓ : Layout, bytes = ℓ.toDer ∧ ℓ.Decodes kd := by
  simp only [fromDer, context, bind_eq_ok, mapErr_eq_ok, ensure_eq_ok, pure_eq_ok, exists_const,
    Prod.exists, sliceReader_eq_ok, readSlice_eq_ok, decodeI32_eq_ok, decodeSecurityLevel_eq_ok,
    octetString_eq_ok, decodeAuthorizationList_iff]
  constructor
  · rintro ⟨_, ⟨hlen, hbytes⟩, ⟨_, _⟩, _, hheader, htag, body, unread, ⟨hbody, hrest⟩, _, ⟨-, h0⟩,
      _, _, ⟨c1, hmin1, hlen1, h1, hversion⟩, level1, _, ⟨c2, hlen2, h2, hlevel1⟩,
      _, _, ⟨c3, hmin3, hlen3, h3, hkeymint⟩, level2, _, ⟨c4, hlen4, h4, hlevel2⟩,
      c5, _, ⟨-, h5⟩, c6, _, ⟨-, h6⟩, sw, _, ⟨c7, -, h7, hsw⟩, hw, rest, ⟨c8, -, h8, hhw⟩, rfl⟩
    obtain ⟨-, -, hheader⟩ := readHeader_eq_ok.mp hheader
    simp only at htag hbody
    subst hbytes htag hbody h8 h7 h6 h5 h4 h3 h2 h1 h0 hrest
    exact ⟨hlen, ⟨c1, c2, c3, c4, c5, c6, c7, c8, rest, unread⟩,
      hheader.trans (tlv_append _ _ _).symm, ⟨hmin1, hlen1, hversion, hlen2, hlevel1, hmin3, hlen3,
        hkeymint, hlen4, hlevel2, rfl, rfl, hsw, hhw⟩⟩
  · rintro ⟨hlen, ℓ, rfl, h⟩
    obtain ⟨version, level1, keymint, level2, challenge, uniqueId, sw, hw⟩ := kd
    obtain ⟨hmin1, hlen1, rfl, hlen2, hlevel1, hmin3, hlen3, rfl, hlen4, hlevel2, rfl, rfl, hsw,
      hhw⟩ := h
    obtain ⟨hbody, hchallenge, huniqueId, hsoftware, hhardware⟩ := Layout.length_le hlen
    exact ⟨_, ⟨hlen, rfl⟩, ⟨.sequence, ℓ.body.length⟩, ℓ.body ++ ℓ.unread,
      readHeader_eq_ok.mpr ⟨sequence_readable, hbody, tlv_append _ _ _⟩, rfl,
      ℓ.body, ℓ.unread, ⟨rfl, rfl⟩, _, ⟨hbody, rfl⟩,
      _, _, ⟨_, hmin1, hlen1, rfl, rfl⟩, _, _, ⟨_, hlen2, rfl, hlevel1⟩,
      _, _, ⟨_, hmin3, hlen3, rfl, rfl⟩, _, _, ⟨_, hlen4, rfl, hlevel2⟩,
      _, _, ⟨hchallenge, rfl⟩,
      _, _, ⟨huniqueId, rfl⟩,
      _, _, ⟨_, hsoftware, rfl, hsw⟩,
      _, _, ⟨_, hhardware, rfl, hhw⟩, rfl⟩

end Attestation.Android.KeyDescription
