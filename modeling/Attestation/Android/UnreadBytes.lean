import Attestation.Android.Layout

/-! Bytes of an extension that the decoder passes over. No reader is asked whether it
is finished: what stands behind the outer SEQUENCE, behind the eighth field, behind
the value of an element and behind a RootOfTrust's hash is left unread, the
constructed bit is not looked at, and of two elements of one tag the later counts. -/

namespace Attestation.Android.KeyDescription

open Result Der

/-! ### The documented grammar -/

/-- Boot key, lock, boot state and at most a boot hash. -/
def RootOfTrustBody (body : Bytes) : Prop :=
  ∃ (key locked state : Bytes) (hash : Option Bytes),
    body = tlv .octetString key ++ tlv .boolean locked ++ tlv .enumerated state ++
      (hash.map (tlv .octetString)).getD []

/-- An EXPLICIT element holds one value, that of `[704]` a RootOfTrust. -/
structure ExplicitElement (e : Element) : Prop where
  constructed : e.constructed = true
  value : ∃ tag contents, e.inner = tlv tag contents
  rootOfTrust : e.ReadAs 704 → ∃ body, e.inner = tlv .sequence body ∧ RootOfTrustBody body

/-- No decoded tag occurs twice. -/
def ReadOnce (els : List Element) : Prop :=
  ∀ t ∈ decodedTags, (els.filter fun e => e.ReadAs t).length ≤ 1

/-- The elements that are decoded are EXPLICIT ones of different tags. -/
def DocumentedList (body : Bytes) : Prop :=
  ∃ els, Elements body els ∧ ReadOnce els ∧
    ∀ t ∈ decodedTags, ∀ e ∈ els, e.ReadAs t → ExplicitElement e

/-- The input is a SEQUENCE of the eight documented fields. -/
def Documented (bytes : Bytes) : Prop :=
  ∃ version level keymint keymintLevel challenge uniqueId software hardware : Bytes,
    bytes = tlv .sequence (tlv .integer version ++ tlv .enumerated level ++ tlv .integer keymint ++
        tlv .enumerated keymintLevel ++ tlv .octetString challenge ++ tlv .octetString uniqueId ++
        tlv .sequence software ++ tlv .sequence hardware) ∧
      DocumentedList software ∧ DocumentedList hardware

/-- An input that is accepted is documented. -/
def AcceptsDocumented (bytes : Bytes) : Prop := ∀ kd, fromDer bytes = .ok kd → Documented bytes

/-! ### What is left unread -/

/-- Nothing is behind the value of an element, and nothing behind a RootOfTrust's hash. -/
structure ElementFinished (e : Element) : Prop where
  constructed : e.constructed = true
  value : ∀ tag contents rest, e.inner = tlv tag contents ++ rest → rest = []
  hash : e.ReadAs 704 → ∀ rl : RootOfTrustLayout, e.inner = tlv .sequence rl.body →
    rl.hash ≠ none → rl.unread = []

/-- Nothing is behind what is read of a list, and nothing is read twice. -/
def ListFinished (body : Bytes) : Prop :=
  ∀ els, Elements body els → ReadOnce els ∧
    ∀ t ∈ decodedTags, ∀ e ∈ els, e.ReadAs t → ElementFinished e

structure Layout.Finished (ℓ : Layout) : Prop where
  unread : ℓ.unread = []
  unreadFields : ℓ.unreadFields = []
  softwareEnforced : ListFinished ℓ.softwareEnforced
  hardwareEnforced : ListFinished ℓ.hardwareEnforced

/-- A layout of the input that can be decoded has nothing unread. -/
def NothingUnread (bytes : Bytes) : Prop :=
  bytes.length ≤ maxLength → ∀ (ℓ : Layout) (kd : KeyDescription), bytes = ℓ.toDer →
    ℓ.Decodes kd → ℓ.Finished

/-! ### Elements -/

theorem RootOfTrustBody.unread_eq_nil {rl : RootOfTrustLayout} (h : RootOfTrustBody rl.body)
    (hlen : rl.body.length ≤ maxLength) (hne : rl.hash ≠ none) : rl.unread = [] := by
  obtain ⟨bootKey, locked, state, hash, unread⟩ := rl
  obtain ⟨key, lock, contents, hash', heq⟩ := h
  simp only [RootOfTrustLayout.body, List.append_assoc] at heq hlen
  obtain ⟨-, heq, hlen⟩ := tlv_append_inj hlen heq
  obtain ⟨-, heq, hlen⟩ := tlv_append_inj hlen heq
  obtain ⟨-, heq, hlen⟩ := tlv_append_inj hlen heq
  obtain ⟨hash, rfl⟩ := Option.ne_none_iff_exists'.mp hne
  cases hash' with
  | none => exact absurd heq (tlv_append_ne_nil _ _ _)
  | some hash' =>
    rw [Option.map_some, Option.getD_some, Option.map_some, Option.getD_some,
      ← List.append_nil (tlv .octetString hash')] at heq
    exact (tlv_append_inj hlen heq).2.1

theorem RootOfTrustLayout.Decodes.rootOfTrustBody {rl : RootOfTrustLayout} {rot : RootOfTrust}
    (h : rl.Decodes rot) (hfinished : rl.hash ≠ none → rl.unread = []) :
    RootOfTrustBody rl.body := by
  have hnil : rl.unread = [] := by
    by_cases hhash : rl.hash = none
    · exact h.unread hhash
    · exact hfinished hhash
  exact ⟨rl.bootKey, [boolByte rl.locked], rl.state, rl.hash, by
    simp [RootOfTrustLayout.body, hnil]⟩

section

variable {body : Bytes} {els : List Element} {al : AuthorizationList}
  (hels : ∀ e ∈ els, e.inner.length ≤ maxLength) (hfold : els.foldlM Element.store {} = .ok al)

include hels hfold

/-- What is read under a decoded tag starts with a value. -/
theorem exists_value {t : ℕ} (ht : t ∈ decodedTags) {e : Element} (he : e ∈ els)
    (hread : e.ReadAs t) : ∃ tag contents rest, e.inner = tlv tag contents ++ rest := by
  simp only [decodedTags, List.mem_cons, List.not_mem_nil, or_false] at ht
  obtain rfl | rfl | rfl | rfl | rfl := ht
  · obtain ⟨_, _, h⟩ := Field.creationDateTime.decode_of_foldlM hels hfold e he hread
    exact ⟨_, _, _, (decodeU64_iff.mp h).2⟩
  · obtain ⟨_, _, h⟩ := Field.rootOfTrust.decode_of_foldlM hels hfold e he hread
    obtain ⟨_, -, hinner, -⟩ := decodeRootOfTrust_eq_ok.mp h
    exact ⟨_, _, _, hinner⟩
  · obtain ⟨_, _, h⟩ := Field.osVersion.decode_of_foldlM hels hfold e he hread
    obtain ⟨_, h, -⟩ := decodeU32_eq_ok.mp h
    exact ⟨_, _, _, (decodeI32_iff.mp h).2.2⟩
  · obtain ⟨_, _, h⟩ := Field.osPatchLevel.decode_of_foldlM hels hfold e he hread
    obtain ⟨_, h, -⟩ := decodeU32_eq_ok.mp h
    exact ⟨_, _, _, (decodeI32_iff.mp h).2.2⟩
  · obtain ⟨_, _, h⟩ := Field.attestationApplicationId.decode_of_foldlM hels hfold e he hread
    exact ⟨_, _, _, (octetString_eq_ok.mp h).2⟩

theorem explicitElement_iff {t : ℕ} (ht : t ∈ decodedTags) {e : Element} (he : e ∈ els)
    (hread : e.ReadAs t) : ExplicitElement e ↔ ElementFinished e := by
  have hlen := hels e he
  -- the RootOfTrust that is decoded of an element read as one
  have hrot : e.ReadAs 704 → ∃ (rl : RootOfTrustLayout) (rot : RootOfTrust) (r : Bytes),
      rl.body.length ≤ maxLength ∧ e.inner = tlv .sequence rl.body ++ r ∧ rl.Decodes rot := by
    intro h
    obtain ⟨rot, r, hdecode⟩ := Field.rootOfTrust.decode_of_foldlM hels hfold e he h
    obtain ⟨rl, hrl⟩ := decodeRootOfTrust_eq_ok.mp hdecode
    exact ⟨rl, rot, r, hrl⟩
  constructor
  · rintro ⟨hconstructed, ⟨tag, contents, hvalue⟩, hroot⟩
    refine ⟨hconstructed, fun tag' contents' rest heq => ?_, fun h rl heq => ?_⟩
    · rw [hvalue, ← List.append_nil (tlv tag contents)] at heq
      rw [hvalue, ← List.append_nil (tlv tag contents)] at hlen
      exact (tlv_append_inj hlen heq).2.1.symm
    · obtain ⟨body, hbody, hroot⟩ := hroot h
      rw [hbody, ← List.append_nil (tlv .sequence body), ← List.append_nil (tlv .sequence rl.body)]
        at heq
      rw [hbody, ← List.append_nil (tlv .sequence body)] at hlen
      obtain ⟨rfl, -⟩ := tlv_append_inj hlen heq
      exact hroot.unread_eq_nil ((length_le_tlv_append _ _ _).trans hlen)
  · rintro ⟨hconstructed, hvalue, hhash⟩
    obtain ⟨tag, contents, rest, hinner⟩ := exists_value hels hfold ht he hread
    refine ⟨hconstructed, ⟨tag, contents, ?_⟩, fun h => ?_⟩
    · rw [hinner, hvalue tag contents rest hinner, List.append_nil]
    · obtain ⟨rl, rot, r, -, hinner, hdecodes⟩ := hrot h
      obtain rfl := hvalue _ _ _ hinner
      rw [List.append_nil] at hinner
      exact ⟨rl.body, hinner, hdecodes.rootOfTrustBody (hhash h rl hinner)⟩

end

theorem documentedList_iff {body : Bytes} {al : AuthorizationList} (h : DecodesList body al)
    (hbody : body.length ≤ maxLength) : DocumentedList body ↔ ListFinished body := by
  obtain ⟨els, hels, hfold⟩ := h
  have hlen : ∀ e ∈ els, e.inner.length ≤ maxLength :=
    fun e he => (hels.inner_length_le e he).trans hbody
  constructor
  · rintro ⟨els', hels', honce, hexplicit⟩ els'' hels''
    obtain rfl := hels.unique hels'
    obtain rfl := hels.unique hels''
    exact ⟨honce, fun t ht e he hread =>
      (explicitElement_iff hlen hfold ht he hread).mp (hexplicit t ht e he hread)⟩
  · intro h
    obtain ⟨honce, hfinished⟩ := h els hels
    exact ⟨els, hels, honce, fun t ht e he hread =>
      (explicitElement_iff hlen hfold ht he hread).mpr (hfinished t ht e he hread)⟩

/-! ### The extension -/

theorem documented_iff {ℓ : Layout} {kd : KeyDescription} (h : ℓ.Decodes kd)
    (hlen : ℓ.toDer.length ≤ maxLength) : Documented ℓ.toDer ↔ ℓ.Finished := by
  obtain ⟨-, -, -, hsoftware, hhardware⟩ := Layout.length_le hlen
  have hsw := documentedList_iff h.softwareEnforced hsoftware
  have hhw := documentedList_iff h.hardwareEnforced hhardware
  constructor
  · rintro ⟨c1, c2, c3, c4, c5, c6, c7, c8, heq, hlists⟩
    have heq' : ℓ.toDer = (⟨c1, c2, c3, c4, c5, c6, c7, c8, [], []⟩ : Layout).toDer := by
      rw [heq]
      simp [Layout.toDer, Layout.body]
    obtain rfl := Layout.toDer_inj hlen heq'
    exact ⟨rfl, rfl, hsw.mp hlists.1, hhw.mp hlists.2⟩
  · rintro ⟨hunread, hfields, hs, hh⟩
    refine ⟨ℓ.attestationVersion, ℓ.attestationSecurityLevel, ℓ.keymintVersion,
      ℓ.keymintSecurityLevel, ℓ.attestationChallenge, ℓ.uniqueId, ℓ.softwareEnforced,
      ℓ.hardwareEnforced, ?_, hsw.mpr hs, hhw.mpr hh⟩
    rw [Layout.toDer, Layout.body, hunread, hfields]
    simp only [List.append_nil, List.append_assoc]

/-- An input that is accepted is documented exactly when nothing of it is left unread. -/
theorem acceptsDocumented_iff (bytes : Bytes) : AcceptsDocumented bytes ↔ NothingUnread bytes := by
  constructor
  · rintro h hlen ℓ kd rfl hdecodes
    exact (documented_iff hdecodes hlen).mp (h kd (fromDer_eq_ok.mpr ⟨hlen, ℓ, rfl, hdecodes⟩))
  · intro h kd hdecode
    obtain ⟨hlen, ℓ, rfl, hdecodes⟩ := fromDer_eq_ok.mp hdecode
    exact (documented_iff hdecodes hlen).mpr (h hlen ℓ kd rfl hdecodes)

/-! ### Inputs that are not documented -/

theorem not_acceptsDocumented {ℓ : Layout} (h : (fromDer ℓ.toDer).isOk = true)
    (hnot : ¬ ℓ.Finished) : ¬ AcceptsDocumented ℓ.toDer := by
  intro haccepts
  cases hdecode : fromDer ℓ.toDer with
  | error _ =>
    rw [hdecode] at h
    cases h
  | ok kd =>
    obtain ⟨hlen, ℓ', heq, hdecodes⟩ := fromDer_eq_ok.mp hdecode
    obtain rfl := Layout.toDer_inj hlen heq
    exact hnot ((documented_iff hdecodes hlen).mp (haccepts kd hdecode))

namespace UnreadSample

/-- A locked and verified device with boot key `[9]` and boot hash `[8]`. -/
def rot (unread : Bytes) : RootOfTrustLayout := ⟨[9], true, [0x00], some [8], unread⟩

/-- The RootOfTrust as an element. -/
def element (constructed : Bool) (unread tail : Bytes) : Element :=
  ⟨2, constructed, 704, tlv .sequence (rot unread).body ++ tail⟩

/-- An unlocked and unverified device. -/
def unlocked : Element :=
  ⟨2, true, 704, tlv .sequence (⟨[9], false, [0x02], none, []⟩ : RootOfTrustLayout).body⟩

def layout (els : List Element) (unreadFields unread : Bytes) : Layout :=
  ⟨[3], [1], [4], [1], [7], [], [], els.flatMap Element.encode, unreadFields, unread⟩

theorem elements {els : List Element}
    (h : ∀ e ∈ els, e.tagClass = 2 ∧ e.inner.length ≤ maxLength) :
    Elements (els.flatMap Element.encode) els :=
  .encode fun e he => ⟨by rw [(h e he).1]; norm_num, (h e he).2⟩

theorem not_finished {constructed : Bool} {unread tail fields rest : Bytes}
    (hlen : (element constructed unread tail).inner.length ≤ maxLength)
    (hnot : ¬ ElementFinished (element constructed unread tail)) :
    ¬ (layout [element constructed unread tail] fields rest).Finished := by
  intro h
  have hels := elements (List.forall_mem_singleton.mpr ⟨rfl, hlen⟩)
  exact hnot ((h.hardwareEnforced _ hels).2 704 (by decide) _ (by simp) ⟨rfl, rfl⟩)

end UnreadSample

open UnreadSample in
/-- Bytes behind the SEQUENCE, the eighth field, the value of an element and a boot hash,
an element that is not constructed, and a RootOfTrust that replaces another: none of them
is rejected. -/
theorem unreadBytes_accepted :
    ¬ AcceptsDocumented (layout [element true [] []] [] [0]).toDer ∧
      ¬ AcceptsDocumented (layout [element true [] []] [0] []).toDer ∧
      ¬ AcceptsDocumented (layout [element true [] [0]] [] []).toDer ∧
      ¬ AcceptsDocumented (layout [element true [0] []] [] []).toDer ∧
      ¬ AcceptsDocumented (layout [element false [] []] [] []).toDer ∧
      ¬ AcceptsDocumented (layout [unlocked, element true [] []] [] []).toDer := by
  refine ⟨?_, ?_, ?_, ?_, ?_, ?_⟩
  · refine not_acceptsDocumented (by decide +kernel) fun h => ?_
    exact absurd h.unread (by decide)
  · refine not_acceptsDocumented (by decide +kernel) fun h => ?_
    exact absurd h.unreadFields (by decide)
  · refine not_acceptsDocumented (by decide +kernel) (not_finished (by decide +kernel) fun h => ?_)
    exact absurd (h.value _ _ [0] rfl) (by decide)
  · refine not_acceptsDocumented (by decide +kernel) (not_finished (by decide +kernel) fun h => ?_)
    exact absurd (h.hash (by decide) (rot [0]) (List.append_nil _) (by decide)) (by decide)
  · refine not_acceptsDocumented (by decide +kernel) (not_finished (by decide +kernel) fun h => ?_)
    exact absurd h.constructed (by decide)
  · refine not_acceptsDocumented (by decide +kernel) fun h => ?_
    have honce := (h.hardwareEnforced _ (elements (by decide +kernel))).1 704 (by decide)
    exact absurd honce (by decide)

end Attestation.Android.KeyDescription
