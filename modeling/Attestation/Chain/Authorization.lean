import Attestation.Chain.Holders

/-! What a verified action stands for. When `verify_action` has said yes, the binding was
live and with the sender, the action had not expired and its scheme's native check accepted
a signature of exactly its message under the bound key. Nothing is used up by it: the same
signature is good again, for as long as the binding lives and the action has not expired. -/

namespace Attestation.Chain

open Result Move Custody DeviceBinding

variable {P : Platform}

/-- The action of a binding that a call asks for. -/
def ActionCall.action (call : ActionCall) (id : ObjectId) : Action :=
  ⟨id, call.domain, call.actionHash, call.expiryMs⟩

/-- The transaction that has an action verified with a signature. -/
def useSignature (held : Held) (signature : Bytes) (call : ActionCall) : Transaction :=
  ⟨held.holder, call.now, [
    .verify held.stored.scheme held.stored.binding.pk (call.action held.stored.id).message
      signature,
    .verifyAction held.stored.id 0 call.domain call.actionHash call.expiryMs]⟩

variable (P) in
/-- The call had not expired, and the scheme's check accepts a signature of its message
under the key of the binding. -/
def Authorizes (stored : Stored) (call : ActionCall) : Prop :=
  call.now ≤ call.expiryMs ∧ ∃ signature,
    stored.scheme.Accepts P stored.binding.pk (call.action stored.id).message signature

variable (P) in
/-- Every use of a binding is of one that was created, and its call is authorized. -/
def Justified (history : List BindingAct) : Prop :=
  ∀ id a call, .use id a call ∈ history →
    ∃ stored b, .create id stored b ∈ history ∧ stored.id = id ∧ Authorizes P stored call

variable (P) in
/-- Every receipt is for a signature its scheme's check accepts. -/
def Backed (receipts : List SomeVerified) : Prop :=
  ∀ receipt ∈ receipts, ∃ signature,
    receipt.scheme.Accepts P receipt.verified.pk receipt.verified.message signature

theorem justified_append {history : List BindingAct} {act : BindingAct}
    (h : Justified P history) (hact : ∀ id a call, act ≠ .use id a call) :
    Justified P (history ++ [act]) := by
  intro id a call hmem
  rcases List.mem_append.mp hmem with hmem | hmem
  · obtain ⟨stored, b, hcreate, hrest⟩ := h id a call hmem
    exact ⟨stored, b, List.mem_append_left _ hcreate, hrest⟩
  · exact absurd (List.mem_singleton.mp hmem).symm (hact id a call)

/-- A receipt that `verify_action` accepts authorizes the call. -/
theorem authorizes_of_verifyAction {stored : Stored} {verified : Verified stored.scheme.Marker}
    {call : ActionCall} {receipts : List SomeVerified} (hbacked : Backed P receipts)
    (hmem : ⟨stored.scheme, verified⟩ ∈ receipts)
    (h : stored.binding.verifyAction verified call.domain call.actionHash call.expiryMs call.now =
      true) : Authorizes P stored call := by
  obtain ⟨hexpiry, hpk, hmessage⟩ := verifyAction_iff.mp h
  obtain ⟨signature, haccepts⟩ := hbacked _ hmem
  refine ⟨hexpiry, signature, ?_⟩
  rw [hpk, hmessage] at haccepts
  exact haccepts

theorem justified_useReceipt {w : Working} {i : ℕ} {id : ObjectId} {held : Held}
    {verified : Verified held.stored.scheme.Marker} {call : ActionCall} (hsound : Sound w.toLedger)
    (h : Justified P w.history) (hbacked : Backed P w.receipts) (hheld : held ∈ w.held)
    (hid : held.stored.id = id)
    (hi : w.receipts[i]? = some ⟨held.stored.scheme, verified⟩) :
    Justified P (w.useReceipt i id call (held.stored.binding.verifyAction verified call.domain
      call.actionHash call.expiryMs call.now)).history := by
  rcases hverify : held.stored.binding.verifyAction verified call.domain call.actionHash
    call.expiryMs call.now
  · simpa [Working.useReceipt] using h
  · obtain ⟨b, hcreate⟩ := create_mem (hsound.replay_eq hheld)
    intro id' a call' hmem
    rcases List.mem_append.mp hmem with hmem | hmem
    · obtain ⟨stored, c, hc, hrest⟩ := h id' a call' hmem
      exact ⟨stored, c, List.mem_append_left _ hc, hrest⟩
    · cases List.mem_singleton.mp hmem
      exact ⟨held.stored, b, List.mem_append_left _ (hid ▸ hcreate), hid,
        authorizes_of_verifyAction hbacked (List.mem_of_getElem? hi) hverify⟩

variable (P) in
/-- What holds of a transaction's working state. -/
structure Sanctioned (w : Working) : Prop where
  sound : Sound w.toLedger
  justified : Justified P w.history
  backed : Backed P w.receipts

theorem sanctioned_command {w w' : Working} {c : Command} (h : Sanctioned P w)
    (hc : command P w c = .ok w') : Sanctioned P w' := by
  have hsound := sound_command h.sound hc
  have heffect := command_effect hc
  cases heffect with
  | witness => exact ⟨hsound, h.justified, h.backed⟩
  | new | transferTo | destroy =>
    exact ⟨hsound, justified_append h.justified (by simp), h.backed⟩
  | @verify scheme pk message signature haccepts =>
    refine ⟨hsound, h.justified, fun receipt hmem => ?_⟩
    rcases List.mem_append.mp hmem with hmem | hmem
    · exact h.backed receipt hmem
    · obtain rfl := List.mem_singleton.mp hmem
      exact ⟨signature, haccepts⟩
  | verifyAction hheld husable hi =>
    exact ⟨hsound, justified_useReceipt h.sound h.justified h.backed hheld husable.1 hi,
      fun receipt hmem => h.backed receipt (List.mem_of_mem_eraseIdx hmem)⟩

theorem justified_after (ts : List Transaction) : Justified P (after P ts).history :=
  (Transactions.run_invariant (T := transactions P)
    (fun l => Sound l ∧ Justified P l.history) (Sanctioned P)
    (fun _ _ h => ⟨h.1, h.2, by simp [Backed, transactions]⟩)
    (fun _ _ _ h hc => sanctioned_command h hc)
    (fun _ _ hw hcommit => (commit_eq_ok.mp hcommit).2 ▸ And.intro hw.sound hw.justified)
    (And.intro sound_empty (by simp [Justified]))).2

/-- Whenever `verify_action` has said yes, the binding was live and with the sender at that
moment, and the call is authorized. -/
theorem verified_actions_authorized (P : Platform) (ts : List Transaction)
    (past rest : List BindingAct) (id : ObjectId) (a : Address) (call : ActionCall)
    (h : (after P ts).history = past ++ .use id a call :: rest) :
    ∃ stored, replay past id = some (stored, a) ∧ stored.id = id ∧ Authorizes P stored call := by
  have hvalid : Valid (past ++ .use id a call :: rest) := h ▸ (sound_after ts).valid
  obtain ⟨stored, hlive⟩ := hvalid.allowed
  obtain ⟨b, hcreate⟩ := create_mem hlive
  obtain ⟨stored', b', hcreate', hid, hauthorizes⟩ :=
    justified_after ts id a call (by rw [h]; simp)
  rw [h] at hcreate'
  obtain rfl := hvalid.create_unique (List.mem_append_left _ hcreate) hcreate'
  exact ⟨stored, hlive, hid, hauthorizes⟩

/-- A use of the sample binding. -/
def sampleCall : ActionCall := ⟨[1], [2], 5000, 3000⟩

theorem verified_actions_authorized_sample :
    ∃ stored, replay ([.create sampleId sampleHeld.stored (sampleAddress 1),
        .give sampleId (sampleAddress 1) (sampleAddress 1)] : List BindingAct) sampleId =
          some (stored, sampleAddress 1) ∧
      stored.id = sampleId ∧ Authorizes samplePlatform stored sampleCall :=
  verified_actions_authorized samplePlatform
    [sampleEnrollment, useSignature sampleHeld [1] sampleCall] _ [] sampleId (sampleAddress 1)
    sampleCall rfl

/-- Where a scheme's check accepts only what a device has signed, and action hashes have one
length, every verified action is one that the device signed for this very binding. -/
theorem verified_actions_signed (P : Platform) (scheme : SchemeName) (n : ℕ)
    (signed : Bytes → Set Action)
    (hunforgeable : ∀ pk message signature, scheme.Accepts P pk message signature →
      ∃ action ∈ signed pk, action.message = message)
    (hlength : ∀ pk, ∀ action ∈ signed pk, action.actionHash.length = n)
    (ts : List Transaction) (stored : Stored) (hscheme : stored.scheme = scheme) (a b : Address)
    (call : ActionCall) (hcreate : .create stored.id stored a ∈ (after P ts).history)
    (huse : .use stored.id b call ∈ (after P ts).history) (hcall : call.actionHash.length = n) :
    call.action stored.id ∈ signed stored.binding.pk ∧ call.now ≤ call.expiryMs := by
  obtain ⟨stored', c, hcreate', -, hexpiry, signature, haccepts⟩ := justified_after ts _ _ _ huse
  have hstored := (sound_after ts).valid.create_unique hcreate hcreate'
  subst hstored hscheme
  obtain ⟨action, hsigned, hmessage⟩ := hunforgeable _ _ _ haccepts
  have haction : action = call.action stored.id :=
    Action.eq_of_message_eq_of_length ((hlength _ _ hsigned).trans hcall.symm) hmessage
  exact ⟨haction ▸ hsigned, hexpiry⟩

/-- Natives that accept the one signature that the device has made. -/
def signedPlatform : Platform where
  secp256r1Verify _ _ _ _ := false
  secp256k1Verify _ _ _ _ := false
  ed25519Verify signature pk message :=
    signature = [1] ∧ pk = [7] ∧ message = (sampleCall.action sampleId).message
  sourceTypeName _ := [1]
  schemeTypeName _ := [2]

theorem verified_actions_signed_sample :
    sampleCall.action sampleId ∈ {action | action = sampleCall.action sampleId} ∧
      (3000 : UInt64) ≤ 5000 := by
  refine verified_actions_signed signedPlatform .ed25519 1
    (fun _ => {action | action = sampleCall.action sampleId}) ?_ ?_
    [sampleEnrollment, useSignature sampleHeld [1] sampleCall] sampleHeld.stored rfl
    (sampleAddress 1) (sampleAddress 1) sampleCall (List.mem_of_getElem? (i := 0) rfl)
    (List.mem_of_getElem? (i := 2) rfl) rfl
  · intro pk message signature haccepts
    obtain ⟨-, -, rfl⟩ := of_decide_eq_true haccepts
    exact ⟨_, rfl, rfl⟩
  · rintro pk _ rfl
    rfl

/-! ### One signature, many actions -/

theorem step_useSignature {l : Ledger} {held : Held} {signature : Bytes} {call : ActionCall}
    (h : Sound l) (hheld : held ∈ l.held) (hexpiry : call.now ≤ call.expiryMs)
    (haccepts : held.stored.scheme.Accepts P held.stored.binding.pk
      (call.action held.stored.id).message signature) :
    (transactions P).step l (useSignature held signature call) =
      { l with history := l.history ++ [.use held.stored.id held.holder call] } := by
  apply Transactions.step_of_execute
  let w : Working := { toLedger := l, sender := held.holder, now := call.now }
  let verified : Verified held.stored.scheme.Marker :=
    ⟨held.stored.binding.pk, (call.action held.stored.id).message⟩
  have hverify : command P w (.verify held.stored.scheme held.stored.binding.pk
      (call.action held.stored.id).message signature) =
      .ok (w.addReceipt ⟨held.stored.scheme, verified⟩) :=
    bind_of_eq_ok (SchemeName.verify_eq_ok.mpr ⟨haccepts, rfl⟩)
  have hbinding : (w.addReceipt ⟨held.stored.scheme, verified⟩).binding held.stored.id = .ok held :=
    Working.binding_eq_ok h hheld ⟨rfl, rfl, List.not_mem_nil⟩
  have hat : (SomeVerified.mk held.stored.scheme verified).at held.stored.scheme = some verified :=
    SomeVerified.at_eq_some.mpr rfl
  have hauthorized : held.stored.binding.verifyAction verified call.domain call.actionHash
      call.expiryMs call.now = true := verifyAction_iff.mpr ⟨hexpiry, rfl, rfl⟩
  have haction : command P (w.addReceipt ⟨held.stored.scheme, verified⟩)
      (.verifyAction held.stored.id 0 call.domain call.actionHash call.expiryMs) =
      .ok ((w.addReceipt ⟨held.stored.scheme, verified⟩).useReceipt 0 held.stored.id call
        true) := by
    rw [command, bind_of_eq_ok hbinding]
    change (expect ((SomeVerified.mk held.stored.scheme verified).at held.stored.scheme) >>= _) = _
    rw [hat]
    exact congrArg (fun b => Except.ok (Working.useReceipt _ 0 held.stored.id call b)) hauthorized
  refine bind_of_eq_ok (a := (w.addReceipt ⟨held.stored.scheme, verified⟩).useReceipt 0
    held.stored.id call true) ?_
  change [_, _].foldlM (command P) w = _
  rw [List.foldlM_cons, hverify]
  change (command P _ _ >>= _) = _
  rw [haction]
  rfl

/-- A signature that is good for a call is good at every time until the action expires, as
often as the holder likes. -/
theorem signature_reused (P : Platform) (ts : List Transaction) (held : Held)
    (hheld : held ∈ (after P ts).held) (signature : Bytes) (call : ActionCall)
    (haccepts : held.stored.scheme.Accepts P held.stored.binding.pk
      (call.action held.stored.id).message signature)
    (times : List UInt64) (htimes : ∀ now ∈ times, now ≤ call.expiryMs) :
    after P (ts ++ times.map fun now => useSignature held signature { call with now }) =
      { after P ts with
        history := (after P ts).history ++
          times.map fun now => .use held.stored.id held.holder { call with now } } := by
  rw [after_append]
  have hsound := sound_after (P := P) ts
  generalize after P ts = l at hheld hsound ⊢
  induction times generalizing l with
  | nil => simp
  | cons now times ih =>
    have hnow := htimes now (by simp)
    have hstep : (transactions P).step l (useSignature held signature { call with now }) =
        { l with history := l.history ++ [.use held.stored.id held.holder { call with now }] } :=
      step_useSignature hsound hheld hnow haccepts
    have hsound' := sound_run (P := P) hsound [useSignature held signature { call with now }]
    rw [run_cons, run_nil, hstep] at hsound'
    rw [List.map_cons, run_cons, hstep,
      ih (fun now' hnow' => htimes now' (List.mem_cons_of_mem _ hnow')) { l with
        history := l.history ++ [.use held.stored.id held.holder { call with now }] } hheld hsound']
    simp

theorem signature_reused_sample :
    (after samplePlatform ([sampleEnrollment] ++ [3000, 3000, 5000].map fun now =>
      useSignature sampleHeld [1] { sampleCall with now })).history =
    (after samplePlatform [sampleEnrollment]).history ++ [3000, 3000, 5000].map fun now =>
      .use sampleId (sampleAddress 1) { sampleCall with now } := by
  have haccepts : sampleHeld.stored.scheme.Accepts samplePlatform sampleHeld.stored.binding.pk
      (sampleCall.action sampleHeld.stored.id).message [1] := rfl
  exact congrArg Ledger.history (signature_reused samplePlatform [sampleEnrollment] sampleHeld
    sampleHeld_mem [1] sampleCall haccepts [3000, 3000, 5000] (by simp [sampleCall]))

end Attestation.Chain
