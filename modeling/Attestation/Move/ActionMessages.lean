import Attestation.Move.DeviceBinding

/-! Which action messages coincide. The message sets a variable-length domain, a
32-byte id and a variable-length action hash next to each other without their
lengths, so bytes of the id and the action hash can move into the domain; the
expiry has a fixed length at the end and stays apart. -/

namespace Attestation.Move.DeviceBinding

variable {Source Scheme : Type}

/-- What a device authorizes: an action of a binding, in a domain, until a time. -/
structure Action where
  bindingId : ObjectId
  domain : Bytes
  actionHash : Bytes
  expiryMs : UInt64
  deriving DecidableEq

namespace Action

def message (a : Action) : Bytes :=
  canonicalMessage a.bindingId a.domain a.actionHash a.expiryMs

/-- The domain of `b` continues the domain of `a` with bytes that, in `a`, are the
start of its id and action hash. -/
def ShiftsTo (a b : Action) : Prop :=
  a.expiryMs = b.expiryMs ∧ ∃ moved : Bytes, moved ≠ [] ∧ b.domain = a.domain ++ moved ∧
    a.bindingId.toList ++ a.actionHash = moved ++ (b.bindingId.toList ++ b.actionHash)

/-- Messages are equal exactly when their variable parts and their expiries are. -/
theorem message_eq_iff {a b : Action} :
    a.message = b.message ↔
      a.domain ++ (a.bindingId.toList ++ a.actionHash) =
        b.domain ++ (b.bindingId.toList ++ b.actionHash) ∧ a.expiryMs = b.expiryMs := by
  have hexpiry : ∀ e f : UInt64, Bcs.u64 e = Bcs.u64 f → e = f :=
    fun _ _ h => Bcs.u64_selfDelimiting.injective h
  simp only [message, canonicalMessage, List.append_assoc, List.append_cancel_left_eq]
  constructor
  · intro h
    simp only [← List.append_assoc] at h
    obtain ⟨hbody, htail⟩ := List.append_inj' h (by simp [Bcs.u64])
    exact ⟨by simpa using hbody, hexpiry _ _ htail⟩
  · rintro ⟨hbody, he⟩
    rw [he]
    simpa using congrArg (· ++ Bcs.u64 b.expiryMs) hbody

theorem eq_of_message_eq {a b : Action} (hdomain : a.domain = b.domain)
    (h : a.message = b.message) : a = b := by
  obtain ⟨hbody, he⟩ := message_eq_iff.mp h
  rw [hdomain, List.append_cancel_left_eq] at hbody
  obtain ⟨hid, hhash⟩ := List.append_inj hbody (by simp)
  obtain ⟨ida, da, ha, ea⟩ := a
  obtain ⟨idb, db, hb, eb⟩ := b
  obtain rfl := Vector.toList_inj.mp hid
  simp_all

/-- With action hashes of one length a message says which action it is. -/
theorem eq_of_message_eq_of_length {a b : Action} (hlength : a.actionHash.length =
    b.actionHash.length) (h : a.message = b.message) : a = b := by
  refine eq_of_message_eq ?_ h
  exact (List.append_inj' (message_eq_iff.mp h).1 (by simp [hlength])).1

theorem message_eq_of_shiftsTo {a b : Action} (h : a.ShiftsTo b) : a.message = b.message := by
  obtain ⟨he, moved, -, hdomain, hrest⟩ := h
  rw [message_eq_iff, hdomain, hrest]
  exact ⟨by simp, he⟩

theorem ne_of_shiftsTo {a b : Action} (h : a.ShiftsTo b) : a ≠ b := by
  rintro rfl
  obtain ⟨-, moved, hmoved, hdomain, -⟩ := h
  exact hmoved (List.append_right_eq_self.mp hdomain.symm)

/-- Two actions share a message exactly when they are equal or one shifts to the other. -/
theorem message_eq_iff_shift {a b : Action} :
    a.message = b.message ↔ a = b ∨ a.ShiftsTo b ∨ b.ShiftsTo a := by
  constructor
  · intro h
    obtain ⟨hbody, he⟩ := message_eq_iff.mp h
    -- the shorter domain is a prefix of the longer one
    rcases List.append_eq_append_iff.mp hbody with ⟨moved, hdomain, hrest⟩ | ⟨moved, hdomain, hrest⟩
    · rcases eq_or_ne moved [] with rfl | hne
      · exact .inl (eq_of_message_eq (by simpa using hdomain.symm) h)
      · exact .inr (.inl ⟨he, moved, hne, hdomain, hrest⟩)
    · rcases eq_or_ne moved [] with rfl | hne
      · exact .inl (eq_of_message_eq (by simpa using hdomain) h)
      · exact .inr (.inr ⟨he.symm, moved, hne, hdomain, hrest⟩)
  · rintro (rfl | h | h)
    · rfl
    · exact message_eq_of_shiftsTo h
    · exact (message_eq_of_shiftsTo h).symm

/-- A receipt for the action `a` of a binding is good for `b`, of a binding with the
same key, only if the two actions are one. -/
def ReceiptBound (a b : Action) : Prop :=
  ∀ (Source Scheme : Type) (bindingA bindingB : DeviceBinding Source Scheme) (now : UInt64),
    bindingA.id = a.bindingId → bindingB.id = b.bindingId → bindingA.pk = bindingB.pk →
      verifyAction bindingB
          ⟨bindingA.pk, actionMessage bindingA a.domain a.actionHash a.expiryMs⟩
          b.domain b.actionHash b.expiryMs now = true → a = b

/-- The messages of two actions tell them apart, and so do receipts. -/
def Unambiguous (a b : Action) : Prop := (a.message = b.message → a = b) ∧ ReceiptBound a b

/-- Two actions are told apart exactly when neither shifts to the other. -/
theorem unambiguous_iff (a b : Action) : Unambiguous a b ↔ ¬ (a.ShiftsTo b ∨ b.ShiftsTo a) := by
  constructor
  · rintro ⟨hmessage, -⟩ hshift
    have hab := hmessage (message_eq_iff_shift.mpr (.inr hshift))
    subst hab
    exact hshift.elim (fun h => ne_of_shiftsTo h rfl) (fun h => ne_of_shiftsTo h rfl)
  · intro hshift
    have hmessage : a.message = b.message → a = b := fun h =>
      (message_eq_iff_shift.mp h).resolve_right hshift
    refine ⟨hmessage, ?_⟩
    rintro Source Scheme ⟨ida, pka, issueda⟩ ⟨idb, pkb, issuedb⟩ now hida hidb - hverify
    subst hida hidb
    exact hmessage (verifyAction_iff.mp hverify).2.2

def zeroId : ObjectId := Vector.replicate 32 0

def oneId : ObjectId := Vector.replicate 32 1

/-- A receipt for one action of the zero binding is good for another action of the
binding with id one. -/
theorem shifted_receipt :
    ¬ Unambiguous ⟨zeroId, asBytes "pay", oneId.toList ++ asBytes "x", 1000⟩
      ⟨oneId, asBytes "pay" ++ zeroId.toList, asBytes "x", 1000⟩ := by
  rintro ⟨-, hreceipt⟩
  have h := hreceipt Unit Unit ⟨zeroId, [], 0⟩ ⟨oneId, [], 0⟩ 0 rfl rfl rfl (by decide +kernel)
  exact absurd h (by decide +kernel)

end Action

end Attestation.Move.DeviceBinding
