import Attestation.Move.Verify

/-! Device bindings: a hardware attestation persisted as an object that names a
device key, and actions authorized by receipts of signatures by that key. What a
signature is checked with is left to the packages of the schemes. -/

namespace Attestation.Move

open Result

/-- A Sui object ID. -/
abbrev ObjectId := Vector UInt8 32

/-- A genuine device key bound to its holder; both parameters are phantom. -/
structure DeviceBinding (Source Scheme : Type) where
  id : ObjectId
  pk : Bytes
  issuedAtMs : UInt64
  deriving DecidableEq, Repr

/-- A receipt that a `Scheme` verifier checked a signature of `pk` over `message`. -/
structure Verified (Scheme : Type) where
  pk : Bytes
  message : Bytes
  deriving DecidableEq, Repr

/-- Emitted for a minted binding, with the type names of its source and scheme. -/
structure DeviceBoundEvent where
  bindingId : ObjectId
  source : Bytes
  scheme : Bytes
  deriving DecidableEq, Repr

/-- Emitted for a destroyed binding. -/
structure DeviceBindingDestroyedEvent where
  bindingId : ObjectId
  deriving DecidableEq, Repr

namespace DeviceBinding

variable {Source Scheme : Type}

def eKeyMismatch : ℕ := 0

/-- Domain-separation prefix mixed into every signed message. -/
def messagePrefix : Bytes := asBytes "device_binding::verify_action::v1"

/-- Mint a verification receipt: the caller must hold a value of the scheme's type. -/
def verified (_ : Scheme) (pk message : Bytes) : Verified Scheme := ⟨pk, message⟩

/-- Mint a binding from an attestation; `id` is the one `object::new` draws. -/
def new (attestation : Witness Source) (pk : Bytes) (clock : UInt64) (id : ObjectId) :
    Tx (DeviceBinding Source Scheme) := do
  ensure (pk = attestation.attestedValue) eKeyMismatch
  pure { id, pk, issuedAtMs := clock }

def canonicalMessage (bindingId : ObjectId) (domain actionHash : Bytes) (expiryMs : UInt64) :
    Bytes :=
  messagePrefix ++ domain ++ bindingId.toList ++ actionHash ++ Bcs.u64 expiryMs

/-- The message a device must sign to authorize an action for this binding. -/
def actionMessage (binding : DeviceBinding Source Scheme) (domain actionHash : Bytes)
    (expiryMs : UInt64) : Bytes :=
  canonicalMessage binding.id domain actionHash expiryMs

/-- A receipt authorizes exactly this action, which has not expired. -/
def verifyAction (binding : DeviceBinding Source Scheme) (verified : Verified Scheme)
    (domain actionHash : Bytes) (expiryMs now : UInt64) : Bool :=
  decide (now ≤ expiryMs) && verified.pk == binding.pk &&
    verified.message == canonicalMessage binding.id domain actionHash expiryMs

/-- Tear a binding down; nothing of it is left but the event. -/
def destroy (binding : DeviceBinding Source Scheme) : DeviceBindingDestroyedEvent := ⟨binding.id⟩

theorem new_eq_ok {attestation : Witness Source} {pk : Bytes} {clock : UInt64} {id : ObjectId}
    {binding : DeviceBinding Source Scheme} :
    new attestation pk clock id = .ok binding ↔
      pk = attestation.attestedValue ∧ binding = ⟨id, pk, clock⟩ := by
  simp only [new, bind_eq_ok, ensure_eq_ok, pure_eq_ok, exists_const, eq_comm (a := binding)]

theorem verifyAction_iff {binding : DeviceBinding Source Scheme} {verified : Verified Scheme}
    {domain actionHash : Bytes} {expiryMs now : UInt64} :
    verifyAction binding verified domain actionHash expiryMs now = true ↔
      now ≤ expiryMs ∧ verified.pk = binding.pk ∧
        verified.message = canonicalMessage binding.id domain actionHash expiryMs := by
  simp only [verifyAction, Bool.and_eq_true, decide_eq_true_eq, beq_iff_eq, and_assoc]

end DeviceBinding

end Attestation.Move
