import Attestation.Base.Custody
import Attestation.Base.Transactions
import Attestation.Move.ActionMessages
import Attestation.Move.Schemes

/-! Device bindings on the chain. A transaction is a list of commands its sender runs with
what it owns: it obtains witnesses from the packages of their sources and receipts from
those of the schemes, mints bindings, hands them over, has actions verified and tears
bindings down. A binding has no ability but `key`, so only its own module moves it, a
minted one has to be handed to somebody or torn down before the transaction ends, and a
transaction that breaks a rule of the chain or aborts leaves everything as it was. The
state remembers, next to what the chain keeps, every witness and every act on a binding. -/

namespace Attestation.Chain

open Result Move

/-- A Sui address. -/
abbrev Address := Vector UInt8 32

instance : LawfulBEq ObjectId := inferInstance

/-! ### Types of witnesses and receipts -/

/-- The source markers of this repository, and those other packages declare. -/
inductive SourceName where
  | appleAppAttest
  | appleAssertion
  | androidKeyAttestation
  | declared (name : Bytes)
  deriving DecidableEq, Repr

/-- A source marker another package declares. -/
structure DeclaredSource (name : Bytes) where

def SourceName.Marker : SourceName → Type
  | .appleAppAttest => AppleAppAttest
  | .appleAssertion => AppleAssertion
  | .androidKeyAttestation => AndroidKeyAttestation
  | .declared name => DeclaredSource name

/-- The scheme markers of this repository, and those other packages declare. -/
inductive SchemeName where
  | secp256r1
  | secp256k1
  | ed25519
  | declared (name : Bytes)
  deriving DecidableEq, Repr

/-- A scheme marker another package declares. -/
structure DeclaredScheme (name : Bytes) where

def SchemeName.Marker : SchemeName → Type
  | .secp256r1 => Secp256r1
  | .secp256k1 => Secp256k1
  | .ed25519 => Ed25519
  | .declared name => DeclaredScheme name

/-- The native checks of the chain and the canonical names of its types. -/
structure Platform where
  secp256r1Verify : NativeVerify
  secp256k1Verify : NativeVerify
  ed25519Verify : Ed25519Verify
  sourceTypeName : SourceName → Bytes
  schemeTypeName : SchemeName → Bytes

variable (P : Platform)

/-- The `verify` of a scheme's package. A package that declares a scheme of its own has
values of its marker, and mints the receipts it likes. -/
def SchemeName.verify : (scheme : SchemeName) → Bytes → Bytes → Bytes → Tx (Verified scheme.Marker)
  | .secp256r1, pk, message, signature => Secp256r1.verify P.secp256r1Verify pk message signature
  | .secp256k1, pk, message, signature => Secp256k1.verify P.secp256k1Verify pk message signature
  | .ed25519, pk, message, signature => Ed25519.verify P.ed25519Verify pk message signature
  | .declared _, pk, message, _ => pure (DeviceBinding.verified {} pk message)

/-- The check a scheme's package makes before it mints a receipt. -/
def SchemeName.Accepts : SchemeName → Bytes → Bytes → Bytes → Prop
  | .secp256r1, pk, message, signature => ∃ key, Ecdsa.compress pk = .ok key ∧
    P.secp256r1Verify signature key message Ecdsa.sha256 = true
  | .secp256k1, pk, message, signature => ∃ key, Ecdsa.compress pk = .ok key ∧
    P.secp256k1Verify signature key message Ecdsa.sha256 = true
  | .ed25519, pk, message, signature => P.ed25519Verify signature pk message = true
  | .declared _, _, _, _ => True

variable {P} in
theorem SchemeName.verify_eq_ok {scheme : SchemeName} {pk message signature : Bytes}
    {receipt : Verified scheme.Marker} :
    scheme.verify P pk message signature = .ok receipt ↔
      scheme.Accepts P pk message signature ∧ receipt = ⟨pk, message⟩ := by
  cases scheme with
  | secp256r1 | secp256k1 => exact Ecdsa.verify_eq_ok.trans ⟨fun ⟨key, hkey, hsig, h⟩ =>
      ⟨⟨key, hkey, hsig⟩, h⟩, fun ⟨⟨key, hkey, hsig⟩, h⟩ => ⟨key, hkey, hsig, h⟩⟩
  | ed25519 => exact Ed25519.verify_eq_ok
  | declared name =>
    simp only [SchemeName.verify, SchemeName.Accepts, pure_eq_ok, true_and]
    exact eq_comm

/-- A witness of any source. -/
structure SomeWitness where
  source : SourceName
  witness : Witness source.Marker

/-- A receipt of any scheme. -/
structure SomeVerified where
  scheme : SchemeName
  verified : Verified scheme.Marker

/-- A receipt given where one of a scheme is asked for. -/
def SomeVerified.at (receipt : SomeVerified) (scheme : SchemeName) :
    Option (Verified scheme.Marker) :=
  if h : receipt.scheme = scheme then some (h ▸ receipt.verified) else none

theorem SomeVerified.at_eq_some {receipt : SomeVerified} {scheme : SchemeName}
    {verified : Verified scheme.Marker} :
    receipt.at scheme = some verified ↔ receipt = ⟨scheme, verified⟩ := by
  obtain ⟨scheme', verified'⟩ := receipt
  by_cases h : scheme' = scheme
  · subst h
    simp [SomeVerified.at]
  · simp [SomeVerified.at, h]

/-- A binding of any source and scheme. -/
structure Stored where
  source : SourceName
  scheme : SchemeName
  binding : DeviceBinding source.Marker scheme.Marker

def Stored.id (stored : Stored) : ObjectId := stored.binding.id

/-! ### The state and its transactions -/

/-- An action a binding's key was asked for, as `verify_action` was given it. -/
structure ActionCall where
  domain : Bytes
  actionHash : Bytes
  expiryMs : UInt64
  now : UInt64
  deriving DecidableEq, Repr

abbrev BindingAct := Act ObjectId Stored Address ActionCall

/-- A binding and the address that owns it. -/
structure Held where
  stored : Stored
  holder : Address

inductive DeviceEvent where
  | bound (e : DeviceBoundEvent)
  | destroyed (e : DeviceBindingDestroyedEvent)
  deriving DecidableEq, Repr

/-- What the chain keeps (the live bindings, the witnesses nobody has spent, the emitted
events), every witness there was, those that were spent, and every act on a binding. A
verified action is a use of its binding. -/
structure Ledger where
  held : List Held := []
  witnesses : List SomeWitness := []
  events : List DeviceEvent := []
  minted : List SomeWitness := []
  spent : List SomeWitness := []
  history : List BindingAct := []

/-- A ledger inside a transaction: the bindings the transaction has minted and must still
place, those it has placed and cannot touch again, and the receipts it holds. -/
structure Working extends Ledger where
  sender : Address
  now : UInt64
  loose : List ObjectId := []
  placed : List ObjectId := []
  receipts : List SomeVerified := []

/-- Witnesses, receipts and bindings are named by their place or identifier; `id` in `new`
is the one `object::new` draws. -/
inductive Command where
  | witness (w : SomeWitness)
  | new (i : ℕ) (scheme : SchemeName) (pk : Bytes) (id : ObjectId)
  | transferTo (id : ObjectId) (recipient : Address)
  | verify (scheme : SchemeName) (pk message signature : Bytes)
  | verifyAction (id : ObjectId) (i : ℕ) (domain actionHash : Bytes) (expiryMs : UInt64)
  | destroy (id : ObjectId)

structure Transaction where
  sender : Address
  now : UInt64
  commands : List Command

/-- A rule of the chain; a transaction that breaks it is not executed. -/
def require (c : Prop) [Decidable c] : Tx Unit := if c then .ok () else .error .panic

theorem require_eq_ok {c : Prop} [Decidable c] {u : Unit} : require c = .ok u ↔ c := by
  by_cases h : c <;> simp [require, h]

namespace Working

variable (w : Working)

/-- The transaction may use this binding: its sender has it and has not placed it. -/
def Usable (id : ObjectId) (held : Held) : Prop :=
  held.stored.id = id ∧ held.holder = w.sender ∧ id ∉ w.placed

instance (id : ObjectId) (held : Held) : Decidable (w.Usable id held) :=
  inferInstanceAs (Decidable (_ ∧ _ ∧ _))

def binding (id : ObjectId) : Tx Held := expect (w.held.find? fun held => w.Usable id held)

def addWitness (witness : SomeWitness) : Working :=
  { w with witnesses := w.witnesses ++ [witness], minted := w.minted ++ [witness] }

/-- A minted binding takes the place of the witness it was minted from. -/
def mint (i : ℕ) (witness : SomeWitness) (stored : Stored) : Working :=
  { w with
    witnesses := w.witnesses.eraseIdx i
    spent := w.spent ++ [witness]
    held := w.held ++ [⟨stored, w.sender⟩]
    loose := w.loose ++ [stored.id]
    events := w.events ++ [.bound ⟨stored.id, P.sourceTypeName stored.source,
      P.schemeTypeName stored.scheme⟩]
    history := w.history ++ [.create stored.id stored w.sender] }

def place (id : ObjectId) (recipient : Address) : Working :=
  { w with
    held := w.held.map fun held =>
      if held.stored.id = id then { held with holder := recipient } else held
    loose := w.loose.filter (· ≠ id)
    placed := w.placed ++ [id]
    history := w.history ++ [.give id w.sender recipient] }

def addReceipt (receipt : SomeVerified) : Working := { w with receipts := w.receipts ++ [receipt] }

/-- The receipt is gone, whatever `verify_action` says. -/
def useReceipt (i : ℕ) (id : ObjectId) (call : ActionCall) (authorized : Bool) : Working :=
  { w with
    receipts := w.receipts.eraseIdx i
    history := w.history ++ if authorized then [.use id w.sender call] else [] }

def remove (id : ObjectId) (e : DeviceBindingDestroyedEvent) : Working :=
  { w with
    held := w.held.filter fun held => held.stored.id ≠ id
    loose := w.loose.filter (· ≠ id)
    events := w.events ++ [.destroyed e]
    history := w.history ++ [.destroy id w.sender] }

end Working


def command (w : Working) : Command → Tx Working
  | .witness witness => pure (w.addWitness witness)
  | .new i scheme pk id => do
    let witness ← expect w.witnesses[i]?
    require (id ∉ createdIn w.history)
    let binding ← DeviceBinding.new witness.witness pk w.now id
    pure (w.mint P i witness ⟨witness.source, scheme, binding⟩)
  | .transferTo id recipient => do
    let _ ← w.binding id
    pure (w.place id recipient)
  | .verify scheme pk message signature => do
    let verified ← scheme.verify P pk message signature
    pure (w.addReceipt ⟨scheme, verified⟩)
  | .verifyAction id i domain actionHash expiryMs => do
    let held ← w.binding id
    let receipt ← expect w.receipts[i]?
    let verified ← expect (receipt.at held.stored.scheme)
    let authorized := DeviceBinding.verifyAction held.stored.binding verified domain actionHash
      expiryMs w.now
    pure (w.useReceipt i id ⟨domain, actionHash, expiryMs, w.now⟩ authorized)
  | .destroy id => do
    let held ← w.binding id
    pure (w.remove id held.stored.binding.destroy)

/-- A binding that is still loose at the end has nowhere to go, and cannot be dropped. -/
def transactions : Transactions Ledger Working Transaction Command ℕ where
  start l t := { toLedger := l, sender := t.sender, now := t.now }
  commands := Transaction.commands
  command := command P
  commit w := do
    require (w.loose = [])
    pure w.toLedger

/-- The state after transactions that anybody sent, in the order the chain gave them. -/
def after (ts : List Transaction) : Ledger := run (transactions P).step {} ts

theorem after_append (ts us : List Transaction) :
    after P (ts ++ us) = run (transactions P).step (after P ts) us := run_append _ _ _ _

/-! ### What a command can do -/

/-- Every effect a command can have on a working state. -/
inductive Effect (w : Working) : Command → Working → Prop where
  | witness {witness} : Effect w (.witness witness) (w.addWitness witness)
  | new {i scheme pk id witness} (hi : w.witnesses[i]? = some witness)
    (hid : id ∉ createdIn w.history) (hpk : pk = witness.witness.attestedValue) :
    Effect w (.new i scheme pk id) (w.mint P i witness ⟨witness.source, scheme, ⟨id, pk, w.now⟩⟩)
  | transferTo {id recipient held} (hheld : held ∈ w.held) (husable : w.Usable id held) :
    Effect w (.transferTo id recipient) (w.place id recipient)
  | verify {scheme pk message signature} (haccepts : scheme.Accepts P pk message signature) :
    Effect w (.verify scheme pk message signature) (w.addReceipt ⟨scheme, ⟨pk, message⟩⟩)
  | verifyAction {id i domain actionHash expiryMs held verified} (hheld : held ∈ w.held)
    (husable : w.Usable id held) (hi : w.receipts[i]? = some ⟨held.stored.scheme, verified⟩) :
    Effect w (.verifyAction id i domain actionHash expiryMs)
      (w.useReceipt i id ⟨domain, actionHash, expiryMs, w.now⟩
        (held.stored.binding.verifyAction verified domain actionHash expiryMs w.now))
  | destroy {id held} (hheld : held ∈ w.held) (husable : w.Usable id held) :
    Effect w (.destroy id) (w.remove id ⟨id⟩)

variable {P} {w w' : Working} {c : Command}

theorem Working.mem_of_binding {id : ObjectId} {held : Held} (h : w.binding id = .ok held) :
    held ∈ w.held ∧ w.Usable id held := by
  have hfind := expect_eq_ok.mp h
  exact ⟨List.mem_of_find?_eq_some hfind, by simpa using List.find?_some hfind⟩

theorem command_effect (h : command P w c = .ok w') : Effect P w c w' := by
  cases c with
  | witness witness =>
    obtain rfl := pure_eq_ok.mp h
    exact .witness
  | new i scheme pk id =>
    simp only [command, bind_eq_ok, expect_eq_ok, require_eq_ok, DeviceBinding.new_eq_ok,
      pure_eq_ok] at h
    obtain ⟨witness, hi, -, hid, binding, ⟨hpk, rfl⟩, rfl⟩ := h
    exact .new hi hid hpk
  | transferTo id recipient =>
    simp only [command, bind_eq_ok, pure_eq_ok] at h
    obtain ⟨held, hheld, rfl⟩ := h
    exact .transferTo (Working.mem_of_binding hheld).1 (Working.mem_of_binding hheld).2
  | verify scheme pk message signature =>
    simp only [command, bind_eq_ok, SchemeName.verify_eq_ok, pure_eq_ok] at h
    obtain ⟨verified, ⟨haccepts, rfl⟩, rfl⟩ := h
    exact .verify haccepts
  | verifyAction id i domain actionHash expiryMs =>
    simp only [command, bind_eq_ok, expect_eq_ok, SomeVerified.at_eq_some, pure_eq_ok] at h
    obtain ⟨held, hheld, receipt, hi, verified, rfl, rfl⟩ := h
    obtain ⟨hmem, husable⟩ := Working.mem_of_binding hheld
    exact .verifyAction hmem husable hi
  | destroy id =>
    simp only [command, bind_eq_ok, pure_eq_ok] at h
    obtain ⟨held, hheld, rfl⟩ := h
    obtain ⟨hmem, husable⟩ := Working.mem_of_binding hheld
    obtain rfl : held.stored.binding.id = id := husable.1
    exact .destroy hmem husable

/-! ### A small chain -/

section Sample

/-- Natives that accept one signature, and one-byte names. -/
def samplePlatform : Platform where
  secp256r1Verify signature _ _ _ := signature = [1]
  secp256k1Verify signature _ _ _ := signature = [1]
  ed25519Verify signature _ _ := signature = [1]
  sourceTypeName _ := [1]
  schemeTypeName _ := [2]

def sampleAddress (b : UInt8) : Address := Vector.replicate 32 b

def sampleId : ObjectId := Vector.replicate 32 9

def sampleHeld : Held := ⟨⟨.appleAppAttest, .ed25519, ⟨sampleId, [7], 1000⟩⟩, sampleAddress 1⟩

/-- A witness for the key `[7]` becomes a binding of the sender. -/
def sampleEnrollment : Transaction := ⟨sampleAddress 1, 1000,
  [.witness ⟨.appleAppAttest, ⟨[7], [8], 900, []⟩⟩, .new 0 .ed25519 [7] sampleId,
    .transferTo sampleId (sampleAddress 1)]⟩

theorem sampleHeld_mem : sampleHeld ∈ (after samplePlatform [sampleEnrollment]).held :=
  List.mem_of_getElem? (i := 0) rfl

end Sample

end Attestation.Chain
