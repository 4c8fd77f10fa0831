import Attestation.Chain.Authorization
import Attestation.System.Enrollment

/-! What a verified action goes back to. Whoever orders the requests, the calls and the
transactions, an action that the chain has verified was signed under the key of a binding,
and where the binding is of a source of this repository, the enclave has accepted evidence
for that key on a request of the run. -/

namespace Attestation.System

open Result Move Enclave Chain

/-- Every verified action in a run of the whole system is of a binding that was created in
it; the scheme's check accepts a signature of the action under the binding's key, before
the action has expired; and a request of the run has brought evidence for the key, unless
the binding is of another package's source. -/
theorem actions_evidenced (D : Deployment) (P : Chain.Platform) (events : List (Joint.Event D))
    (hhash : CollisionFreeOn D.server.crates.sha256 (Joint.after D P events).system.hashed)
    (id : ObjectId) (b : Address) (call : ActionCall)
    (huse : .use id b call ∈ (Joint.after D P events).ledger.history) :
    ∃ stored a, .create id stored a ∈ (Joint.after D P events).ledger.history ∧
      stored.id = id ∧ Authorizes P stored call ∧ (isDeclared stored.source = false →
        Evidence (Joint.systemEvents events) stored.source stored.binding.pk) := by
  obtain ⟨ts, hts⟩ := Joint.exists_ledger_run (D := D) (P := P) {} events
  have hjustified : Justified P (Joint.after D P events).ledger.history := by
    rw [Joint.after, hts]
    exact justified_after ts
  obtain ⟨stored, a, hcreate, hid, hauthorizes⟩ := hjustified id b call huse
  exact ⟨stored, a, hcreate, hid, hauthorizes,
    Joint.evidence_of_bound hhash (mem_boundIn hcreate)⟩

section Sample

/-- The key of the sample document becomes a binding, and its holder uses it. -/
def androidAction : List (Joint.Event sampleDeployment) :=
  androidUse.map .system ++ [.transaction ⟨sampleAddress 1, 1000,
    [.witness ⟨.androidKeyAttestation, ⟨sampleSpki, [7], 1000, sampleChainHash [[1], [2]]⟩⟩,
      .new 0 .ed25519 sampleSpki sampleId, .transferTo sampleId (sampleAddress 1)]⟩,
    .transaction (useSignature ⟨⟨.androidKeyAttestation, .ed25519, ⟨sampleId, sampleSpki, 1000⟩⟩,
      sampleAddress 1⟩ [1] sampleCall)]

def usesIn (history : List BindingAct) : List (ObjectId × Address × ActionCall) :=
  history.filterMap fun
    | .use id a call => some (id, a, call)
    | _ => none

theorem mem_of_mem_usesIn {history : List BindingAct} {id : ObjectId} {a : Address}
    {call : ActionCall} (h : (id, a, call) ∈ usesIn history) : .use id a call ∈ history := by
  obtain ⟨act, hact, heq⟩ := List.mem_filterMap.mp h
  cases act with
  | use id a call =>
    obtain ⟨rfl, rfl, rfl⟩ := by simpa only [Option.some.injEq, Prod.mk.injEq] using heq
    exact hact
  | _ => cases heq

theorem actions_evidenced_sample :
    ∃ stored a, .create sampleId stored a ∈
        (Joint.after sampleDeployment samplePlatform androidAction).ledger.history ∧
      stored.id = sampleId ∧ Authorizes samplePlatform stored sampleCall ∧
      Evidence (Joint.systemEvents androidAction) stored.source stored.binding.pk := by
  obtain ⟨stored, a, hcreate, hid, hauthorizes, hevidence⟩ :=
    actions_evidenced sampleDeployment samplePlatform androidAction (by decide +kernel) sampleId
      (sampleAddress 1) sampleCall (mem_of_mem_usesIn (by decide +kernel))
  have hkeys : (boundIn (Joint.after sampleDeployment samplePlatform
      androidAction).ledger.history).map Stored.key =
        [(.androidKeyAttestation, sampleSpki)] := by decide +kernel
  have hmem := List.mem_map_of_mem (f := Stored.key) (mem_boundIn hcreate)
  rw [hkeys] at hmem
  exact ⟨stored, a, hcreate, hid, hauthorizes,
    hevidence (congrArg (fun key => isDeclared key.1) (List.mem_singleton.mp hmem))⟩

end Sample

end Attestation.System
