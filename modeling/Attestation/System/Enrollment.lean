import Attestation.Chain.Payments
import Attestation.System.Witnesses

/-! Bindings of the deployed system. The enclave, the verifiers and the bindings of the chain
run together; a transaction gets a witness of a source of this repository only from a call
of its verifier, and every witness once. So a binding leads back to a request of the same
run, whose evidence the enclave has accepted for the binding's key. -/

namespace Attestation.System

open Result Move Enclave Chain

deriving instance DecidableEq for AppleAppAttest, AppleAssertion, AndroidKeyAttestation,
  DeclaredSource

instance : (source : SourceName) → DecidableEq source.Marker
  | .appleAppAttest => inferInstanceAs (DecidableEq AppleAppAttest)
  | .appleAssertion => inferInstanceAs (DecidableEq AppleAssertion)
  | .androidKeyAttestation => inferInstanceAs (DecidableEq AndroidKeyAttestation)
  | .declared name => inferInstanceAs (DecidableEq (DeclaredSource name))

deriving instance DecidableEq for SomeWitness

/-- The witnesses that calls of the verifiers have returned. -/
def State.returned (s : State) : List SomeWitness :=
  s.appleWitnesses.map (fun p => ⟨.appleAppAttest, p.1⟩) ++
    s.assertionWitnesses.map (fun p => ⟨.appleAssertion, p.1⟩) ++
    s.androidWitnesses.map fun p => ⟨.androidKeyAttestation, p.1⟩

/-- Another package mints witnesses of its own source as it likes. -/
def isDeclared : SourceName → Bool
  | .declared _ => true
  | _ => false

/-- The enclave and the verifiers, and the bindings of the chain. -/
structure Joint where
  system : State := {}
  ledger : Ledger := {}

inductive Joint.Event (D : Deployment) where
  | system (e : System.Event D)
  | transaction (t : Transaction)

namespace Joint

/-- Next to those that have come before, the transaction asks for witnesses that calls have
returned, for each one as often as it was returned at most. -/
def Sourced (j : Joint) (t : Transaction) : Prop :=
  ∀ w ∈ asked t.commands, isDeclared w.source = true ∨
    (j.ledger.minted ++ asked t.commands).count w ≤ j.system.returned.count w

instance (j : Joint) (t : Transaction) : Decidable (j.Sourced t) :=
  inferInstanceAs (Decidable (∀ w ∈ asked t.commands, _))

variable (D : Deployment) (P : Chain.Platform)

def step (j : Joint) : Joint.Event D → Joint
  | .system e => { j with system := System.step D j.system e }
  | .transaction t =>
    if j.Sourced t then { j with ledger := (transactions P).step j.ledger t } else j

/-- The state after requests, calls and transactions in any order. -/
def after (events : List (Joint.Event D)) : Joint := run (step D P) {} events

end Joint

/-! ### Where a key comes from -/

variable {D : Deployment} {P : Chain.Platform} {s : State}

/-- The event is a request in which a platform verifier accepts an attestation of the key. -/
def Event.Attests (pk : Bytes) : Event D → Prop
  | .appleAttestation _ req stampMs =>
    ∃ out, verifyAppleRequest D.server req stampMs = .ok out ∧ out.attestedValue = pk
  | .androidAttestation _ req stampMs =>
    ∃ out, verifyAndroidRequest D.server req stampMs = .ok out ∧ out.attestedValue = pk
  | _ => False

/-- The event is a request in which an assertion under the key is verified. -/
def Event.Asserts (pk : Bytes) : Event D → Prop
  | .appleAssertion _ req stampMs =>
    ∃ out, verifyAssertionRequest D.server req stampMs = .ok out ∧ out.attestedValue = pk
  | _ => False

/-- Among these events, evidence for the key was accepted at an endpoint a document of which
the source's verifier takes. Both attestation verifiers take documents of either platform. -/
def Evidence (events : List (Event D)) (source : SourceName) (pk : Bytes) : Prop :=
  match source with
  | .appleAppAttest | .androidKeyAttestation => ∃ e ∈ events, e.Attests pk
  | .appleAssertion => ∃ e ∈ events, e.Asserts pk
  | .declared _ => False

theorem Evidence.mono {events more : List (Event D)} {source : SourceName} {pk : Bytes}
    (h : Evidence events source pk) (hsub : events ⊆ more) : Evidence more source pk := by
  cases source with
  | declared name => exact h
  | _ =>
    obtain ⟨e, he, hkey⟩ := h
    exact ⟨e, hsub he, hkey⟩

/-- What the enclave accepted, it accepted on a request among these events. -/
structure Evidenced (events : List (Event D)) (s : State) : Prop where
  apple : ∀ out ∈ s.appleAccepted, ∃ e ∈ events, e.Attests out.attestedValue
  android : ∀ out ∈ s.androidAccepted, ∃ e ∈ events, e.Attests out.attestedValue
  assertion : ∀ i ∈ s.issued, ∀ req out, i.origin = .appleAssertion req out →
    ∃ e ∈ events, e.Asserts out.attestedValue

theorem Evidenced.mono {events more : List (Event D)} (h : Evidenced events s)
    (hsub : events ⊆ more) : Evidenced more s where
  apple out hout := (h.apple out hout).imp fun _ he => he.imp_left (hsub ·)
  android out hout := (h.android out hout).imp fun _ he => he.imp_left (hsub ·)
  assertion i hi req out horigin :=
    (h.assertion i hi req out horigin).imp fun _ he => he.imp_left (hsub ·)

theorem forall_mem_snoc {α : Type*} {p : α → Prop} {xs : List α} {x : α} (hxs : ∀ y ∈ xs, p y)
    (hx : p x) : ∀ y ∈ xs ++ [x], p y :=
  List.forall_mem_append.mpr ⟨hxs, List.forall_mem_singleton.mpr hx⟩

theorem evidenced_step {events : List (Event D)} (h : Evidenced events s) (e : Event D) :
    Evidenced (events ++ [e]) (step D s e) := by
  have hlast : e ∈ events ++ [e] := List.mem_append_right _ (List.mem_singleton_self e)
  replace h := h.mono (List.subset_append_left events [e])
  have heffect := step_effect s e
  generalize step D s e = s' at heffect ⊢
  cases heffect with
  | idle | appleCalled | appleWitnessed | assertionCalled | assertionWitnessed | androidCalled
  | androidWitnessed | assertionAccepted => exact ⟨h.apple, h.android, h.assertion⟩
  | registration | otherImage =>
    exact ⟨h.apple, h.android, forall_mem_snoc h.assertion fun _ _ horigin => nomatch horigin⟩
  | appleAccepted hout =>
    exact ⟨forall_mem_snoc h.apple ⟨_, hlast, _, hout, rfl⟩, h.android, h.assertion⟩
  | appleIssued hout => exact ⟨forall_mem_snoc h.apple ⟨_, hlast, _, hout, rfl⟩, h.android,
      forall_mem_snoc h.assertion fun _ _ horigin => nomatch horigin⟩
  | assertionIssued hout =>
    refine ⟨h.apple, h.android, forall_mem_snoc h.assertion fun req out horigin => ?_⟩
    obtain ⟨rfl, rfl⟩ := Origin.appleAssertion.inj horigin
    exact ⟨_, hlast, _, hout, rfl⟩
  | androidAccepted hout =>
    exact ⟨h.apple, forall_mem_snoc h.android ⟨_, hlast, _, hout, rfl⟩, h.assertion⟩
  | androidIssued hout => exact ⟨h.apple, forall_mem_snoc h.android ⟨_, hlast, _, hout, rfl⟩,
      forall_mem_snoc h.assertion fun _ _ horigin => nomatch horigin⟩

/-- An attestation document with these fields was issued for accepted evidence of the key. -/
theorem attests_of_triple {events : List (Event D)} {i : Issued} {a c d : Bytes}
    (hevidenced : Evidenced events s) (hi : Genuine D s i)
    (hfields : i.origin.fields = some [a, c, d]) : ∃ e ∈ events, e.Attests a := by
  rcases origin_of_triple hfields with ⟨req, out, horigin, htriple⟩ | ⟨req, out, horigin, htriple⟩
  · have hkey : out.attestedValue = a := (List.cons.inj htriple).1
    exact hkey ▸ hevidenced.apple out (hi.appleAccepted horigin)
  · have hkey : out.attestedValue = a := (List.cons.inj htriple).1
    exact hkey ▸ hevidenced.android out (hi.androidAccepted horigin).1

theorem asserts_of_pair {events : List (Event D)} {i : Issued} {k d : Bytes}
    (hevidenced : Evidenced events s) (hi : i ∈ s.issued)
    (hfields : i.origin.fields = some [k, d]) : ∃ e ∈ events, e.Asserts k := by
  obtain ⟨req, out, horigin, hpair⟩ := origin_of_pair hfields
  have hkey : out.attestedValue = k := (List.cons.inj hpair).1
  exact hkey ▸ hevidenced.assertion i hi req out horigin

/-- Every returned witness is for a key evidence for which was accepted among these events. -/
def Vouched (events : List (Event D)) (s : State) : Prop :=
  ∀ w ∈ s.returned, Evidence events w.source w.witness.attestedValue

theorem vouched_step {events : List (Event D)} {e : Event D} (hgenuine : AllGenuine D s)
    (hevidenced : Evidenced events s)
    (hhash : CollisionFreeOn D.server.crates.sha256 (step D s e).hashed) (h : Vouched events s) :
    Vouched events (step D s e) := by
  have hkeep : ∀ w ∈ s.returned, Evidence events w.source w.witness.attestedValue := h
  simp only [State.returned, List.forall_mem_append, List.forall_mem_map] at hkeep
  simp only [Vouched, State.returned, List.forall_mem_append, List.forall_mem_map]
  refine ⟨⟨fun p hp => ?_, fun p hp => ?_⟩, fun p hp => ?_⟩
  · rcases mem_appleWitnesses_step hgenuine hhash hp with hp | ⟨i, _, a, c, d, -, hi, hf, -, hv⟩
    · exact hkeep.1.1 p hp
    · have hkey : p.1.attestedValue = a := (List.cons.inj hv).1
      rw [hkey]
      exact attests_of_triple hevidenced (hgenuine _ (List.mem_of_getElem? hi)) hf
  · rcases mem_assertionWitnesses_step hgenuine hhash hp with hp | ⟨hi, hf⟩
    · exact hkeep.1.2 p hp
    · exact asserts_of_pair hevidenced hi hf
  · rcases mem_androidWitnesses_step hgenuine hhash hp with hp | ⟨i, _, a, c, d, -, hi, hf, -, hv⟩
    · exact hkeep.2 p hp
    · have hkey : p.1.attestedValue = a := (List.cons.inj hv).1
      rw [hkey]
      exact attests_of_triple hevidenced (hgenuine _ (List.mem_of_getElem? hi)) hf

/-! ### Runs of the whole system -/

/-- Calls never take a returned witness back. -/
theorem count_returned_step (e : Event D) (w : SomeWitness) :
    s.returned.count w ≤ (step D s e).returned.count w := by
  have heffect := step_effect s e
  generalize step D s e = s' at heffect ⊢
  cases heffect <;>
    simp only [State.returned, State.addIssued, State.acceptApple, State.acceptAssertion,
      State.acceptAndroid, State.hash, State.addAppleWitness, State.addAssertionWitness,
      State.addAndroidWitness, List.map_append, List.count_append] <;> omega

/-- What is known of a state whose hashed messages do not collide, and of the events behind
it. -/
structure Traced (events : List (Event D)) (s : State) : Prop where
  genuine : AllGenuine D s
  evidenced : Evidenced events s
  vouched : Vouched events s

theorem traced_step {events : List (Event D)} {e : Event D}
    (hhash : CollisionFreeOn D.server.crates.sha256 (step D s e).hashed) (h : Traced events s) :
    Traced (events ++ [e]) (step D s e) where
  genuine := allGenuine_step h.genuine e
  evidenced := evidenced_step h.evidenced e
  vouched w hw := (vouched_step h.genuine h.evidenced hhash h.vouched w hw).mono
    (List.subset_append_left events [e])

theorem traced_run {events : List (Event D)}
    (hhash : CollisionFreeOn D.server.crates.sha256 (run (step D) {} events).hashed) :
    Traced events (run (step D) {} events) := by
  show Traced ([] ++ events) _
  refine run_history (K := fun s => CollisionFreeOn D.server.crates.sha256 s.hashed)
    (fun s e h => h.mono (extends_step e).hashed) (fun _ _ _ h htraced => traced_step h htraced)
    hhash ?_
  exact ⟨by simp [AllGenuine], ⟨by simp, by simp, by simp⟩, by simp [Vouched, State.returned]⟩

namespace Joint

theorem step_transaction (j : Joint) (t : Transaction) :
    step D P j (.transaction t) = j ∨ j.Sourced t ∧
      step D P j (.transaction t) = { j with ledger := (transactions P).step j.ledger t } := by
  by_cases h : j.Sourced t
  · exact .inr ⟨h, if_pos h⟩
  · exact .inl (if_neg h)

/-- The requests and the calls of a run. -/
def systemEvents (events : List (Joint.Event D)) : List (System.Event D) :=
  events.filterMap fun
    | .system e => some e
    | .transaction _ => none

/-- The enclave and the verifiers run as they do without the bindings. -/
theorem system_run (j : Joint) (events : List (Joint.Event D)) :
    (run (step D P) j events).system = run (System.step D) j.system (systemEvents events) := by
  induction events generalizing j with
  | nil => rfl
  | cons e events ih =>
    refine (ih (step D P j e)).trans ?_
    cases e with
    | system e => rfl
    | transaction t =>
      rcases step_transaction (D := D) (P := P) j t with h | ⟨-, h⟩ <;> rw [h] <;> rfl

/-- The bindings are those of a run of the transactions that were sourced. -/
theorem exists_ledger_run (j : Joint) (events : List (Joint.Event D)) :
    ∃ ts, (run (step D P) j events).ledger = run (transactions P).step j.ledger ts := by
  induction events generalizing j with
  | nil => exact ⟨[], rfl⟩
  | cons e events ih =>
    obtain ⟨ts, hts⟩ := ih (step D P j e)
    cases e with
    | system e => exact ⟨ts, hts⟩
    | transaction t =>
      rcases step_transaction (D := D) (P := P) j t with h | ⟨-, h⟩
      · exact ⟨ts, hts.trans (by rw [h])⟩
      · exact ⟨t :: ts, hts.trans (by rw [h, run_cons])⟩

/-- No witness of a source of this repository is on the chain more often than calls have
returned it. -/
def Counted (j : Joint) : Prop :=
  ∀ w : SomeWitness, isDeclared w.source = false →
    j.ledger.minted.count w ≤ j.system.returned.count w

theorem counted_step {j : Joint} (h : j.Counted) (e : Joint.Event D) :
    (step D P j e).Counted := by
  intro w hw
  cases e with
  | system e => exact (h w hw).trans (count_returned_step e w)
  | transaction t =>
    rcases step_transaction (D := D) (P := P) j t with heq | ⟨hsourced, heq⟩
    · rw [heq]
      exact h w hw
    · rw [heq]
      rcases minted_step (P := P) j.ledger t with hminted | hminted
      · rw [hminted]
        exact h w hw
      · rw [hminted]
        by_cases hmem : w ∈ asked t.commands
        · exact (hsourced w hmem).resolve_left (by simp [hw])
        · rw [List.count_append, List.count_eq_zero_of_not_mem hmem]
          exact h w hw

theorem counted_after (events : List (Joint.Event D)) : (after D P events).Counted :=
  run_invariant (fun _ e h => counted_step h e) (by simp [Counted])

theorem paid_after (events : List (Joint.Event D)) : Paid (after D P events).ledger := by
  obtain ⟨ts, hts⟩ := exists_ledger_run (P := P) {} events
  rw [after, hts]
  exact Chain.paid_after ts

theorem traced_after (events : List (Joint.Event D))
    (hhash : CollisionFreeOn D.server.crates.sha256 (after D P events).system.hashed) :
    Traced (systemEvents events) (after D P events).system := by
  rw [after, system_run] at hhash ⊢
  exact traced_run hhash

/-- A witness that was spent on a binding of this repository's sources was returned. -/
theorem exists_returned {j : Joint} (hpaid : Paid j.ledger) (hcounted : j.Counted)
    {stored : Stored} (hstored : stored ∈ boundIn j.ledger.history)
    (hsource : isDeclared stored.source = false) :
    ∃ w ∈ j.system.returned, w.key = stored.key := by
  have hkey : stored.key ∈ j.ledger.spent.map SomeWitness.key :=
    hpaid.keys ▸ List.mem_map_of_mem hstored
  obtain ⟨w, hw, hwkey⟩ := List.mem_map.mp hkey
  have hminted : w ∈ j.ledger.minted := hpaid.perm.mem_iff.mpr (List.mem_append_right _ hw)
  have hdeclared : isDeclared w.source = false := by
    rw [show w.source = stored.source from congrArg Prod.fst hwkey, hsource]
  have hcount := hcounted w hdeclared
  exact ⟨w, List.count_pos_iff.mp ((List.count_pos_iff.mpr hminted).trans_le hcount), hwkey⟩

end Joint

/-- A witness that was returned is for a key the enclave has accepted evidence for, and a
binding is for the key of its witness. -/
theorem Joint.evidence_of_bound {events : List (Joint.Event D)}
    (hhash : CollisionFreeOn D.server.crates.sha256 (Joint.after D P events).system.hashed)
    {stored : Stored} (hstored : stored ∈ boundIn (Joint.after D P events).ledger.history)
    (hsource : isDeclared stored.source = false) :
    Evidence (Joint.systemEvents events) stored.source stored.binding.pk := by
  obtain ⟨w, hw, hkey⟩ := Joint.exists_returned (Joint.paid_after events)
    (Joint.counted_after events) hstored hsource
  have hvouched : Evidence (Joint.systemEvents events) w.key.1 w.key.2 :=
    (Joint.traced_after events hhash).vouched w hw
  rwa [hkey] at hvouched

/-- A binding that was ever minted of a source of this repository is for a key the enclave
has accepted evidence for, on a request of this run. -/
theorem bindings_evidenced (D : Deployment) (P : Chain.Platform) (events : List (Joint.Event D))
    (hhash : CollisionFreeOn D.server.crates.sha256 (Joint.after D P events).system.hashed) :
    ∀ stored ∈ boundIn (Joint.after D P events).ledger.history, isDeclared stored.source = false →
      Evidence (Joint.systemEvents events) stored.source stored.binding.pk :=
  fun _ hstored hsource => Joint.evidence_of_bound hhash hstored hsource

/-- Lists that have no more of each element of a kind have no more elements of the kind. -/
theorem countP_le_of_count_le {α : Type*} [DecidableEq α] {p q : α → Bool} {xs ys : List α}
    (h : ∀ x, q x = true → xs.count x ≤ ys.count x) (hpq : ∀ x, p x = true → q x = true) :
    xs.countP p ≤ ys.countP p := by
  have hsub : (xs.filter p).Subperm (ys.filter p) := by
    rw [List.subperm_iff_count]
    intro x
    by_cases hx : p x = true
    · rw [List.count_filter hx, List.count_filter hx]
      exact h x (hpq x hx)
    · rw [List.count_eq_zero_of_not_mem fun hmem => hx (List.of_mem_filter hmem)]
      exact Nat.zero_le _
  simpa only [List.countP_eq_length_filter] using hsub.length_le

/-- The bindings ever minted of a key, of a source of this repository, are no more than the
calls of verifiers that returned a witness for it. -/
theorem bindings_counted (D : Deployment) (P : Chain.Platform) (events : List (Joint.Event D))
    (key : SourceName × Bytes) (hsource : isDeclared key.1 = false) :
    ((boundIn (Joint.after D P events).ledger.history).map Stored.key).count key ≤
      ((Joint.after D P events).system.returned.map SomeWitness.key).count key := by
  have hpaid := Joint.paid_after (P := P) events
  have hcounted := Joint.counted_after (P := P) events
  generalize Joint.after D P events = j at hpaid hcounted ⊢
  calc ((boundIn j.ledger.history).map Stored.key).count key
      = (j.ledger.spent.map SomeWitness.key).count key := by rw [hpaid.keys]
    _ ≤ (j.ledger.minted.map SomeWitness.key).count key := by
        rw [(hpaid.perm.map SomeWitness.key).count_eq, List.map_append, List.count_append]
        exact Nat.le_add_left _ _
    _ ≤ (j.system.returned.map SomeWitness.key).count key := by
        simp only [List.count, List.countP_map]
        refine countP_le_of_count_le (q := fun w => !isDeclared w.source)
          (fun w hw => hcounted w (by simpa using hw)) fun w hw => ?_
        have hkey : w.key = key := by simpa using hw
        have hws : w.source = key.1 := congrArg Prod.fst hkey
        simp [hws, hsource]

/-! ### Many bindings of one document -/

theorem count_returned_addAppleWitness (s : State) (w : Witness AppleAppAttest) (issued : Issued) :
    (s.addAppleWitness (w, issued)).returned.count ⟨.appleAppAttest, w⟩ =
      s.returned.count ⟨.appleAppAttest, w⟩ + 1 := by
  have hone : [SomeWitness.mk .appleAppAttest w].count ⟨.appleAppAttest, w⟩ = 1 :=
    List.count_singleton_self
  simp only [State.returned, State.addAppleWitness, List.map_append, List.map_cons, List.map_nil,
    List.count_append]
  omega

/-- A fresh document presented to the Apple verifier again and again yields a witness each
time. -/
theorem count_returned_replicate {i : ℕ} {issued : Issued} {a c d : Bytes} {now : UInt64}
    (hgenuine : AllGenuine D s) (hi : s.issued[i]? = some issued)
    (hfields : issued.origin.fields = some [a, c, d])
    (hfresh : Fresh issued.document.timestamp now) (n : ℕ) :
    (run (step D) s (List.replicate n (.verifyAppleAttestation i a c d now))).returned.count
        ⟨.appleAppAttest, ⟨a, c, issued.document.timestamp, d⟩⟩ =
      s.returned.count ⟨.appleAppAttest, ⟨a, c, issued.document.timestamp, d⟩⟩ + n := by
  induction n generalizing s with
  | zero => rfl
  | succ n ih =>
    have hstep := step_verifyAppleAttestation hgenuine hi hfields hfresh
    have hissued : (step D s (.verifyAppleAttestation i a c d now)).issued[i]? = some issued := by
      rw [hstep]
      exact hi
    have hone := count_returned_addAppleWitness (s.hash [a, c, d])
      ⟨a, c, issued.document.timestamp, d⟩ issued
    rw [List.replicate_succ, run_cons, ih (allGenuine_step hgenuine _) hissued, hstep]
    exact (congrArg (· + n) hone).trans (Nat.add_right_comm _ 1 n)

namespace Joint

theorem run_replicate_system (j : Joint) (e : System.Event D) (n : ℕ) :
    run (step D P) j (List.replicate n (.system e)) =
      { j with system := run (System.step D) j.system (List.replicate n e) } := by
  induction n generalizing j with
  | zero => rfl
  | succ n ih =>
    rw [List.replicate_succ, run_cons, ih, List.replicate_succ, run_cons]
    rfl

theorem genuine_after (events : List (Joint.Event D)) : AllGenuine D (after D P events).system := by
  rw [after, system_run]
  exact allGenuine_run _

theorem sound_after (events : List (Joint.Event D)) : Sound (after D P events).ledger := by
  obtain ⟨ts, hts⟩ := exists_ledger_run (P := P) {} events
  rw [after, hts]
  exact Chain.sound_after ts

end Joint

/-- One document that an attestation endpoint has issued is good, while it is fresh, for any
number of bindings of its key, under any scheme and for any holders; the enclave sees no
other request. -/
theorem document_enrolls_many (D : Deployment) (P : Chain.Platform) (events : List (Joint.Event D))
    (i : ℕ) (issued : Issued) (a c d : Bytes) (now : UInt64)
    (hi : (Joint.after D P events).system.issued[i]? = some issued)
    (hfields : issued.origin.fields = some [a, c, d])
    (hfresh : Fresh issued.document.timestamp now)
    (scheme : SchemeName) (sender : Address) (places : List (ObjectId × Address))
    (hnodup : (places.map Prod.fst).Nodup)
    (hnew : ∀ place ∈ places, place.1 ∉ createdIn (Joint.after D P events).ledger.history) :
    ∃ t, t.sender = sender ∧ ∀ place ∈ places,
      ⟨⟨.appleAppAttest, scheme, ⟨place.1, a, now⟩⟩, place.2⟩ ∈
        (Joint.after D P (events ++ (List.replicate places.length
          (.system (.verifyAppleAttestation i a c d now)) ++ [.transaction t]))).ledger.held := by
  have hgenuine := Joint.genuine_after (P := P) events
  have hcounted := Joint.counted_after (P := P) events
  have hsound := Joint.sound_after (P := P) events
  let w : SomeWitness := ⟨.appleAppAttest, ⟨a, c, issued.document.timestamp, d⟩⟩
  let t := enrollAll (Joint.after D P events).ledger w scheme sender now places
  refine ⟨t, rfl, fun place hplace => ?_⟩
  have hasked : asked t.commands = List.replicate places.length w := asked_enrollAll
  rw [Joint.after, run_append, run_append, ← Joint.after, Joint.run_replicate_system]
  have hsourced : Joint.Sourced { Joint.after D P events with
      system := run (step D) (Joint.after D P events).system (List.replicate places.length
        (.verifyAppleAttestation i a c d now)) } t := by
    intro w' hw'
    rw [hasked] at hw' ⊢
    obtain ⟨-, rfl⟩ := List.mem_replicate.mp hw'
    refine .inr ?_
    rw [List.count_append, List.count_replicate_self,
      count_returned_replicate hgenuine hi hfields hfresh]
    exact Nat.add_le_add_right (hcounted w rfl) _
  rw [run_cons, run_nil, Joint.step, if_pos hsourced]
  exact mem_held_enrollAll hsound hnodup hnew place hplace

section Sample

/-- The key of the sample document becomes a binding. -/
def androidEnrollment : List (Joint.Event sampleDeployment) :=
  androidUse.map .system ++ [.transaction ⟨sampleAddress 1, 1000,
    [.witness ⟨.androidKeyAttestation, ⟨sampleSpki, [7], 1000, sampleChainHash [[1], [2]]⟩⟩,
      .new 0 .secp256r1 sampleSpki sampleId, .transferTo sampleId (sampleAddress 1)]⟩]

theorem bindings_evidenced_sample :
    Evidence (Joint.systemEvents androidEnrollment) .androidKeyAttestation sampleSpki := by
  have hkeys : (boundIn (Joint.after sampleDeployment samplePlatform
      androidEnrollment).ledger.history).map Stored.key =
        [(.androidKeyAttestation, sampleSpki)] := by decide +kernel
  obtain ⟨stored, hmem, hkey⟩ := List.mem_map.mp (hkeys ▸ List.mem_singleton_self _)
  have hevidence : isDeclared stored.key.1 = false →
      Evidence (Joint.systemEvents androidEnrollment) stored.key.1 stored.key.2 :=
    bindings_evidenced sampleDeployment samplePlatform androidEnrollment (by decide +kernel)
      stored hmem
  rw [hkey] at hevidence
  exact hevidence rfl

theorem bindings_counted_sample :
    ((boundIn (Joint.after sampleDeployment samplePlatform androidEnrollment).ledger.history).map
        Stored.key).count (.androidKeyAttestation, sampleSpki) ≤
      ((Joint.after sampleDeployment samplePlatform androidEnrollment).system.returned.map
        SomeWitness.key).count (.androidKeyAttestation, sampleSpki) :=
  bindings_counted sampleDeployment samplePlatform androidEnrollment _ rfl

theorem document_enrolls_many_sample :
    ∃ t, t.sender = sampleAddress 1 ∧
      ∀ place ∈ [(sampleId, sampleAddress 2), (Vector.replicate 32 10, sampleAddress 3)],
        ⟨⟨.appleAppAttest, .ed25519, ⟨place.1, sampleSpki, 1000⟩⟩, place.2⟩ ∈
          (Joint.after sampleDeployment samplePlatform (
            [.system (.androidAttestation sampleNsm sampleAndroidRequest 0)] ++
            (List.replicate 2 (.system (.verifyAppleAttestation 0 sampleSpki [7]
              (sampleChainHash [[1], [2]]) 1000)) ++ [.transaction t]))).ledger.held := by
  have hpresents : Presents (Joint.after sampleDeployment samplePlatform
      [.system (.androidAttestation sampleNsm sampleAndroidRequest 0)]).system (fun _ => True) 0
      [sampleSpki, [7], sampleChainHash [[1], [2]]] 1000 := by decide +kernel
  obtain ⟨issued, hi, -, hfields, hfresh⟩ := hpresents
  exact document_enrolls_many sampleDeployment samplePlatform _ 0 issued _ _ _ 1000 hi hfields
    hfresh .ed25519 (sampleAddress 1)
    [(sampleId, sampleAddress 2), (Vector.replicate 32 10, sampleAddress 3)] (by decide)
    (by decide +kernel)

end Sample

end Attestation.System
