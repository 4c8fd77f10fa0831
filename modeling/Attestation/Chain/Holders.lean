import Attestation.Chain.Registry

/-! Who can act on a binding: no transaction but those of its holder moves it or tears it
down, and what it says never changes. The holder may hand it to anybody, and no event says
so. -/

namespace Attestation.Chain

open Result Move Custody

variable {P : Platform}

/-- A command is recorded as acts of the sender. -/
theorem history_command {w w' : Working} {c : Command} (hc : command P w c = .ok w') :
    w'.sender = w.sender ∧
      ∃ more, w'.history = w.history ++ more ∧ ∀ act ∈ more, act.agent = w.sender := by
  have heffect := command_effect hc
  cases heffect with
  | witness | verify => exact ⟨rfl, [], by simp [Working.addWitness, Working.addReceipt]⟩
  | new | transferTo | destroy => exact ⟨rfl, [_], rfl, by simp [Act.agent]⟩
  | verifyAction =>
    refine ⟨rfl, _, rfl, fun act hact => ?_⟩
    split_ifs at hact
    · obtain rfl := List.mem_singleton.mp hact
      rfl
    · cases hact

variable (P) in
/-- The acts a step adds to the history are those of the transaction's sender. -/
theorem history_step (l : Ledger) (t : Transaction) :
    ∃ more, ((transactions P).step l t).history = l.history ++ more ∧
      ∀ act ∈ more, act.agent = t.sender := by
  rcases (transactions P).step_cases (s := l) (t := t) with heq | hexecute
  · exact ⟨[], by simp [heq], by simp⟩
  · obtain ⟨w, ⟨-, more, hmore, hagent⟩, hcommit⟩ := Transactions.execute_invariant
      (fun w => w.sender = t.sender ∧
        ∃ more, w.history = l.history ++ more ∧ ∀ act ∈ more, act.agent = t.sender)
      (fun w c w' hw hc => by
        obtain ⟨hsender, more, hmore, hagent⟩ := hw
        obtain ⟨hsender', more', hmore', hagent'⟩ := history_command hc
        refine ⟨hsender'.trans hsender, more ++ more', by rw [hmore', hmore, List.append_assoc],
          fun act hact => ?_⟩
        rcases List.mem_append.mp hact with hact | hact
        · exact hagent act hact
        · exact (hagent' act hact).trans hsender)
      ⟨rfl, [], by simp [transactions], by simp⟩ hexecute
    exact ⟨more, by rw [← (commit_eq_ok.mp hcommit).2, hmore], hagent⟩

variable (P) in
theorem history_run (l : Ledger) (ts : List Transaction) :
    ∃ more, (run (transactions P).step l ts).history = l.history ++ more ∧
      ∀ act ∈ more, ∃ t ∈ ts, act.agent = t.sender := by
  induction ts generalizing l with
  | nil => exact ⟨[], by simp, by simp⟩
  | cons t ts ih =>
    obtain ⟨first, hfirst, hagent⟩ := history_step P l t
    obtain ⟨more, hmore, hagents⟩ := ih ((transactions P).step l t)
    refine ⟨first ++ more, by rw [run_cons, hmore, hfirst, List.append_assoc], fun act hact => ?_⟩
    rcases List.mem_append.mp hact with hact | hact
    · exact ⟨t, by simp, hagent act hact⟩
    · obtain ⟨t', ht', heq⟩ := hagents act hact
      exact ⟨t', List.mem_cons_of_mem t ht', heq⟩

/-- Whatever the others do, a binding stays with its holder, and whatever anybody does, it
keeps its identifier, its key, its types and the time it was issued at. -/
theorem holder_alone_acts (P : Platform) (ts us : List Transaction) (held : Held)
    (hheld : held ∈ (after P ts).held) :
    ((∀ t ∈ us, t.sender ≠ held.holder) → held ∈ (after P (ts ++ us)).held) ∧
      ∀ held' ∈ (after P (ts ++ us)).held, held'.stored.id = held.stored.id →
        held'.stored = held.stored := by
  have hbefore := (sound_after ts).replay_eq hheld
  have hsound := sound_after (P := P) (ts ++ us)
  obtain ⟨more, hmore, hagents⟩ := history_run P (after P ts) us
  rw [← after_append] at hmore
  have hvalid := hmore ▸ hsound.valid
  constructor
  · intro hothers
    refine ((hsound.live held.stored.id held.stored held.holder).mp ?_).1
    rw [hmore]
    refine hvalid.replay_append hbefore fun act hact _ heq => ?_
    obtain ⟨t, ht, hagent⟩ := hagents act hact
    exact hothers t ht (hagent.symm.trans heq)
  · intro held' hheld' hid
    have hafter := hsound.replay_eq hheld'
    rw [hmore, hid] at hafter
    exact hvalid.object_eq hbefore hafter

theorem holder_alone_acts_sample :
    sampleHeld ∈ (after samplePlatform ([sampleEnrollment] ++
      [⟨sampleAddress 2, 2000, [.transferTo sampleId (sampleAddress 2)]⟩])).held :=
  (holder_alone_acts samplePlatform [sampleEnrollment] _ sampleHeld sampleHeld_mem).1 (by decide)

/-! ### Handing over -/

/-- The transactions that hand a binding along: each holder transfers it to the next. -/
def handOver (id : ObjectId) : Address → List (Address × UInt64) → List Transaction
  | _, [] => []
  | holder, (recipient, now) :: path =>
    ⟨holder, now, [.transferTo id recipient]⟩ :: handOver id recipient path

/-- Who has the binding in the end. -/
def lastHolder (holder : Address) (path : List (Address × UInt64)) : Address :=
  path.foldl (fun _ p => p.1) holder

/-- The holder of one binding becomes another. -/
def Held.moveTo (id : ObjectId) (recipient : Address) (held : Held) : Held :=
  if held.stored.id = id then { held with holder := recipient } else held

variable (P) in
theorem step_transferTo {l : Ledger} {held : Held} (h : Sound l) (hheld : held ∈ l.held)
    (recipient : Address) (now : UInt64) :
    (transactions P).step l ⟨held.holder, now, [.transferTo held.stored.id recipient]⟩ =
      { l with
        held := l.held.map (Held.moveTo held.stored.id recipient)
        history := l.history ++ [.give held.stored.id held.holder recipient] } := by
  apply Transactions.step_of_execute
  let w : Working := { toLedger := l, sender := held.holder, now }
  have husable : w.Usable held.stored.id held := ⟨rfl, rfl, List.not_mem_nil⟩
  have hcommand : command P w (.transferTo held.stored.id recipient) =
      .ok (w.place held.stored.id recipient) := by
    rw [command, Working.binding_eq_ok h hheld husable]
    rfl
  rw [Transactions.execute]
  exact bind_of_eq_ok (by
    change [Command.transferTo held.stored.id recipient].foldlM (command P) w = _
    rw [List.foldlM_cons, hcommand]
    rfl)

theorem Held.moveTo_moveTo {id : ObjectId} {a b : Address} (held : Held) :
    (held.moveTo id a).moveTo id b = held.moveTo id b := by
  unfold Held.moveTo
  split_ifs <;> rfl

theorem Held.moveTo_self {l : Ledger} {held held' : Held} (h : Sound l) (hheld : held ∈ l.held)
    (hheld' : held' ∈ l.held) : held'.moveTo held.stored.id held.holder = held' := by
  unfold Held.moveTo
  split_ifs with hid
  · rw [h.eq_of_id hheld' hheld hid]
  · rfl

theorem run_handOver {l : Ledger} {held : Held} (h : Sound l) (hheld : held ∈ l.held)
    (path : List (Address × UInt64)) :
    let l' := run (transactions P).step l (handOver held.stored.id held.holder path)
    l'.held = l.held.map (Held.moveTo held.stored.id (lastHolder held.holder path)) ∧
      l'.events = l.events := by
  induction path generalizing l held with
  | nil =>
    refine ⟨?_, rfl⟩
    have hmap := List.map_congr_left fun held' hheld' => Held.moveTo_self h hheld hheld'
    exact (hmap.trans (List.map_id l.held)).symm
  | cons p path ih =>
    obtain ⟨recipient, now⟩ := p
    have hstep := step_transferTo P h hheld recipient now
    have hsound := sound_run (P := P) h [⟨held.holder, now, [.transferTo held.stored.id recipient]⟩]
    rw [run_cons, run_nil, hstep] at hsound
    have hmem : (⟨held.stored, recipient⟩ : Held) ∈
        l.held.map (Held.moveTo held.stored.id recipient) :=
      List.mem_map.mpr ⟨held, hheld, if_pos rfl⟩
    obtain ⟨hheld', hevents⟩ := ih hsound hmem
    simp only [handOver, run_cons, hstep]
    refine ⟨hheld'.trans ?_, hevents⟩
    simp only [List.map_map, lastHolder, List.foldl_cons]
    exact List.map_congr_left fun held' _ => Held.moveTo_moveTo held'

/-- A binding can be handed along any path of addresses. It arrives as it was, no other
binding changes hands, and the events stay the same. -/
theorem hand_over (P : Platform) (ts : List Transaction) (held : Held)
    (hheld : held ∈ (after P ts).held) (path : List (Address × UInt64)) :
    (after P (ts ++ handOver held.stored.id held.holder path)).held =
        (after P ts).held.map (Held.moveTo held.stored.id (lastHolder held.holder path)) ∧
      (after P (ts ++ handOver held.stored.id held.holder path)).events = (after P ts).events := by
  rw [after_append]
  exact run_handOver (sound_after ts) hheld path

theorem hand_over_sample :
    (after samplePlatform ([sampleEnrollment] ++
      handOver sampleId (sampleAddress 1) [(sampleAddress 2, 2000), (sampleAddress 3, 0)])).held =
        [⟨sampleHeld.stored, sampleAddress 3⟩] :=
  (hand_over samplePlatform [sampleEnrollment] sampleHeld sampleHeld_mem
    [(sampleAddress 2, 2000), (sampleAddress 3, 0)]).1

end Attestation.Chain
