import Attestation.Chain.State

/-! The chain's bindings are a registry of objects in custody: every act on a binding was
allowed after those before it, and the live bindings are what the acts leave. The events
say the same to an observer who sees nothing else. -/

namespace Attestation.Chain

open Result Move Custody

variable {P : Platform}

/-- The acts on bindings were allowed and leave the live bindings with their holders. -/
structure Sound (l : Ledger) : Prop where
  valid : Valid l.history
  live : ∀ id stored a,
    replay l.history id = some (stored, a) ↔ ⟨stored, a⟩ ∈ l.held ∧ stored.id = id

theorem Sound.replay_eq {l : Ledger} (h : Sound l) {held : Held} (hheld : held ∈ l.held) :
    replay l.history held.stored.id = some (held.stored, held.holder) :=
  (h.live _ _ _).mpr ⟨hheld, rfl⟩

theorem Sound.eq_of_id {l : Ledger} (h : Sound l) {held held' : Held} (hheld : held ∈ l.held)
    (hheld' : held' ∈ l.held) (hid : held.stored.id = held'.stored.id) : held = held' := by
  have heq := (h.replay_eq hheld).symm.trans (hid ▸ h.replay_eq hheld')
  obtain ⟨stored, a⟩ := held
  obtain ⟨hs, ha⟩ := Prod.mk.inj (Option.some.inj heq)
  subst hs ha
  rfl

theorem Sound.id_ne {l : Ledger} (h : Sound l) {id : ObjectId} (hid : id ∉ createdIn l.history)
    {held : Held} (hheld : held ∈ l.held) : held.stored.id ≠ id := by
  rintro rfl
  exact hid (h.valid.isSome_replay.mp (by rw [h.replay_eq hheld]; rfl)).1

theorem Working.binding_eq_ok {w : Working} {id : ObjectId} {held : Held} (h : Sound w.toLedger)
    (hheld : held ∈ w.held) (husable : w.Usable id held) : w.binding id = .ok held := by
  obtain ⟨found, hfound⟩ : ∃ found, w.held.find? (fun held => w.Usable id held) = some found := by
    rw [← Option.isSome_iff_exists, List.find?_isSome]
    exact ⟨held, hheld, by simpa using husable⟩
  have hok : w.binding id = .ok found := expect_eq_ok.mpr hfound
  obtain ⟨hmem, husable'⟩ := Working.mem_of_binding hok
  rw [hok, h.eq_of_id hmem hheld (husable'.1.trans husable.1.symm)]

theorem sound_empty : Sound {} where
  valid := .nil
  live := by simp

/-- What an act leaves at every other identifier is what the ledger had there. -/
theorem live_of_ne {l : Ledger} {act : BindingAct} {id : ObjectId} {stored : Stored} {a : Address}
    (h : Sound l) (hne : id ≠ act.id) :
    replay (l.history ++ [act]) id = some (stored, a) ↔ ⟨stored, a⟩ ∈ l.held ∧ stored.id = id := by
  rw [replay_snoc, apply_of_ne hne, h.live]

theorem sound_mint {w : Working} {i : ℕ} {witness : SomeWitness} {stored : Stored}
    (h : Sound w.toLedger) (hid : stored.id ∉ createdIn w.history) :
    Sound (w.mint P i witness stored).toLedger := by
  refine ⟨.snoc h.valid hid, fun id stored' a => ?_⟩
  rcases eq_or_ne id stored.id with rfl | hne
  · simp only [Working.mint, replay_snoc, apply, Function.update_self, Option.some.injEq,
      Prod.mk.injEq, List.mem_append, List.mem_singleton, Held.mk.injEq]
    constructor
    · rintro ⟨rfl, rfl⟩
      exact ⟨.inr ⟨rfl, rfl⟩, rfl⟩
    · rintro ⟨hmem | ⟨rfl, rfl⟩, hid'⟩
      · exact absurd hid' (h.id_ne hid hmem)
      · exact ⟨rfl, rfl⟩
  · refine (live_of_ne h (by exact hne)).trans ?_
    simp only [Working.mint, List.mem_append, List.mem_singleton, Held.mk.injEq]
    constructor
    · rintro ⟨hmem, hid'⟩
      exact ⟨.inl hmem, hid'⟩
    · rintro ⟨hmem | ⟨rfl, rfl⟩, hid'⟩
      · exact ⟨hmem, hid'⟩
      · exact absurd hid'.symm hne

theorem sound_place {w : Working} {id : ObjectId} {held : Held} {recipient : Address}
    (h : Sound w.toLedger) (hheld : held ∈ w.held) (husable : w.Usable id held) :
    Sound (w.place id recipient).toLedger := by
  obtain ⟨rfl, hholder, -⟩ := husable
  have hlive := h.replay_eq hheld
  refine ⟨.snoc h.valid ⟨held.stored, hholder ▸ hlive⟩, fun id' stored a => ?_⟩
  have hmem : ⟨stored, a⟩ ∈ (w.place held.stored.id recipient).held ↔
      ∃ held' ∈ w.held, (if held'.stored.id = held.stored.id then
        { held' with holder := recipient } else held') = ⟨stored, a⟩ := List.mem_map
  rw [hmem]
  rcases eq_or_ne id' held.stored.id with rfl | hne
  · simp only [Working.place, replay_snoc, apply, Function.update_self, hlive, Option.map_some,
      Option.some.injEq, Prod.mk.injEq]
    constructor
    · rintro ⟨rfl, rfl⟩
      exact ⟨⟨held, hheld, by rw [if_pos rfl]⟩, rfl⟩
    · rintro ⟨⟨held', hheld', heq⟩, hid'⟩
      split_ifs at heq with hif
      · obtain rfl := h.eq_of_id hheld' hheld hif
        cases heq
        exact ⟨rfl, rfl⟩
      · subst heq
        exact absurd hid' hif
  · refine (live_of_ne h (by exact hne)).trans ?_
    constructor
    · rintro ⟨hmem', rfl⟩
      exact ⟨⟨_, hmem', by rw [if_neg hne]⟩, rfl⟩
    · rintro ⟨⟨held', hheld', heq⟩, rfl⟩
      split_ifs at heq with hif
      · cases heq
        exact absurd hif hne
      · subst heq
        exact ⟨hheld', rfl⟩

theorem sound_useReceipt {w : Working} {i : ℕ} {id : ObjectId} {held : Held} {call : ActionCall}
    {authorized : Bool} (h : Sound w.toLedger) (hheld : held ∈ w.held)
    (husable : w.Usable id held) : Sound (w.useReceipt i id call authorized).toLedger := by
  obtain ⟨rfl, hholder, -⟩ := husable
  cases authorized with
  | false => exact ⟨by simpa [Working.useReceipt] using h.valid,
      by simpa [Working.useReceipt] using h.live⟩
  | true =>
    refine ⟨.snoc h.valid ⟨held.stored, hholder ▸ h.replay_eq hheld⟩, ?_⟩
    simpa [Working.useReceipt, apply] using h.live

theorem sound_remove {w : Working} {id : ObjectId} {held : Held}
    {e : DeviceBindingDestroyedEvent} (h : Sound w.toLedger) (hheld : held ∈ w.held)
    (husable : w.Usable id held) : Sound (w.remove id e).toLedger := by
  obtain ⟨rfl, hholder, -⟩ := husable
  refine ⟨.snoc h.valid ⟨held.stored, hholder ▸ h.replay_eq hheld⟩, fun id' stored a => ?_⟩
  rcases eq_or_ne id' held.stored.id with rfl | hne
  · simp only [Working.remove, replay_snoc, apply, Function.update_self, List.mem_filter,
      decide_eq_true_eq, reduceCtorEq, false_iff]
    rintro ⟨⟨_, hid⟩, hid'⟩
    exact hid hid'
  · refine (live_of_ne h (by exact hne)).trans ?_
    simp only [Working.remove, List.mem_filter, decide_eq_true_eq]
    constructor
    · rintro ⟨hmem, rfl⟩
      exact ⟨⟨hmem, hne⟩, rfl⟩
    · rintro ⟨⟨hmem, -⟩, hid⟩
      exact ⟨hmem, hid⟩

theorem sound_command {w w' : Working} {c : Command} (h : Sound w.toLedger)
    (hc : command P w c = .ok w') : Sound w'.toLedger := by
  have heffect := command_effect hc
  cases heffect with
  | witness | verify => exact ⟨h.valid, h.live⟩
  | new hi hid hpk => exact sound_mint h hid
  | transferTo hheld husable => exact sound_place h hheld husable
  | verifyAction hheld husable hi => exact sound_useReceipt h hheld husable
  | destroy hheld husable => exact sound_remove h hheld husable

theorem commit_eq_ok {w : Working} {l : Ledger} :
    (transactions P).commit w = .ok l ↔ w.loose = [] ∧ w.toLedger = l := by
  simp only [transactions, bind_eq_ok, require_eq_ok, exists_const, pure_eq_ok]

/-- What every command keeps of the ledger it works on is kept by a run. -/
theorem ledger_invariant (Inv : Ledger → Prop)
    (hcommand : ∀ (w : Working) c w', Inv w.toLedger → command P w c = .ok w' → Inv w'.toLedger)
    {l : Ledger} (h : Inv l) (ts : List Transaction) : Inv (run (transactions P).step l ts) :=
  Transactions.run_invariant Inv (fun w => Inv w.toLedger) (fun _ _ h => h) hcommand
    (fun _ _ hw hcommit => (commit_eq_ok.mp hcommit).2 ▸ hw) h

theorem sound_run {l : Ledger} (h : Sound l) (ts : List Transaction) :
    Sound (run (transactions P).step l ts) :=
  ledger_invariant Sound (fun _ _ _ hw hc => sound_command hw hc) h ts

theorem sound_after (ts : List Transaction) : Sound (after P ts) := sound_run sound_empty ts

/-! ### What the events tell -/

/-- What an observer of the events knows: the bindings that are live, as their events name
them, and the identifiers of those that are gone. -/
structure Index where
  live : List DeviceBoundEvent := []
  gone : List ObjectId := []

def Index.ids (x : Index) : List ObjectId := x.live.map DeviceBoundEvent.bindingId

/-- The observer has no place for a binding under an identifier it has seen before, nor for
the end of a binding that is not live. -/
def Index.observe (x : Index) : DeviceEvent → Option Index
  | .bound e =>
    if e.bindingId ∈ x.ids ++ x.gone then none else some { x with live := x.live ++ [e] }
  | .destroyed e =>
    if e.bindingId ∈ x.ids then
      some ⟨x.live.filter (·.bindingId ≠ e.bindingId), x.gone ++ [e.bindingId]⟩
    else none

def Index.observeAll (events : List DeviceEvent) : Option Index := events.foldlM Index.observe {}

variable (P) in
/-- The event that a live binding was announced with. -/
def Held.boundEvent (held : Held) : DeviceBoundEvent :=
  ⟨held.stored.id, P.sourceTypeName held.stored.source, P.schemeTypeName held.stored.scheme⟩

variable (P) in
/-- The index that the events should lead to. -/
def Ledger.index (l : Ledger) : Index := ⟨l.held.map (Held.boundEvent P), destroyedIn l.history⟩

theorem observeAll_snoc {events : List DeviceEvent} {e : DeviceEvent} :
    Index.observeAll (events ++ [e]) = (Index.observeAll events).bind (·.observe e) := by
  simp [Index.observeAll, List.foldlM_append]

theorem mem_ids_index {l : Ledger} (h : Sound l) {id : ObjectId} :
    id ∈ (l.index P).ids ↔ (replay l.history id).isSome := by
  simp only [Index.ids, Ledger.index, List.map_map, List.mem_map, Option.isSome_iff_exists,
    Prod.exists, h.live]
  constructor
  · rintro ⟨⟨stored, a⟩, hmem, rfl⟩
    exact ⟨stored, a, hmem, rfl⟩
  · rintro ⟨stored, a, hmem, rfl⟩
    exact ⟨_, hmem, rfl⟩

/-- The events so far lead an observer to the live bindings. -/
def Announced (P : Platform) (l : Ledger) : Prop := Index.observeAll l.events = some (l.index P)

theorem announced_mint {w : Working} {i : ℕ} {witness : SomeWitness} {stored : Stored}
    (h : Sound w.toLedger) (ha : Announced P w.toLedger) (hid : stored.id ∉ createdIn w.history) :
    Announced P (w.mint P i witness stored).toLedger := by
  have hunseen : stored.id ∉ (w.toLedger.index P).ids ++ (w.toLedger.index P).gone := by
    rw [List.mem_append, mem_ids_index h]
    rcases h.valid.status stored.id with hs | hs | hs
    · exact absurd hs.2.1 hid
    · exact absurd hs.2.1 hid
    · simp [hs, Ledger.index]
  rw [Announced, Working.mint, observeAll_snoc, ha, Option.bind_some, Index.observe,
    if_neg hunseen]
  simp [Ledger.index, Held.boundEvent]

theorem announced_place {w : Working} {id : ObjectId} {recipient : Address}
    (ha : Announced P w.toLedger) : Announced P (w.place id recipient).toLedger := by
  have hevents : (w.toLedger.index P).live =
      (w.place id recipient).held.map (Held.boundEvent P) := by
    simp only [Ledger.index, Working.place, List.map_map]
    refine List.map_congr_left fun held _ => ?_
    by_cases hid : held.stored.id = id
    · rw [Function.comp_apply, if_pos hid]
      rfl
    · rw [Function.comp_apply, if_neg hid]
  rw [Announced] at ha ⊢
  rw [Ledger.index, ← hevents, Working.place, ha]
  simp [Ledger.index]

theorem announced_useReceipt {w : Working} {i : ℕ} {id : ObjectId} {call : ActionCall}
    {authorized : Bool} (ha : Announced P w.toLedger) :
    Announced P (w.useReceipt i id call authorized).toLedger := by
  cases authorized <;> simpa [Announced, Working.useReceipt, Ledger.index] using ha

theorem announced_remove {w : Working} {id : ObjectId} {held : Held} (h : Sound w.toLedger)
    (ha : Announced P w.toLedger) (hheld : held ∈ w.held) (husable : w.Usable id held) :
    Announced P (w.remove id ⟨id⟩).toLedger := by
  obtain ⟨rfl, -, -⟩ := husable
  have hlive : held.stored.id ∈ (w.toLedger.index P).ids :=
    (mem_ids_index h).mpr (by rw [h.replay_eq hheld]; rfl)
  rw [Announced, Working.remove, observeAll_snoc, ha, Option.bind_some, Index.observe, if_pos hlive]
  simp only [Ledger.index, List.filter_map, destroyedIn_append, destroyedIn_cons,
    destroyedIn_nil, Act.destroyed_destroy, Option.toList_some, List.append_nil]
  rfl

theorem announced_command {w w' : Working} {c : Command} (h : Sound w.toLedger)
    (ha : Announced P w.toLedger) (hc : command P w c = .ok w') : Announced P w'.toLedger := by
  have heffect := command_effect hc
  cases heffect with
  | witness | verify => exact ha
  | new hi hid hpk => exact announced_mint h ha hid
  | transferTo hheld husable => exact announced_place ha
  | verifyAction hheld husable hi => exact announced_useReceipt ha
  | destroy hheld husable => exact announced_remove h ha hheld husable

theorem announced_after (ts : List Transaction) : Announced P (after P ts) :=
  (ledger_invariant (fun l => Sound l ∧ Announced P l)
    (fun _ _ _ h hc => ⟨sound_command h.1 hc, announced_command h.1 h.2 hc⟩)
    ⟨sound_empty, rfl⟩ ts).2

/-- After any transactions, every act on a binding was allowed when it happened, the live
bindings and their holders are what the acts leave, and an observer of the events alone has
followed all of them and knows exactly the live bindings and those that are gone. -/
theorem registry_refined (P : Platform) (ts : List Transaction) :
    Valid (after P ts).history ∧
      (∀ id stored a, replay (after P ts).history id = some (stored, a) ↔
        ⟨stored, a⟩ ∈ (after P ts).held ∧ stored.id = id) ∧
      Index.observeAll (after P ts).events = some ⟨(after P ts).held.map (Held.boundEvent P),
        destroyedIn (after P ts).history⟩ :=
  ⟨(sound_after ts).valid, (sound_after ts).live, announced_after ts⟩

end Attestation.Chain
