import Attestation.Chain.Registry
import Mathlib.Data.List.Perm.Basic

/-! What a binding costs: a witness of its source for its key. No witness pays twice, so
there are never more bindings of a key than there were witnesses for it. -/

namespace Attestation.Chain

open Result Move Custody

variable {P : Platform}

/-- The bindings minted in a history, in order. -/
def boundIn (history : List BindingAct) : List Stored :=
  history.filterMap fun
    | .create _ stored _ => some stored
    | _ => none

theorem boundIn_append {history more : List BindingAct} :
    boundIn (history ++ more) = boundIn history ++ boundIn more := List.filterMap_append

/-- What a witness vouches for. -/
def SomeWitness.key (w : SomeWitness) : SourceName × Bytes := (w.source, w.witness.attestedValue)

/-- What a binding claims. -/
def Stored.key (stored : Stored) : SourceName × Bytes := (stored.source, stored.binding.pk)

/-- Every witness is unspent or was spent once, on a binding with its source and key. -/
structure Paid (l : Ledger) : Prop where
  perm : l.minted.Perm (l.witnesses ++ l.spent)
  keys : l.spent.map SomeWitness.key = (boundIn l.history).map Stored.key

theorem paid_addWitness {w : Working} {witness : SomeWitness} (h : Paid w.toLedger) :
    Paid (w.addWitness witness).toLedger where
  perm := by
    refine (h.perm.append_right [witness]).trans ?_
    rw [Working.addWitness, List.append_assoc, List.append_assoc]
    exact List.perm_append_comm.append_left w.witnesses
  keys := h.keys

theorem paid_mint {w : Working} {i : ℕ} {scheme : SchemeName} {id : ObjectId}
    {witness : SomeWitness} (h : Paid w.toLedger) (hi : w.witnesses[i]? = some witness) :
    Paid (w.mint P i witness
      ⟨witness.source, scheme, ⟨id, witness.witness.attestedValue, w.now⟩⟩).toLedger where
  perm := by
    obtain ⟨hlt, rfl⟩ := List.getElem?_eq_some_iff.mp hi
    calc w.minted.Perm (w.witnesses ++ w.spent) := h.perm
      _ |>.Perm (w.witnesses[i] :: w.witnesses.eraseIdx i ++ w.spent) :=
        (List.getElem_cons_eraseIdx_perm hlt).symm.append_right _
      _ |>.Perm (w.witnesses.eraseIdx i ++ (w.spent ++ [w.witnesses[i]])) := by
        rw [← List.append_assoc, List.cons_append]
        exact (List.perm_append_singleton _ _).symm
  keys := by simp [Working.mint, h.keys, boundIn, SomeWitness.key, Stored.key]

theorem paid_command {w w' : Working} {c : Command} (h : Paid w.toLedger)
    (hc : command P w c = .ok w') : Paid w'.toLedger := by
  have heffect := command_effect hc
  cases heffect with
  | witness => exact paid_addWitness h
  | verify => exact ⟨h.perm, h.keys⟩
  | new hi _ hpk =>
    subst hpk
    exact paid_mint h hi
  | transferTo | destroy => exact ⟨h.perm, by
      simpa [Working.place, Working.remove, boundIn_append, boundIn] using h.keys⟩
  | verifyAction =>
    refine ⟨h.perm, ?_⟩
    cases DeviceBinding.verifyAction _ _ _ _ _ _ <;>
      simpa [Working.useReceipt, boundIn_append, boundIn] using h.keys

theorem paid_after (ts : List Transaction) : Paid (after P ts) :=
  ledger_invariant Paid (fun _ _ _ h hc => paid_command h hc) ⟨.refl _, rfl⟩ ts

/-- The witnesses a list of commands asks for. -/
def asked (commands : List Command) : List SomeWitness :=
  commands.filterMap fun
    | .witness w => some w
    | _ => none

theorem minted_command {w w' : Working} {c : Command} (hc : command P w c = .ok w') :
    w'.minted = w.minted ++ asked [c] := by
  have heffect := command_effect hc
  cases heffect <;> simp [asked, Working.addWitness, Working.mint, Working.place,
    Working.addReceipt, Working.useReceipt, Working.remove]

theorem minted_foldlM {commands : List Command} {w w' : Working}
    (h : commands.foldlM (command P) w = .ok w') : w'.minted = w.minted ++ asked commands := by
  induction commands generalizing w with
  | nil =>
    obtain rfl := pure_eq_ok.mp h
    simp [asked]
  | cons c commands ih =>
    rw [List.foldlM_cons, bind_eq_ok] at h
    obtain ⟨next, hnext, h⟩ := h
    rw [ih h, minted_command hnext, List.append_assoc, asked, asked, asked, ← List.filterMap_append,
      List.singleton_append]

/-- A step brings the witnesses its transaction asks for, or none. -/
theorem minted_step (l : Ledger) (t : Transaction) :
    ((transactions P).step l t).minted = l.minted ∨
      ((transactions P).step l t).minted = l.minted ++ asked t.commands := by
  rcases (transactions P).step_cases (s := l) (t := t) with heq | hexecute
  · exact .inl (congrArg Ledger.minted heq)
  · obtain ⟨w, hw, hcommit⟩ := bind_eq_ok.mp hexecute
    refine .inr ?_
    rw [← (commit_eq_ok.mp hcommit).2]
    exact minted_foldlM hw

theorem mem_boundIn {history : List BindingAct} {id : ObjectId} {stored : Stored} {a : Address}
    (h : .create id stored a ∈ history) : stored ∈ boundIn history :=
  List.mem_filterMap.mpr ⟨_, h, rfl⟩

/-- A binding from a witness the transaction has asked for, placed with a recipient; `k` is
where the witness is found. -/
def enrollment (k : ℕ) (w : SomeWitness) (scheme : SchemeName) (place : ObjectId × Address) :
    List Command :=
  [.witness w, .new k scheme w.witness.attestedValue place.1, .transferTo place.1 place.2]

/-- What a transaction that has enrolled bindings so far has done. -/
structure Enrolled (w : SomeWitness) (scheme : SchemeName) (before after : Working)
    (places : List (ObjectId × Address)) : Prop where
  sound : Sound after.toLedger
  loose : after.loose = []
  sender : after.sender = before.sender
  now : after.now = before.now
  witnesses : after.witnesses = before.witnesses
  placed : after.placed = before.placed ++ places.map Prod.fst
  created : createdIn after.history = createdIn before.history ++ places.map Prod.fst
  kept : before.held ⊆ after.held
  enrolled : ∀ place ∈ places,
    ⟨⟨w.source, scheme, ⟨place.1, w.witness.attestedValue, before.now⟩⟩, place.2⟩ ∈ after.held

variable (P) in
theorem enroll_one {u : Working} (w : SomeWitness) (scheme : SchemeName)
    {place : ObjectId × Address} (h : Sound u.toLedger) (hloose : u.loose = [])
    (hnew : place.1 ∉ createdIn u.history) (hplaced : place.1 ∉ u.placed) :
    ∃ u', (enrollment u.witnesses.length w scheme place).foldlM (command P) u = .ok u' ∧
      Enrolled w scheme u u' [place] := by
  obtain ⟨id, recipient⟩ := place
  let stored : Stored := ⟨w.source, scheme, ⟨id, w.witness.attestedValue, u.now⟩⟩
  let u₁ := u.addWitness w
  let u₂ := u₁.mint P u.witnesses.length w stored
  have hnew₁ : id ∉ createdIn u₁.history := hnew
  have hplaced₂ : id ∉ u₂.placed := hplaced
  have hfound : u₁.witnesses[u.witnesses.length]? = some w := by
    simp [u₁, Working.addWitness]
  have hmint : command P u₁ (.new u.witnesses.length scheme w.witness.attestedValue id) =
      .ok u₂ := by
    rw [command, bind_of_eq_ok (expect_eq_ok.mpr hfound),
      bind_of_eq_ok (a := ()) (require_eq_ok.mpr hnew₁),
      bind_of_eq_ok (DeviceBinding.new_eq_ok.mpr ⟨rfl, rfl⟩)]
    rfl
  have hsound₁ : Sound u₁.toLedger := ⟨h.valid, h.live⟩
  have hsound₂ : Sound u₂.toLedger := sound_command hsound₁ hmint
  have hheld : (⟨stored, u.sender⟩ : Held) ∈ u₂.held := List.mem_append_right _ (by simp [u₁,
    Working.addWitness])
  have hbinding : u₂.binding id = .ok ⟨stored, u.sender⟩ :=
    Working.binding_eq_ok hsound₂ hheld ⟨rfl, rfl, hplaced₂⟩
  have hplace : command P u₂ (.transferTo id recipient) = .ok (u₂.place id recipient) := by
    rw [command, bind_of_eq_ok hbinding]
    rfl
  refine ⟨u₂.place id recipient, ?_, ?_⟩
  · simp only [enrollment, List.foldlM_cons, List.foldlM_nil]
    change (command P u₁ _ >>= _) = _
    rw [hmint]
    change (command P u₂ _ >>= _) = _
    rw [hplace]
    rfl
  · have hmoved : ∀ held ∈ u₂.held, (if held.stored.id = id then
        { held with holder := recipient } else held) ∈ (u₂.place id recipient).held :=
      fun held hmem => List.mem_map_of_mem hmem
    exact {
      sound := sound_command hsound₂ hplace
      loose := by simp [u₂, u₁, Working.place, Working.mint, Working.addWitness, hloose, stored,
        Stored.id]
      sender := rfl
      now := rfl
      witnesses := by
        have herase := List.eraseIdx_append_of_length_le (Nat.le_refl u.witnesses.length) [w]
        rw [Nat.sub_self, List.eraseIdx_cons_zero, List.append_nil] at herase
        exact herase
      placed := rfl
      created := by
        have hhistory : (u₂.place id recipient).history =
            u.history ++ [.create id stored u.sender, .give id u.sender recipient] :=
          List.append_assoc _ _ _
        simp [hhistory]
      kept := fun held hmem => by
        have hmem' := hmoved held (List.mem_append_left _ hmem)
        rwa [if_neg (h.id_ne hnew hmem)] at hmem'
      enrolled := by
        rintro _ hmem
        obtain rfl := List.mem_singleton.mp hmem
        exact List.mem_map.mpr ⟨_, hheld, if_pos rfl⟩ }

variable (P) in
theorem enroll_all {u : Working} (w : SomeWitness) (scheme : SchemeName)
    {places : List (ObjectId × Address)} (h : Sound u.toLedger) (hloose : u.loose = [])
    (hnodup : (places.map Prod.fst).Nodup)
    (hnew : ∀ place ∈ places, place.1 ∉ createdIn u.history ∧ place.1 ∉ u.placed) :
    ∃ u', (places.flatMap (enrollment u.witnesses.length w scheme)).foldlM (command P) u = .ok u' ∧
      Enrolled w scheme u u' places := by
  induction places generalizing u with
  | nil => exact ⟨u, rfl, h, hloose, rfl, rfl, rfl, by simp, by simp, fun _ hmem => hmem, by simp⟩
  | cons place places ih =>
    rw [List.map_cons, List.nodup_cons] at hnodup
    obtain ⟨hfresh, hplaced⟩ := hnew place (by simp)
    obtain ⟨u₁, hu₁, hone⟩ := enroll_one P w scheme h hloose hfresh hplaced
    have hnew₁ : ∀ place' ∈ places, place'.1 ∉ createdIn u₁.history ∧ place'.1 ∉ u₁.placed := by
      intro place' hmem
      obtain ⟨hcreated', hplaced'⟩ := hnew place' (List.mem_cons_of_mem _ hmem)
      have hne : place'.1 ≠ place.1 := fun heq => hnodup.1 (heq ▸ List.mem_map_of_mem hmem)
      rw [hone.created, hone.placed]
      simp [hcreated', hplaced', hne]
    obtain ⟨u₂, hu₂, hall⟩ := ih hone.sound hone.loose hnodup.2 hnew₁
    refine ⟨u₂, ?_, ?_⟩
    · rw [List.flatMap_cons, List.foldlM_append, hu₁, ← hone.witnesses]
      exact hu₂
    · exact {
        sound := hall.sound
        loose := hall.loose
        sender := hall.sender.trans hone.sender
        now := hall.now.trans hone.now
        witnesses := hall.witnesses.trans hone.witnesses
        placed := by simp [hall.placed, hone.placed]
        created := by simp [hall.created, hone.created]
        kept := List.Subset.trans hone.kept hall.kept
        enrolled := by
          rw [List.forall_mem_cons]
          refine ⟨hall.kept (hone.enrolled place (by simp)), fun place' hmem => ?_⟩
          rw [← hone.now]
          exact hall.enrolled place' hmem }

/-- The transaction that asks for a witness as often as there are places and enrolls a
binding from each. -/
def enrollAll (l : Ledger) (w : SomeWitness) (scheme : SchemeName) (sender : Address) (now : UInt64)
    (places : List (ObjectId × Address)) : Transaction :=
  ⟨sender, now, places.flatMap (enrollment l.witnesses.length w scheme)⟩

theorem asked_enrollAll {l : Ledger} {w : SomeWitness} {scheme : SchemeName} {sender : Address}
    {now : UInt64} {places : List (ObjectId × Address)} :
    asked (enrollAll l w scheme sender now places).commands = List.replicate places.length w := by
  induction places with
  | nil => rfl
  | cons place places ih => exact congrArg (w :: ·) ih

theorem mem_held_enrollAll {l : Ledger} {w : SomeWitness} {scheme : SchemeName} {sender : Address}
    {now : UInt64} {places : List (ObjectId × Address)} (h : Sound l)
    (hnodup : (places.map Prod.fst).Nodup)
    (hnew : ∀ place ∈ places, place.1 ∉ createdIn l.history) : ∀ place ∈ places,
      ⟨⟨w.source, scheme, ⟨place.1, w.witness.attestedValue, now⟩⟩, place.2⟩ ∈
        ((transactions P).step l (enrollAll l w scheme sender now places)).held := by
  obtain ⟨u, hu, hall⟩ := enroll_all P (u := { toLedger := l, sender, now }) w scheme h rfl hnodup
    fun place hmem => ⟨hnew place hmem, List.not_mem_nil⟩
  have hexecute : (transactions P).execute l (enrollAll l w scheme sender now places) =
      .ok u.toLedger := bind_eq_ok.mpr ⟨u, hu, commit_eq_ok.mpr ⟨hall.loose, rfl⟩⟩
  rw [Transactions.step_of_execute hexecute]
  exact hall.enrolled

end Attestation.Chain
