import Mathlib.Data.List.Induction
import Mathlib.Data.List.Nodup
import Mathlib.Logic.Function.Basic

/-! Objects in the custody of agents. An object is created once under an identifier that
was never used, given from agent to agent, used by the agent that has it and destroyed. A
log of acts is valid when each of them was allowed after those before it. -/

namespace Attestation

variable {ι α ω υ : Type*}

/-- An act, by an agent, on the object with an identifier. -/
inductive Act (ι α ω υ : Type*) where
  | create (id : ι) (object : α) (agent : ω)
  | give (id : ι) (agent recipient : ω)
  | use (id : ι) (agent : ω) (how : υ)
  | destroy (id : ι) (agent : ω)

namespace Act

def id : Act ι α ω υ → ι
  | create i _ _ => i
  | give i _ _ => i
  | use i _ _ => i
  | destroy i _ => i

def agent : Act ι α ω υ → ω
  | create _ _ a => a
  | give _ a _ => a
  | use _ a _ => a
  | destroy _ a => a

/-- The identifier an act creates. -/
def created : Act ι α ω υ → Option ι
  | create i _ _ => some i
  | _ => none

/-- The identifier an act destroys. -/
def destroyed : Act ι α ω υ → Option ι
  | destroy i _ => some i
  | _ => none

@[simp] theorem created_create {i : ι} {object : α} {a : ω} :
    (create i object a : Act ι α ω υ).created = some i := rfl

@[simp] theorem created_give {i : ι} {a b : ω} : (give i a b : Act ι α ω υ).created = none := rfl

@[simp] theorem created_use {i : ι} {a : ω} {how : υ} :
    (use i a how : Act ι α ω υ).created = none := rfl

@[simp] theorem created_destroy {i : ι} {a : ω} :
    (destroy i a : Act ι α ω υ).created = none := rfl

@[simp] theorem destroyed_create {i : ι} {object : α} {a : ω} :
    (create i object a : Act ι α ω υ).destroyed = none := rfl

@[simp] theorem destroyed_give {i : ι} {a b : ω} :
    (give i a b : Act ι α ω υ).destroyed = none := rfl

@[simp] theorem destroyed_use {i : ι} {a : ω} {how : υ} :
    (use i a how : Act ι α ω υ).destroyed = none := rfl

@[simp] theorem destroyed_destroy {i : ι} {a : ω} :
    (destroy i a : Act ι α ω υ).destroyed = some i := rfl

end Act

/-- The identifiers a log creates, in order. -/
def createdIn (log : List (Act ι α ω υ)) : List ι := log.filterMap Act.created

/-- The identifiers a log destroys, in order. -/
def destroyedIn (log : List (Act ι α ω υ)) : List ι := log.filterMap Act.destroyed

@[simp] theorem createdIn_nil : createdIn ([] : List (Act ι α ω υ)) = [] := rfl

@[simp] theorem destroyedIn_nil : destroyedIn ([] : List (Act ι α ω υ)) = [] := rfl

@[simp] theorem createdIn_append {log more : List (Act ι α ω υ)} :
    createdIn (log ++ more) = createdIn log ++ createdIn more := List.filterMap_append

@[simp] theorem destroyedIn_append {log more : List (Act ι α ω υ)} :
    destroyedIn (log ++ more) = destroyedIn log ++ destroyedIn more := List.filterMap_append

@[simp] theorem createdIn_cons {act : Act ι α ω υ} {log : List (Act ι α ω υ)} :
    createdIn (act :: log) = act.created.toList ++ createdIn log := by
  cases act <;> rfl

@[simp] theorem destroyedIn_cons {act : Act ι α ω υ} {log : List (Act ι α ω υ)} :
    destroyedIn (act :: log) = act.destroyed.toList ++ destroyedIn log := by
  cases act <;> rfl

theorem mem_createdIn {log : List (Act ι α ω υ)} {i : ι} :
    i ∈ createdIn log ↔ ∃ object a, .create i object a ∈ log := by
  simp only [createdIn, List.mem_filterMap]
  constructor
  · rintro ⟨_ | _ | _ | _, hmem, hid⟩ <;> cases hid
    exact ⟨_, _, hmem⟩
  · rintro ⟨object, a, hmem⟩
    exact ⟨_, hmem, rfl⟩

/-- The live objects, each with the agent that has it. -/
abbrev Custody (ι α ω : Type*) := ι → Option (α × ω)

namespace Custody

variable [DecidableEq ι]

def apply (c : Custody ι α ω) : Act ι α ω υ → Custody ι α ω
  | .create i object a => Function.update c i (some (object, a))
  | .give i _ recipient => Function.update c i ((c i).map fun p => (p.1, recipient))
  | .use _ _ _ => c
  | .destroy i _ => Function.update c i none

/-- The objects that a log leaves. -/
def replay (log : List (Act ι α ω υ)) : Custody ι α ω := log.foldl apply fun _ => none

/-- An act is allowed after a log: a new object has an identifier that was never used, and
every other act is of the agent that has the object. -/
def Allowed (log : List (Act ι α ω υ)) : Act ι α ω υ → Prop
  | .create i _ _ => i ∉ createdIn log
  | .give i a _ => ∃ object, replay log i = some (object, a)
  | .use i a _ => ∃ object, replay log i = some (object, a)
  | .destroy i a => ∃ object, replay log i = some (object, a)

/-- A log each of whose acts was allowed when it happened. -/
inductive Valid : List (Act ι α ω υ) → Prop where
  | nil : Valid []
  | snoc {log act} (hlog : Valid log) (hact : Allowed log act) : Valid (log ++ [act])

variable {log more past rest : List (Act ι α ω υ)} {act : Act ι α ω υ} {i : ι} {object : α}
  {a b : ω}

@[simp] theorem replay_nil : replay ([] : List (Act ι α ω υ)) i = none := rfl

@[simp] theorem replay_snoc : replay (log ++ [act]) = (replay log).apply act := by
  simp [replay]

/-- An act changes nothing about the other objects. -/
theorem apply_of_ne {c : Custody ι α ω} (h : i ≠ act.id) : c.apply act i = c i := by
  cases act <;> simp_all [apply, Act.id]

theorem valid_snoc : Valid (log ++ [act]) ↔ Valid log ∧ Allowed log act := by
  constructor
  · intro h
    generalize heq : log ++ [act] = l at h
    cases h with
    | nil => simp at heq
    | snoc hlog hact =>
      obtain ⟨rfl, hlast⟩ := List.append_inj' heq rfl
      obtain rfl := (List.cons.inj hlast).1
      exact ⟨hlog, hact⟩
  · exact fun ⟨hlog, hact⟩ => .snoc hlog hact

theorem Valid.of_append (h : Valid (log ++ more)) : Valid log := by
  induction more using List.reverseRecOn with
  | nil => simpa using h
  | append_singleton more act ih =>
    rw [← List.append_assoc] at h
    exact ih (valid_snoc.mp h).1

theorem Valid.allowed (h : Valid (past ++ act :: rest)) : Allowed past act := by
  rw [← List.singleton_append, ← List.append_assoc] at h
  exact (valid_snoc.mp h.of_append).2

/-! ### Identifiers -/

/-- An identifier names a live object, a destroyed one, or was never created. -/
theorem Valid.status (h : Valid log) (i : ι) :
    ((replay log i).isSome ∧ i ∈ createdIn log ∧ i ∉ destroyedIn log) ∨
      (replay log i = none ∧ i ∈ createdIn log ∧ i ∈ destroyedIn log) ∨
      (replay log i = none ∧ i ∉ createdIn log ∧ i ∉ destroyedIn log) := by
  induction h with
  | nil => simp
  | @snoc log act _ hact ih =>
    cases act with
    | create j object a =>
      rcases eq_or_ne i j with rfl | hne
      · simp_all [Allowed, apply]
      · simpa [apply, hne] using ih
    | give j a b =>
      obtain ⟨object, hlive⟩ := hact
      rcases eq_or_ne i j with rfl | hne
      · simpa [apply, hlive] using ih
      · simpa [apply, hne] using ih
    | use j a how => simpa [apply] using ih
    | destroy j a =>
      obtain ⟨object, hlive⟩ := hact
      rcases eq_or_ne i j with rfl | hne
      · simp_all [apply]
      · simpa [apply, hne] using ih

/-- An object is live exactly when it was created and has not been destroyed. -/
theorem Valid.isSome_replay (h : Valid log) :
    (replay log i).isSome ↔ i ∈ createdIn log ∧ i ∉ destroyedIn log := by
  rcases h.status i with h | h | h <;> simp [h]

/-! ### Objects and their holders -/

/-- An act leaves at an identifier the object it creates there or the one it found. -/
theorem apply_eq_some {c : Custody ι α ω} (h : c.apply act i = some (object, a)) :
    act = .create i object a ∨ ∃ b, c i = some (object, b) := by
  rcases eq_or_ne i act.id with rfl | hne
  · cases act with
    | create j object' b => simp_all [apply, Act.id]
    | give j b recipient =>
      simp only [apply, Act.id, Function.update_self, Option.map_eq_some_iff, Prod.mk.injEq] at h
      obtain ⟨p, hp, rfl, -⟩ := h
      exact .inr ⟨p.2, hp⟩
    | use j b how => exact .inr ⟨a, h⟩
    | destroy j b => simp [apply, Act.id] at h
  · rw [apply_of_ne hne] at h
    exact .inr ⟨a, h⟩

/-- A live object is the one that was created. -/
theorem create_mem (h : replay log i = some (object, a)) : ∃ b, .create i object b ∈ log := by
  induction log using List.reverseRecOn generalizing a with
  | nil => simp at h
  | append_singleton log act ih =>
    rw [replay_snoc] at h
    rcases apply_eq_some h with rfl | ⟨b, hb⟩
    · exact ⟨a, by simp⟩
    · obtain ⟨c, hc⟩ := ih hb
      exact ⟨c, List.mem_append_left _ hc⟩

theorem Valid.create_unique (h : Valid log) {object' : α} (hmem : .create i object a ∈ log)
    (hmem' : .create i object' b ∈ log) : object = object' := by
  induction h with
  | nil => simp at hmem
  | @snoc log act _ hact ih =>
    have hnew : ∀ {o : α} {c d : ω} {o' : α}, .create i o c ∈ log →
        act = .create i o' d → False := by
      rintro o c d o' hcreate rfl
      exact hact (mem_createdIn.mpr ⟨o, c, hcreate⟩)
    rcases List.mem_append.mp hmem with hmem | hmem <;>
      rcases List.mem_append.mp hmem' with hmem' | hmem'
    · exact ih hmem hmem'
    · exact (hnew hmem (List.mem_singleton.mp hmem').symm).elim
    · exact (hnew hmem' (List.mem_singleton.mp hmem).symm).elim
    · rw [List.mem_singleton] at hmem hmem'
      exact (Act.create.inj (hmem.trans hmem'.symm)).2.1

/-- What an identifier names never changes. -/
theorem Valid.object_eq (h : Valid (log ++ more)) {object' : α}
    (hbefore : replay log i = some (object, a))
    (hafter : replay (log ++ more) i = some (object', b)) : object' = object := by
  obtain ⟨_, hcreate⟩ := create_mem hbefore
  obtain ⟨_, hcreate'⟩ := create_mem hafter
  exact h.create_unique hcreate' (List.mem_append_left _ hcreate)

/-- Only the agent that has an object acts on it. -/
theorem Valid.agent_eq (h : Valid log) (hact : Allowed log act)
    (hlive : replay log act.id = some (object, a)) : act.agent = a := by
  cases act with
  | create i object' b =>
    have hcreated := (h.isSome_replay.mp (by rw [hlive]; rfl)).1
    exact absurd hcreated hact
  | give i b recipient | use i b how | destroy i b =>
    obtain ⟨object', hlive'⟩ := hact
    rw [Act.id, hlive', Option.some.injEq, Prod.mk.injEq] at hlive
    exact hlive.2

/-- What an agent has stays with it through the acts of all others. -/
theorem Valid.replay_append (h : Valid (log ++ more)) (hlive : replay log i = some (object, a))
    (hothers : ∀ act ∈ more, act.id = i → act.agent ≠ a) :
    replay (log ++ more) i = some (object, a) := by
  induction more using List.reverseRecOn with
  | nil => simpa using hlive
  | append_singleton more act ih =>
    rw [← List.append_assoc] at h ⊢
    obtain ⟨hvalid, hact⟩ := valid_snoc.mp h
    have ih := ih hvalid fun act' hact' => hothers act' (List.mem_append_left _ hact')
    have hne : i ≠ act.id := by
      rintro rfl
      exact hothers act (by simp) rfl (hvalid.agent_eq hact ih)
    rw [replay_snoc, apply_of_ne hne, ih]

end Custody

end Attestation
