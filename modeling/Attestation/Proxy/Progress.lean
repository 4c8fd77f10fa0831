import Attestation.Proxy.Delivery

/-! How a connection ends. Nobody waits to send on `done`, since no more than the two
values it has room for are ever sent. The work of `handle` and of its goroutines is
bounded by what is on its way, and when none of them has any left, either all three have
returned or `handle` and both goroutines wait for the peers with everything delivered. -/

namespace Attestation.Proxy

open Connection

/-! ### Two streams -/

/-- A count over the two streams. -/
def total (g : Stream → ℕ) (s : Connection) : ℕ := g (s.stream .client) + g (s.stream .enclave)

theorem total_onStream (g : Stream → ℕ) (s : Connection) (x : Peer) (f : Stream → Stream) :
    total g (s.onStream x f) + g (s.stream x) = total g s + g (f (s.stream x)) := by
  cases x <;> simp [total, onStream] <;> omega

/-! ### The channel -/

/-- The values that `handle` has received. -/
def Handle.taken : Handle → ℕ
  | .dialling => 0
  | .refused => 0
  | .waiting => 0
  | .received => 1
  | .encClosed => 1
  | .returned => 1

/-- The values that the goroutine of the stream has sent. -/
def Stream.sent (p : Stream) : ℕ := if p.copier = .signalled then 1 else 0

theorem Stream.sent_le (p : Stream) : p.sent ≤ 1 := by
  unfold Stream.sent
  split_ifs <;> omega

/-- What is sent is in the channel or received, and nothing runs before the dial. -/
structure Counted (s : Connection) : Prop where
  sent : s.done + s.handle.taken = total Stream.sent s
  notStarted : ¬s.handle.dialled → ∀ x, (s.stream x).copier = .copying

theorem Counted.onStream {s : Connection} (h : Counted s) (x : Peer) (f : Stream → Stream)
    (hsent : (f (s.stream x)).sent = (s.stream x).sent)
    (hcopier : ¬s.handle.dialled → (f (s.stream x)).copier = .copying) :
    Counted (s.onStream x f) where
  sent := by
    have htotal := total_onStream Stream.sent s x f
    have hs := h.sent
    simp only [onStream_handle]
    change s.done + _ = _
    omega
  notStarted hdialled :=
    s.forall_onStream (P := fun _ p => p.copier = .copying) (fun _ => hcopier hdialled)
      (h.notStarted hdialled)

theorem counted_step (s : Connection) (e : Event) (h : Counted s) : Counted (s.step e) := by
  refine s.step_of_next (fun he => ?_) h
  cases e with
  | write x chunk => exact h.onStream x (·.write chunk) rfl fun hd => h.notStarted hd x
  | finish x => exact h.onStream x (·.finish) rfl fun hd => h.notStarted hd x
  | read x n => exact h.onStream x (·.read n) rfl fun hd => h.notStarted hd x
  | deliver x n => exact h.onStream x (·.deliver n) rfl fun hd => h.notStarted hd x
  | copyEnds x =>
    have hx : (s.stream x).copier = .copying := he.1.2
    exact h.onStream x (·.setCopier .returned) (by simp [Stream.sent, Stream.setCopier, hx])
      fun hd => absurd he.1.1 hd
  | copyFails x =>
    have hx : (s.stream x).copier = .copying := he.2
    exact h.onStream x (·.setCopier .returned) (by simp [Stream.sent, Stream.setCopier, hx])
      fun hd => absurd he.1 hd
  | signal x =>
    have hx : (s.stream x).copier = .returned := he
    have hdialled : s.handle.dialled := by
      by_contra hd
      simp [h.notStarted hd x] at hx
    have htotal := total_onStream Stream.sent s x (·.setCopier .signalled)
    have hbefore : (s.stream x).sent = 0 := by simp [Stream.sent, hx]
    have hafter : ((s.stream x).setCopier .signalled).sent = 1 := rfl
    have hs := h.sent
    refine ⟨?_, fun hd => absurd hdialled hd⟩
    change s.done + 1 + s.handle.taken = total Stream.sent (s.onStream x (·.setCopier .signalled))
    omega
  | dialled =>
    have hs := h.sent
    rw [show s.handle = .dialling from he] at hs
    exact ⟨hs, fun hd => absurd rfl hd⟩
  | dialFails =>
    have hs := h.sent
    have hhandle : s.handle = .dialling := he
    rw [hhandle] at hs
    exact ⟨hs, fun _ => h.notStarted (by simp [hhandle, Handle.dialled])⟩
  | receive =>
    have hs := h.sent
    have hdone := he.2
    rw [he.1] at hs
    refine ⟨?_, fun hd => absurd rfl hd⟩
    change s.done - 1 + 1 = total Stream.sent s
    change s.done = total Stream.sent s at hs
    omega
  | closeEnc =>
    have hs := h.sent
    rw [show s.handle = .received from he] at hs
    exact ⟨hs, fun hd => absurd rfl hd⟩
  | closeClient =>
    have hs := h.sent
    rw [show s.handle = .encClosed from he] at hs
    exact ⟨hs, fun hd => absurd rfl hd⟩

/-! ### Work -/

def Copier.remaining : Copier → ℕ
  | .copying => 2
  | .returned => 1
  | .signalled => 0

def Handle.remaining : Handle → ℕ
  | .dialling => 0
  | .refused => 0
  | .waiting => 3
  | .received => 2
  | .encClosed => 1
  | .returned => 0

/-- A byte in flight is read and delivered. -/
def Stream.work (p : Stream) : ℕ := 2 * p.inFlight.length + p.buf.length + p.copier.remaining

/-- What is left to do for `handle` and its goroutines. -/
def work (s : Connection) : ℕ := total Stream.work s + s.handle.remaining

/-- A move of `handle` or of a goroutine that does something, where no connection fails. -/
def Works (s : Connection) (e : Event) : Prop :=
  s.Enabled e ∧ match e with
    | .read x n => 0 < n ∧ (s.stream x).inFlight ≠ []
    | .deliver x n => 0 < n ∧ (s.stream x).buf ≠ []
    | .copyEnds _ => True
    | .signal _ => True
    | .receive => True
    | .closeEnc => True
    | .closeClient => True
    | _ => False

theorem work_onStream_lt (s : Connection) (x : Peer) (f : Stream → Stream)
    (h : (f (s.stream x)).work < (s.stream x).work) : work (s.onStream x f) < work s := by
  have htotal := total_onStream Stream.work s x f
  simp only [work, onStream_handle]
  omega

theorem work_step_lt (s : Connection) (e : Event) (h : Works s e) : work (s.step e) < work s := by
  obtain ⟨he, hworks⟩ := h
  rw [step_of_enabled he]
  cases e with
  | read x n =>
    obtain ⟨hn, hne⟩ := hworks
    have hlength := List.length_pos_iff.mpr hne
    refine work_onStream_lt s x (·.read n) ?_
    simp only [Stream.work, Stream.read, he.2.2, List.length_drop, List.length_take,
      List.length_nil]
    omega
  | deliver x n =>
    obtain ⟨hn, hne⟩ := hworks
    have hlength := List.length_pos_iff.mpr hne
    refine work_onStream_lt s x (·.deliver n) ?_
    simp only [Stream.work, Stream.deliver, List.length_drop]
    omega
  | copyEnds x =>
    have hx : (s.stream x).copier = .copying := he.1.2
    refine work_onStream_lt s x (·.setCopier .returned) ?_
    simp [Stream.work, Stream.setCopier, hx, Copier.remaining]
  | signal x =>
    have hx : (s.stream x).copier = .returned := he
    refine work_onStream_lt s x (·.setCopier .signalled) ?_
    simp [Stream.work, Stream.setCopier, hx, Copier.remaining]
  | receive =>
    change total Stream.work s + 2 < total Stream.work s + s.handle.remaining
    rw [he.1]
    exact Nat.lt_succ_self _
  | closeEnc =>
    change total Stream.work s + 1 < total Stream.work s + s.handle.remaining
    rw [show s.handle = .received from he]
    exact Nat.lt_succ_self _
  | closeClient =>
    change total Stream.work s + 0 < total Stream.work s + s.handle.remaining
    rw [show s.handle = .encClosed from he]
    exact Nat.lt_succ_self _
  | write x chunk => exact hworks.elim
  | finish x => exact hworks.elim
  | dialled => exact hworks.elim
  | dialFails => exact hworks.elim
  | copyFails x => exact hworks.elim

/-! ### Where the work ends -/

/-- `handle` has returned, and so have both goroutines. -/
def Finished (s : Connection) : Prop :=
  s.handle = .returned ∧ ∀ x, (s.stream x).copier = .signalled

/-- `handle` waits for a goroutine, and both goroutines for their peers. -/
def Idle (s : Connection) : Prop :=
  s.handle = .waiting ∧ ∀ x, (s.stream x).copier = .copying ∧ (s.stream x).ended = false

theorem sent_eq_zero {s : Connection} (h : total Stream.sent s = 0) (x : Peer) :
    (s.stream x).copier ≠ .signalled := by
  intro hx
  have hsent : (s.stream x).sent = 1 := if_pos hx
  cases x <;> simp only [total] at h <;> omega

/-- A stream that is open at both ends and leaves its goroutine no work has been copied. -/
theorem idle_of_open {s : Connection} {x : Peer} (hcopying : s.Copying x)
    (hopen : ∀ y, s.handle.isOpen y) (hstuck : ∀ e, ¬Works s e) :
    (s.stream x).ended = false ∧ (s.stream x).Drained := by
  have hbuf : (s.stream x).buf = [] := by
    by_contra hne
    exact hstuck (.deliver x 1) ⟨⟨hcopying, hopen _⟩, Nat.one_pos, hne⟩
  have hflight : (s.stream x).inFlight = [] := by
    by_contra hne
    exact hstuck (.read x 1) ⟨⟨hcopying, hopen _, hbuf⟩, Nat.one_pos, hne⟩
  refine ⟨?_, hflight, hbuf⟩
  by_contra hended
  have hover : s.CopyOver x := .inl ⟨hbuf, fun _ => ⟨hflight, by simpa using hended⟩⟩
  exact hstuck (.copyEnds x) ⟨⟨hcopying, hover⟩, trivial⟩

/-- Once both connections are closed, a goroutine can return whatever is on the way. -/
theorem copyOver_of_closed {s : Connection} (hclosed : ∀ y, ¬s.handle.isOpen y) (x : Peer) :
    s.CopyOver x := by
  by_cases hbuf : (s.stream x).buf = []
  · exact .inl ⟨hbuf, fun hopen => absurd hopen (hclosed x)⟩
  · exact .inr ⟨hbuf, hclosed _⟩

theorem finished_or_idle {s : Connection} (hA : Accounted s) (hC : Counted s)
    (hdialled : s.handle.dialled) (hstuck : ∀ e, ¬Works s e) :
    Finished s ∨ Idle s ∧ ∀ x, (s.stream x).delivered = (s.stream x).written := by
  have hcopier : ∀ x, (s.stream x).copier ≠ .returned :=
    fun x hx => hstuck (.signal x) ⟨hx, trivial⟩
  rcases hhandle : s.handle with _ | _ | _ | _ | _ | _
  · simp [hhandle, Handle.dialled] at hdialled
  · simp [hhandle, Handle.dialled] at hdialled
  · -- no value is in the channel, so both goroutines are still copying
    have hdone : s.done = 0 := by
      by_contra hne
      exact hstuck .receive ⟨⟨hhandle, Nat.pos_of_ne_zero hne⟩, trivial⟩
    have hsent := hC.sent
    rw [hdone, hhandle] at hsent
    have hcopying : ∀ x, (s.stream x).copier = .copying := by
      intro x
      have hx := sent_eq_zero hsent.symm x
      have hx' := hcopier x
      revert hx hx'
      cases (s.stream x).copier <;> simp
    have hidle := fun x => idle_of_open (x := x) ⟨hdialled, hcopying x⟩
      (fun y => by rw [hhandle]; rfl) hstuck
    exact .inr ⟨⟨hhandle, fun x => ⟨hcopying x, (hidle x).1⟩⟩,
      fun x => (hA x).delivered_eq_iff.mpr (hidle x).2⟩
  · exact absurd ⟨hhandle, trivial⟩ (hstuck .closeEnc)
  · exact absurd ⟨hhandle, trivial⟩ (hstuck .closeClient)
  · refine .inl ⟨hhandle, fun x => ?_⟩
    have hclosed : ∀ y, ¬s.handle.isOpen y := fun y => by rw [hhandle]; simp [Handle.isOpen]
    rcases hx : (s.stream x).copier with _ | _ | _
    · exact absurd ⟨⟨⟨hdialled, hx⟩, copyOver_of_closed hclosed x⟩, trivial⟩ (hstuck (.copyEnds x))
    · exact absurd hx (hcopier x)
    · rfl

/-! ### Whole runs -/

theorem accounted_run (events : List Event) : Accounted (run step {} events) :=
  run_invariant accounted_step fun _ => rfl

theorem counted_run (events : List Event) : Counted (run step {} events) :=
  run_invariant counted_step ⟨rfl, fun _ _ => rfl⟩

/-- After any run, failures included: what was sent, in the channel or received, is no more
than the channel has room for; the forwarder runs out of work; and then all of it has
returned, or it waits for peers that have not ended their streams and whose bytes are
delivered. -/
theorem forwarder_progresses (events : List Event) :
    (run step {} events).done + (run step {} events).handle.taken ≤ 2 ∧
      (∀ moves, EachStep step Works (run step {} events) moves →
        moves.length ≤ work (run step {} events)) ∧
      ((run step {} events).handle.dialled → (∀ e, ¬Works (run step {} events) e) →
        Finished (run step {} events) ∨ Idle (run step {} events) ∧
          ∀ x, ((run step {} events).stream x).delivered =
            ((run step {} events).stream x).written) := by
  refine ⟨?_, fun moves hmoves => ?_, finished_or_idle (accounted_run events) (counted_run events)⟩
  · calc (run step {} events).done + (run step {} events).handle.taken
        = total Stream.sent (run step {} events) := (counted_run events).sent
      _ ≤ 1 + 1 := Nat.add_le_add (Stream.sent_le _) (Stream.sent_le _)
  · have hwork := hmoves.length_add_le work_step_lt
    omega

end Attestation.Proxy
