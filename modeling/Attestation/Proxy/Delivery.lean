import Attestation.Base.Runs
import Attestation.Proxy.Handle

/-! What a connection loses. No byte disappears on its way, but `handle` returns after one
value of `done` and closes both connections while the other goroutine may still be copying.
Nothing is lost exactly in the runs whose closes find the streams empty. -/

namespace Attestation.Proxy

open Connection

namespace Stream

variable (p : Stream)

/-- Nothing is between the two peers. -/
def Drained : Prop := p.inFlight = [] ∧ p.buf = []

instance : Decidable p.Drained := inferInstanceAs (Decidable (_ ∧ _))

/-- What was written is delivered, then in the buffer, then in flight. -/
def Accounted : Prop := p.delivered ++ p.buf ++ p.inFlight = p.written

variable {p}

theorem Accounted.delivered_eq_iff (h : p.Accounted) : p.delivered = p.written ↔ p.Drained := by
  unfold Accounted at h
  rw [← h, List.append_assoc, List.self_eq_append_right, List.append_eq_nil_iff]
  exact and_comm

theorem Accounted.write (h : p.Accounted) (chunk : Bytes) : (p.write chunk).Accounted := by
  simp only [Accounted, Stream.write] at h ⊢
  rw [← h, List.append_assoc _ p.inFlight]

theorem Accounted.read (h : p.Accounted) (hbuf : p.buf = []) (n : ℕ) : (p.read n).Accounted := by
  simp only [Accounted, Stream.read, hbuf, List.append_nil] at h ⊢
  rw [List.append_assoc, List.take_append_drop, h]

theorem Accounted.deliver (h : p.Accounted) (n : ℕ) : (p.deliver n).Accounted := by
  simp only [Accounted, Stream.deliver] at h ⊢
  rw [List.append_assoc p.delivered, List.take_append_drop, h]

end Stream

/-- The bytes from `x` can no longer be delivered. -/
def Handle.cuts (k : Handle) (x : Peer) : Bool := k ≠ .dialling && !k.isOpen x.other

theorem Handle.not_isOpen_of_cuts {k : Handle} {x : Peer} (h : k.cuts x) : ¬k.isOpen x.other := by
  simp only [Handle.cuts, Bool.and_eq_true, Bool.not_eq_true'] at h
  simp [h.2]

theorem Handle.not_cuts_dialling (x : Peer) : ¬Handle.dialling.cuts x := by decide +revert

theorem Handle.not_cuts_waiting (x : Peer) : ¬Handle.waiting.cuts x := by decide +revert

theorem Handle.not_cuts_received (x : Peer) : ¬Handle.received.cuts x := by decide +revert

/-- All that a peer wrote was delivered before the connection it goes out by was closed. -/
def NoLoss (s : Connection) : Prop :=
  ∀ x, s.handle.cuts x → (s.stream x).delivered = (s.stream x).written

instance : DecidablePred NoLoss := fun s => inferInstanceAs
  (Decidable (∀ x, s.handle.cuts x → (s.stream x).delivered = (s.stream x).written))

/-- A run in which no connection fails loses nothing. -/
def LosesNothing (events : List Event) : Prop :=
  (∀ e ∈ events, ¬e.fails) → Always step NoLoss {} events

/-- An open move loses nothing: a close comes when the stream it cuts is drained, and
nothing is written to a stream that is cut. -/
def Harmless (s : Connection) : Event → Prop
  | .write x chunk => s.handle.cuts x → chunk = []
  | .dialFails => ∀ x, (s.stream x).Drained
  | .closeEnc => (s.stream .client).Drained
  | .closeClient => (s.stream .enclave).Drained
  | _ => True

def Lossless (s : Connection) (e : Event) : Prop := s.Enabled e → Harmless s e

def Accounted (s : Connection) : Prop := ∀ x, (s.stream x).Accounted

theorem Accounted.onStream {s : Connection} (h : Accounted s) (x : Peer) (f : Stream → Stream)
    (hx : (s.stream x).Accounted → (f (s.stream x)).Accounted) : Accounted (s.onStream x f) :=
  s.forall_onStream (P := fun _ p => p.Accounted) hx h

theorem accounted_step (s : Connection) (e : Event) (h : Accounted s) : Accounted (s.step e) := by
  refine s.step_of_next (fun he => ?_) h
  cases e with
  | write x chunk => exact h.onStream x (·.write chunk) (·.write chunk)
  | read x n => exact h.onStream x (·.read n) (·.read he.2.2 n)
  | deliver x n => exact h.onStream x (·.deliver n) (·.deliver n)
  | finish x => exact h.onStream x (·.finish) id
  | copyEnds x => exact h.onStream x (·.setCopier .returned) id
  | copyFails x => exact h.onStream x (·.setCopier .returned) id
  | signal x => exact h.onStream x (·.setCopier .signalled) id
  | dialled => exact h
  | dialFails => exact h
  | receive => exact h
  | closeEnc => exact h
  | closeClient => exact h

/-! ### One step -/

theorem NoLoss.onStream {s : Connection} (h : NoLoss s) (x : Peer) (f : Stream → Stream)
    (hx : s.handle.cuts x → (s.stream x).delivered = (s.stream x).written →
      (f (s.stream x)).delivered = (f (s.stream x)).written) : NoLoss (s.onStream x f) :=
  s.forall_onStream (P := fun y p => s.handle.cuts y → p.delivered = p.written)
    (fun h hcut => hx hcut (h hcut)) h

theorem noLoss_of_not_cuts {s : Connection} (h : ∀ x, ¬s.handle.cuts x) : NoLoss s :=
  fun x hcut => absurd hcut (h x)

theorem noLoss_write_iff {s : Connection} (h : NoLoss s) (x : Peer) (chunk : Bytes) :
    NoLoss (s.next (.write x chunk)) ↔ (s.handle.cuts x → chunk = []) := by
  constructor
  · intro hnext hcut
    have hlast := hnext x hcut
    simpa [next, Stream.write, h x hcut] using hlast
  · intro hchunk
    refine h.onStream x (·.write chunk) fun hcut hlast => ?_
    simp [Stream.write, hchunk hcut, hlast]

theorem noLoss_dialFails_iff {s : Connection} (hA : Accounted s) :
    NoLoss (s.next .dialFails) ↔ ∀ x, (s.stream x).Drained := by
  have hcut : ∀ x, Handle.refused.cuts x := by decide
  exact forall_congr' fun x =>
    ⟨fun h => (hA x).delivered_eq_iff.mp (h (hcut x)), fun h _ => (hA x).delivered_eq_iff.mpr h⟩

theorem noLoss_closeEnc_iff {s : Connection} (hA : Accounted s) :
    NoLoss (s.next .closeEnc) ↔ (s.stream .client).Drained := by
  rw [← (hA .client).delivered_eq_iff]
  constructor
  · exact fun h => h .client rfl
  · rintro h (_ | _) hcut
    · exact h
    · exact absurd hcut (by decide : ¬Handle.encClosed.cuts .enclave)

theorem noLoss_closeClient_iff {s : Connection} (hA : Accounted s) (h : NoLoss s)
    (he : s.handle = .encClosed) :
    NoLoss (s.next .closeClient) ↔ (s.stream .enclave).Drained := by
  rw [← (hA .enclave).delivered_eq_iff]
  constructor
  · exact fun h => h .enclave rfl
  · rintro henclave (_ | _) -
    · exact h .client (by rw [he]; rfl)
    · exact henclave

/-- A step loses something exactly when it closes on a stream that is not drained, or
writes to one that is cut. -/
theorem noLoss_step_iff {s : Connection} (hA : Accounted s) (h : NoLoss s) (e : Event) :
    NoLoss (s.step e) ↔ Lossless s e := by
  by_cases he : s.Enabled e
  · rw [step_of_enabled he, Lossless, imp_iff_right he]
    cases e with
    | write x chunk => exact noLoss_write_iff h x chunk
    | dialFails => exact noLoss_dialFails_iff hA
    | closeEnc => exact noLoss_closeEnc_iff hA
    | closeClient => exact noLoss_closeClient_iff hA h he
    | deliver x n =>
      -- the bytes can still be delivered, so their stream is not cut
      refine iff_of_true (h.onStream x (·.deliver n) fun hcut _ => ?_) trivial
      exact absurd he.2 (Handle.not_isOpen_of_cuts hcut)
    | dialled => exact iff_of_true (noLoss_of_not_cuts Handle.not_cuts_waiting) trivial
    | receive => exact iff_of_true (noLoss_of_not_cuts Handle.not_cuts_received) trivial
    | finish x => exact iff_of_true (h.onStream x (·.finish) fun _ => id) trivial
    | read x n => exact iff_of_true (h.onStream x (·.read n) fun _ => id) trivial
    | copyEnds x => exact iff_of_true (h.onStream x (·.setCopier .returned) fun _ => id) trivial
    | copyFails x => exact iff_of_true (h.onStream x (·.setCopier .returned) fun _ => id) trivial
    | signal x => exact iff_of_true (h.onStream x (·.setCopier .signalled) fun _ => id) trivial
  · rw [step_of_not_enabled he]
    exact iff_of_true h fun h => absurd h he

/-! ### Whole runs -/

/-- Every run, whether or not a connection fails in it. -/
theorem always_noLoss_iff (events : List Event) :
    Always step NoLoss {} events ↔ EachStep step Lossless {} events :=
  always_iff_eachStep (K := fun _ => True) (fun _ _ _ => trivial) accounted_step
    (fun _ e _ hA h => noLoss_step_iff hA h e) trivial (fun _ => rfl)
    (noLoss_of_not_cuts Handle.not_cuts_dialling)

/-- A run without failures loses nothing exactly when `handle` closes the enclave's
connection with nothing of the client's left to deliver, and the client's with nothing of
the enclave's left, and neither peer writes more after the close that cuts its stream. -/
theorem losesNothing_iff (events : List Event) :
    LosesNothing events ↔
      ((∀ e ∈ events, ¬e.fails) → EachStep step Lossless {} events) :=
  imp_congr_right fun _ => always_noLoss_iff events

/-- A client sends its request and half-closes. Its goroutine ends and signals `done` while
the response is on the way. -/
def halfClosedRun : List Event :=
  [.write .client [71, 69, 84], .finish .client, .dialled, .read .client 3,
    .deliver .client 3, .copyEnds .client, .signal .client,
    .write .enclave [50, 48, 48], .finish .enclave, .receive, .closeEnc, .closeClient]

theorem halfClosedRun_loses : ¬LosesNothing halfClosedRun := by
  intro h
  exact absurd (h (by decide)) (by decide)

/-! ### Both goroutines -/

/-- No failure, and no close of the enclave's connection while a goroutine is copying, as
after a receive for each of them. -/
def Patient (s : Connection) (e : Event) : Prop :=
  ¬e.fails ∧ (e = .closeEnc → ∀ x, (s.stream x).copier ≠ .copying)

/-- A goroutine that is not copying has copied the whole stream, and none is copying once a
connection is closed. -/
structure Settled (s : Connection) : Prop where
  copied : ∀ x, (s.stream x).copier ≠ .copying → (s.stream x).ended ∧ (s.stream x).Drained
  idle : ∀ x, s.handle.cuts x → ∀ y, (s.stream y).copier ≠ .copying

theorem Settled.onStream {s : Connection} (h : Settled s) (x : Peer) (f : Stream → Stream)
    (hcopied : (f (s.stream x)).copier ≠ .copying →
      (f (s.stream x)).ended ∧ (f (s.stream x)).Drained)
    (hidle : (s.stream x).copier ≠ .copying → (f (s.stream x)).copier ≠ .copying) :
    Settled (s.onStream x f) where
  copied := s.forall_onStream
    (P := fun _ p => p.copier ≠ .copying → p.ended ∧ p.Drained) (fun _ => hcopied) h.copied
  idle y hcut := s.forall_onStream (P := fun _ p => p.copier ≠ .copying) hidle (h.idle y hcut)

/-- With both connections open as long as it copies, `io.Copy` ends at the end of the stream. -/
theorem Settled.of_copyOver {s : Connection} (h : Settled s) {x : Peer} (hx : s.Copying x)
    (hover : s.CopyOver x) : (s.stream x).ended ∧ (s.stream x).Drained := by
  have hopen (y : Peer) : s.handle.isOpen y := by
    by_contra hclosed
    have hcut : s.handle.cuts y.other := by
      have hdialled := hx.1
      revert hdialled hclosed
      cases s.handle <;> cases y <;> decide
    exact h.idle y.other hcut x hx.2
  rcases hover with ⟨hbuf, hend⟩ | ⟨-, hclosed⟩
  · obtain ⟨hflight, hended⟩ := hend (hopen x)
    exact ⟨hended, hflight, hbuf⟩
  · exact absurd (hopen x.other) hclosed

theorem settled_step (s : Connection) (e : Event) (h : Settled s) (hp : Patient s e) :
    Settled (s.step e) := by
  refine s.step_of_next (fun he => ?_) h
  cases e with
  | write x chunk =>
    exact h.onStream x (·.write chunk) (fun hx => absurd (h.copied x hx).1 he.1) id
  | finish x => exact h.onStream x (·.finish) (fun hx => ⟨rfl, (h.copied x hx).2⟩) id
  | read x n => exact h.onStream x (·.read n) (absurd he.1.2) id
  | deliver x n => exact h.onStream x (·.deliver n) (absurd he.1.2) id
  | copyEnds x =>
    exact h.onStream x (·.setCopier .returned) (fun _ => h.of_copyOver he.1 he.2)
      (by simp [Stream.setCopier])
  | signal x =>
    have hreturned : (s.stream x).copier = .returned := he
    have hx : (s.stream x).copier ≠ .copying := by simp [hreturned]
    have hs := h.onStream x (·.setCopier .signalled) (fun _ => h.copied x hx)
      (by simp [Stream.setCopier])
    exact ⟨hs.copied, hs.idle⟩
  | dialFails => exact absurd rfl hp.1
  | copyFails x => exact absurd rfl hp.1
  | dialled => exact ⟨h.copied, fun x hcut => absurd hcut (Handle.not_cuts_waiting x)⟩
  | receive => exact ⟨h.copied, fun x hcut => absurd hcut (Handle.not_cuts_received x)⟩
  | closeEnc => exact ⟨h.copied, fun _ _ => hp.2 rfl⟩
  | closeClient => exact ⟨h.copied, fun _ _ => h.idle .client (by rw [he]; rfl)⟩

theorem Settled.lossless {s : Connection} {e : Event} (h : Settled s) (hp : Patient s e) :
    Lossless s e := by
  intro he
  cases e with
  | write x chunk => exact fun hcut => absurd (h.copied x (h.idle x hcut x)).1 he.1
  | closeEnc => exact (h.copied .client (hp.2 rfl .client)).2
  | closeClient => exact (h.copied .enclave (h.idle .client (by rw [he]; rfl) .enclave)).2
  | dialFails => exact absurd rfl hp.1
  | _ => trivial

/-- Runs in which the closes wait for both goroutines lose nothing. -/
theorem always_noLoss_of_patient {events : List Event} (heach : EachStep step Patient {} events) :
    Always step NoLoss {} events := by
  rw [always_noLoss_iff]
  refine heach.of_invariant settled_step (fun _ _ => Settled.lossless) ⟨?_, ?_⟩
  · exact fun x hx => absurd rfl hx
  · exact fun x hcut => absurd hcut (Handle.not_cuts_dialling x)

end Attestation.Proxy
