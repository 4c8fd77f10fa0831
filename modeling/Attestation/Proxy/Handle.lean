import Attestation.Base.Bytes
import Mathlib.Logic.Function.Basic
import Mathlib.Data.Fintype.Defs

/-! One connection through the host's forwarder: the bytes either peer sends, the two
goroutines that copy them and `handle` itself, which waits on `done` and then runs its
deferred closes. An event is one move of a peer, of a goroutine or of `handle`, taken
in any order and with chunks of any size; a move that is not open to its party leaves
the connection as it is. -/

namespace Attestation.Proxy

inductive Peer where
  | client
  | enclave
  deriving DecidableEq, Repr

instance : Fintype Peer := ⟨{.client, .enclave}, by rintro (_ | _) <;> simp⟩

def Peer.other : Peer → Peer
  | .client => .enclave
  | .enclave => .client

/-- A goroutine: its `io.Copy` runs, has returned, or its value is sent on `done`. -/
inductive Copier where
  | copying
  | returned
  | signalled
  deriving DecidableEq, Repr

/-- Where `handle` stands. After `received` come the deferred closes, the last one first:
the enclave's connection and then the client's. -/
inductive Handle where
  | dialling
  | refused
  | waiting
  | received
  | encClosed
  | returned
  deriving DecidableEq, Repr

namespace Handle

/-- The connections that `handle` has and has not closed. -/
def isOpen : Handle → Peer → Bool
  | .dialling, .client => true
  | .waiting, _ => true
  | .received, _ => true
  | .encClosed, .client => true
  | _, _ => false

/-- The dial succeeded, so both goroutines are started. -/
def dialled : Handle → Bool
  | .dialling => false
  | .refused => false
  | _ => true

end Handle

/-- The bytes a peer sends, on their way to the other one: those that `io.Copy` has not
read yet, those in its buffer, and those it has written to the other connection. -/
structure Stream where
  written : Bytes := []
  inFlight : Bytes := []
  buf : Bytes := []
  delivered : Bytes := []
  ended : Bool := false
  copier : Copier := .copying
  deriving DecidableEq, Repr

namespace Stream

variable (p : Stream)

def write (chunk : Bytes) : Stream :=
  { p with written := p.written ++ chunk, inFlight := p.inFlight ++ chunk }

/-- The peer closes the connection or its sending side. -/
def finish : Stream := { p with ended := true }

def read (n : ℕ) : Stream := { p with inFlight := p.inFlight.drop n, buf := p.inFlight.take n }

def deliver (n : ℕ) : Stream :=
  { p with buf := p.buf.drop n, delivered := p.delivered ++ p.buf.take n }

def setCopier (c : Copier) : Stream := { p with copier := c }

end Stream

/-- The state of one call of `handle`; `done` counts the values in the channel. -/
structure Connection where
  stream : Peer → Stream := fun _ => {}
  done : ℕ := 0
  handle : Handle := .dialling

inductive Event where
  | write (x : Peer) (chunk : Bytes)
  | finish (x : Peer)
  | dialled
  | dialFails
  | read (x : Peer) (n : ℕ)
  | deliver (x : Peer) (n : ℕ)
  | copyEnds (x : Peer)
  | copyFails (x : Peer)
  | signal (x : Peer)
  | receive
  | closeEnc
  | closeClient

/-- A connection fails. -/
def Event.fails : Event → Bool
  | .dialFails => true
  | .copyFails _ => true
  | _ => false

namespace Connection

variable (s : Connection)

/-- The goroutine of the stream from `x` is inside its `io.Copy`. -/
def Copying (x : Peer) : Prop := s.handle.dialled ∧ (s.stream x).copier = .copying

instance (x : Peer) : Decidable (s.Copying x) := inferInstanceAs (Decidable (_ ∧ _))

/-- `io.Copy` returns by itself at the end of the stream, and also once `handle` has closed
the connection it is about to read or write. -/
def CopyOver (x : Peer) : Prop :=
  (s.stream x).buf = [] ∧
      (s.handle.isOpen x → (s.stream x).inFlight = [] ∧ (s.stream x).ended) ∨
    (s.stream x).buf ≠ [] ∧ ¬s.handle.isOpen x.other

instance (x : Peer) : Decidable (s.CopyOver x) := inferInstanceAs (Decidable (_ ∨ _))

/-- The move is open to its party. The channel has room for both goroutines, so sending
on it never waits. -/
def Enabled : Event → Prop
  | .write x _ => ¬(s.stream x).ended ∧ (x = .enclave → s.handle.dialled)
  | .finish x => ¬(s.stream x).ended ∧ (x = .enclave → s.handle.dialled)
  | .dialled => s.handle = .dialling
  | .dialFails => s.handle = .dialling
  | .read x _ => s.Copying x ∧ s.handle.isOpen x ∧ (s.stream x).buf = []
  | .deliver x _ => s.Copying x ∧ s.handle.isOpen x.other
  | .copyEnds x => s.Copying x ∧ s.CopyOver x
  | .copyFails x => s.Copying x
  | .signal x => (s.stream x).copier = .returned
  | .receive => s.handle = .waiting ∧ 0 < s.done
  | .closeEnc => s.handle = .received
  | .closeClient => s.handle = .encClosed

instance Enabled.decidable : ∀ e, Decidable (s.Enabled e)
  | .write _ _ => inferInstanceAs (Decidable (_ ∧ _))
  | .finish _ => inferInstanceAs (Decidable (_ ∧ _))
  | .dialled => inferInstanceAs (Decidable (s.handle = .dialling))
  | .dialFails => inferInstanceAs (Decidable (s.handle = .dialling))
  | .read _ _ => inferInstanceAs (Decidable (_ ∧ _ ∧ _))
  | .deliver _ _ => inferInstanceAs (Decidable (_ ∧ _))
  | .copyEnds _ => inferInstanceAs (Decidable (_ ∧ _))
  | .copyFails x => inferInstanceAs (Decidable (s.Copying x))
  | .signal x => inferInstanceAs (Decidable ((s.stream x).copier = .returned))
  | .receive => inferInstanceAs (Decidable (_ ∧ _))
  | .closeEnc => inferInstanceAs (Decidable (s.handle = .received))
  | .closeClient => inferInstanceAs (Decidable (s.handle = .encClosed))

def onStream (x : Peer) (f : Stream → Stream) : Connection :=
  { s with stream := Function.update s.stream x (f (s.stream x)) }

@[simp] theorem onStream_handle (x : Peer) (f : Stream → Stream) :
    (s.onStream x f).handle = s.handle := rfl

@[simp] theorem onStream_stream_self (x : Peer) (f : Stream → Stream) :
    (s.onStream x f).stream x = f (s.stream x) := Function.update_self ..

/-- What one stream's move keeps of that stream and leaves alone in the other holds of
both afterwards. -/
theorem forall_onStream {P : Peer → Stream → Prop} {x : Peer} {f : Stream → Stream}
    (hx : P x (s.stream x) → P x (f (s.stream x))) (h : ∀ y, P y (s.stream y)) :
    ∀ y, P y ((s.onStream x f).stream y) := by
  intro y
  by_cases hy : y = x
  · subst y
    simpa using hx (h x)
  · simpa [onStream, hy] using h y

/-- The connection after a move that is open to its party. -/
def next : Event → Connection
  | .write x chunk => s.onStream x (·.write chunk)
  | .finish x => s.onStream x (·.finish)
  | .dialled => { s with handle := .waiting }
  | .dialFails => { s with handle := .refused }
  | .read x n => s.onStream x (·.read n)
  | .deliver x n => s.onStream x (·.deliver n)
  | .copyEnds x => s.onStream x (·.setCopier .returned)
  | .copyFails x => s.onStream x (·.setCopier .returned)
  | .signal x => { s.onStream x (·.setCopier .signalled) with done := s.done + 1 }
  | .receive => { s with handle := .received, done := s.done - 1 }
  | .closeEnc => { s with handle := .encClosed }
  | .closeClient => { s with handle := .returned }

def step (e : Event) : Connection := if s.Enabled e then s.next e else s

variable {s} in
theorem step_of_enabled {e : Event} (he : s.Enabled e) : s.step e = s.next e := if_pos he

variable {s} in
theorem step_of_not_enabled {e : Event} (he : ¬s.Enabled e) : s.step e = s := if_neg he

/-- A step keeps what every open move keeps. -/
theorem step_of_next {P : Connection → Prop} {e : Event} (hnext : s.Enabled e → P (s.next e))
    (h : P s) : P (s.step e) := by
  by_cases he : s.Enabled e
  · rw [step_of_enabled he]
    exact hnext he
  · rwa [step_of_not_enabled he]

end Connection

end Attestation.Proxy
