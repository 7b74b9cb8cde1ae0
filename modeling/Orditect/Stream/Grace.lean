import Mathlib.Data.List.Basic
/-!
# Events for a client that is away

`GraceBuffer`, the monitor that says when it is used, and the loop of `run()` over what comes out
of the multiplexer, for streams that are not cancelled.  The lock of the buffer is held over no
`await`, so `put` and `drain` do not wait, and neither does a call of `notify_disconnect` or
`notify_reconnect`: each of them is one step.
-/

namespace Orditect.Stream

inductive DisconnectPolicy where
  | cancel
  | grace
  | «continue»
  deriving DecidableEq

variable {α : Type*}

/-- A deque with `maxlen`, and whether something was evicted from it. -/
structure GraceBuffer (α : Type*) where
  maxsize : Nat
  buf : List α := []
  gap : Bool := false
  bounded : buf.length ≤ maxsize := by simp

namespace GraceBuffer

def put (b : GraceBuffer α) (event : α) : GraceBuffer α where
  maxsize := b.maxsize
  gap := b.gap || decide (b.buf.length = b.maxsize)
  buf := (b.buf ++ [event]).drop (b.buf.length + 1 - b.maxsize)
  bounded := by
    rw [List.length_drop, List.length_append, List.length_singleton]
    omega

def drain (b : GraceBuffer α) : (List α × Bool) × GraceBuffer α :=
  ((b.buf, b.gap), { maxsize := b.maxsize })

end GraceBuffer

/-- `timer` is whether the grace timer is running. -/
structure DisconnectMonitor (α : Type*) where
  onDisconnect : DisconnectPolicy
  buffer : GraceBuffer α
  disconnected : Bool := false
  timer : Bool := false
  cancelled : Bool := false

namespace DisconnectMonitor

def shouldBuffer (m : DisconnectMonitor α) : Bool :=
  m.disconnected && m.onDisconnect = .grace && !m.cancelled

def notifyDisconnect (m : DisconnectMonitor α) : DisconnectMonitor α :=
  if m.disconnected then m
  else
    match m.onDisconnect with
    | .cancel => { m with disconnected := true, cancelled := true }
    | .grace => { m with disconnected := true, timer := true }
    | .«continue» => { m with disconnected := true }

def notifyReconnect (m : DisconnectMonitor α) : (List α × Bool) × DisconnectMonitor α :=
  if m.onDisconnect ≠ .grace ∨ m.cancelled then (([], false), m)
  else
    (m.buffer.drain.1,
      { m with disconnected := false, timer := false, buffer := m.buffer.drain.2 })

end DisconnectMonitor

/-- What the client gets: an event from `run()`, or what `notify_reconnect` returns. -/
inductive Delivery (α : Type*) where
  | yielded (event : α)
  | drained (events : List α) (gap : Bool)
  deriving DecidableEq

/-- `received` is what `run()` got from the multiplexer. -/
structure Session (α : Type*) where
  monitor : DisconnectMonitor α
  received : List α := []
  delivered : List (Delivery α) := []

namespace Session

inductive Step (α : Type*) where
  | event (event : α)
  | disconnect
  | reconnect
  | timeout

def step (s : Session α) : Step α → Option (Session α)
  | .event event =>
    let s := { s with received := s.received ++ [event] }
    if s.monitor.shouldBuffer then
      some { s with monitor := { s.monitor with buffer := s.monitor.buffer.put event } }
    else some { s with delivered := s.delivered ++ [.yielded event] }
  | .disconnect => some { s with monitor := s.monitor.notifyDisconnect }
  | .reconnect =>
    let ((events, gap), monitor) := s.monitor.notifyReconnect
    some { s with monitor := monitor, delivered := s.delivered ++ [.drained events gap] }
  | .timeout =>
    if s.monitor.timer then some { s with monitor := { s.monitor with cancelled := true } }
    else none

def start (maxsize : Nat) : Session α where
  monitor := { onDisconnect := .grace, buffer := { maxsize := maxsize } }

end Session

end Orditect.Stream
