import Orditect.Support.AsyncQueue
/-!
# The multiplexer

`StreamMux`: the substreams put their events into one bounded queue, and the one consumer takes
them out and numbers them, each stream for itself.  A call that has to wait for space goes on in
a later turn; `o` is the task that calls.
-/

namespace Orditect.Stream

open Support

inductive BackpressurePolicy where
  | block
  | fail
  deriving DecidableEq

/-- `event` is the type of the event with its data. -/
structure QueuedItem (σ δ : Type) where
  streamId : σ
  event : δ
  deriving DecidableEq

structure NumberedEvent (σ δ : Type) extends QueuedItem σ δ where
  seq : Nat
  deriving DecidableEq

/-- `none` in the queue is the sentinel.  `allocators` has the last number given out, 0 where
there is no allocator yet. -/
structure StreamMux (σ ω δ : Type) where
  queue : AsyncQueue ω (Option (QueuedItem σ δ))
  backpressure : BackpressurePolicy := .block
  allocators : σ → Nat := fun _ => 0
  openStreams : List σ := []
  closed : Bool := false

inductive Turn where
  | returned
  | waiting
  | raised
  deriving DecidableEq

namespace StreamMux

variable {σ ω δ : Type} [DecidableEq ω]

def put (m : StreamMux σ ω δ) (o : ω) (a : Option (QueuedItem σ δ)) : StreamMux σ ω δ × Turn :=
  ({ m with queue := (m.queue.put o a).1 }, if (m.queue.put o a).2 then .returned else .waiting)

/-- A turn of `emit`.  Whether the multiplexer is closed is looked at before the queue is. -/
def emit (m : StreamMux σ ω δ) (o : ω) (item : QueuedItem σ δ) : StreamMux σ ω δ × Turn :=
  if m.queue.suspended o then m.put o (some item)
  else if m.closed then (m, .raised)
  else
    match m.backpressure with
    | .block => m.put o (some item)
    | .fail => if m.queue.full then (m, .raised) else m.put o (some item)

/-- A turn of `emit` raises and does nothing, or is a turn of `put`; a first turn is that only
while the multiplexer is open. -/
theorem emit_cases (m : StreamMux σ ω δ) (o : ω) (item : QueuedItem σ δ) :
    (m.emit o item = (m, .raised) ∧ m.queue.suspended o = false ∧
        (m.closed = true ∨ m.backpressure = .fail ∧ m.queue.full = true)) ∨
      (m.emit o item = m.put o (some item) ∧ (m.queue.suspended o = false → m.closed = false)) := by
  rw [emit]
  split
  next h => exact Or.inr ⟨rfl, fun h' => by rw [h] at h'; exact absurd h' (by decide)⟩
  next h =>
    have hfresh : m.queue.suspended o = false := by simpa using h
    split
    next hclosed => exact Or.inl ⟨rfl, hfresh, Or.inl hclosed⟩
    next hclosed =>
      have hopen : m.closed = false := by simpa using hclosed
      split
      · exact Or.inr ⟨rfl, fun _ => hopen⟩
      next hfail =>
        split
        next hfull => exact Or.inl ⟨rfl, hfresh, Or.inr ⟨hfail, hfull⟩⟩
        next => exact Or.inr ⟨rfl, fun _ => hopen⟩

variable [DecidableEq σ]

def register (m : StreamMux σ ω δ) (sid : σ) : StreamMux σ ω δ :=
  { m with openStreams := m.openStreams.insert sid }

/-- A turn of `close_stream`: the last stream to close sends the sentinel. -/
def closeStream (m : StreamMux σ ω δ) (o : ω) (sid : σ) : StreamMux σ ω δ × Turn :=
  if m.queue.suspended o then m.put o none
  else
    let openStreams := m.openStreams.filter (· ≠ sid)
    if openStreams = [] ∧ m.closed = false then
      { m with openStreams := openStreams, closed := true }.put o none
    else ({ m with openStreams := openStreams }, .returned)

/-- What `events` finds at the head of the queue, numbered; `none` inside is the sentinel. -/
def take (m : StreamMux σ ω δ) : Option (Option (NumberedEvent σ δ) × StreamMux σ ω δ) :=
  match m.queue.getNowait with
  | none => none
  | some (none, queue) => some (none, { m with queue := queue })
  | some (some item, queue) =>
    let seq := m.allocators item.streamId + 1
    some (some { item with seq := seq },
      { m with
        queue := queue
        allocators := fun sid => if sid = item.streamId then seq else m.allocators sid })

end StreamMux

/-! ## Callers and a consumer -/

inductive Consumer where
  | checking
  | getting
  | ended
  deriving DecidableEq

inductive Call (σ δ : Type) where
  | idle
  | emitting (item : QueuedItem σ δ)
  | closing (sid : σ)
  deriving DecidableEq

/-- The multiplexer with its callers.  `returned` are the events whose `emit` returned normally,
`taken` is what left the queue and `yielded` what the consumer yielded. -/
structure Traffic (σ ω δ : Type) where
  mux : StreamMux σ ω δ
  calls : ω → Call σ δ := fun _ => .idle
  consumer : Consumer := .checking
  returned : List (QueuedItem σ δ) := []
  taken : List (Option (QueuedItem σ δ)) := []
  yielded : List (NumberedEvent σ δ) := []

inductive Traffic.Action (σ ω δ : Type) where
  | register (sid : σ)
  | emit (o : ω) (item : QueuedItem σ δ)
  | close (o : ω) (sid : σ)
  | turn (o : ω)
  | consume

namespace Traffic

variable {σ ω δ : Type} [DecidableEq σ] [DecidableEq ω]

def setCall (t : Traffic σ ω δ) (o : ω) (call : Call σ δ) : Traffic σ ω δ :=
  { t with calls := fun p => if p = o then call else t.calls p }

def emitTurn (t : Traffic σ ω δ) (o : ω) (item : QueuedItem σ δ) : Traffic σ ω δ :=
  let t' := { t with mux := (t.mux.emit o item).1 }
  match (t.mux.emit o item).2 with
  | .returned => { t' with returned := t.returned ++ [item] }.setCall o .idle
  | .waiting => t'.setCall o (.emitting item)
  | .raised => t'.setCall o .idle

def closeTurn (t : Traffic σ ω δ) (o : ω) (sid : σ) : Traffic σ ω δ :=
  { t with mux := (t.mux.closeStream o sid).1 }.setCall o
    (match (t.mux.closeStream o sid).2 with
      | .waiting => .closing sid
      | _ => .idle)

def get (t : Traffic σ ω δ) : Traffic σ ω δ :=
  match t.mux.take with
  | none => { t with consumer := .getting }
  | some (none, mux) => { t with mux := mux, consumer := .ended, taken := t.taken ++ [none] }
  | some (some e, mux) =>
    { t with
      mux := mux
      consumer := .checking
      taken := t.taken ++ [some e.toQueuedItem]
      yielded := t.yielded ++ [e] }

def step (t : Traffic σ ω δ) : Action σ ω δ → Option (Traffic σ ω δ)
  | .register sid => some { t with mux := t.mux.register sid }
  | .emit o item =>
    match t.calls o with
    | .idle => some (t.emitTurn o item)
    | _ => none
  | .close o sid =>
    match t.calls o with
    | .idle => some (t.closeTurn o sid)
    | _ => none
  | .turn o =>
    match t.calls o with
    | .idle => none
    | .emitting item => some (t.emitTurn o item)
    | .closing sid => some (t.closeTurn o sid)
  | .consume =>
    match t.consumer with
    | .checking =>
      if t.mux.closed ∧ t.mux.queue.items = [] then some { t with consumer := .ended }
      else some t.get
    | .getting => some t.get
    | .ended => none

end Traffic

end Orditect.Stream
