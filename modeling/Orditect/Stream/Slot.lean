import Mathlib.Order.Lattice
import Orditect.Governor.Client
import Orditect.Stream.Stage
/-!
# The slot of a stage

`StageRunner.run` as a coroutine: it stands at its next `await`, and what is awaited there
is a choice of the environment.  The source with the callbacks for thinking and references
is behind the `await` of the next chunk, the callbacks for text and hits have their own.  A
coroutine cancellation is an exception raised at an `await`, so any number of them may come
anywhere; a graceful cancellation sets the cancel token at any time.
-/

namespace Orditect.Stream.Slot

open Governor (Raised)

variable {τ : Type} [LinearOrder τ] [Add τ]

/-- `governed`: the stage names a resource and has a governor.  `collected` is what
`pop_collected` returns at the end. -/
structure Config (τ : Type) where
  governed : Bool
  postCancelDrainTimeout : τ
  collected : List Char

abbrev Pending := Except Raised StageOutcome

inductive Pc where
  | acquire
  | nextChunk
  | onText (hits : List MarkerHit) (finish : Bool)
  | onHit (hits : List MarkerHit) (finish : Bool)
  | close (pending : Pending)
  | release (pending : Pending)
  | ended (result : Pending)

structure State (τ : Type) where
  pc : Pc
  now : τ
  cancelled : Bool
  drainDeadline : Option τ
  outcome : StageOutcome
  token : Option String
  released : List String

/-- What comes of an `await`; `timedOut` is a `TimeoutError`, of `wait_for` or of the source. -/
inductive Choice where
  | granted (token : String)
  | chunk (marked : MarkedChunk)
  | exhausted
  | timedOut
  | done
  | raised (error : Raised)

inductive Event (τ : Type) where
  | proceed (choice : Choice)
  | cancel
  | advance (now : τ)

def start (cfg : Config τ) (now : τ) : State τ where
  pc := if cfg.governed then .acquire else .nextChunk
  now := now
  cancelled := false
  drainDeadline := none
  outcome := {}
  token := none
  released := []

def leave (pending : Pending) (s : State τ) : State τ := { s with pc := .close pending }

def leaveLoop (cfg : Config τ) (s : State τ) : State τ :=
  leave (.ok { s.outcome with thinking := cfg.collected }) s

def turn (cfg : Config τ) (s : State τ) : State τ :=
  match s.drainDeadline with
  | some deadline => if deadline ≤ s.now then leaveLoop cfg s else { s with pc := .nextChunk }
  | none => { s with pc := .nextChunk }

def nextHit (cfg : Config τ) (finish : Bool) (s : State τ) : List MarkerHit → State τ
  | [] => if finish then leaveLoop cfg s else turn cfg s
  | hit :: hits =>
    let placed := { hit with charOffset := s.outcome.content.length }
    { s with
      pc := .onHit hits finish
      outcome := { s.outcome with hits := s.outcome.hits ++ [placed] } }

/-- A chunk has come: it is dropped once the token is cancelled, which starts the drain. -/
def receive (cfg : Config τ) (marked : MarkedChunk) (s : State τ) : State τ :=
  if s.cancelled then
    turn cfg { s with
      drainDeadline := some (s.drainDeadline.getD (s.now + cfg.postCancelDrainTimeout)) }
  else
    match marked.text with
    | some (c :: text) =>
      { s with
        pc := .onText marked.hits marked.finish
        outcome := { s.outcome with content := s.outcome.content ++ c :: text } }
    | _ => nextHit cfg marked.finish s marked.hits

/-- Behind `pipeline.aclose()`: the release is started when there is a token. -/
def closed (cfg : Config τ) (pending : Pending) (s : State τ) : State τ :=
  match s.token.filter fun token => token != "" && cfg.governed with
  | some token => { s with pc := .release pending, released := token :: s.released }
  | none => { s with pc := .ended pending }

def next (cfg : Config τ) (s : State τ) : Choice → Option (State τ)
  | .raised error =>
    match s.pc with
    | .acquire => some { s with pc := .ended (.error error) }
    | .nextChunk | .onText _ _ | .onHit _ _ => some (leave (.error error) s)
    | .close pending =>
      if error = .exception then some (closed cfg pending s)
      else some { s with pc := .ended (.error error) }
    | .release _ => some { s with pc := .ended (.error error) }
    | .ended _ => none
  | .granted token =>
    match s.pc with
    | .acquire => some { s with pc := .nextChunk, token := some token }
    | _ => none
  | .chunk marked =>
    match s.pc with
    | .nextChunk => some (receive cfg marked s)
    | _ => none
  | .exhausted =>
    match s.pc with
    | .nextChunk => some (leaveLoop cfg s)
    | _ => none
  | .timedOut =>
    -- outside the drain it is an exception like any other
    match s.pc, s.drainDeadline with
    | .nextChunk, some _ => some (leaveLoop cfg s)
    | _, _ => none
  | .done =>
    match s.pc with
    | .onText hits finish => some (nextHit cfg finish s hits)
    | .onHit hits finish => some (nextHit cfg finish s hits)
    | .close pending => some (closed cfg pending s)
    | .release pending => some { s with pc := .ended pending }
    | _ => none

def step (cfg : Config τ) (s : State τ) : Event τ → Option (State τ)
  | .proceed choice => next cfg s choice
  | .cancel => some { s with cancelled := true }
  | .advance now => if s.now ≤ now then some { s with now := now } else none

def Pc.isEnded : Pc → Bool
  | .ended _ => true
  | _ => false

/-- What leaves `await pipeline.aclose()` past `except Exception`.  The generator of the
detector has no `await` on its way out, so its close does not suspend; the model leaves open
what a close does. -/
def escapes (s : State τ) : Event τ → Bool
  | .proceed (.raised error) =>
    match s.pc with
    | .close _ => decide (error ≠ .exception)
    | _ => false
  | _ => false

end Orditect.Stream.Slot
