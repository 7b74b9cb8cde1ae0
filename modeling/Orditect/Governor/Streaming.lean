import Orditect.Governor.Client
import Orditect.Support.JsonText
/-!
# Streaming calls

`GovernedCallClient.call_streaming`, an async generator, with `_finalize`, which it runs
before it releases the slot.  Besides its `await`s the generator stands at every call of
foreign code and, between two chunks, at its `yield`, where the consumer asks for the next
chunk, closes it (`GeneratorExit`) or throws into it.
-/

namespace Orditect.Governor.Streaming

open Support.Bracket Support.LuaJson Support.JsonText

/-- What the client and the call were given; `closable` says whether the handler's iterator
has an `aclose`. -/
structure Config where
  handler : Bool
  closable : Bool
  cancelToken : Bool
  budget : Bool
  resultFn : Bool
  payloadFn : Bool
  partialFn : Bool
  contentWriter : Bool
  auditWriter : Bool
  callId : String
  taskId : Option String
  parentTaskId : Option String
  executionId : Option String
  scope : Option String
  eventType : String

structure AuditEvent (ν : Type) where
  eventId : String
  taskId : String
  scope : Option String
  eventType : String
  payload : List (String × Json ν)

/-- Where the generator stands.  The calls named `salvage` are those of the `except` clauses;
from `closeHandler` on it is in the `finally` block.  `release` is the statement that starts
the release, `ended` the end of a generator that never gets there. -/
inductive Pc (ν : Type) where
  | enter
  | checkBudget
  | checkCancel
  | acquire
  | openHandler
  | nextChunk
  | yielded
  | readResult
  | price
  | charge
  | checkToken
  | salvageResult
  | salvagePrice
  | salvageCharge
  | closeHandler
  | readPartial
  | finalize
  | payload (elapsedMs : Int)
  | errorText (elapsedMs : Int) (fields : List (String × Json ν))
  | pointerize (payload : List (String × Json ν))
  | audit (payload : List (String × Json ν))
  | release
  | ended

/-- The variables of the generator, and what it has charged and written. -/
structure State (ρ ν : Type) where
  pc : Pc ν
  token : Option String
  opened : Bool
  ok : Bool
  cancelled : Bool
  error : Bool
  result : Option ρ
  cost : Option Int
  pointerData : Option (List UInt8)
  charges : List Int
  audits : List (AuditEvent ν)

inductive Choice (ρ ν : Type) where
  | proceed
  | answer (cancelled : Bool)
  | granted (token : String)
  | chunk
  | exhausted
  | resumed
  | value (result : Option ρ)
  | priced (cost : Int)
  | bytes (data : Option (List UInt8))
  | elapsed (ms : Int)
  | fields (payload : List (String × Json ν))
  | text (error : String)
  | pointer (payload : Json ν)
  | raised (error : Raised)

variable {ρ ν : Type} [IntCast ν]

def State.start : State ρ ν :=
  ⟨.enter, none, false, false, false, false, none, none, none, [], []⟩

/-! ## `_finalize` -/

def optional (key : String) (value : Option (Json ν)) (d : List (String × Json ν)) :
    List (String × Json ν) :=
  match value with
  | some value => setItem d (key, value)
  | none => d

def flag (key : String) (condition : Bool) (d : List (String × Json ν)) :
    List (String × Json ν) :=
  if condition then setItem d (key, .bool true) else d

/-- The payload before content is pointer-ized; `fields` come from `payload_fn`, `error` is
`str(error)`. -/
def payload (cfg : Config) (s : State ρ ν) (elapsedMs : Int) (fields : List (String × Json ν))
    (error : Option String) : List (String × Json ν) :=
  let d := optional "error" (error.map .str) fields
  let d := flag "cancelled" s.cancelled d
  let d := flag "interrupted" (!s.ok && !s.cancelled && !s.error) d
  let d := flag "charged_on_error" (s.error && s.cost.isSome) d
  let d := setItem d ("elapsed_ms", .num (elapsedMs : ν))
  let d := optional "cost_units" (s.cost.map fun cost => .num (cost : ν)) d
  let d := optional "parent_task_id" (cfg.parentTaskId.map .str) d
  optional "execution_id" (cfg.executionId.map .str) d

def afterPointer (cfg : Config) (d : List (String × Json ν)) (pointer : Option (Json ν)) : Pc ν :=
  if cfg.auditWriter then .audit (optional "pointer" pointer d) else .release

def afterError (cfg : Config) (s : State ρ ν) (elapsedMs : Int) (fields : List (String × Json ν))
    (error : Option String) : Pc ν :=
  let d := payload cfg s elapsedMs fields error
  if s.pointerData.isSome && cfg.contentWriter then .pointerize d else afterPointer cfg d none

def afterPayload (cfg : Config) (s : State ρ ν) (elapsedMs : Int)
    (fields : List (String × Json ν)) : Pc ν :=
  if s.error then .errorText elapsedMs fields else afterError cfg s elapsedMs fields none

def auditEvent (cfg : Config) (d : List (String × Json ν)) : AuditEvent ν where
  eventId := cfg.callId
  taskId := cfg.taskId.getD ""
  scope := cfg.scope
  eventType := cfg.eventType
  payload := d

/-! ## The generator -/

def afterBudget (cfg : Config) : Pc ν := if cfg.cancelToken then .checkCancel else .acquire

def afterClose (cfg : Config) (s : State ρ ν) : Pc ν :=
  if !s.ok && cfg.partialFn then .readPartial else .finalize

def leaveTry (cfg : Config) (s : State ρ ν) : State ρ ν :=
  { s with pc := if s.opened && cfg.closable then .closeHandler else afterClose cfg s }

def salvage (cfg : Config) (s : State ρ ν) : State ρ ν :=
  if cfg.resultFn then { s with pc := .salvageResult } else leaveTry cfg s

def afterSalvageResult (cfg : Config) (s : State ρ ν) : State ρ ν :=
  if s.result.isSome then { s with pc := .salvagePrice } else leaveTry cfg s

def complete (cfg : Config) (s : State ρ ν) : State ρ ν := leaveTry cfg { s with ok := true }

def charged (s : State ρ ν) : State ρ ν := { s with charges := s.charges ++ s.cost.toList }

def handle (cfg : Config) (s : State ρ ν) : Raised → State ρ ν
  | .generatorExit => if cfg.cancelToken then { s with pc := .checkToken } else salvage cfg s
  | .cancelled => leaveTry cfg { s with cancelled := true }
  | .exception | .other => salvage cfg { s with error := true }

def raised (cfg : Config) (s : State ρ ν) (error : Raised) : Option (State ρ ν) :=
  match s.pc with
  | .enter | .checkBudget | .checkCancel | .acquire => some { s with pc := .ended }
  | .openHandler | .nextChunk | .yielded | .readResult | .price | .charge =>
    some (handle cfg s error)
  | .checkToken | .salvagePrice | .salvageCharge => some (leaveTry cfg s)
  | .salvageResult =>
    some (if error = .exception then afterSalvageResult cfg s else leaveTry cfg s)
  | .closeHandler =>
    some { s with pc := if error = .exception then afterClose cfg s else .ended }
  | .readPartial => some { s with pc := if error = .exception then .finalize else .ended }
  | .payload elapsedMs =>
    some { s with pc := if error = .exception then afterPayload cfg s elapsedMs [] else .ended }
  | .errorText _ _ => some { s with pc := .ended }
  | .pointerize d =>
    some { s with pc := if error = .exception then afterPointer cfg d none else .ended }
  | .audit _ => some { s with pc := if error = .exception then .release else .ended }
  | .finalize | .release | .ended => none

def next (cfg : Config) (s : State ρ ν) (choice : Choice ρ ν) : Option (State ρ ν) :=
  match s.pc, choice with
  | _, .raised error => raised cfg s error
  | .enter, .proceed =>
    -- without a handler the generator raises a `ValueError`
    some { s with
      pc := if !cfg.handler then .ended
        else if cfg.budget then .checkBudget else afterBudget cfg }
  | .checkBudget, .proceed => some { s with pc := afterBudget cfg }
  | .checkCancel, .answer cancelled =>
    some { s with pc := if cancelled then .ended else .acquire }
  | .acquire, .granted token => some { s with token := some token, pc := .openHandler }
  | .openHandler, .proceed => some { s with opened := true, pc := .nextChunk }
  | .nextChunk, .chunk => some { s with pc := .yielded }
  | .nextChunk, .exhausted =>
    some { s with pc := if cfg.resultFn then .readResult else .price }
  | .yielded, .resumed => some { s with pc := .nextChunk }
  | .readResult, .value result => some { s with result := result, pc := .price }
  | .price, .priced cost =>
    let s := { s with cost := some cost }
    some (if cfg.budget then { s with pc := .charge } else complete cfg s)
  | .charge, .proceed => some (complete cfg (charged s))
  | .checkToken, .answer cancelled =>
    some (if cancelled then leaveTry cfg { s with cancelled := true } else salvage cfg s)
  | .salvageResult, .value result => some (afterSalvageResult cfg { s with result := result })
  | .salvagePrice, .priced cost =>
    let s := { s with cost := some cost }
    some (if cfg.budget then { s with pc := .salvageCharge } else leaveTry cfg s)
  | .salvageCharge, .proceed => some (leaveTry cfg (charged s))
  | .closeHandler, .proceed => some { s with pc := afterClose cfg s }
  | .readPartial, .bytes data => some { s with pointerData := data, pc := .finalize }
  | .finalize, .elapsed ms =>
    some { s with pc := if cfg.payloadFn then .payload ms else afterPayload cfg s ms [] }
  | .payload ms, .fields d => some { s with pc := afterPayload cfg s ms (dict d) }
  | .errorText ms d, .text error => some { s with pc := afterError cfg s ms d (some error) }
  | .pointerize d, .pointer pointer => some { s with pc := afterPointer cfg d (some pointer) }
  | .audit d, .proceed => some { s with pc := .release, audits := s.audits ++ [auditEvent cfg d] }
  | _, _ => none

def Pc.isOver : Pc ν → Bool
  | .release | .ended => true
  | _ => false

def callStreaming (cfg : Config) : Coroutine (State ρ ν) (Choice ρ ν) String where
  step := next cfg
  left s := s.pc.isOver
  owes s := match s.pc with | .release => s.token | _ => none

/-! ## What keeps the generator from its release -/

/-- The statements of the `finally` block whose handlers catch an `Exception` only, or
nothing. -/
def Pc.breaks : Pc ν → Raised → Bool
  | .errorText _ _, _ => true
  | .closeHandler, error | .readPartial, error | .payload _, error | .pointerize _, error
  | .audit _, error => decide (error ≠ .exception)
  | _, _ => false

def disturbs (s : Support.Bracket.State (State ρ ν) String) : Event (Choice ρ ν) → Bool
  | .body (.raised error) => s.body.pc.breaks error
  | _ => false

/-- Between the entry of the `finally` block and the start of the release nothing is raised
that escapes: no cancellation, and no exception from `str(error)`. -/
def Undisturbed (s : Support.Bracket.State (State ρ ν) String) (e : Event (Choice ρ ν)) : Prop :=
  disturbs s e = false

instance (s : Support.Bracket.State (State ρ ν) String) (e : Event (Choice ρ ν)) :
    Decidable (Undisturbed s e) :=
  inferInstanceAs (Decidable (_ = _))

end Orditect.Governor.Streaming
