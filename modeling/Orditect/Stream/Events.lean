import Orditect.Support.JsonText
/-!
# Events

The envelope every event of a stream travels in, and the JSON object it is written as.
-/

namespace Orditect.Stream

open Support.JsonText Support.LuaJson

inductive EventType where
  | streamStart
  | streamDelta
  | enrichMarker
  | enrichPlaceholder
  | enrichResolved
  | stageEnd
  | streamManifest
  | streamEnd
  | streamError
  | streamCancelled
  deriving DecidableEq

def EventType.value : EventType → String
  | .streamStart => "stream.start"
  | .streamDelta => "stream.delta"
  | .enrichMarker => "enrich.marker"
  | .enrichPlaceholder => "enrich.placeholder"
  | .enrichResolved => "enrich.resolved"
  | .stageEnd => "stage.end"
  | .streamManifest => "stream.manifest"
  | .streamEnd => "stream.end"
  | .streamError => "stream.error"
  | .streamCancelled => "stream.cancelled"

def EventType.all : List EventType :=
  [.streamStart, .streamDelta, .enrichMarker, .enrichPlaceholder, .enrichResolved, .stageEnd,
    .streamManifest, .streamEnd, .streamError, .streamCancelled]

def EventType.ofValue (value : List Char) : Option EventType :=
  all.find? fun t => t.value.toList == value

/-- The numbers of Python as JSON writes them, and what an `int` and a `float` field of a model
take from a JSON value; `φ` are the floats. -/
class PyNumber (ν φ : Type) where
  ofInt : Int → ν
  asInt : Json ν → Option Int
  asInt_ofInt : ∀ n, asInt (.num (ofInt n)) = some n
  ofFloat : φ → ν
  asFloat : Json ν → Option φ
  asFloat_ofFloat : ∀ x, asFloat (.num (ofFloat x)) = some x

structure EventEnvelope (ν φ : Type) where
  v : Int := 1
  streamId : String
  stage : Option String := none
  seq : Int
  ts : φ
  data : Dict ν

variable {ν φ : Type}

def EventEnvelope.sseId (e : EventEnvelope ν φ) : List Char :=
  e.streamId.toList ++ ':' :: intText e.seq

def EventEnvelope.toPayload [PyNumber ν φ] (e : EventEnvelope ν φ) : List (String × Json ν) :=
  match e.stage with
  | none =>
    [("v", .num (PyNumber.ofInt φ e.v)), ("stream_id", .str e.streamId),
      ("seq", .num (PyNumber.ofInt φ e.seq)), ("ts", .num (PyNumber.ofFloat e.ts)),
      ("data", .obj e.data.1)]
  | some stage =>
    [("v", .num (PyNumber.ofInt φ e.v)), ("stream_id", .str e.streamId), ("stage", .str stage),
      ("seq", .num (PyNumber.ofInt φ e.seq)), ("ts", .num (PyNumber.ofFloat e.ts)),
      ("data", .obj e.data.1)]

def asStr : Json ν → Option String
  | .str s => some s
  | _ => none

def asOptionalStr : Json ν → Option (Option String)
  | .null => some none
  | .str s => some (some s)
  | _ => none

/-- A `dict` field.  The keys of an object that was read are distinct. -/
def asDict : Json ν → Option (Dict ν)
  | .obj fields => if h : distinct (.obj fields) = true then some ⟨fields, h⟩ else none
  | _ => none

@[simp] theorem asDict_obj (data : Dict ν) : asDict (.obj data.1) = some data := dif_pos data.2

/-- `envelope_from_frame`: neither the event nor the id of the frame enters the envelope. -/
def envelopeFromFrame [NumberText ν] [PyNumber ν φ] (_event data : List Char)
    (_frameId : Option (List Char)) : Option (EventEnvelope ν φ) := do
  let .obj payload ← loads (ν := ν) data | none
  let v ← PyNumber.asInt φ ((payload.lookup "v").getD (.num (PyNumber.ofInt φ 1)))
  let streamId ← asStr (← payload.lookup "stream_id")
  let stage ← asOptionalStr ((payload.lookup "stage").getD .null)
  let seq ← PyNumber.asInt φ (← payload.lookup "seq")
  let ts ← PyNumber.asFloat (← payload.lookup "ts")
  let data ← asDict (← payload.lookup "data")
  return { v, streamId, stage, seq, ts, data }

end Orditect.Stream
