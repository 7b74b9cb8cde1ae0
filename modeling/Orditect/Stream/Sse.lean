import Orditect.Support.Lines
import Orditect.Support.Utf8
import Orditect.Stream.Events
/-!
# Server-sent events

Both ends of the wire: how `SSEFrame` writes an event as bytes, and how `SSEClient` makes
frames of the chunks of bytes it receives.
-/

namespace Orditect.Stream

open Support Support.JsonText Support.Lines

/-! ## Writing -/

structure SSEFrame where
  event : List Char
  data : List Char
  id : Option (List Char) := none
  comment : Option (List Char) := none

def commentLines (comment : List Char) : List (List Char) :=
  match lines isBoundary (universalNewlines comment) with
  | [] => [[]]
  | ls => ls

def SSEFrame.lines (f : SSEFrame) : List (List Char) :=
  match f.comment with
  | some comment => (commentLines comment).map fun line => ':' :: line
  | none =>
    (f.id.toList.map fun id => "id: ".toList ++ id) ++ ["event: ".toList ++ f.event] ++
      ((universalNewlines f.data).splitOn '\n').map fun line => "data: ".toList ++ line

def SSEFrame.encode (f : SSEFrame) : List UInt8 :=
  Utf8.encode (List.intercalate ['\n'] f.lines ++ ['\n', '\n'])

section

variable {ν φ : Type} [NumberText ν] [PyNumber ν φ]

def frameFromEnvelope (envelope : EventEnvelope ν φ) (eventType : EventType) : SSEFrame where
  event := eventType.value.toList
  data := dumps (.obj envelope.toPayload)
  id := some envelope.sseId

def heartbeatFrame : SSEFrame where
  event := []
  data := []
  comment := some "ping".toList

def encodeEnvelope (envelope : EventEnvelope ν φ) (eventType : EventType) : List UInt8 :=
  (frameFromEnvelope envelope eventType).encode

def encodeHeartbeat : List UInt8 := heartbeatFrame.encode

end

/-! ## Reading -/

structure RawSSEFrame where
  event : List Char := "message".toList
  dataLines : List (List Char) := []
  id : Option (List Char) := none
  deriving DecidableEq

def RawSSEFrame.data (f : RawSSEFrame) : List Char := List.intercalate ['\n'] f.dataLines

inductive LineKind where
  | boundary
  | comment
  | event (value : List Char)
  | id (value : List Char)
  | data (value : List Char)
  | other
  deriving DecidableEq

def rstripNewlines (line : List Char) : List Char :=
  line.rdropWhile fun c => c == '\r' || c == '\n'

def dropSpace : List Char → List Char
  | ' ' :: value => value
  | value => value

def LineKind.of (line : List Char) : LineKind :=
  let line := rstripNewlines line
  if line = [] then .boundary
  else if ":".toList.isPrefixOf line then .comment
  else if "event:".toList.isPrefixOf line then .event (strip (line.drop 6))
  else if "id:".toList.isPrefixOf line then .id (strip (line.drop 3))
  else if "data:".toList.isPrefixOf line then .data (dropSpace (line.drop 5))
  else .other

def RawSSEFrame.complete (cur : RawSSEFrame) : Bool :=
  !cur.dataLines.isEmpty || !(cur.id.getD []).isEmpty || cur.event != "message".toList

def RawSSEFrame.close (cur : RawSSEFrame) : RawSSEFrame × Option RawSSEFrame :=
  if cur.complete then ({}, some cur) else (cur, none)

/-- `feed_line`: the frame in the making after the line, and the frame the line completes. -/
def feedLine (cur : RawSSEFrame) (line : List Char) : RawSSEFrame × Option RawSSEFrame :=
  match LineKind.of line with
  | .boundary => cur.close
  | .comment => (cur, none)
  | .event value => ({ cur with event := value }, none)
  | .id value => ({ cur with id := some value }, none)
  | .data value => ({ cur with dataLines := cur.dataLines ++ [value] }, none)
  | .other => (cur, none)

/-- `buffer.split("\n", 1)` of a buffer with a newline. -/
def splitNewline : List Char → Option (List Char × List Char)
  | [] => none
  | c :: cs =>
    if isNewline c then some ([], cs) else (splitNewline cs).map fun p => (c :: p.1, p.2)

theorem splitNewline_eq {buffer line rest : List Char}
    (h : splitNewline buffer = some (line, rest)) :
    buffer = line ++ '\n' :: rest ∧ ∀ c ∈ line, isNewline c = false := by
  induction buffer generalizing line with
  | nil => simp [splitNewline] at h
  | cons c cs ih =>
    rw [splitNewline] at h
    split at h
    next hc =>
      obtain ⟨rfl, rfl⟩ := Prod.mk.inj (Option.some.inj h)
      rw [isNewline, beq_iff_eq] at hc
      exact ⟨by rw [hc]; rfl, by simp⟩
    next hc =>
      obtain ⟨⟨line', rest'⟩, hp, heq⟩ := Option.map_eq_some_iff.mp h
      obtain ⟨rfl, rfl⟩ := Prod.mk.inj heq
      obtain ⟨hcs, hline⟩ := ih hp
      exact ⟨by rw [hcs]; rfl, List.forall_mem_cons.mpr ⟨by simpa using hc, hline⟩⟩

theorem length_splitNewline {buffer line rest : List Char}
    (h : splitNewline buffer = some (line, rest)) : rest.length < buffer.length := by
  rw [(splitNewline_eq h).1, List.length_append, List.length_cons]
  omega

/-- The inner loop of `parse`: the lines that are complete are fed to the parser.  The frame in
the making, the rest of the buffer and the frames that were completed. -/
def drainLines (cur : RawSSEFrame) (buffer : List Char) :
    RawSSEFrame × List Char × List RawSSEFrame :=
  match _h : splitNewline buffer with
  | none => (cur, buffer, [])
  | some (line, rest) =>
    let fed := feedLine cur line
    let drained := drainLines fed.1 rest
    (drained.1, drained.2.1, fed.2.toList ++ drained.2.2)
termination_by buffer.length
decreasing_by exact length_splitNewline _h

/-- The loop over the chunks, each of them decoded for itself; what is left in the buffer at the
end is one more line. -/
def parseChunks (cur : RawSSEFrame) (buffer : List Char) : List (List UInt8) → List RawSSEFrame
  | [] => if buffer = [] then [] else (feedLine cur buffer).2.toList
  | chunk :: chunks =>
    let drained := drainLines cur (buffer ++ Utf8.decode chunk)
    drained.2.2 ++ parseChunks drained.1 drained.2.1 chunks

def parse (byteStream : List (List UInt8)) : List RawSSEFrame := parseChunks {} [] byteStream

/-- `SSEClient.aparse`: the same loop over the chunks as they are awaited. -/
def aparse (byteStream : List (List UInt8)) : List RawSSEFrame := parseChunks {} [] byteStream

end Orditect.Stream
