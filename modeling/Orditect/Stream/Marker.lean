import Orditect.Support.Lines
import Orditect.Support.Occurrences
/-!
# Placeholder markers in a stream of text

`MarkerDetector` reads the chunks of a source and cuts the complete markers out of their
text.  Text is buffered: it leaves the buffer when a marker behind it is complete, when the
buffer is long and has a good place to cut, when too much time has passed, and at the end.
A tail of the buffer that may still become a marker is held back.
-/

namespace Orditect.Stream

open Support.Lines Support.Occurrences

structure SourceChunk (ρ : Type) where
  text : Option (List Char) := none
  thinking : Option (List Char) := none
  references : Option ρ := none
  finish : Bool := false

structure MarkerHit where
  contextText : List Char
  placeholderId : Option String := none
  charOffset : Nat := 0

structure MarkedChunk where
  text : Option (List Char) := none
  hits : List MarkerHit := []
  finish : Bool := false

inductive ContextStrategy where
  | paragraph
  | heading
  | full
  deriving DecidableEq

/-- The clock is read in values of `τ`. -/
structure MarkerDetector (τ : Type) where
  marker : List Char
  marker_ne_nil : marker ≠ []
  flushThreshold : Int
  flushTimeout : τ
  contextStrategy : ContextStrategy

/-! ## The patterns -/

def suffixesAfter (p : Char → Bool) : List Char → List (List Char)
  | [] => []
  | c :: text => if p c then text :: suffixesAfter p text else suffixesAfter p text

def lineSuffixes (text : List Char) : List (List Char) := text :: suffixesAfter isNewline text

/-- `#{1,6}` and then a character that meets `sep`. -/
def isHeading (sep : Char → Bool) (line : List Char) : Bool :=
  let signs := (line.takeWhile (· == '#')).length
  decide (1 ≤ signs) && decide (signs ≤ 6) && (line.drop signs).head?.any sep

/-- `_FLUSH_TRIGGER_RE.search`: a line end that is not followed by an image, or a heading. -/
def flushTrigger (text : List Char) : Bool :=
  (suffixesAfter (fun c => c == '\r' || c == '\n') text).any
      (fun rest => !(['!', '['].isPrefixOf (rest.dropWhile isSpace))) ||
    (lineSuffixes text).any (isHeading (· == ' '))

namespace MarkerDetector

variable {τ : Type}

def extractContext (d : MarkerDetector τ) (preceding : List Char) : List Char :=
  let text := strip preceding
  match d.contextStrategy with
  | .full => text
  | .heading =>
    match ((lineSuffixes text).filter (isHeading isSpace)).getLast? with
    | some heading => strip heading
    | none => text
  | .paragraph =>
    match ((lines isNewline text).filter fun line => !(strip line).isEmpty).getLast? with
    | some paragraph => strip paragraph
    | none => []

/-- `_rtrim_partial_marker`: the longest tail that begins a marker is held back. -/
def rtrimPartialMarker (d : MarkerDetector τ) (s : List Char) : List Char × List Char :=
  match (List.range' 1 (d.marker.length - 1)).reverse.find? fun i =>
      (d.marker.take i).isSuffixOf s with
  | some i => (s.take (s.length - i), s.drop (s.length - i))
  | none => (s, [])

def yieldText (text : List Char) : List MarkedChunk :=
  if text.isEmpty then [] else [{ text := some text }]

theorem length_drop_marker (d : MarkerDetector τ) {buffer : List Char} {pos : Nat}
    (h : find d.marker buffer = some pos) :
    (buffer.drop (pos + d.marker.length)).length < buffer.length := by
  obtain ⟨before, after, rfl, -, -⟩ := find_eq_some h
  have hpos := List.length_pos_iff.mpr d.marker_ne_nil
  simp only [List.length_drop, List.length_append]
  omega

/-- The loop over the complete markers in the buffer: what it yields, and the rest. -/
def takeMarkers (d : MarkerDetector τ) (buffer : List Char) : List MarkedChunk × List Char :=
  match _h : find d.marker buffer with
  | none => ([], buffer)
  | some pos =>
    let preceding := buffer.take pos
    let (out, rest) := d.takeMarkers (buffer.drop (pos + d.marker.length))
    (yieldText preceding ++ { hits := [{ contextText := d.extractContext preceding }] } :: out,
      rest)
termination_by buffer.length
decreasing_by exact d.length_drop_marker _h

def drainBuffer (d : MarkerDetector τ) (buffer : List Char) : List MarkedChunk :=
  let (out, rest) := d.takeMarkers buffer
  out ++ yieldText rest

/-- What `process` keeps between two chunks. -/
structure Pending (τ : Type) where
  buffer : List Char
  lastFlush : τ

variable [Sub τ] [LT τ] [DecidableLT τ] {ρ : Type}

/-- The turn of `process` for a chunk with text, read at `now`. -/
def feed (d : MarkerDetector τ) (now : τ) (text : List Char) (s : Pending τ) :
    List MarkedChunk × Pending τ :=
  let (out, buffer) := d.takeMarkers (s.buffer ++ text)
  let lastFlush := if out.isEmpty then s.lastFlush else now
  if decide (d.flushThreshold ≤ buffer.length) && flushTrigger buffer ||
      decide (d.flushTimeout < now - lastFlush) then
    let (safe, pending) := d.rtrimPartialMarker buffer
    if safe.isEmpty then (out, ⟨buffer, lastFlush⟩)
    else (out ++ [{ text := some safe }], ⟨pending, now⟩)
  else (out, ⟨buffer, lastFlush⟩)

/-- The loop of `process`; `clock` gives the readings of the clock, of which `n` were taken. -/
def processFrom (d : MarkerDetector τ) (clock : Nat → τ) :
    Nat → Pending τ → List (SourceChunk ρ) → List MarkedChunk
  | _, s, [] => d.drainBuffer s.buffer ++ [{ finish := true }]
  | n, s, chunk :: chunks =>
    if chunk.finish then d.drainBuffer s.buffer ++ [{ finish := true }]
    else
      match chunk.text with
      | none => d.processFrom clock n s chunks
      | some text =>
        let (out, s) := d.feed (clock n) text s
        out ++ d.processFrom clock (n + 1) s chunks

def process (d : MarkerDetector τ) (clock : Nat → τ) (chunks : List (SourceChunk ρ)) :
    List MarkedChunk :=
  d.processFrom clock 1 ⟨[], clock 0⟩ chunks

end MarkerDetector

end Orditect.Stream
