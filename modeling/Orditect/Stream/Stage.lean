import Orditect.Stream.Marker
/-!
# A single stage

`StageRunner` takes the chunks of its source apart, keeps thinking and references out of the
text, sends the text through the marker detector and aggregates what comes out.
-/

namespace Orditect.Stream

variable {ρ τ : Type}

inductive ThinkingMode where
  | inline
  | separate
  | suppress
  deriving DecidableEq

inductive StageSource (ρ : Type) where
  | llm (chunks : List (SourceChunk ρ))
  | passthrough (content : Option (List Char))
  | replay (chunks : List (SourceChunk ρ))

/-- `_source_chunks`: every source ends with a finish chunk. -/
def StageSource.chunks : StageSource ρ → List (SourceChunk ρ)
  | .llm chunks => if chunks.any (·.finish) then chunks else chunks ++ [{ finish := true }]
  | .passthrough content => [{ text := some (content.getD []) }, { finish := true }]
  | .replay chunks => chunks ++ [{ finish := true }]

/-- `ChunkSplitter.process`: one field in each chunk. -/
def splitChunks (chunks : List (SourceChunk ρ)) : List (SourceChunk ρ) :=
  chunks.flatMap fun chunk =>
    (chunk.references.toList.map fun references => { references := some references }) ++
      (chunk.thinking.toList.map fun thinking => { thinking := some thinking }) ++
      (chunk.text.toList.map fun text => { text := some text }) ++
      if chunk.finish then [{ finish := true }] else []

def demux (mode : ThinkingMode) (chunks : List (SourceChunk ρ)) : List (SourceChunk ρ) :=
  chunks.filter fun chunk => chunk.thinking.isNone || decide (mode = .inline)

/-- `pop_collected`: the thinking that was pulled before the end of the source. -/
def popCollected (mode : ThinkingMode) (chunks : List (SourceChunk ρ)) : List Char :=
  if mode = .separate then
    (chunks.takeWhile fun chunk => !chunk.finish).flatMap fun chunk => chunk.thinking.getD []
  else []

/-- `_intercept_thinking_and_refs`: neither of them enters the detector. -/
def interceptThinkingAndRefs (chunks : List (SourceChunk ρ)) : List (SourceChunk ρ) :=
  chunks.filter fun chunk => chunk.thinking.isNone && chunk.references.isNone

structure StageOutcome where
  content : List Char := []
  thinking : List Char := []
  hits : List MarkerHit := []

/-- A turn of the loop of `run` that is not cancelled: the hits of the chunk are placed behind
its text. -/
def StageOutcome.add (outcome : StageOutcome) (marked : MarkedChunk) : StageOutcome :=
  let content := outcome.content ++ marked.text.getD []
  { outcome with
    content := content
    hits := outcome.hits ++ marked.hits.map fun hit => { hit with charOffset := content.length } }

/-- The loop of `run`: it ends with the finish chunk. -/
def StageOutcome.collect : StageOutcome → List MarkedChunk → StageOutcome
  | outcome, [] => outcome
  | outcome, marked :: rest =>
    if marked.finish then outcome.add marked else (outcome.add marked).collect rest

structure StageRunner (τ : Type) where
  detector : MarkerDetector τ
  thinkingMode : ThinkingMode

def StageRunner.detectorInput (stage : StageRunner τ) (source : StageSource ρ) :
    List (SourceChunk ρ) :=
  interceptThinkingAndRefs (demux stage.thinkingMode (splitChunks source.chunks))

/-- `StageRunner.run` without cancellation. -/
def StageRunner.run [Sub τ] [LT τ] [DecidableLT τ] (stage : StageRunner τ) (clock : Nat → τ)
    (source : StageSource ρ) : StageOutcome :=
  let outcome := StageOutcome.collect {}
    (stage.detector.process clock (stage.detectorInput source))
  { outcome with thinking := popCollected stage.thinkingMode (splitChunks source.chunks) }

end Orditect.Stream
