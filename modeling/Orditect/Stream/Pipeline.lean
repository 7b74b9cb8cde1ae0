import Orditect.Support.Lines
/-!
# The text pipeline

Middlewares between a source of text and its sink.  Each one is an asynchronous generator
that reads chunks and yields chunks, and keeps little between two of them.
-/

namespace Orditect.Stream

open Support.Lines

namespace NewlineNormalizer

/-- `_MULTI_NL_RE.sub("\n", t)`: of a run of newlines the last one is kept. -/
def mergeNewlines : List Char → List Char
  | [] => []
  | c :: cs =>
    if c = '\n' ∧ cs.head? = some '\n' then mergeNewlines cs else c :: mergeNewlines cs

def feed (pendingNl : Bool) (chunk : List Char) : List Char × Bool :=
  let t := mergeNewlines (universalNewlines chunk)
  let t := if pendingNl then '\n' :: t.dropWhile isNewline else t
  if t.getLast? = some '\n' then (t.dropLast, true) else (t, false)

def processFrom (pendingNl : Bool) : List (List Char) → List (List Char)
  | [] => []
  | chunk :: chunks =>
    let (t, pendingNl) := feed pendingNl chunk
    if t = [] then processFrom pendingNl chunks else t :: processFrom pendingNl chunks

def process (chunks : List (List Char)) : List (List Char) := processFrom false chunks

end NewlineNormalizer

namespace TailCleaner

/-- `_WS_ONLY_RE.fullmatch(chunk)` -/
def wsOnly (chunk : List Char) : Bool := chunk.all isSpace

def processFrom (buffer : List (List Char)) : List (List Char) → List (List Char)
  | [] => []
  | chunk :: chunks =>
    if wsOnly chunk then processFrom (buffer ++ [chunk]) chunks
    else buffer ++ chunk :: processFrom [] chunks

def process (chunks : List (List Char)) : List (List Char) := processFrom [] chunks

end TailCleaner

end Orditect.Stream
