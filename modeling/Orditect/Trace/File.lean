import Orditect.Support.Instant
import Orditect.Support.JsonText
import Orditect.Support.Lines
/-!
# Trace files

`append_envelope` and `iter_envelopes` of the local adapter and `_read_ndjson` of the trace
reader: one JSON object a line.  A file is the text it holds.
-/

namespace Orditect.Trace

open Support.Instant Support.JsonText Support.Lines Support.LuaJson

variable {ν : Type} [NumberText ν] [LuaNumber ν]

/-- What a row is written from: the arguments of `append_envelope` and its clock. -/
structure Envelope (ν : Type) where
  op : String
  ts : DateTime
  data : Dict ν

def Envelope.row (e : Envelope ν) : List (String × Json ν) :=
  [("v", .num (LuaNumber.ofNat 1)), ("op", .str e.op), ("ts", .str e.ts.isoformat),
    ("data", .obj e.data.1)]

def appendEnvelope (file : List Char) (e : Envelope ν) : List Char :=
  file ++ (dumps (.obj e.row) ++ ['\n'])

/-- The row of a line, as both readers take it: no row where the line is blank, is not JSON or
has no data. -/
def loadRow (line : List Char) : Option (List (String × Json ν)) :=
  if strip line = [] then none
  else
    match loads (ν := ν) (strip line) with
    | some (.obj row) =>
      match row.lookup "data" with
      | some (.obj _) => some row
      | _ => none
    | _ => none

def iterEnvelopes (file : List Char) : List (List (String × Json ν)) :=
  (lines isNewline (universalNewlines file)).filterMap loadRow

/-- `row["data"]`.  What `_normalize_row` changes are `datetime` values, which no file has. -/
def rowData (row : List (String × Json ν)) : Option (List (String × Json ν)) :=
  match row.lookup "data" with
  | some (.obj data) => some data
  | _ => none

def readNdjson (file : List Char) : List (List (String × Json ν)) :=
  (lines isBoundary (universalNewlines file)).filterMap fun line => (loadRow line).bind rowData

end Orditect.Trace
