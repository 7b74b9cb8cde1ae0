import Mathlib.Data.List.DropRight
import Orditect.Support.JsonText
/-!
# The content parts of the adapters

`MemoryContentPart` numbers what is put, `LocalContentPart` keeps it in files that are named by
their digest.  Both serve one call at a time.  Texts are lists of characters, and a sidecar is the
dictionary that its file has in JSON.
-/

namespace Orditect.Content

open Support.JsonText Support.LuaJson

abbrev Bytes := List (Fin 256)

abbrev Metadata (ν : Type) := List (String × Json ν)

inductive Call (ν : Type) where
  | put (content : Bytes) (contentType : Option String) (metadata : Metadata ν)
  | delete (key : List Char)

variable {ν : Type}

def stored (contentType : Option String) (metadata : Metadata ν) : Metadata ν :=
  match contentType with
  | none => metadata
  | some text => setItem metadata ("content_type", .str text)

/-! ## In memory -/

structure Memory (ν : Type) where
  data : List Char → Option (Bytes × Metadata ν) := fun _ => none
  seq : Nat := 0

namespace Memory

def key (seq : Nat) : List Char := "mem://content/".toList ++ (toString seq).toList

def put (m : Memory ν) (content : Bytes) (contentType : Option String) (metadata : Metadata ν) :
    List Char × Memory ν :=
  let k := key (m.seq + 1)
  (k, ⟨Function.update m.data k (some (content, stored contentType metadata)), m.seq + 1⟩)

def delete (m : Memory ν) (k : List Char) : Memory ν :=
  { m with data := Function.update m.data k none }

def get (m : Memory ν) (k : List Char) : Option Bytes := (m.data k).map Prod.fst

def getMetadata (m : Memory ν) (k : List Char) : Option (Metadata ν) := (m.data k).map Prod.snd

def call (m : Memory ν) : Call ν → Memory ν
  | .put content contentType metadata => (m.put content contentType metadata).2
  | .delete k => m.delete k

end Memory

/-! ## In files -/

/-- What is assumed of `hashlib.sha256(…).hexdigest()`. -/
structure Sha256 where
  hexdigest : Bytes → List Char
  injective : Function.Injective hexdigest
  alphanumeric : ∀ content, ∀ c ∈ hexdigest content, c.isAlphanum = true
  long : ∀ content, 2 ≤ (hexdigest content).length

inductive File (ν : Type) where
  | blob (content : Bytes)
  | sidecar (metadata : Metadata ν)

/-- A file by its directory and its name. -/
abbrev Files (ν : Type) := List Char × List Char → Option (File ν)

namespace Local

def blobPath (digest : List Char) : List Char × List Char := (digest.take 2, digest)

def metaPath (digest : List Char) : List Char × List Char :=
  (digest.take 2, digest ++ ".meta.json".toList)

def key (digest : List Char) : List Char :=
  "sha256/".toList ++ digest.take 2 ++ '/' :: digest

def digestOf (k : List Char) : List Char := k.rtakeWhile (· ≠ '/')

def putBlob (sha : Sha256) (s : Files ν) (content : Bytes) : Files ν :=
  let path := blobPath (sha.hexdigest content)
  if (s path).isSome then s else Function.update s path (some (.blob content))

def putMeta (s : Files ν) (digest : List Char) (given : Metadata ν) : Files ν :=
  if !given.isEmpty || (s (metaPath digest)).isNone then
    Function.update s (metaPath digest) (some (.sidecar given))
  else s

def put (sha : Sha256) (s : Files ν) (content : Bytes) (contentType : Option String)
    (metadata : Metadata ν) : List Char × Files ν :=
  let digest := sha.hexdigest content
  (key digest, putMeta (putBlob sha s content) digest (stored contentType metadata))

def delete (s : Files ν) (k : List Char) : Files ν :=
  Function.update (Function.update s (blobPath (digestOf k)) none) (metaPath (digestOf k)) none

def get (s : Files ν) (k : List Char) : Option (File ν) := s (blobPath (digestOf k))

def sidecar (s : Files ν) (digest : List Char) : Metadata ν :=
  match s (metaPath digest) with
  | some (.sidecar metadata) => metadata
  | _ => []

def getMetadata (s : Files ν) (k : List Char) : Option (Metadata ν) :=
  if (s (blobPath (digestOf k))).isSome then some (sidecar s (digestOf k)) else none

def call (sha : Sha256) (s : Files ν) : Call ν → Files ν
  | .put content contentType metadata => (put sha s content contentType metadata).2
  | .delete k => delete s k

end Local

end Orditect.Content
