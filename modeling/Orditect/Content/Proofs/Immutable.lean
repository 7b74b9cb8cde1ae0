import Mathlib.Logic.Equiv.List
import Orditect.Content.Parts
/-!
# Content that was put stays

In memory every `put` has an entry of its own.  In files all puts of the same bytes share a blob
and a sidecar, and a key names a file by its last segment only.
-/

namespace Orditect.Content.Proofs

open Support.LuaJson
open Local (blobPath metaPath digestOf putBlob putMeta sidecar)

variable {ν σ : Type} {content : Bytes} {given : Metadata ν} {act : σ → Call ν → σ} {P : σ → Prop}

def Throughout (act : σ → Call ν → σ) (P : σ → Prop) : σ → List (Call ν) → Prop
  | s, [] => P s
  | s, c :: calls => P s ∧ Throughout act P (act s c) calls

theorem Throughout.start {s : σ} {calls : List (Call ν)} (h : Throughout act P s calls) : P s := by
  cases calls with
  | nil => exact h
  | cons c calls => exact h.1

/-- The rule: where `I` is kept, each call keeps `P` exactly if it is harmless. -/
theorem throughout_iff {I : σ → Prop} {harmless : Call ν → Prop}
    (hkeeps : ∀ s c, I s → I (act s c)) (hact : ∀ s c, I s → P s → (P (act s c) ↔ harmless c))
    {s : σ} (hI : I s) (hs : P s) (calls : List (Call ν)) :
    Throughout act P s calls ↔ ∀ c ∈ calls, harmless c := by
  induction calls generalizing s with
  | nil => simp [Throughout, hs]
  | cons c calls ih =>
    rw [List.forall_mem_cons, Throughout]
    constructor
    · rintro ⟨-, h⟩
      exact ⟨(hact s c hI hs).mp h.start, (ih (hkeeps s c hI) h.start).mp h⟩
    · rintro ⟨hc, h⟩
      exact ⟨hs, (ih (hkeeps s c hI) ((hact s c hI hs).mpr hc)).mpr h⟩

/-! ## In memory -/

def MemoryServes (key : List Char) (content : Bytes) (given : Metadata ν) (m : Memory ν) : Prop :=
  m.get key = some content ∧ m.getMetadata key = some given

theorem memoryServes_iff {key : List Char} {m : Memory ν} :
    MemoryServes key content given m ↔ m.data key = some (content, given) := by
  cases h : m.data key <;> simp [MemoryServes, Memory.get, Memory.getMetadata, h, Prod.ext_iff]

theorem key_injective : Function.Injective Memory.key := by
  intro a b h
  have hdigits : Nat.toDigits 10 a = Nat.toDigits 10 b := by
    rw [← Nat.toList_repr, ← Nat.toList_repr]
    exact List.append_cancel_left h
  exact Nat.ofDigitChars_ten_toDigits.symm.trans (hdigits ▸ Nat.ofDigitChars_ten_toDigits)

theorem seq_le_call {seq : Nat} (m : Memory ν) (c : Call ν) (h : seq ≤ m.seq) :
    seq ≤ (m.call c).seq := by
  cases c with
  | put => exact Nat.le_succ_of_le h
  | delete => exact h

theorem memoryServes_call {seq : Nat} (m : Memory ν) (c : Call ν) (hseq : seq ≤ m.seq)
    (h : MemoryServes (Memory.key seq) content given m) :
    MemoryServes (Memory.key seq) content given (m.call c) ↔ c ≠ .delete (Memory.key seq) := by
  rw [memoryServes_iff] at h ⊢
  cases c with
  | put content' contentType metadata =>
    have hne : Memory.key seq ≠ Memory.key (m.seq + 1) := fun heq => by
      have := key_injective heq
      omega
    refine ⟨fun _ => nofun, fun _ => ?_⟩
    exact (Function.update_of_ne hne _ _).trans h
  | delete k =>
    by_cases hk : k = Memory.key seq
    · simp [Memory.call, Memory.delete, hk]
    · simp [Memory.call, Memory.delete, Function.update_of_ne (Ne.symm hk), hk, h]

/-! ## In files -/

theorem sha256_exists : Nonempty Sha256 := by
  obtain ⟨f, hf⟩ := exists_injective_nat Bytes
  refine ⟨fun content => List.replicate (f content + 2) 'a', fun a b h => hf ?_, ?_, by simp⟩
  · simpa using congrArg List.length h
  · intro content c hc
    rw [List.eq_of_mem_replicate hc]
    decide

variable (sha : Sha256)

def LocalServes (content : Bytes) (given : Metadata ν) (s : Files ν) : Prop :=
  Local.get s (Local.key (sha.hexdigest content)) = some (.blob content) ∧
    Local.getMetadata s (Local.key (sha.hexdigest content)) = some given

def Harmless (content : Bytes) (given : Metadata ν) : Call ν → Prop
  | .put content' contentType metadata =>
    content' = content → stored contentType metadata = [] ∨ stored contentType metadata = given
  | .delete k =>
    digestOf k ≠ sha.hexdigest content ∧
      (digestOf k = sha.hexdigest content ++ ".meta.json".toList → given = [])

section Paths

variable {sha} {a b : List Char}

theorem not_mem_hexdigest {c : Char} (hc : c.isAlphanum = false) : c ∉ sha.hexdigest content :=
  fun hmem => Bool.noConfusion (hc.symm.trans (sha.alphanumeric content c hmem))

theorem digestOf_append (hb : '/' ∉ b) : digestOf (a ++ '/' :: b) = b := by
  have hslash : ∀ c ∈ b.reverse, decide (c ≠ '/') = true := by
    intro c hc
    refine decide_eq_true fun heq => hb ?_
    rwa [heq, List.mem_reverse] at hc
  rw [digestOf, List.rtakeWhile, List.reverse_append, List.reverse_cons, List.append_assoc,
    List.takeWhile_append_of_pos hslash]
  simp

theorem digestOf_key : digestOf (Local.key (sha.hexdigest content)) = sha.hexdigest content :=
  digestOf_append (not_mem_hexdigest (by decide))

theorem blobPath_eq_iff : blobPath a = blobPath b ↔ a = b := ⟨congrArg Prod.snd, congrArg _⟩

theorem metaPath_eq_iff : metaPath a = metaPath b ↔ a = b :=
  ⟨fun h => List.append_cancel_right (congrArg Prod.snd h), congrArg _⟩

theorem blobPath_ne_metaPath : blobPath (sha.hexdigest content) ≠ metaPath a := by
  intro h
  have hdot : '.' ∈ sha.hexdigest content := by
    rw [show sha.hexdigest content = _ from congrArg Prod.snd h]
    exact List.mem_append_right _ (by decide)
  exact not_mem_hexdigest (by decide) hdot

theorem metaPath_eq_blobPath_iff :
    metaPath (sha.hexdigest content) = blobPath a ↔
      a = sha.hexdigest content ++ ".meta.json".toList := by
  constructor
  · intro h
    exact (congrArg Prod.snd h).symm
  · rintro rfl
    rw [metaPath, blobPath, List.take_append_of_le_length (sha.long content)]

theorem localServes_iff {s : Files ν} :
    LocalServes sha content given s ↔
      s (blobPath (sha.hexdigest content)) = some (.blob content) ∧
        sidecar s (sha.hexdigest content) = given := by
  rw [LocalServes, Local.get, Local.getMetadata, digestOf_key]
  refine and_congr_right fun hblob => ?_
  simp [hblob]

end Paths

theorem sidecar_congr {s s' : Files ν} {digest : List Char}
    (h : s' (metaPath digest) = s (metaPath digest)) : sidecar s' digest = sidecar s digest := by
  rw [sidecar, sidecar, h]

section Put

variable {s : Files ν} {path : List Char × List Char} {content' : Bytes}

theorem putBlob_of_ne {sha : Sha256} (h : path ≠ blobPath (sha.hexdigest content')) :
    putBlob sha s content' path = s path := by
  unfold putBlob
  split_ifs
  · rfl
  · exact Function.update_of_ne h _ _

theorem putMeta_of_ne {digest : List Char} (h : path ≠ metaPath digest) :
    putMeta s digest given path = s path := by
  unfold putMeta
  split_ifs
  · exact Function.update_of_ne h _ _
  · rfl

end Put

variable (s : Files ν) (contentType : Option String) (metadata : Metadata ν)

theorem blob_put (content' : Bytes) :
    (Local.put sha s content' contentType metadata).2 (blobPath (sha.hexdigest content)) =
      if content' = content then
        (s (blobPath (sha.hexdigest content))).or (some (.blob content))
      else s (blobPath (sha.hexdigest content)) := by
  refine (putMeta_of_ne blobPath_ne_metaPath).trans ?_
  split_ifs with hsame
  · subst hsame
    cases hold : s (blobPath (sha.hexdigest content')) <;> simp [putBlob, hold]
  · exact putBlob_of_ne fun h => hsame (sha.injective (blobPath_eq_iff.mp h)).symm

theorem sidecar_put (content' : Bytes) :
    sidecar (Local.put sha s content' contentType metadata).2 (sha.hexdigest content) =
      if content' = content ∧ stored contentType metadata ≠ [] then stored contentType metadata
      else sidecar s (sha.hexdigest content) := by
  have hblob : putBlob sha s content' (metaPath (sha.hexdigest content)) =
      s (metaPath (sha.hexdigest content)) := putBlob_of_ne (Ne.symm blobPath_ne_metaPath)
  by_cases hsame : content' = content
  · subst hsame
    rw [← sidecar_congr hblob, Local.put]
    by_cases hgiven : stored contentType metadata = []
    · cases hold : putBlob sha s content' (metaPath (sha.hexdigest content')) <;>
        simp [sidecar, putMeta, hgiven, hold]
    · simp [sidecar, putMeta, hgiven]
  · rw [if_neg fun h : _ ∧ _ => hsame h.1]
    refine sidecar_congr ((putMeta_of_ne fun h => hsame ?_).trans hblob)
    exact (sha.injective (metaPath_eq_iff.mp h)).symm

variable {s} {sha}

theorem blob_delete (k : List Char) :
    Local.delete s k (blobPath (sha.hexdigest content)) =
      if digestOf k = sha.hexdigest content then none
      else s (blobPath (sha.hexdigest content)) := by
  rw [Local.delete, Function.update_of_ne blobPath_ne_metaPath, Function.update_apply]
  simp only [blobPath_eq_iff, eq_comm]

theorem sidecar_delete (k : List Char) (hk : digestOf k ≠ sha.hexdigest content) :
    sidecar (Local.delete s k) (sha.hexdigest content) =
      if digestOf k = sha.hexdigest content ++ ".meta.json".toList then []
      else sidecar s (sha.hexdigest content) := by
  have hfile : Local.delete s k (metaPath (sha.hexdigest content)) =
      if digestOf k = sha.hexdigest content ++ ".meta.json".toList then none
      else s (metaPath (sha.hexdigest content)) := by
    rw [Local.delete, Function.update_of_ne fun h => hk (metaPath_eq_iff.mp h).symm,
      Function.update_apply]
    simp only [metaPath_eq_blobPath_iff]
  rw [sidecar, hfile]
  split_ifs <;> rfl

theorem localServes_call (c : Call ν) (h : LocalServes sha content given s) :
    LocalServes sha content given (Local.call sha s c) ↔ Harmless sha content given c := by
  obtain ⟨hblob, hside⟩ := localServes_iff.mp h
  rw [localServes_iff]
  cases c with
  | put content' contentType metadata =>
    simp only [Local.call, blob_put, sidecar_put, hblob, hside, Harmless]
    by_cases hsame : content' = content
    · by_cases hgiven : stored contentType metadata = [] <;> simp [hsame, hgiven]
    · simp [hsame]
  | delete k =>
    simp only [Local.call, blob_delete, hblob, Harmless]
    by_cases hk : digestOf k = sha.hexdigest content
    · simp [hk]
    · rw [sidecar_delete k hk, hside]
      by_cases hmeta : digestOf k = sha.hexdigest content ++ ".meta.json".toList
      · rw [if_neg hk, if_pos hmeta]
        exact ⟨fun h => ⟨hk, fun _ => h.2.symm⟩, fun h => ⟨rfl, (h.2 hmeta).symm⟩⟩
      · rw [if_neg hk, if_neg hmeta]
        exact ⟨fun _ => ⟨hk, fun h => absurd h hmeta⟩, fun _ => ⟨rfl, rfl⟩⟩

def Addressed (sha : Sha256) (s : Files ν) : Prop :=
  ∀ content file, s (blobPath (sha.hexdigest content)) = some file → file = .blob content

theorem Addressed.call (h : Addressed sha s) (c : Call ν) : Addressed sha (Local.call sha s c) := by
  intro content file hfile
  cases c with
  | put content' contentType metadata =>
    rw [Local.call, blob_put] at hfile
    cases hold : s (blobPath (sha.hexdigest content)) with
    | none => grind
    | some old =>
      rw [hold, Option.some_or, ite_self] at hfile
      exact h content file (hold.trans hfile)
  | delete k =>
    rw [Local.call, blob_delete] at hfile
    split_ifs at hfile
    exact h content file hfile

def Local.after (sha : Sha256) (calls : List (Call ν)) : Files ν :=
  calls.foldl (Local.call sha) fun _ => none

theorem addressed_after (calls : List (Call ν)) : Addressed sha (Local.after sha calls) :=
  List.foldlRecOn calls _ (fun _ _ h => nomatch h) fun _ h c _ => h.call c

theorem localServes_put (h : Addressed sha s) :
    LocalServes sha content (stored contentType metadata)
        (Local.put sha s content contentType metadata).2 ↔
      stored contentType metadata ≠ [] ∨ sidecar s (sha.hexdigest content) = [] := by
  have hblob : (s (blobPath (sha.hexdigest content))).or (some (.blob content)) =
      some (.blob content) := by
    cases hold : s (blobPath (sha.hexdigest content)) with
    | none => rfl
    | some file => rw [h content file hold, Option.some_or]
  rw [localServes_iff, blob_put, sidecar_put, if_pos rfl, hblob]
  by_cases hgiven : stored contentType metadata = [] <;> simp [hgiven]

/-- In memory what was put is served until its own key is deleted.  In files it is served until
that exactly if the first sidecar is its own and no later call writes or removes a file of it. -/
theorem content_kept_iff (sha : Sha256) (before later : List (Call ν)) (content : Bytes)
    (contentType : Option String) (metadata : Metadata ν) :
    let p := (before.foldl Memory.call {}).put content contentType metadata
    (Throughout Memory.call (MemoryServes p.1 content (stored contentType metadata)) p.2 later ↔
      ∀ c ∈ later, c ≠ .delete p.1) ∧
    (Throughout (Local.call sha) (LocalServes sha content (stored contentType metadata))
        (Local.put sha (Local.after sha before) content contentType metadata).2 later ↔
      (stored contentType metadata ≠ [] ∨
          sidecar (Local.after sha before) (sha.hexdigest content) = []) ∧
        ∀ c ∈ later, Harmless sha content (stored contentType metadata) c) := by
  constructor
  · generalize before.foldl Memory.call {} = m
    have hput : MemoryServes (Memory.key (m.seq + 1)) content (stored contentType metadata)
        (m.put content contentType metadata).2 :=
      memoryServes_iff.mpr (Function.update_self _ _ _)
    exact throughout_iff (I := fun m' => m.seq + 1 ≤ m'.seq) seq_le_call memoryServes_call
      le_rfl hput later
  · rw [← localServes_put contentType metadata (addressed_after before)]
    have hlater {t : Files ν} (ht : LocalServes sha content (stored contentType metadata) t) :
        Throughout (Local.call sha) _ t later ↔ _ :=
      throughout_iff (I := fun _ => True) (fun _ _ => id) (fun _ c _ => localServes_call c)
        trivial ht later
    exact ⟨fun h => ⟨h.start, (hlater h.start).mp h⟩, fun h => (hlater h.1).mpr h.2⟩

/-- A second `put` of the same bytes gives the first pointer its own metadata. -/
theorem second_put_changes_metadata :
    Nonempty Sha256 ∧ ∀ sha : Sha256,
      let s := (Local.put (ν := Int) sha (Local.after sha []) [] none [("page", .num 1)]).2
      Local.getMetadata s (Local.key (sha.hexdigest [])) = some [("page", .num 1)] ∧
        Local.getMetadata (Local.put sha s [] none [("page", .num 2)]).2
          (Local.key (sha.hexdigest [])) = some [("page", .num 2)] := by
  refine ⟨sha256_exists, fun sha => ?_⟩
  have hstart : Addressed (ν := Int) sha (Local.after sha []) := addressed_after []
  have hfirst := hstart.call (.put [] none [("page", .num 1)])
  have hgiven (n : Int) : stored none [("page", Json.num n)] ≠ [] := List.cons_ne_nil _ _
  exact ⟨((localServes_put none _ hstart).mpr (.inl (hgiven 1))).2,
    ((localServes_put none _ hfirst).mpr (.inl (hgiven 2))).2⟩

end Orditect.Content.Proofs
