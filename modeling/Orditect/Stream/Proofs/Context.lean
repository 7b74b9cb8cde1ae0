import Orditect.Stream.Proofs.Marker
/-!
# The context of a marker

The context of a hit is extracted from what is in the buffer when its marker is complete.  The
part of the segment that a flush has sent before is missing there.
-/

namespace Orditect.Stream.Marker.Proofs

open Support.Occurrences Stream.MarkerDetector

variable {τ ρ : Type}

def contexts (out : List MarkedChunk) : List (List Char) :=
  out.flatMap fun chunk => chunk.hits.map MarkerHit.contextText

def segmentsOf (marker : List Char) (hne : marker ≠ []) (text : List Char) : List (List Char) :=
  match _h : find marker text with
  | none => []
  | some pos => text.take pos :: segmentsOf marker hne (text.drop (pos + marker.length))
termination_by text.length
decreasing_by exact length_drop_marker (⟨marker, hne, 0, (), .full⟩ : MarkerDetector Unit) _h

abbrev segments (d : MarkerDetector τ) (text : List Char) : List (List Char) :=
  segmentsOf d.marker d.marker_ne_nil text

variable {d : MarkerDetector τ} {before text : List Char} {out : List MarkedChunk}

theorem segments_hit (h : Clear d before (d.marker ++ text)) :
    segments d (before ++ (d.marker ++ text)) = before :: segments d text := by
  have hocc : OccursAt d.marker (before ++ (d.marker ++ text)) before.length := by simp [OccursAt]
  rw [segments, segmentsOf]
  split
  · rename_i hfind
    exact absurd hocc (find_eq_none hfind _)
  · rename_i pos hfind
    obtain ⟨before', after, htext, rfl, hfirst⟩ := find_eq_some hfind
    have hocc' : OccursAt d.marker (before ++ (d.marker ++ text)) before'.length := by
      rw [htext]
      simp [OccursAt]
    have hlength : before'.length = before.length :=
      Nat.le_antisymm (Nat.le_of_not_lt fun hlt => hfirst _ hlt hocc)
        (Nat.le_of_not_lt fun hlt => h _ hlt hocc')
    rw [hlength, List.take_left, ← List.append_assoc, ← List.length_append, List.drop_left]

theorem contexts_yieldText (text : List Char) (out : List MarkedChunk) :
    contexts (yieldText text ++ out) = contexts out := by
  unfold MarkerDetector.yieldText
  split <;> rfl

theorem Takes.contexts {buffer rest : List Char} (h : Takes d buffer out rest) (after : List Char) :
    (segments d (buffer ++ after)).map d.extractContext =
      contexts out ++ (segments d (rest ++ after)).map d.extractContext := by
  induction h with
  | rest h => rfl
  | hit hfirst _ ih =>
    rw [List.append_assoc, List.append_assoc, segments_hit, List.map_cons, ih, contexts_yieldText]
    · rfl
    · simpa [Clear] using not_occursAt_append hfirst after

variable [Sub τ] [LT τ] [DecidableLT τ]

def patient : MarkerDetector Int := ⟨['!'], by simp, 9, 2, .full⟩

end Orditect.Stream.Marker.Proofs
