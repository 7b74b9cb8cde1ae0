import Orditect.Stream.Stage
/-!
# Every marker is found, and nothing else

A flush keeps back the longest tail of the buffer that may still become a marker.  An
occurrence that began before that tail would have to end behind the buffer, and then a longer
tail would begin a marker; so a flush passes over no occurrence, and what comes out does not
depend on how the text was cut into chunks or on when it was flushed.
-/

namespace Orditect.Stream.Marker.Proofs

open Support.Occurrences Stream.MarkerDetector

variable {τ ρ : Type}

def inputText (chunks : List (SourceChunk ρ)) : List Char :=
  (chunks.takeWhile fun chunk => !chunk.finish).flatMap fun chunk => chunk.text.getD []

/-- The emitted texts, with the marker put back at each hit. -/
def render (marker : List Char) (out : List MarkedChunk) : List Char :=
  out.flatMap fun chunk => chunk.text.getD [] ++ chunk.hits.flatMap fun _ => marker

def hitPositions (marker : List Char) : Nat → List MarkedChunk → List Nat
  | _, [] => []
  | start, chunk :: out =>
    let stop := start + (chunk.text.getD []).length
    (List.range chunk.hits.length).map (fun k => stop + k * marker.length) ++
      hitPositions marker (stop + chunk.hits.length * marker.length) out

/-- The output is the text with its leftmost markers cut out. -/
structure Marks (marker text : List Char) (out : List MarkedChunk) : Prop where
  rendered : render marker out = text
  leftmost : LeftmostFrom marker text 0 (hitPositions marker 0 out)

/-! ## Putting outputs together -/

variable {out : List MarkedChunk}

section

variable {marker : List Char}

theorem hitPositions_add (a b : Nat) (out : List MarkedChunk) :
    hitPositions marker (a + b) out = (hitPositions marker b out).map (a + ·) := by
  induction out generalizing b with
  | nil => rfl
  | cons chunk out ih =>
    simp only [hitPositions, List.map_append, List.map_map, Nat.add_assoc, ih]
    rfl

theorem Marks.yieldText {before text : List Char} (h : Marks marker text out)
    (hnone : ∀ q, q < before.length → ¬OccursAt marker (before ++ text) q) :
    Marks marker (before ++ text) (yieldText before ++ out) := by
  cases before with
  | nil => exact h
  | cons c before =>
    refine ⟨?_, ?_⟩
    · rw [← h.rendered]
      simp [MarkerDetector.yieldText, render]
    · have hskip := leftmost_skip hnone h.leftmost
      rw [← hitPositions_add] at hskip
      simpa [MarkerDetector.yieldText, hitPositions] using hskip

theorem Marks.hit {before text : List Char} (h : Marks marker text out)
    (hnone : ∀ q, q < before.length → ¬OccursAt marker (before ++ (marker ++ text)) q)
    (hit : MarkerHit) :
    Marks marker (before ++ (marker ++ text))
      (MarkerDetector.yieldText before ++ { hits := [hit] } :: out) := by
  refine ⟨?_, ?_⟩
  · rw [← h.rendered]
    cases before <;> simp [MarkerDetector.yieldText, render]
  · have hnext := leftmost_hit hnone h.leftmost
    rw [← hitPositions_add] at hnext
    cases before <;> simpa [MarkerDetector.yieldText, hitPositions] using hnext

end

/-! ## The detector -/

variable (d : MarkerDetector τ)

theorem rtrimPartialMarker_spec {s : List Char} (hnone : find d.marker s = none) :
    (d.rtrimPartialMarker s).1 ++ (d.rtrimPartialMarker s).2 = s ∧
      ∀ after q, q < (d.rtrimPartialMarker s).1.length → ¬OccursAt d.marker (s ++ after) q := by
  -- an occurrence that begins in the buffer ends behind it, so a tail of it begins a marker
  have htail : ∀ after q, q < s.length → OccursAt d.marker (s ++ after) q →
      s.length - q < d.marker.length ∧ d.marker.take (s.length - q) <:+ s := by
    intro after q hq hocc
    have hlt : s.length - q < d.marker.length := by
      by_contra hge
      exact find_eq_none hnone q (occursAt_of_append hocc (by omega))
    refine ⟨hlt, ?_⟩
    unfold OccursAt at hocc
    rw [List.drop_append_of_le_length (by omega)] at hocc
    have hprefix : s.drop q <+: d.marker :=
      List.prefix_of_prefix_length_le (List.prefix_append _ after) hocc (by
        rw [List.length_drop]
        omega)
    have htake := List.prefix_iff_eq_take.mp hprefix
    rw [List.length_drop] at htake
    rw [← htake]
    exact List.drop_suffix q s
  unfold MarkerDetector.rtrimPartialMarker
  split
  · rename_i i hfind
    obtain ⟨hi, before, behind, hrange, hlonger⟩ := List.find?_eq_some_iff_append.mp hfind
    refine ⟨List.take_append_drop _ _, fun after q hq hocc => ?_⟩
    simp only [List.length_take] at hq
    obtain ⟨hlt, hsuffix⟩ := htail after q (by omega) hocc
    -- the tail is longer than the one that was held back, so it came first in the search
    have hmem : s.length - q ∈ (List.range' 1 (d.marker.length - 1)).reverse := by
      simp only [List.mem_reverse, List.mem_range'_1]
      omega
    rw [hrange, List.mem_append, List.mem_cons] at hmem
    rcases hmem with hmem | hmem | hmem
    · have hfails := hlonger _ hmem
      rw [List.isSuffixOf_iff_suffix.mpr hsuffix] at hfails
      exact absurd hfails (by decide)
    · omega
    · have hsorted : ((List.range' 1 (d.marker.length - 1)).reverse).Pairwise (· > ·) := by
        rw [List.pairwise_reverse]
        exact List.pairwise_lt_range'
      rw [hrange, List.pairwise_append, List.pairwise_cons] at hsorted
      have hgt := hsorted.2.1.1 _ hmem
      omega
  · rename_i hfind
    refine ⟨List.append_nil s, fun after q hq hocc => ?_⟩
    have hq' : q < s.length := hq
    obtain ⟨hlt, hsuffix⟩ := htail after q hq' hocc
    have hfails := List.find?_eq_none.mp hfind (s.length - q) (by
      simp only [List.mem_reverse, List.mem_range'_1]
      omega)
    exact hfails (List.isSuffixOf_iff_suffix.mpr hsuffix)

inductive Takes : List Char → List MarkedChunk → List Char → Prop
  | rest {buffer : List Char} (h : find d.marker buffer = none) : Takes buffer [] buffer
  | hit {before behind rest : List Char} {out : List MarkedChunk}
      (hfirst : ∀ q, q < before.length → ¬OccursAt d.marker (before ++ (d.marker ++ behind)) q)
      (h : Takes behind out rest) :
      Takes (before ++ (d.marker ++ behind))
        (yieldText before ++ { hits := [{ contextText := d.extractContext before }] } :: out) rest

theorem takes_takeMarkers (buffer : List Char) :
    Takes d buffer (d.takeMarkers buffer).1 (d.takeMarkers buffer).2 := by
  fun_induction d.takeMarkers buffer with
  | case1 buffer hfind => exact .rest hfind
  | case2 buffer pos hfind preceding out rest hrest ih =>
    obtain ⟨before, behind, rfl, rfl, hfirst⟩ := find_eq_some hfind
    have hbehind : (before ++ (d.marker ++ behind)).drop (before.length + d.marker.length) =
        behind := by
      rw [← List.append_assoc, ← List.length_append, List.drop_left]
    rw [hrest, hbehind] at ih
    have hpreceding : preceding = before := List.take_left
    rw [hpreceding]
    exact .hit hfirst ih

def Clear (before text : List Char) : Prop :=
  ∀ q, q < before.length → ¬OccursAt d.marker (before ++ text) q

/-- How an output delivers a text: text in which no marker begins, and hits, each with the
context of what is then in front of its marker. -/
inductive Delivers : List Char → List MarkedChunk → Prop
  | finish : Delivers [] [{ finish := true }]
  | text {before text out} (hclear : Clear d before text) (h : Delivers text out) :
      Delivers (before ++ text) (yieldText before ++ out)
  | hit {before behind out} (hclear : Clear d before (d.marker ++ behind))
      (h : Delivers behind out) :
      Delivers (before ++ (d.marker ++ behind))
        (yieldText before ++ { hits := [{ contextText := d.extractContext before }] } :: out)

theorem not_occursAt_nil (q : Nat) : ¬OccursAt d.marker [] q := by
  intro hocc
  have hle := hocc.length_le d.marker_ne_nil
  have hpos := List.length_pos_iff.mpr d.marker_ne_nil
  simp only [List.length_nil] at hle
  omega

variable {d} {before text : List Char}

theorem Delivers.marks (h : Delivers d text out) : Marks d.marker text out := by
  induction h with
  | finish => exact ⟨rfl, fun q _ => not_occursAt_nil d q⟩
  | text hclear _ ih => exact ih.yieldText hclear
  | hit hclear _ ih => exact ih.hit hclear _

theorem Takes.delivered {buffer rest : List Char} {taken : List MarkedChunk}
    (h : Takes d buffer taken rest) :
    find d.marker rest = none ∧
      ∀ after out, Delivers d (rest ++ after) out →
        Delivers d (buffer ++ after) (taken ++ out) := by
  induction h with
  | rest h => exact ⟨h, fun after out hout => hout⟩
  | hit hfirst _ ih =>
    refine ⟨ih.1, fun after out hout => ?_⟩
    have hhit := (ih.2 after out hout).hit (not_occursAt_append hfirst after)
    simpa [List.append_assoc] using hhit

variable (d)

theorem delivered_drainBuffer (buffer : List Char) :
    Delivers d buffer (d.drainBuffer buffer ++ [{ finish := true }]) := by
  obtain ⟨hnone, hspec⟩ := (takes_takeMarkers d buffer).delivered
  have hrest : Delivers d ((d.takeMarkers buffer).2 ++ [])
      (yieldText (d.takeMarkers buffer).2 ++ [{ finish := true }]) := by
    refine .text (fun q _ => ?_) .finish
    rw [List.append_nil]
    exact find_eq_none hnone q
  simpa [MarkerDetector.drainBuffer] using hspec [] _ hrest

section

variable [Sub τ] [LT τ] [DecidableLT τ]

/-- A turn leaves the rest of the loop in the buffer, or flushes it up to the held back tail. -/
theorem feed_cases (now : τ) (text : List Char) (s : Pending τ) :
    (∃ lastFlush, d.feed now text s =
        ((d.takeMarkers (s.buffer ++ text)).1, ⟨(d.takeMarkers (s.buffer ++ text)).2, lastFlush⟩)) ∨
      ∃ safe pending, d.rtrimPartialMarker (d.takeMarkers (s.buffer ++ text)).2 = (safe, pending) ∧
        d.feed now text s =
          ((d.takeMarkers (s.buffer ++ text)).1 ++ yieldText safe, ⟨pending, now⟩) := by
  unfold MarkerDetector.feed
  dsimp only
  generalize (if (d.takeMarkers (s.buffer ++ text)).1.isEmpty then s.lastFlush else now) = lastFlush
  split
  · split
    · exact Or.inl ⟨lastFlush, rfl⟩
    · rename_i hsafe
      refine Or.inr ⟨(d.rtrimPartialMarker _).1, (d.rtrimPartialMarker _).2, rfl, ?_⟩
      rw [MarkerDetector.yieldText, if_neg hsafe]
  · exact Or.inl ⟨lastFlush, rfl⟩

theorem delivered_feed (now : τ) (text : List Char) (s : Pending τ) {after : List Char}
    (h : Delivers d ((d.feed now text s).2.buffer ++ after) out) :
    Delivers d (s.buffer ++ text ++ after) ((d.feed now text s).1 ++ out) := by
  obtain ⟨hnone, hspec⟩ := (takes_takeMarkers d (s.buffer ++ text)).delivered
  obtain ⟨hparts, hsafe⟩ := rtrimPartialMarker_spec d hnone
  rcases feed_cases d now text s with ⟨lastFlush, hfeed⟩ | ⟨safe, pending, htrim, hfeed⟩
  · rw [hfeed] at h ⊢
    exact hspec after out h
  · rw [hfeed] at h ⊢
    rw [htrim] at hparts hsafe
    rw [List.append_assoc (d.takeMarkers _).1]
    apply hspec
    have hclear : Clear d safe (pending ++ after) := by
      intro q hq
      rw [← List.append_assoc, hparts]
      exact hsafe after q hq
    have hout := h.text hclear
    rwa [← List.append_assoc, hparts] at hout

theorem delivered_processFrom (clock : Nat → τ) (n : Nat) (s : Pending τ)
    (chunks : List (SourceChunk ρ)) :
    Delivers d (s.buffer ++ inputText chunks) (d.processFrom clock n s chunks) := by
  induction chunks generalizing n s with
  | nil => simpa [inputText, processFrom] using delivered_drainBuffer d s.buffer
  | cons chunk chunks ih =>
    rw [processFrom]
    cases hfinish : chunk.finish with
    | true => simpa [inputText, hfinish] using delivered_drainBuffer d s.buffer
    | false =>
      have hinput : inputText (chunk :: chunks) =
          chunk.text.getD [] ++ inputText chunks := by
        simp [inputText, hfinish]
      rw [if_neg (by decide), hinput]
      cases htext : chunk.text with
      | none => simpa using ih n s
      | some text =>
        rw [Option.getD_some, ← List.append_assoc]
        exact delivered_feed d (clock n) text s (ih (n + 1) _)

end

/-! ## The offsets -/

def Unfinished (out : List MarkedChunk) : Prop := ∀ chunk ∈ out, chunk.finish = false

theorem unfinished_yieldText (text : List Char) : Unfinished (yieldText text) := by
  intro chunk hchunk
  unfold MarkerDetector.yieldText at hchunk
  split at hchunk
  · simp at hchunk
  · obtain rfl := List.mem_singleton.mp hchunk
    rfl

theorem Unfinished.append {out' : List MarkedChunk} (h : Unfinished out) (h' : Unfinished out') :
    Unfinished (out ++ out') := by
  intro chunk hchunk
  rcases List.mem_append.mp hchunk with hchunk | hchunk
  · exact h chunk hchunk
  · exact h' chunk hchunk

variable {d} in
theorem Delivers.unfinished (h : Delivers d text out) :
    ∃ init, out = init ++ [{ finish := true }] ∧ Unfinished init := by
  induction h with
  | finish => exact ⟨[], rfl, fun chunk hchunk => absurd hchunk List.not_mem_nil⟩
  | text _ _ ih =>
    obtain ⟨init, rfl, hinit⟩ := ih
    exact ⟨_, (List.append_assoc _ _ _).symm, (unfinished_yieldText _).append hinit⟩
  | hit _ _ ih =>
    obtain ⟨init, rfl, hinit⟩ := ih
    refine ⟨_, (List.append_assoc _ (_ :: init) _).symm, (unfinished_yieldText _).append ?_⟩
    intro chunk hchunk
    rcases List.mem_cons.mp hchunk with rfl | hchunk
    · rfl
    · exact hinit chunk hchunk

theorem collect_offsets (marker : List Char) (outcome : StageOutcome) (h : Unfinished out) :
    ((outcome.collect (out ++ [{ finish := true }])).hits.map fun hit => hit.charOffset) =
      (outcome.hits.map fun hit => hit.charOffset) ++
        (hitPositions marker (outcome.content.length + outcome.hits.length * marker.length)
          out).mapIdx fun k p => p - (outcome.hits.length + k) * marker.length := by
  induction out generalizing outcome with
  | nil => simp [StageOutcome.collect, StageOutcome.add, hitPositions]
  | cons chunk out ih =>
    have hopen : chunk.finish = false := h chunk List.mem_cons_self
    have hrest := ih (outcome.add chunk) fun c hc => h c (List.mem_cons_of_mem _ hc)
    have hlength : (outcome.add chunk).hits.length = outcome.hits.length + chunk.hits.length := by
      simp [StageOutcome.add]
    have hstart : (outcome.add chunk).content.length +
        (outcome.hits.length + chunk.hits.length) * marker.length =
        outcome.content.length + outcome.hits.length * marker.length +
          (chunk.text.getD []).length + chunk.hits.length * marker.length := by
      simp only [StageOutcome.add, List.length_append, Nat.add_mul]
      omega
    -- the hits of this chunk all stand behind its text
    have hhere : ((outcome.add chunk).hits.map fun hit => hit.charOffset) =
        (outcome.hits.map fun hit => hit.charOffset) ++
          ((List.range chunk.hits.length).map fun k =>
            outcome.content.length + outcome.hits.length * marker.length +
              (chunk.text.getD []).length + k * marker.length).mapIdx
                fun k p => p - (outcome.hits.length + k) * marker.length := by
      simp only [StageOutcome.add, List.map_append, List.map_map]
      congr 1
      apply List.ext_getElem
      · simp
      · intro k hk _
        simp only [List.getElem_map, List.getElem_mapIdx, List.getElem_range, Function.comp_apply,
          List.length_append, Nat.add_mul]
        omega
    simp only [List.cons_append, StageOutcome.collect, hopen, Bool.false_eq_true, if_false]
    rw [hrest, hhere, hlength, hstart]
    simp only [hitPositions, List.mapIdx_append, List.append_assoc, List.length_map,
      List.length_range, Nat.add_assoc, Nat.add_comm chunk.hits.length]

theorem hitPositions_finish (marker : List Char) (start : Nat) (out : List MarkedChunk) :
    hitPositions marker start (out ++ [{ finish := true }]) = hitPositions marker start out := by
  induction out generalizing start with
  | nil => rfl
  | cons chunk out ih =>
    rw [List.cons_append, hitPositions, hitPositions, ih]

/-- The detector cuts out the leftmost markers of its input and nothing else, and the stage places
each hit behind what is left of the text before it: `k` markers were cut out before the hit with
index `k`. -/
theorem marker_detection_exact [Sub τ] [LT τ] [DecidableLT τ] (stage : StageRunner τ)
    (clock : Nat → τ) :
    (∀ chunks : List (SourceChunk ρ),
      render stage.detector.marker (stage.detector.process clock chunks) = inputText chunks ∧
        LeftmostFrom stage.detector.marker (inputText chunks) 0
          (hitPositions stage.detector.marker 0 (stage.detector.process clock chunks))) ∧
      ∀ source : StageSource ρ,
        ((stage.run clock source).hits.map fun hit => hit.charOffset) =
          (hitPositions stage.detector.marker 0
            (stage.detector.process clock (stage.detectorInput source))).mapIdx
              fun k p => p - k * stage.detector.marker.length := by
  constructor
  · intro chunks
    have hdelivers := delivered_processFrom stage.detector clock 1 ⟨[], clock 0⟩ chunks
    have hmarks : Marks stage.detector.marker (inputText chunks)
        (stage.detector.process clock chunks) := hdelivers.marks
    exact ⟨hmarks.rendered, hmarks.leftmost⟩
  · intro source
    have hdelivers := delivered_processFrom stage.detector clock 1 ⟨[], clock 0⟩
      (stage.detectorInput source)
    obtain ⟨out, hout, hunfinished⟩ := hdelivers.unfinished
    have hoffsets := collect_offsets stage.detector.marker {} hunfinished
    rw [StageRunner.run, MarkerDetector.process, hout, hitPositions_finish]
    simpa using hoffsets

end Orditect.Stream.Marker.Proofs
