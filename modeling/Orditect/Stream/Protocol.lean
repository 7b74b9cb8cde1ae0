import Orditect.Stream.Runner
/-!
# The order of the events of a stream

What a client may rely on: the events of a stream begin with its start, and its end comes once, as
the last one and after a manifest.  A list that grows in this order goes through four phases, and
may lose events in between that mark none of them.
-/

namespace Orditect.Stream

structure InOrder (events : List EventData) : Prop where
  begins : ∀ event ∈ events.head?, event = .streamStart
  ends : ∀ before after, events = before ++ .streamEnd :: after →
    after = [] ∧ ∃ placeholders, .streamManifest placeholders ∈ before

inductive ProtocolPhase where
  | absent
  | opened
  | manifested
  | ended
  deriving DecidableEq

def EventData.marks : EventData → Bool
  | .streamStart | .streamManifest _ | .streamEnd => true
  | _ => false

namespace ProtocolPhase

structure Opened (events : List EventData) : Prop where
  begins : events.head? = some .streamStart
  notEnded : .streamEnd ∉ events

structure Manifested (events : List EventData) : Prop extends Opened events where
  manifest : ∃ placeholders, .streamManifest placeholders ∈ events

def Shape : ProtocolPhase → List EventData → Prop
  | .absent, events => events = []
  | .opened, events => Opened events
  | .manifested, events => Manifested events
  | .ended, events => ∃ before, events = before ++ [.streamEnd] ∧ Manifested before

/-! ## Growing -/

theorem head?_append_of_head? {α : Type} {l : List α} {a : α} (h : l.head? = some a) (m : List α) :
    (l ++ m).head? = some a := by
  rw [List.head?_append, h]
  rfl

variable {event : EventData} {events : List EventData} {phase : ProtocolPhase}
  {l l' : List EventData}

theorem Opened.append (h : Opened events) (hevent : event ≠ .streamEnd) :
    Opened (events ++ [event]) :=
  ⟨head?_append_of_head? h.begins _, by simpa [h.notEnded] using hevent.symm⟩

theorem Manifested.append (h : Manifested events) (hevent : event ≠ .streamEnd) :
    Manifested (events ++ [event]) := by
  obtain ⟨placeholders, hmem⟩ := h.manifest
  exact ⟨h.toOpened.append hevent, placeholders, List.mem_append_left _ hmem⟩

theorem Shape.append (h : phase.Shape events) (habsent : phase ≠ .absent)
    (hended : phase ≠ .ended) (hevent : event ≠ .streamEnd) : phase.Shape (events ++ [event]) := by
  cases phase with
  | absent => exact absurd rfl habsent
  | opened => exact Opened.append h hevent
  | manifested => exact Manifested.append h hevent
  | ended => exact absurd rfl hended

theorem Shape.start (h : Shape .absent events) :
    Shape .opened (events ++ [.streamStart]) := by
  obtain rfl : events = [] := h
  exact ⟨rfl, by decide⟩

theorem Shape.manifest (h : Shape .opened events) (placeholders : List ManifestPlaceholder) :
    Shape .manifested (events ++ [.streamManifest placeholders]) :=
  ⟨Opened.append h EventData.noConfusion, placeholders,
    List.mem_append_right _ (List.mem_singleton_self _)⟩

theorem Shape.finish (h : Shape .manifested events) :
    Shape .ended (events ++ [.streamEnd]) := ⟨events, rfl, h⟩

/-! ## Losing events in between -/

/-- `l'` has lost events of `l`, but not the first one, a manifest or the end. -/
structure Thinned (l l' : List EventData) : Prop where
  sublist : List.Sublist l' l
  begins : l'.head? = l.head?
  kept : ∀ event ∈ l, event.marks = true → event ≠ .streamStart → event ∈ l'

theorem Opened.thin (h : Opened l) (hthin : Thinned l l') : Opened l' :=
  ⟨hthin.begins.trans h.begins, fun hend => h.notEnded (hthin.sublist.subset hend)⟩

theorem Manifested.thin (h : Manifested l) (hthin : Thinned l l') :
    Manifested l' := by
  obtain ⟨placeholders, hmem⟩ := h.manifest
  exact ⟨h.toOpened.thin hthin, placeholders, hthin.kept _ hmem rfl EventData.noConfusion⟩

theorem Shape.thin (h : phase.Shape l) (hthin : Thinned l l') : phase.Shape l' := by
  cases phase with
  | absent =>
    obtain rfl : l = [] := h
    exact List.sublist_nil.mp hthin.sublist
  | opened => exact Opened.thin h hthin
  | manifested => exact Manifested.thin h hthin
  | ended =>
    obtain ⟨before, rfl, hbefore⟩ := h
    obtain ⟨front, back, rfl, hfront, hback⟩ := List.sublist_append_iff.mp hthin.sublist
    have hend : .streamEnd ∈ front ++ back :=
      hthin.kept .streamEnd (by simp) rfl EventData.noConfusion
    have hnot : .streamEnd ∉ front := fun hmem => hbefore.notEnded (hfront.subset hmem)
    obtain rfl : back = [.streamEnd] := by
      rcases List.sublist_singleton.mp hback with rfl | rfl
      · simp [hnot] at hend
      · rfl
    refine ⟨front, rfl, hbefore.thin ⟨hfront, ?_, fun event hevent hmarks hstart => ?_⟩⟩
    · have hbegins := hthin.begins
      rw [head?_append_of_head? hbefore.begins] at hbegins
      cases front with
      | nil => simp at hbegins
      | cons event front => exact hbegins.trans hbefore.begins.symm
    · have hmem := hthin.kept event (List.mem_append_left _ hevent) hmarks hstart
      rcases List.mem_append.mp hmem with hmem | hmem
      · exact hmem
      · rw [List.mem_singleton.mp hmem] at hevent
        exact absurd hevent hbefore.notEnded

/-! ## What has been seen of it -/

theorem inOrder_of_opened (h : Opened events) (hl : l <+: events) :
    InOrder l := by
  refine ⟨fun event hevent => ?_, fun before after heq => ?_⟩
  · obtain ⟨rest, rfl⟩ := hl
    have hhead := head?_append_of_head? hevent rest
    exact (Option.some.inj (h.begins.symm.trans hhead)).symm
  · exact absurd (hl.subset (by simp [heq])) h.notEnded

theorem inOrder_of_manifested {before : List EventData} (h : Manifested before) :
    InOrder (before ++ [.streamEnd]) := by
  refine ⟨fun event hevent => ?_, fun front after heq => ?_⟩
  · rw [head?_append_of_head? h.begins] at hevent
    exact (Option.some.inj hevent).symm
  -- What comes after an end would put that end into `before`.
  · rcases List.eq_nil_or_concat after with rfl | ⟨middle, last, rfl⟩
    · obtain rfl : before = front := List.append_cancel_right heq
      exact ⟨rfl, h.manifest⟩
    · rw [List.concat_eq_append, ← List.cons_append, ← List.append_assoc] at heq
      obtain rfl := (List.append_inj' heq rfl).1
      exact absurd (by simp) h.notEnded

theorem Shape.inOrder (h : phase.Shape events) (hl : l <+: events) : InOrder l := by
  cases phase with
  | absent =>
    obtain rfl : events = [] := h
    obtain rfl := List.prefix_nil.mp hl
    exact ⟨by simp, by simp⟩
  | opened => exact inOrder_of_opened h hl
  | manifested => exact inOrder_of_opened h.toOpened hl
  | ended =>
    obtain ⟨before, rfl, hbefore⟩ := h
    rcases List.prefix_concat_iff.mp hl with rfl | hl
    · exact inOrder_of_manifested hbefore
    · exact inOrder_of_opened hbefore.toOpened hl

end ProtocolPhase

end Orditect.Stream
