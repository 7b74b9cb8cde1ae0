import Orditect.Stream.Proofs.Start
import Orditect.Stream.Protocol
/-!
# A run keeps the order of the protocol

For each stream, what was yielded together with what is still to be yielded from the queue is a
list of the phase that `run()` and `_produce` have reached for it.  What breaks this is left out:
a put that raises, a queue without space for the start events, a client that is away when an event
comes, a `cancel` before the start was yielded or behind the end, and an event of another task
behind the end.
-/

namespace Orditect.Stream.Protocol.Proofs

open Support Support.Transition Stream.Runner.Proofs ProtocolPhase

/-! ## What is seen of a stream -/

def eventsOf (sid : StreamId) (p : EventData → Bool) (l : List Item) : List EventData :=
  (l.filter fun item => decide (item.streamId = sid) && p item.event).map (·.event)

def yieldedFor (s : Runner) (sid : StreamId) : List EventData :=
  eventsOf sid (fun _ => true) (s.yielded.map (·.toQueuedItem))

def shown (s : Runner) (sid : StreamId) (event : EventData) : Bool :=
  !s.isCancelled sid || Runner.passes event

def awaited (s : Runner) : List Item :=
  if s.run = .consuming .ended then [] else visible (items s)

def course (s : Runner) (sid : StreamId) : List EventData :=
  yieldedFor s sid ++ eventsOf sid (shown s sid) (awaited s)

def producerPhase (sid : StreamId) : ProducerPhase → ProtocolPhase
  | .manifest _ next => if sid < next then .manifested else .opened
  | .finishing next => if sid < next then .ended else .manifested
  | .closing _ | .ended => .ended
  | _ => .opened

def phaseOf (s : Runner) (sid : StreamId) : ProtocolPhase :=
  match s.run with
  | .registering _ | .raised => .absent
  | .starting count => if sid < count then .opened else .absent
  | .consuming _ => producerPhase sid s.producer

/-! ## The steps that are left out -/

def late (s : Runner) (sid : StreamId) : Prop :=
  phaseOf s sid = .ended ∧ s.isCancelled sid = false ∧ none ∉ items s ∧ s.run ≠ .consuming .ended

/-- The steps that do not disturb the order. -/
def orderly (cfg : StreamConfig) (s : Runner) : Runner.Step → Prop
  | .run => s.monitor.shouldBuffer = false
  | .cancel sid _ => sid < s.tokens.length → s.producer ≠ .absent ∧ yieldedFor s sid ≠ [] ∧
      (phaseOf s sid = .ended → s.mux.closed = true ∨ s.mux.queue.full = true)
  | .producer | .tick _ | .disconnect | .reconnect => True
  | e => ∀ item ∈ put? cfg s e, ¬late s item.streamId

/-! ## Lists of events -/

theorem eventsOf_append (sid : StreamId) (p : EventData → Bool) (l : List Item) (item : Item) :
    eventsOf sid p (l ++ [item]) =
      eventsOf sid p l ++
        if item.streamId = sid ∧ p item.event = true then [item.event] else [] := by
  rw [eventsOf, List.filter_append, List.map_append]
  by_cases h : item.streamId = sid ∧ p item.event = true
  · simp [eventsOf, h]
  · rw [if_neg h, List.filter_cons_of_neg (by simpa using h)]
    rfl

theorem eventsOf_cons (sid : StreamId) (p : EventData → Bool) (l : List Item) (item : Item) :
    eventsOf sid p (item :: l) =
      (if item.streamId = sid ∧ p item.event = true then [item.event] else []) ++
        eventsOf sid p l := by
  by_cases h : item.streamId = sid ∧ p item.event = true
  · simp [eventsOf, h]
  · rw [if_neg h, eventsOf, List.filter_cons_of_neg (by simpa using h)]
    rfl

/-! ## The invariant -/

/-- What the order rests on: the stages, the start of the run and the policy of the queue. -/
structure Grounded (cfg : StreamConfig) (s : Runner) : Prop where
  staged : Staged s
  safe : Start.Proofs.Safe cfg 0 s
  block : s.mux.backpressure = .block

structure Orderly (cfg : StreamConfig) (s : Runner) : Prop where
  sound : ∀ sid, s.producer ≠ .failing sid
  closing : s.mux.closed = true ∨ none ∈ items s ∨ s.run = .consuming .ended →
    isClosing s.producer = true
  cancelled : ∀ sid, s.isCancelled sid = true → yieldedFor s sid ≠ []
  shape : ∀ sid < cfg.maxId, (phaseOf s sid).Shape (course s sid)

variable {cfg : StreamConfig} {s : Runner}

theorem Grounded.early (h : Grounded cfg s) (habsent : s.producer = .absent) :
    Start.Proofs.Early cfg s := by
  cases h.safe with
  | early h => exact h
  | started h => exact absurd habsent h.producer

theorem Grounded.consuming (h : Grounded cfg s) (hproducer : s.producer ≠ .absent) :
    ∃ consumer, s.run = .consuming consumer := by
  cases h.safe with
  | early h => exact absurd h.producer hproducer
  | started h => exact h.consuming

theorem Grounded.absent (h : Grounded cfg s) (hrun : ∀ consumer, s.run ≠ .consuming consumer) :
    s.producer = .absent :=
  by_contra fun hproducer => (h.consuming hproducer).elim hrun

theorem Orderly.not_closing (h : Orderly cfg s) (hproducer : isClosing s.producer = false) :
    s.mux.closed = false ∧ none ∉ items s ∧ s.run ≠ .consuming .ended := by
  have hnot : ¬(s.mux.closed = true ∨ none ∈ items s ∨ s.run = .consuming .ended) := by
    intro hor
    rw [h.closing hor] at hproducer
    exact Bool.noConfusion hproducer
  rw [not_or, not_or, Bool.not_eq_true] at hnot
  exact hnot

structure Frame (s s' : Runner) : Prop where
  yielded : s'.yielded = s.yielded
  cancelled : ∀ sid, s'.isCancelled sid = s.isCancelled sid
  ended : s'.run = .consuming .ended ↔ s.run = .consuming .ended

variable {s' : Runner} {sid : StreamId} {event : EventData} {t : Runner}

theorem Frame.of_untouched (h : Untouched s s') : Frame s s' where
  yielded := h.yielded
  cancelled sid := congrArg (·.getD sid false) h.tokens
  ended := by rw [h.run]

theorem Frame.yieldedFor_eq (h : Frame s s') (sid : StreamId) :
    yieldedFor s' sid = yieldedFor s sid := by
  rw [yieldedFor, yieldedFor, h.yielded]

theorem Frame.shown_eq (h : Frame s s') (sid : StreamId) :
    shown s' sid = shown s sid := by
  funext event
  rw [shown, shown, h.cancelled]

theorem Frame.course_still (h : Frame s s') (hitems : visible (items s') = visible (items s))
    (sid : StreamId) :
    course s' sid = course s sid := by
  have hawaited : awaited s' = awaited s := by
    rw [awaited, awaited, hitems]
    simp only [h.ended]
  rw [course, course, h.yieldedFor_eq, h.shown_eq, hawaited]

variable {item : Item} {consumer : Consumer} {phase phase' : ProtocolPhase}
  {next : ProducerPhase} {deadline : Nat} {pid : PlaceholderId} {rest : List PlaceholderId}
  {url : String} {count : Nat} {p : EventData → Bool} {sid' : StreamId}

theorem Frame.course_put (h : Frame s s') (hitems : items s' = items s ++ [some item])
    (sid : StreamId) :
    course s' sid = course s sid ++
      if (s.run ≠ .consuming .ended ∧ none ∉ items s) ∧ item.streamId = sid ∧
        shown s sid item.event = true then [item.event] else [] := by
  by_cases hahead : s.run ≠ .consuming .ended ∧ none ∉ items s
  · have hawaited : awaited s' = awaited s ++ [item] := by
      rw [awaited, awaited, if_neg (mt h.ended.mp hahead.1), if_neg hahead.1, hitems,
        visible_append, if_neg hahead.2]
      rfl
    rw [course, course, h.yieldedFor_eq, h.shown_eq, hawaited, eventsOf_append, List.append_assoc]
    simp only [hahead, true_and, not_false_eq_true, ne_eq]
  · rw [if_neg fun hall => hahead hall.1, List.append_nil]
    have hawaited : awaited s' = awaited s := by
      rw [awaited, awaited]
      simp only [h.ended]
      split
      · rfl
      next hrun =>
        rw [hitems, visible_append, if_pos (by_contra fun hnone => hahead ⟨hrun, hnone⟩)]
    rw [course, course, h.yieldedFor_eq, h.shown_eq, hawaited]

theorem phaseOf_congr (hrun : s'.run = s.run) (hproducer : s'.producer = s.producer)
    (sid : StreamId) : phaseOf s' sid = phaseOf s sid := by
  rw [phaseOf, phaseOf, hrun, hproducer]

theorem phaseOf_consuming (h : s.run = .consuming consumer) (sid : StreamId) :
    phaseOf s sid = producerPhase sid s.producer := by
  rw [phaseOf, h]

theorem producerPhase_ne_absent (sid : StreamId) (phase : ProducerPhase) :
    producerPhase sid phase ≠ .absent := by
  cases phase with
  | manifest placeholders next | finishing next =>
    rw [producerPhase]
    split <;> exact ProtocolPhase.noConfusion
  | _ => exact ProtocolPhase.noConfusion

theorem producerPhase_of_closing {phase : ProducerPhase} (h : isClosing phase = true) :
    producerPhase sid phase = .ended := by
  cases phase with
  | closing | ended => rfl
  | _ => exact Bool.noConfusion h

/-! ## Steps of the other tasks -/

theorem Grounded.spawned {e : Runner.Step} (hg : Grounded cfg s)
    (he : isTask e = true ∨ e = .producer) (hstep : Runner.step cfg s e = some s') :
    s.producer ≠ .absent := by
  intro habsent
  have hearly := hg.early habsent
  refine no_other_task habsent hearly.executors hearly.enrichTasks ?_ hstep
  rcases he with he | rfl
  · cases e <;> first | rfl | exact Bool.noConfusion he
  · rfl

theorem Orderly.task {e : Runner.Step} (h : Orderly cfg s) (hg : Grounded cfg s)
    (he : isTask e = true) (horderly : ∀ item ∈ put? cfg s e, ¬late s item.streamId)
    (hstep : Runner.step cfg s e = some s') : Orderly cfg s' := by
  obtain ⟨put, haside, horigin⟩ := task_aside he hstep
  rw [put?_eq hstep haside.items] at horderly
  have hframe := Frame.of_untouched haside.toUntouched
  obtain ⟨consumer, hrun⟩ := hg.consuming (hg.spawned (Or.inl he) hstep)
  refine
    { sound := by rw [haside.producer]; exact h.sound
      closing := ?_
      cancelled := fun sid hsid => ?_
      shape := fun sid hsid => ?_ }
  · rw [haside.closed, haside.items, haside.run, haside.producer]
    intro hor
    refine h.closing (hor.imp_right (Or.imp_left fun hmem => ?_))
    rcases List.mem_append.mp hmem with hmem | hmem
    · exact hmem
    · cases put <;> simp at hmem
  · rw [hframe.yieldedFor_eq]
    exact h.cancelled sid ((hframe.cancelled sid).symm.trans hsid)
  · rw [phaseOf_congr haside.run haside.producer]
    have hshape := h.shape sid hsid
    cases put with
    | none =>
      rw [hframe.course_still (by rw [haside.items]; simp)]
      exact hshape
    | some item =>
      rw [hframe.course_put haside.items]
      split
      next hseen =>
        obtain ⟨⟨hahead, hsentinel⟩, rfl, hshown⟩ := hseen
        have hpasses := (horigin item rfl).not_passes hg.staged
        have hopen : s.isCancelled item.streamId = false := by
          rwa [shown, hpasses, Bool.or_false, Bool.not_eq_true'] at hshown
        refine hshape.append ?_ (fun hended => ?_) fun hend => ?_
        · rw [phaseOf_consuming hrun]
          exact producerPhase_ne_absent _ _
        · exact horderly item rfl ⟨hended, hopen, hsentinel, hahead⟩
        · rw [hend] at hpasses
          exact absurd hpasses (by decide)
      next =>
        rw [List.append_nil]
        exact hshape

/-! ## Turns of `_produce` -/

/-- The events of `_produce` and the phases they lead to. -/
inductive Next : ProtocolPhase → EventData → ProtocolPhase → Prop where
  | other {event : EventData} (h : event ≠ .streamEnd) : Next .opened event .opened
  | manifest (placeholders : List ManifestPlaceholder) :
      Next .opened (.streamManifest placeholders) .manifested
  | finish : Next .manifested .streamEnd .ended

theorem Next.shape {events : List EventData} (h : Next phase event phase')
    (hshape : phase.Shape events) :
    phase'.Shape (events ++ [event]) := by
  cases h with
  | other h => exact hshape.append ProtocolPhase.noConfusion ProtocolPhase.noConfusion h
  | manifest placeholders => exact hshape.manifest placeholders
  | finish => exact hshape.finish

theorem Next.hidden (h : Next phase event phase') (hpasses : Runner.passes event = false) :
    phase' = phase := by
  cases h with
  | other => rfl
  | manifest placeholders => exact absurd hpasses (by simp [Runner.passes, EventData.eventType])
  | finish => exact absurd hpasses (by decide)

inductive ProducerTurn (cfg : StreamConfig) (s s' : Runner) : Prop where
  | quiet (hitems : items s' = items s) (hclosed : s'.mux.closed = s.mux.closed)
      (hphase : ∀ sid < cfg.maxId, producerPhase sid s'.producer = producerPhase sid s.producer)
      (hclosing : isClosing s.producer = true → isClosing s'.producer = true)
  | put {sid : StreamId} {event : EventData} (hitems : items s' = items s ++ [some ⟨sid, event⟩])
      (hclosed : s'.mux.closed = s.mux.closed) (hopen : isClosing s.producer = false)
      (hother : ∀ sid', sid' ≠ sid →
        producerPhase sid' s'.producer = producerPhase sid' s.producer)
      (hnext : Next (producerPhase sid s.producer) event (producerPhase sid s'.producer))
  | close (hfrom : isClosing s.producer = true) (hto : isClosing s'.producer = true)
      (hitems : items s' = items s ∨ items s' = items s ++ [none])

theorem Advances.quiet (h : Advances cfg s next) (hsound : ∀ sid, s.producer ≠ .failing sid) :
    ProducerTurn cfg s { s with producer := next } ∧ ∀ sid, next ≠ .failing sid := by
  refine ⟨.quiet rfl rfl (fun sid hsid => ?_) ?_, ?_⟩
  · cases h with
    | manifested h hnext | finished h hnext =>
      rw [h]
      simp [producerPhase, Nat.lt_of_lt_of_le hsid hnext]
    | failed h => exact absurd h (hsound _)
    | _ h => rw [h]; rfl
  · cases h with
    | closed => exact fun _ => rfl
    | _ h => rw [h]; exact fun hclosing => Bool.noConfusion hclosing
  · cases h <;> exact fun sid => ProducerPhase.noConfusion

theorem Produces.turn {raised : ProducerPhase} (h : Produces cfg s sid event next raised)
    (hsound : ∀ sid, s.producer ≠ .failing sid) (haside : Aside s t (some ⟨sid, event⟩)) :
    ProducerTurn cfg s { t with producer := next } ∧ ∀ sid, next ≠ .failing sid := by
  have hsucc : ∀ sid', sid' ≠ sid → (sid' < sid + 1 ↔ sid' < sid) := fun sid' hne =>
    Nat.lt_succ_iff_lt_or_eq.trans (or_iff_left hne)
  cases h with
  | report h =>
    refine ⟨.put haside.items haside.closed ?_ (fun sid' _ => ?_) ?_, fun _ =>
      ProducerPhase.noConfusion⟩
    · rw [h]; rfl
    · rw [h]; rfl
    · rw [h]; exact .other EventData.noConfusion
  | manifest h | finish h =>
    refine ⟨.put haside.items haside.closed ?_ (fun sid' hne => ?_) ?_, fun _ =>
      ProducerPhase.noConfusion⟩
    · rw [h]; rfl
    · rw [h]
      simp only [producerPhase, hsucc sid' hne]
    · rw [h]
      simp only [producerPhase, Nat.lt_irrefl, Nat.lt_succ_self, if_true, if_false]
      first | exact .manifest _ | exact .finish
  | fail h => exact absurd h (hsound _)

theorem Announces.opened (h : Announces s deadline pid sid url rest) :
    isClosing s.producer = false ∧ ∀ sid', producerPhase sid' s.producer = .opened := by
  rcases h with h | ⟨h, -⟩ <;> rw [h] <;> exact ⟨rfl, fun _ => rfl⟩

theorem backpressure_move (hmove : ProducerMove cfg s s') :
    s'.mux.backpressure = s.mux.backpressure := by
  have hclose : ∀ m : RunMux, ∀ sid,
      (m.closeStream .producer sid).1.backpressure = m.backpressure := by
    intro m sid
    rw [StreamMux.closeStream]
    split
    · rfl
    · dsimp only
      split <;> rfl
  cases hmove with
  | beginSettle => rw [Runner.beginSettle]; split <;> rfl
  | endSettle => rw [Runner.endSettle]; split <;> rfl
  | announce h hemitted | announceWait h hemitted | produce h hemitted | produceWait h hemitted =>
    exact hemitted.aside.backpressure
  | close | closeWait => exact hclose s.mux _
  | _ => rfl

section

variable (h : Orderly cfg s) (hg : Grounded cfg s)
include h hg

theorem not_raised {o : Owner} (hopen : isClosing s.producer = false)
    (hraised : Emitted s o item (t, .raised)) : False := by
  cases hraised with
  | raised hraised =>
    rcases hraised with hclosed | ⟨hfail, hfull⟩
    · rw [(h.not_closing hopen).1] at hclosed
      exact Bool.noConfusion hclosed
    · rw [hg.block] at hfail
      exact BackpressurePolicy.noConfusion hfail

theorem Orderly.producer_turn (hmove : ProducerMove cfg s s') :
    ProducerTurn cfg s s' ∧ ∀ sid, s'.producer ≠ .failing sid := by
  -- A turn between two phases in which the streams are only opened.
  have hopened : ∀ {t : Runner}, isClosing s.producer = false ∧
        (∀ sid, producerPhase sid s.producer = .opened) → items t = items s →
      t.mux.closed = s.mux.closed → (∀ sid, producerPhase sid t.producer = .opened) →
      (∀ sid, t.producer ≠ .failing sid) →
      ProducerTurn cfg s t ∧ ∀ sid, t.producer ≠ .failing sid := by
    rintro t ⟨hopen, hphase⟩ hitems hclosed hphase' hsound
    refine ⟨.quiet hitems hclosed (fun sid _ => (hphase' sid).trans (hphase sid).symm) ?_, hsound⟩
    rw [hopen]
    exact fun hc => Bool.noConfusion hc
  cases hmove with
  | spawn hphase =>
    exact hopened (by simp [hphase, isClosing, producerPhase]) rfl rfl (fun _ => rfl) fun _ =>
      ProducerPhase.noConfusion
  | advance next hadvances => exact Advances.quiet hadvances h.sound
  | beginSettle hphase =>
    rw [Runner.beginSettle]
    split <;>
      exact hopened (by simp [hphase, isClosing, producerPhase]) rfl rfl (fun _ => rfl) fun _ =>
        ProducerPhase.noConfusion
  | endSettle hphase =>
    rw [Runner.endSettle]
    split <;>
      exact hopened (by simp [hphase, isClosing, producerPhase]) rfl rfl (fun _ => rfl) fun _ =>
        ProducerPhase.noConfusion
  | announce hannounces hemitted =>
    obtain ⟨hopen, hphase⟩ := Announces.opened hannounces
    refine ⟨.put hemitted.aside.items hemitted.aside.closed hopen (fun sid' _ => ?_) ?_,
      fun sid => ProducerPhase.noConfusion⟩
    · rw [hphase]; rfl
    · rw [hphase]; exact .other EventData.noConfusion
  | announceWait hannounces hemitted =>
    exact hopened (Announces.opened hannounces) (hemitted.aside.items.trans (List.append_nil _))
      hemitted.aside.closed (fun _ => rfl) fun _ => ProducerPhase.noConfusion
  | announceRaise hannounces hemitted =>
    exact (not_raised h hg (Announces.opened hannounces).1 hemitted).elim
  | produce hproduces hemitted => exact Produces.turn hproduces h.sound hemitted.aside
  | produceWait hproduces hemitted =>
    have hproducer := hemitted.aside.producer
    rw [hproducer]
    exact ⟨.quiet (hemitted.aside.items.trans (List.append_nil _)) hemitted.aside.closed
      (fun sid _ => by rw [hproducer]) (fun hc => by rwa [hproducer]), h.sound⟩
  | produceRaise hproduces hemitted =>
    cases hproduces with
    | report hphase =>
      exact hopened (by simp [hphase, isClosing, producerPhase]) rfl rfl (fun _ => rfl) fun _ =>
        ProducerPhase.noConfusion
    | manifest hphase hsid | finish hphase hsid =>
      exact (not_raised h hg (by rw [hphase]; rfl) hemitted).elim
    | fail hphase => exact absurd hphase (h.sound _)
  | close hphase =>
    exact ⟨.close (by rw [hphase]; rfl) rfl (closeStream_items _ _ _), fun sid =>
      ProducerPhase.noConfusion⟩
  | closeWait hphase =>
    refine ⟨.close (by rw [hphase]; rfl) ?_ (closeStream_items _ _ _), h.sound⟩
    show isClosing s.producer = true
    rw [hphase]; rfl

theorem Orderly.producer (hstep : Runner.step cfg s .producer = some s') : Orderly cfg s' := by
  have hmove := producerTurn_move hstep
  have huntouched := hmove.untouched
  have hframe := Frame.of_untouched huntouched
  obtain ⟨consumer, hrun⟩ := hg.consuming (hg.spawned (Or.inr rfl) hstep)
  have hrun' := huntouched.run.trans hrun
  obtain ⟨hturn, hsound⟩ := h.producer_turn hg hmove
  refine
    { sound := hsound
      closing := ?_
      cancelled := fun sid hsid => ?_
      shape := fun sid hsid => ?_ }
  · rw [huntouched.run]
    cases hturn with
    | quiet hitems hclosed hphase hclosing =>
      rw [hitems, hclosed]
      exact fun hor => hclosing (h.closing hor)
    | put hitems hclosed hopen =>
      obtain ⟨hnotClosed, hsentinel, hended⟩ := h.not_closing hopen
      rw [hitems, hclosed]
      simp [hnotClosed, hsentinel, hended]
    | close hfrom hto => exact fun _ => hto
  · rw [hframe.yieldedFor_eq]
    exact h.cancelled sid ((hframe.cancelled sid).symm.trans hsid)
  · have hshape := h.shape sid hsid
    rw [phaseOf_consuming hrun] at hshape
    rw [phaseOf_consuming hrun']
    cases hturn with
    | quiet hitems hclosed hphase =>
      rw [hframe.course_still (by rw [hitems]), hphase sid hsid]
      exact hshape
    | @put sid' event hitems hclosed hopen hother hnext =>
      obtain ⟨-, hsentinel, hended⟩ := h.not_closing hopen
      rw [hframe.course_put hitems]
      by_cases hsame : sid' = sid
      · subst hsame
        split
        next => exact hnext.shape hshape
        next hnot =>
          have hhidden : shown s sid' event ≠ true := fun hshown =>
            hnot ⟨⟨hended, hsentinel⟩, rfl, hshown⟩
          rw [shown, ne_eq, Bool.not_eq_true, Bool.or_eq_false_iff] at hhidden
          rw [List.append_nil, hnext.hidden hhidden.2]
          exact hshape
      · rw [if_neg fun hall => hsame hall.2.1, List.append_nil, hother sid (Ne.symm hsame)]
        exact hshape
    | close hfrom hto hitems =>
      have hvisible : visible (items s') = visible (items s) := by
        rcases hitems with hitems | hitems
        · rw [hitems]
        · rw [hitems, visible_append]
          simp
      rw [hframe.course_still hvisible, producerPhase_of_closing hto]
      rwa [producerPhase_of_closing hfrom] at hshape

/-! ## Turns of `run()` -/

omit hg in
theorem Orderly.run_quiet (hframe : Frame s s') (hproducer : s'.producer = s.producer)
    (hitems : items s' = items s) (hclosed : s'.mux.closed = s.mux.closed)
    (hphase : ∀ sid < cfg.maxId, phaseOf s' sid = phaseOf s sid) :
    Orderly cfg s' where
  sound := by rw [hproducer]; exact h.sound
  closing := by rw [hitems, hclosed, hproducer, hframe.ended]; exact h.closing
  cancelled sid hsid := by
    rw [hframe.yieldedFor_eq]
    exact h.cancelled sid ((hframe.cancelled sid).symm.trans hsid)
  shape sid hsid := by
    rw [hphase sid hsid, hframe.course_still (by rw [hitems])]
    exact h.shape sid hsid

omit hg in
theorem Orderly.not_cancelled (hsid : sid < cfg.maxId) (hphase : phaseOf s sid = .absent) :
    s.isCancelled sid = false := by
  have hempty : course s sid = [] := by
    have hshape := h.shape sid hsid
    rwa [hphase] at hshape
  by_contra hcancelled
  exact h.cancelled sid (by simpa using hcancelled) (List.append_eq_nil_iff.mp hempty).1

theorem Orderly.start (hphase : s.run = .starting count)
    (hemitted : Emitted s .run ⟨count, .streamStart⟩ (t, .returned)) :
    Orderly cfg { t with run := .starting (count + 1) } := by
  have haside := hemitted.aside
  have habsent : s.producer = .absent := hg.absent (by simp [hphase])
  obtain ⟨hopen, hsentinel, hended⟩ := h.not_closing (by rw [habsent]; rfl)
  have hframe : Frame s { t with run := .starting (count + 1) } :=
    ⟨haside.yielded, fun sid => congrArg (·.getD sid false) haside.tokens, by simp [hphase]⟩
  refine
    { sound := fun sid => by rw [haside.producer]; exact h.sound sid
      closing := ?_
      cancelled := fun sid hsid => ?_
      shape := fun sid hsid => ?_ }
  · show t.mux.closed = true ∨ none ∈ items t ∨ _ → _
    rw [haside.closed, haside.items]
    simp [hopen, hsentinel]
  · rw [hframe.yieldedFor_eq]
    exact h.cancelled sid ((hframe.cancelled sid).symm.trans hsid)
  · have hshape := h.shape sid hsid
    have hbefore : phaseOf s sid = if sid < count then .opened else .absent := by
      rw [phaseOf, hphase]
    have hafter : phaseOf { t with run := .starting (count + 1) } sid =
        if sid < count + 1 then .opened else .absent := rfl
    rw [hbefore] at hshape
    have hcourse := hframe.course_put haside.items sid
    rw [hafter, hcourse]
    by_cases hsame : count = sid
    · subst hsame
      rw [if_neg (Nat.lt_irrefl _)] at hshape
      have hshown : shown s count .streamStart = true := by
        rw [shown, h.not_cancelled hsid (hbefore.trans (if_neg (Nat.lt_irrefl _)))]
        rfl
      rw [if_pos (Nat.lt_succ_self _), if_pos ⟨⟨hended, hsentinel⟩, rfl, hshown⟩]
      exact hshape.start
    · have hiff : sid < count + 1 ↔ sid < count :=
        Nat.lt_succ_iff_lt_or_eq.trans (or_iff_left (Ne.symm hsame))
      simpa only [hiff, hsame, false_and, and_false, if_false, List.append_nil] using hshape

end

section Take

variable {consumer : Consumer} {mux : RunMux}
  {e : OutEvent}

theorem course_next (hrun : s.run = .consuming consumer) (hrunning : consumer ≠ .ended)
    (hitems : items s = some e.toQueuedItem :: mux.queue.items) (sid : StreamId) :
    course s sid = yieldedFor s sid ++
      ((if e.streamId = sid ∧ shown s sid e.event = true then [e.event] else []) ++
        eventsOf sid (shown s sid) (visible mux.queue.items)) := by
  rw [course, awaited, if_neg (by simp [hrun, hrunning]), hitems, visible, eventsOf_cons]

section

variable (h : Orderly cfg s) (hrun : s.run = .consuming consumer)
include h hrun

theorem Orderly.collect
    (hmux : mux = { s.mux with queue := mux.queue, allocators := mux.allocators })
    (hitems : items s = some e.toQueuedItem :: mux.queue.items) (partials : StreamId → List Char)
    (yielded : List OutEvent)
    (hyielded : ∀ sid, yieldedFor s sid ≠ [] →
      eventsOf sid (fun _ => true) (yielded.map (·.toQueuedItem)) ≠ [])
    (hshape : ∀ sid < cfg.maxId, (phaseOf s sid).Shape
      (eventsOf sid (fun _ => true) (yielded.map (·.toQueuedItem)) ++
        eventsOf sid (shown s sid) (visible mux.queue.items))) :
    Orderly cfg
      { s with
        mux := mux
        run := .consuming .checking
        taken := s.taken ++ [some e.toQueuedItem]
        partials := partials
        yielded := yielded } where
  sound := h.sound
  closing hor := by
    refine h.closing ?_
    rcases hor with hclosed | hsentinel | hended
    · have hclosed' : mux.closed = true := hclosed
      rw [hmux] at hclosed'
      exact Or.inl hclosed'
    · exact Or.inr (Or.inl (by rw [hitems]; exact List.mem_cons_of_mem _ hsentinel))
    · simp at hended
  cancelled sid hsid := hyielded sid (h.cancelled sid hsid)
  shape sid hsid := by
    have hbefore := hshape sid hsid
    rw [phaseOf_consuming hrun] at hbefore
    exact hbefore

theorem Orderly.take (hrunning : consumer ≠ .ended)
    (hmux : mux = { s.mux with queue := mux.queue, allocators := mux.allocators })
    (hitems : items s = some e.toQueuedItem :: mux.queue.items)
    (hpresent : s.monitor.shouldBuffer = false)
    (hdelivered : Delivered
      { s with
        mux := mux
        run := .consuming .checking
        taken := s.taken ++ [some e.toQueuedItem] } e s') : Orderly cfg s' := by
  cases hdelivered with
  | hidden hcancelled hpasses =>
    refine h.collect hrun hmux hitems _ s.yielded (fun sid hne => hne) fun sid hsid => ?_
    have hshape := h.shape sid hsid
    rw [course_next hrun hrunning hitems, if_neg, List.nil_append] at hshape
    · exact hshape
    · rintro ⟨rfl, hshown⟩
      have hcancelled' : s.isCancelled e.streamId = true := hcancelled
      rw [shown, hcancelled', hpasses] at hshown
      exact Bool.noConfusion hshown
  | buffered hshown hbuffer =>
    have hbuffer' : s.monitor.shouldBuffer = true := hbuffer
    rw [hpresent] at hbuffer'
    exact Bool.noConfusion hbuffer'
  | yielded hshown hbuffer =>
    refine h.collect hrun hmux hitems _ (s.yielded ++ [e]) (fun sid hne => ?_)
      fun sid hsid => ?_
    · rw [List.map_append, List.map_singleton, eventsOf_append]
      exact fun hnil => hne (List.append_eq_nil_iff.mp hnil).1
    · have hshape := h.shape sid hsid
      rw [course_next hrun hrunning hitems, ← List.append_assoc] at hshape
      rw [List.map_append, List.map_singleton, eventsOf_append]
      have hiff : e.streamId = sid ∧ shown s sid e.event = true ↔
          e.streamId = sid ∧ true = true := by
        refine and_congr_right fun hsame => iff_of_true ?_ rfl
        subst hsame
        rw [shown, Bool.or_eq_true, Bool.not_eq_true']
        by_cases hcancelled : s.isCancelled e.streamId = true
        · exact Or.inr (hshown hcancelled)
        · exact Or.inl (by simpa using hcancelled)
      rw [if_congr hiff rfl rfl] at hshape
      exact hshape

end

end Take

theorem Orderly.started (h : Orderly cfg s) (hphase : s.run = .starting count)
    (hcount : cfg.maxId ≤ count) (habsent : s.producer = .absent) :
    Orderly cfg { s with run := .consuming .checking, producer := .spawning } := by
  obtain ⟨hopen, hsentinel, -⟩ := h.not_closing (by rw [habsent]; rfl)
  have hframe : Frame s { s with run := .consuming .checking, producer := .spawning } :=
    ⟨rfl, fun _ => rfl, by simp [hphase]⟩
  refine
    { sound := fun _ => ProducerPhase.noConfusion
      closing := by simp [hopen, hsentinel]
      cancelled := h.cancelled
      shape := fun sid hsid => ?_ }
  have hbefore : phaseOf s sid = .opened := by
    rw [phaseOf, hphase]
    exact if_pos (Nat.lt_of_lt_of_le hsid hcount)
  have hshape := h.shape sid hsid
  rw [hbefore] at hshape
  rw [hframe.course_still rfl]
  exact hshape

theorem Orderly.finish (h : Orderly cfg s) (hrun : s.run = .consuming consumer)
    (hclosing : isClosing s.producer = true) (hempty : visible (items s) = []) (mux : RunMux)
    (taken : List (Option Item)) :
    Orderly cfg { s with mux := mux, run := .consuming .ended, taken := taken } where
  sound := h.sound
  closing _ := hclosing
  cancelled := h.cancelled
  shape sid hsid := by
    have hshape := h.shape sid hsid
    rw [phaseOf_consuming hrun, course, awaited, hempty, ite_self] at hshape
    exact hshape

theorem Orderly.run (h : Orderly cfg s) (hg : Grounded cfg s) (hpresent : orderly cfg s .run)
    (hstep : Runner.step cfg s .run = some s') :
    Orderly cfg s' := by
  cases runTurn_move hstep with
  | @register count hphase hcount =>
    refine h.run_quiet ⟨rfl, fun sid => isCancelled_register s sid _ _, by simp [hphase]⟩
      rfl rfl rfl fun sid _ => ?_
    rw [phaseOf, phaseOf, hphase]
  | registered hphase hcount =>
    refine h.run_quiet ⟨rfl, fun sid => rfl, by simp [hphase]⟩ rfl rfl rfl fun sid _ => ?_
    rw [phaseOf, phaseOf, hphase]
    exact if_neg (Nat.not_lt_zero _)
  | start hphase hcount hemitted => exact h.start hg hphase hemitted
  | startWait hphase hcount hemitted =>
    have haside := hemitted.aside
    exact h.run_quiet (.of_untouched haside.toUntouched) haside.producer
      (haside.items.trans (List.append_nil _)) haside.closed
      fun sid _ => phaseOf_congr haside.run haside.producer sid
  | startRaise hphase hcount hemitted =>
    exact (not_raised h hg (by rw [hg.absent (by simp [hphase])]; rfl) hemitted).elim
  | started hphase hcount => exact h.started hphase hcount (hg.absent (by simp [hphase]))
  | stop hphase hclosed hitems =>
    exact h.finish hphase (h.closing (Or.inl hclosed)) (by rw [hitems]; rfl) s.mux s.taken
  | starve hphase hrunning hitems =>
    refine h.run_quiet ⟨rfl, fun sid => rfl, by simp [hphase, hrunning]⟩ rfl rfl rfl
      fun sid _ => ?_
    rw [phaseOf, phaseOf, hphase]
  | sentinel hphase hrunning hmux hitems =>
    refine h.finish hphase (h.closing (Or.inr (Or.inl ?_))) (by rw [hitems]; rfl) _ _
    rw [hitems]
    exact List.mem_cons_self ..
  | take hphase hrunning hmux hitems hdelivered =>
    exact h.take hphase hrunning hmux hitems hpresent hdelivered

/-! ## `cancel` -/

theorem eventsOf_sublist {q : EventData → Bool} (h : ∀ event, p event = true → q event = true)
    (l : List Item) :
    List.Sublist (eventsOf sid p l) (eventsOf sid q l) := by
  refine (List.monotone_filter_right l fun item hitem => ?_).map _
  rw [Bool.and_eq_true] at hitem ⊢
  exact ⟨hitem.1, h _ hitem.2⟩

theorem mem_eventsOf {l : List Item} :
    event ∈ eventsOf sid p l ↔ ⟨sid, event⟩ ∈ l ∧ p event = true := by
  rw [eventsOf, List.mem_map]
  constructor
  · rintro ⟨item, hitem, rfl⟩
    rw [List.mem_filter, Bool.and_eq_true, decide_eq_true_eq] at hitem
    obtain ⟨hmem, rfl, hp⟩ := hitem
    exact ⟨hmem, hp⟩
  · rintro ⟨hmem, hp⟩
    exact ⟨⟨sid, event⟩, List.mem_filter.mpr ⟨hmem, by simp [hp]⟩, rfl⟩

theorem course_thinned (hyielded : s'.yielded = s.yielded) (hawaited : awaited s' = awaited s)
    (hcancelled : s'.isCancelled sid = true) (hseen : yieldedFor s sid ≠ []) :
    Thinned (course s sid) (course s' sid) := by
  have hyielded' : yieldedFor s' sid = yieldedFor s sid := by
    rw [yieldedFor, yieldedFor, hyielded]
  have hshown : ∀ event, shown s' sid event = Runner.passes event := by
    intro event
    rw [shown, hcancelled]
    rfl
  rw [course, course, hyielded', hawaited]
  refine ⟨?_, ?_, fun event hevent hmarks hstart => ?_⟩
  · refine (eventsOf_sublist (fun event hpasses => ?_) _).append_left _
    rw [hshown] at hpasses
    rw [shown, hpasses, Bool.or_true]
  · cases hy : yieldedFor s sid with
    | nil => exact absurd hy hseen
    | cons first rest => rfl
  · rcases List.mem_append.mp hevent with hold | hawaits
    · exact List.mem_append_left _ hold
    · refine List.mem_append_right _ (mem_eventsOf.mpr ⟨(mem_eventsOf.mp hawaits).1, ?_⟩)
      rw [hshown]
      cases event with
      | streamStart => exact absurd rfl hstart
      | streamManifest placeholders => simp [Runner.passes, EventData.eventType]
      | streamEnd => rfl
      | _ => exact Bool.noConfusion hmarks

theorem Orderly.course_cancelled (h : Orderly cfg s) (hsid : sid < s.tokens.length)
    (hseen : yieldedFor s sid ≠ []) (hyielded : s'.yielded = s.yielded)
    (hawaited : awaited s' = awaited s) (htokens : s'.tokens = s.tokens.set sid true)
    (hsid' : sid' < cfg.maxId) :
    (phaseOf s sid').Shape (course s' sid') := by
  have hcancelled : s'.isCancelled sid' = if sid = sid' then true else s.isCancelled sid' := by
    rw [Runner.isCancelled, htokens, isCancelled_set hsid]
  by_cases hsame : sid = sid'
  · subst hsame
    rw [if_pos rfl] at hcancelled
    exact (h.shape sid hsid').thin (course_thinned hyielded hawaited hcancelled hseen)
  · rw [if_neg hsame] at hcancelled
    have hshown : shown s' sid' = shown s sid' := by
      funext event
      rw [shown, shown, hcancelled]
    rw [course, yieldedFor, hyielded, hawaited, hshown]
    exact h.shape sid' hsid'

theorem Orderly.shape_cancelled {mux : RunMux}
    {executors : List StreamExecutor} {returned : List (StreamId × List Char)} (h : Orderly cfg s)
    (hsid : sid < s.tokens.length) (hseen : yieldedFor s sid ≠ [])
    (hended : phaseOf s sid = .ended → s.mux.closed = true ∨ s.mux.queue.full = true)
    (hitems : CancelItems s.mux ⟨sid, .streamCancelled (s.partials sid)⟩ mux.queue.items)
    (hsid' : sid' < cfg.maxId) :
    (phaseOf s sid').Shape
      (course
        { s with
          mux := mux
          executors := executors
          tokens := s.tokens.set sid true
          returned := returned } sid') := by
  let noted : Runner := { s with tokens := s.tokens.set sid true }
  have hshape : (phaseOf s sid').Shape (course noted sid') :=
    h.course_cancelled hsid hseen rfl rfl rfl hsid'
  have hframe : Frame noted
      { s with
        mux := mux
        executors := executors
        tokens := s.tokens.set sid true
        returned := returned } := ⟨rfl, fun _ => rfl, Iff.rfl⟩
  generalize hafter : mux.queue.items = after at hitems
  cases hitems with
  | dropped => rwa [hframe.course_still (congrArg visible hafter)]
  | put hopen hspace =>
    rw [hframe.course_put hafter]
    split
    next hshown =>
      obtain ⟨-, rfl, -⟩ := hshown
      refine hshape.append (fun habsent => ?_) (fun hphase => ?_) EventData.noConfusion
      · have hbefore := h.shape sid hsid'
        rw [habsent] at hbefore
        exact hseen (List.append_eq_nil_iff.mp hbefore).1
      · rcases hended hphase with hclosed | hfull
        · rw [hopen] at hclosed
          exact Bool.noConfusion hclosed
        · rw [hspace] at hfull
          exact Bool.noConfusion hfull
    next =>
      rw [List.append_nil]
      exact hshape

theorem Orderly.cancel {force : Bool} (h : Orderly cfg s)
    (horderly : orderly cfg s (.cancel sid force))
    (hstep : Runner.step cfg s (.cancel sid force) = some s') : Orderly cfg s' := by
  cases cancel_move hstep with
  | unknown => exact h
  | @known mux executors hsid hmux hitems hexecutors =>
    obtain ⟨-, hseen, hended⟩ := horderly hsid
    have hclosed : mux.closed = s.mux.closed := by rw [hmux]
    refine
      { sound := h.sound
        closing := ?_
        cancelled := fun sid' hsid' => ?_
        shape := fun sid' hsid' => ?_ }
    · rintro (hclosed' | hsentinel | hended')
      · exact h.closing (Or.inl (hclosed.symm.trans hclosed'))
      · have hold := (hitems.mem hsentinel).resolve_right (Option.some_ne_none _).symm
        exact h.closing (Or.inr (Or.inl hold))
      · exact h.closing (Or.inr (Or.inr hended'))
    · by_cases hsame : sid = sid'
      · exact hsame ▸ hseen
      · exact h.cancelled sid' (((isCancelled_set hsid).trans (if_neg hsame)).symm.trans hsid')
    · exact h.shape_cancelled hsid hseen hended hitems hsid'

/-! ## Every run -/

theorem Orderly.step {e : Runner.Step} (h : Orderly cfg s) (hg : Grounded cfg s)
    (horderly : orderly cfg s e) (hstep : Runner.step cfg s e = some s') : Orderly cfg s' := by
  cases e with
  | run => exact h.run hg horderly hstep
  | producer => exact h.producer hg hstep
  | cancel sid force => exact h.cancel horderly hstep
  | tick ms | disconnect | reconnect =>
    obtain rfl := Option.some.inj hstep
    exact { h with }
  | _ => exact h.task hg rfl horderly hstep

theorem backpressure_step {e : Runner.Step} (hstep : Runner.step cfg s e = some s') :
    s'.mux.backpressure = s.mux.backpressure := by
  cases e with
  | run =>
    cases runTurn_move hstep with
    | start h hcount hemitted | startWait h hcount hemitted => exact hemitted.aside.backpressure
    | sentinel h hrunning hmux => rw [hmux]
    | take h hrunning hmux hitems hdelivered =>
      cases hdelivered <;> rw [hmux]
    | _ => rfl
  | producer => exact backpressure_move (producerTurn_move hstep)
  | cancel sid force =>
    cases cancel_move hstep with
    | unknown => rfl
    | known hsid hmux => rw [hmux]
  | tick ms | disconnect | reconnect =>
    obtain rfl := Option.some.inj hstep
    rfl
  | _ =>
    obtain ⟨put, haside, -⟩ := task_aside rfl hstep
    exact haside.backpressure

theorem Grounded.step {e : Runner.Step} (h : Grounded cfg s) (horderly : orderly cfg s e)
    (hstep : Runner.step cfg s e = some s') : Grounded cfg s' := by
  refine ⟨h.staged.step hstep, ?_, (backpressure_step hstep).trans h.block⟩
  cases h.safe with
  | started h => exact .started (h.step hstep)
  | early h hspace =>
    cases e with
    | cancel sid force =>
      cases cancel_move hstep with
      | unknown => exact .early h hspace
      | known hsid => exact absurd h.producer (horderly hsid).1
    | _ => exact h.step hspace (by simp [Start.Proofs.isCancel]) hstep

/-- Turns of `run()` alone yield all that is in the queue. -/
theorem Orderly.drains (h : Orderly cfg s) (hg : Grounded cfg s)
    (hrun : s.run = .consuming consumer) (hpresent : s.monitor.shouldBuffer = false) :
    ∃ t, Reaches (Runner.step cfg) (· = .run) s t ∧ Orderly cfg t ∧ t.producer = s.producer ∧
      (∃ consumer, t.run = .consuming consumer) ∧ awaited t = [] := by
  -- On the number of items: a turn that does not end the run takes one.
  induction hn : (items s).length generalizing s consumer with
  | zero =>
    refine ⟨s, .refl _ _ s, h, rfl, ⟨_, hrun⟩, ?_⟩
    rw [awaited, List.eq_nil_of_length_eq_zero hn, visible, ite_self]
  | succ n ih =>
    by_cases hended : consumer = .ended
    · exact ⟨s, .refl _ _ s, h, rfl, ⟨_, hrun⟩, if_pos (hended ▸ hrun)⟩
    · have hne : items s ≠ [] := List.ne_nil_of_length_eq_add_one hn
      have hstep : Runner.step cfg s .run = some s.get := by
        show s.runTurn cfg = _
        rw [Runner.runTurn, hrun]
        cases consumer with
        | checking => exact if_neg fun hand => hne hand.2
        | getting => rfl
        | ended => exact absurd rfl hended
      have hnext := h.run hg hpresent hstep
      have hground := hg.step (e := .run) hpresent hstep
      generalize s.get = s' at hstep hnext hground
      have hreach : Reaches (Runner.step cfg) (· = .run) s s' := .single rfl hstep
      cases runTurn_move hstep with
      | sentinel => exact ⟨_, hreach, hnext, rfl, ⟨_, rfl⟩, if_pos rfl⟩
      | take hphase hrunning hmux hitems hdelivered =>
        have hless := congrArg List.length hitems
        rw [hn, List.length_cons, Nat.add_right_cancel_iff] at hless
        have hafter : s'.run = .consuming .checking ∧ s'.monitor.shouldBuffer = false ∧
            s'.producer = s.producer ∧ (items s').length = n := by
          cases hdelivered with
          | buffered hshown hbuffer => exact absurd (hpresent.symm.trans hbuffer) (by decide)
          | _ => exact ⟨rfl, hpresent, rfl, hless.symm⟩
        obtain ⟨t, hrest, ht, hproducer, hdone⟩ := ih hnext hground hafter.1 hafter.2.1 hafter.2.2.2
        exact ⟨t, hreach.trans hrest, ht, hproducer.trans hafter.2.2.1, hdone⟩
      | _ => simp_all

theorem Orderly.end_mem (h : Orderly cfg s) (hsid : sid < cfg.maxId)
    (hrun : s.run = .consuming consumer) (hclosing : isClosing s.producer = true)
    (hempty : awaited s = []) : .streamEnd ∈ yieldedFor s sid := by
  have hshape := h.shape sid hsid
  rw [phaseOf_consuming hrun, producerPhase_of_closing hclosing, course, hempty] at hshape
  obtain ⟨before, hbefore, -⟩ := hshape
  have hyielded : yieldedFor s sid = before ++ [.streamEnd] :=
    (List.append_nil _).symm.trans hbefore
  rw [hyielded]
  exact List.mem_append_right _ (List.mem_singleton_self _)

/-- What the protocol promises for a stream: `run()` does not raise, what it has yielded is in
order, when it has ended the end was yielded, and its turns alone bring out what is in the queue,
with the end once `_produce` closes the streams. -/
structure Kept (cfg : StreamConfig) (s : Runner) (sid : StreamId) : Prop where
  running : s.run ≠ .raised
  order : InOrder (yieldedFor s sid)
  complete : s.run = .consuming .ended → .streamEnd ∈ yieldedFor s sid
  drains : s.producer ≠ .absent → s.monitor.shouldBuffer = false →
    ∃ t, Reaches (Runner.step cfg) (· = .run) s t ∧ awaited t = [] ∧
      (isClosing s.producer = true → .streamEnd ∈ yieldedFor t sid)

theorem Orderly.kept (h : Orderly cfg s) (hg : Grounded cfg s) (hsid : sid < cfg.maxId) :
    Kept cfg s sid where
  running hraised := by
    have hearly := hg.early (hg.absent (by simp [hraised]))
    simpa [hraised] using hearly.phase
  order := (h.shape sid hsid).inOrder (List.prefix_append _ _)
  complete hended := h.end_mem hsid hended (h.closing (Or.inr (Or.inr hended))) (if_pos hended)
  drains hstarted hpresent := by
    obtain ⟨consumer, hrun⟩ := hg.consuming hstarted
    obtain ⟨t, hreach, ht, hproducer, ⟨_, hrun'⟩, hempty⟩ := h.drains hg hrun hpresent
    exact ⟨t, hreach, hempty, fun hclosing =>
      ht.end_mem hsid hrun' (hproducer ▸ hclosing) hempty⟩

instance (s : Runner) (sid : StreamId) : Decidable (late s sid) :=
  inferInstanceAs (Decidable (_ ∧ _ ∧ _ ∧ _))

instance decidableOrderly (cfg : StreamConfig) (s : Runner) : ∀ e, Decidable (orderly cfg s e)
  | .run => inferInstanceAs (Decidable (_ = _))
  | .cancel _ _ => inferInstanceAs (Decidable (_ → _ ∧ _ ∧ (_ → _ ∨ _)))
  | .producer | .tick _ | .disconnect | .reconnect => isTrue trivial
  | .executor sid => decidablePut (.executor sid)
  | .stage sid index => decidablePut (.stage sid index)
  | .source sid index chunk => decidablePut (.source sid index chunk)
  | .enrich pid => decidablePut (.enrich pid)
  | .enriched pid url => decidablePut (.enriched pid url)
where
  decidablePut (e : Runner.Step) : Decidable (∀ item ∈ put? cfg s e, ¬late s item.streamId) :=
    inferInstance

end Orditect.Stream.Protocol.Proofs
