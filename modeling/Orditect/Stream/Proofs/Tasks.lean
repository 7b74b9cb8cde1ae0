import Orditect.Stream.Runner
import Orditect.Support.Transition
/-!
# Turns of executors, stages and enrich tasks

A turn of `emit` puts its event at the end of the queue, waits, or raises.  Stages, executors and
enrich tasks touch nothing else that `run()` and `_produce` look at.
-/

namespace Orditect.Stream.Runner.Proofs

open Support

abbrev items (s : Runner) : List (Option Item) := s.mux.queue.items

/-- The events in front of the sentinel: what comes after it is not taken any more. -/
def visible {α : Type} : List (Option α) → List α
  | [] => []
  | none :: _ => []
  | some a :: rest => a :: visible rest

theorem visible_append {α : Type} [DecidableEq α] (l : List (Option α)) (a : Option α) :
    visible (l ++ [a]) = if none ∈ l then visible l else visible l ++ a.toList := by
  induction l with
  | nil => cases a <;> rfl
  | cons b l ih =>
    cases b with
    | none => simp [visible]
    | some b =>
      simp only [List.cons_append, visible, ih]
      by_cases h : none ∈ l <;> simp [h]

/-! ## Turns of `emit` -/

inductive Emitted (s : Runner) (o : Owner) (item : Item) :
    Runner × Turn → Prop where
  | returned (mux : RunMux)
      (hmux : mux = { s.mux with queue := mux.queue })
      (hitems : mux.queue.items = items s ++ [some item])
      (hothers : ∀ p, p ≠ o → mux.queue.suspended p = s.mux.queue.suspended p) :
      Emitted s o item ({ s with mux := mux }, .returned)
  | waiting (mux : RunMux)
      (hmux : mux = { s.mux with queue := mux.queue })
      (hitems : mux.queue.items = items s)
      (hothers : ∀ p, p ≠ o → mux.queue.suspended p = s.mux.queue.suspended p)
      (hself : mux.queue.suspended o = true) :
      Emitted s o item ({ s with mux := mux }, .waiting)
  | raised (hraised : s.mux.closed = true ∨ s.mux.backpressure = .fail ∧ s.mux.queue.full = true)
      (hfresh : s.mux.queue.suspended o = false) :
      Emitted s o item (s, .raised)

theorem emitted (s : Runner) (o : Owner) (sid : StreamId) (event : EventData) :
    Emitted s o ⟨sid, event⟩ (s.emit o sid event) := by
  rw [Runner.emit]
  rcases s.mux.emit_cases o ⟨sid, event⟩ with ⟨hemit, hfresh, hraised⟩ | ⟨hemit, -⟩
  · rw [hemit]
    exact .raised hraised hfresh
  · have hitems := s.mux.queue.items_put o (some ⟨sid, event⟩)
    have hself := s.mux.queue.suspended_put_self o (some ⟨sid, event⟩)
    have hothers : ∀ p, p ≠ o → (s.mux.queue.put o (some ⟨sid, event⟩)).1.suspended p =
        s.mux.queue.suspended p := fun p hp => s.mux.queue.suspended_put_of_ne hp _
    rw [hemit, StreamMux.put]
    cases hin : (s.mux.queue.put o (some ⟨sid, event⟩)).2 with
    | true =>
      rw [hin, if_pos rfl] at hitems
      exact .returned _ rfl hitems hothers
    | false =>
      rw [hin, if_neg (by decide)] at hitems
      rw [hin] at hself
      exact .waiting _ rfl hitems hothers hself

variable {s s' : Runner} {sid : StreamId} {index : Nat} {task : StageTask} {pid : PlaceholderId}

variable {item : Item} {o : Owner} {task' : StageTask}
  {answer : Option String} {cfg : StreamConfig}

theorem Emitted.cause {t : Runner} (h : Emitted s o item (t, .raised)) :
    (s.mux.closed = true ∨ s.mux.backpressure = .fail ∧ s.mux.queue.full = true) ∧
      s.mux.queue.suspended o = false := by
  cases h with
  | raised hraised hfresh => exact ⟨hraised, hfresh⟩

/-! ## Steps of the other tasks -/

structure Untouched (s s' : Runner) : Prop where
  run : s'.run = s.run
  now : s'.now = s.now
  tokens : s'.tokens = s.tokens
  partials : s'.partials = s.partials
  monitor : s'.monitor = s.monitor
  taken : s'.taken = s.taken
  yielded : s'.yielded = s.yielded
  returned : s'.returned = s.returned

theorem Untouched.refl (s : Runner) : Untouched s s :=
  ⟨rfl, rfl, rfl, rfl, rfl, rfl, rfl, rfl⟩

/-- A step of another task than `run()` and `_produce`, which puts at most one event into the
queue. -/
structure Aside (s s' : Runner) (put : Option Item) : Prop
    extends Untouched s s' where
  producer : s'.producer = s.producer
  items : items s' = items s ++ (put.map some).toList
  closed : s'.mux.closed = s.mux.closed
  backpressure : s'.mux.backpressure = s.mux.backpressure
  openStreams : s'.mux.openStreams = s.mux.openStreams

theorem Aside.refl (s : Runner) : Aside s s none :=
  ⟨.refl s, rfl, (List.append_nil _).symm, rfl, rfl, rfl⟩

theorem Emitted.aside {r : Runner × Turn} (h : Emitted s o item r) :
    Aside s r.1 (if r.2 = .returned then some item else none) := by
  cases h with
  | returned mux hmux hitems =>
    rw [hmux]
    exact ⟨{ Untouched.refl s with }, rfl, hitems, rfl, rfl, rfl⟩
  | waiting mux hmux hitems =>
    rw [hmux]
    exact ⟨{ Untouched.refl s with }, rfl, hitems.trans (List.append_nil _).symm, rfl, rfl, rfl⟩
  | raised => exact .refl s

theorem Aside.update {put : Option Item} (h : Aside s s' put)
    (executors : List StreamExecutor) (enrichTasks : List EnrichTask)
    (registry : List PlaceholderRecord) (emitted : List PlaceholderId) (placeholders : Nat) :
    Aside s
      { s' with
        executors := executors
        enrichTasks := enrichTasks
        registry := registry
        emitted := emitted
        placeholders := placeholders } put :=
  { h with }

theorem executorTurn_move (h : s.executorTurn sid = some s') :
    ∃ (executor executor' : StreamExecutor) (n : Nat), s.executors[sid]? = some executor ∧
      s' = { s with executors := s.executors.set sid executor' } ∧
      executor'.tasks = executor.tasks ++ List.replicate n ({} : StageTask) := by
  rw [Runner.executorTurn] at h
  split at h
  · simp at h
  next executor hexecutor =>
    dsimp only at h
    split_ifs at h
    · exact ⟨executor, _, 0, hexecutor, (Option.some.inj h).symm, (List.append_nil _).symm⟩
    · exact ⟨executor, _, 0, hexecutor, (Option.some.inj h).symm, (List.append_nil _).symm⟩
    · exact ⟨executor, _, 1, hexecutor, (Option.some.inj h).symm, rfl⟩
    · exact ⟨executor, _, executor.parallel, hexecutor, (Option.some.inj h).symm, rfl⟩
    · exact ⟨executor, _, 0, hexecutor, (Option.some.inj h).symm, (List.append_nil _).symm⟩

theorem executorTurn_aside (h : s.executorTurn sid = some s') :
    Aside s s' none := by
  obtain ⟨executor, executor', n, -, rfl, -⟩ := executorTurn_move h
  exact (Aside.refl s).update _ _ _ _ _

/-! ## Turns of a stage -/

theorem task?_eq_some :
    s.task? sid index = some task ↔
      ∃ executor, s.executors[sid]? = some executor ∧ executor.tasks[index]? = some task := by
  rw [Runner.task?, Option.bind_eq_some_iff]

theorem executor_setTask {sid' : StreamId} {executor : StreamExecutor} :
    (s.setTask sid index task).executors[sid']? = some executor ↔
      ∃ before, s.executors[sid']? = some before ∧
        executor =
          if sid = sid' then { before with tasks := before.tasks.set index task } else before := by
  rw [Runner.setTask, List.getElem?_modify, Option.map_eq_map, Option.map_eq_some_iff]
  simp only [eq_comm]

theorem task?_setTask (h : s.task? sid index = some task) :
    (s.setTask sid index task').task? sid index = some task' := by
  obtain ⟨executor, hexecutor, htask⟩ := task?_eq_some.mp h
  refine task?_eq_some.mpr ⟨_, executor_setTask.mpr ⟨executor, hexecutor, rfl⟩, ?_⟩
  rw [if_pos rfl]
  exact List.getElem?_set_self (List.getElem?_eq_some_iff.mp htask).1

/-- What a turn of a stage comes to. -/
inductive StageMove (s : Runner) (sid : StreamId) (index : Nat) (task : StageTask) :
    Runner → Prop where
  | abandoned (h : task.cancelRequested = true) :
      StageMove s sid index task
        ({ s with mux := { s.mux with queue := s.mux.queue.abandon (.stage sid index) } }.setTask
          sid index { task with todo := [], phase := .over .cancelled })
  | emit {t : Runner} (event : EventData) (rest : List StageAction)
      (h : task.cancelRequested = false) (htodo : task.todo = .emit event :: rest)
      (hemitted : Emitted s (.stage sid index) ⟨sid, event⟩ (t, .returned)) :
      StageMove s sid index task (t.setTask sid index { task with todo := rest })
  | wait {t : Runner} (event : EventData)
      (hemitted : Emitted s (.stage sid index) ⟨sid, event⟩ (t, .waiting)) :
      StageMove s sid index task t
  | raise : StageMove s sid index task
      (s.setTask sid index { task with todo := [], phase := .over .raised })
  | register (pid : PlaceholderId) (rest : List StageAction)
      (htodo : task.todo = .register pid :: rest) :
      StageMove s sid index task
        ((s.register pid sid).setTask sid index { task with todo := rest })
  | leave (todo : List StageAction) (phase : StagePhase) (htodo : task.todo = [])
      (hnext : todo = [] ∨ todo = [.emit .stageEnd]) :
      StageMove s sid index task (s.setTask sid index { task with todo := todo, phase := phase })

theorem stageTurn_move (h : s.stageTurn sid index = some s') :
    ∃ task, s.task? sid index = some task ∧ StageMove s sid index task s' := by
  rw [Runner.stageTurn] at h
  split at h
  · simp at h
  next task htask =>
    refine ⟨task, htask, ?_⟩
    split_ifs at h with hover hrequested
    · obtain rfl := Option.some.inj h
      exact .abandoned hrequested
    split at h
    next event rest htodo =>
      have hemitted := emitted s (.stage sid index) sid event
      split at h <;>
      next t heq =>
        rw [heq] at hemitted
        obtain rfl := Option.some.inj h
        first
          | exact .emit event rest (by simpa using hrequested) htodo hemitted
          | exact .wait event hemitted
          | (cases hemitted; exact .raise)
    next pid rest htodo =>
      obtain rfl := Option.some.inj h
      exact .register pid rest htodo
    next htodo =>
      split at h
      · obtain rfl := Option.some.inj h
        exact .leave _ _ htodo (Or.inr rfl)
      · obtain rfl := Option.some.inj h
        rw [htodo]
        exact .leave _ _ htodo (Or.inl rfl)
      · simp at h

theorem abandon_aside (s : Runner) (o : Owner) :
    Aside s { s with mux := { s.mux with queue := s.mux.queue.abandon o } } none :=
  ⟨{ Untouched.refl s with }, rfl, (AsyncQueue.items_abandon _ _).trans (List.append_nil _).symm,
    rfl, rfl, rfl⟩

theorem StageMove.aside (h : StageMove s sid index task s') :
    Aside s s' none ∨ ∃ event rest, task.cancelRequested = false ∧
      task.todo = .emit event :: rest ∧ Aside s s' (some ⟨sid, event⟩) := by
  cases h with
  | abandoned => exact Or.inl ((abandon_aside s _).update _ _ _ _ _)
  | emit event rest hrequested htodo hemitted =>
    exact Or.inr ⟨event, rest, hrequested, htodo, hemitted.aside.update _ _ _ _ _⟩
  | wait event hemitted => exact Or.inl hemitted.aside
  | raise | register | leave => exact Or.inl ((Aside.refl s).update _ _ _ _ _)

/-! ## Chunks -/

inductive FromChunk (first : Nat) : List StageAction → Nat → Prop where
  | thinking (text : List Char) : FromChunk first [.emit (.thinking text)] 0
  | references : FromChunk first [.emit .references] 0
  | hits (hits : Nat) : FromChunk first ((List.range' first hits).flatMap onHit) hits
  | content (text : List Char) (hits : Nat) :
      FromChunk first (.emit (.content text) :: (List.range' first hits).flatMap onHit) hits

def laden (s : Runner) (sid : StreamId) (index : Nat) (task : StageTask) (hits : Nat) : Runner :=
  { s with placeholders := s.placeholders + hits }.setTask sid index task

/-- What a chunk comes to. -/
inductive SourceMove (s : Runner) (sid : StreamId) (index : Nat) (task : StageTask) :
    Runner → Prop where
  | pass : SourceMove s sid index task s
  | leave (phase : StagePhase) :
      SourceMove s sid index task (s.setTask sid index { task with phase := phase })
  | handle {s' : Runner} (todo : List StageAction) (phase : StagePhase) (hits : Nat)
      (hcancelled : s.isCancelled sid = false) (htodo : FromChunk s.placeholders todo hits)
      (hmove : (laden s sid index { task with todo := todo, phase := phase } hits).stageTurn sid
          index = some s' ∨
        s' = laden s sid index { task with todo := todo, phase := phase } hits) :
      SourceMove s sid index task s'

theorem handle_cases (s : Runner) (sid : StreamId) (index : Nat) (task : StageTask) :
    (s.setTask sid index task).stageTurn sid index = some (s.handle sid index task) ∨
      s.handle sid index task = s.setTask sid index task := by
  rw [Runner.handle]
  cases (s.setTask sid index task).stageTurn sid index with
  | none => exact Or.inr rfl
  | some s' => exact Or.inl rfl

theorem source_move {chunk : Chunk} (h : s.source sid index chunk = some s') :
    ∃ task, s.task? sid index = some task ∧ task.todo = [] ∧ task.cancelRequested = false ∧
      SourceMove s sid index task s' := by
  rw [Runner.source] at h
  split at h
  · simp at h
  next task htask =>
    split at h
    · simp at h
    next hready =>
      simp only [not_or, not_not, Bool.not_eq_true] at hready
      refine ⟨task, htask, hready.2.1, hready.2.2, ?_⟩
      split at h
      · obtain rfl := Option.some.inj h
        exact .leave _
      · obtain rfl := Option.some.inj h
        exact .leave _
      next text =>
        split_ifs at h with hcancelled
        · obtain rfl := Option.some.inj h
          exact .pass
        · obtain rfl := Option.some.inj h
          exact .handle _ task.phase 0 (by simpa using hcancelled) (.thinking text)
            (handle_cases s sid index _)
      next =>
        split_ifs at h with hcancelled
        · obtain rfl := Option.some.inj h
          exact .pass
        · obtain rfl := Option.some.inj h
          exact .handle _ task.phase 0 (by simpa using hcancelled) .references
            (handle_cases s sid index _)
      next text hits finish =>
        split at h
        · obtain rfl := Option.some.inj h
          exact .pass
        next hcancelled =>
          dsimp only at h
          obtain rfl := Option.some.inj h
          refine .handle _ _ hits (by simpa using hcancelled) ?_ (handle_cases _ sid index _)
          split
          · exact .hits hits
          · exact .content text hits

theorem stageTurn_laden {hits : Nat} (htask : s.task? sid index = some task)
    (h : (laden s sid index task' hits).stageTurn sid index = some s') :
    StageMove (laden s sid index task' hits) sid index task' s' := by
  obtain ⟨found, hfound, hmove⟩ := stageTurn_move h
  have hladen : (laden s sid index task' hits).task? sid index = some task' := task?_setTask htask
  obtain rfl : found = task' := Option.some.inj (hfound.symm.trans hladen)
  exact hmove

theorem SourceMove.aside (htask : s.task? sid index = some task)
    (h : SourceMove s sid index task s') :
    Aside s s' none ∨ s.isCancelled sid = false ∧ ∃ event todo hits,
      FromChunk s.placeholders (.emit event :: todo) hits ∧ Aside s s' (some ⟨sid, event⟩) := by
  cases h with
  | pass => exact Or.inl (.refl s)
  | leave => exact Or.inl ((Aside.refl s).update _ _ _ _ _)
  | handle todo phase hits hcancelled htodo hmove =>
    rcases hmove with hturn | rfl
    · rcases (stageTurn_laden htask hturn).aside with haside | ⟨event, rest, -, hhead, haside⟩
      · exact Or.inl { haside with }
      · obtain rfl : todo = .emit event :: rest := hhead
        exact Or.inr ⟨hcancelled, event, rest, hits, htodo, { haside with }⟩
    · exact Or.inl ((Aside.refl s).update _ _ _ _ _)

/-! ## Turns of an enrich task -/

inductive AnnounceMove (s : Runner) (pid : PlaceholderId) (sid : StreamId) (url : String) :
    Runner → Prop where
  | emit {t : Runner}
      (hemitted : Emitted s (.enrich pid) ⟨sid, .enrichResolved pid url⟩ (t, .returned)) :
      AnnounceMove s pid sid url ({ t with emitted := t.emitted ++ [pid] }.setEnrichTask pid .over)
  | wait {t : Runner}
      (hemitted : Emitted s (.enrich pid) ⟨sid, .enrichResolved pid url⟩ (t, .waiting)) :
      AnnounceMove s pid sid url (t.setEnrichTask pid (.announcing url))
  | raise (hemitted : Emitted s (.enrich pid) ⟨sid, .enrichResolved pid url⟩ (s, .raised)) :
      AnnounceMove s pid sid url ((s.markFailed (· == pid)).setEnrichTask pid .over)

theorem announce_move (s : Runner) (pid : PlaceholderId) (sid : StreamId) (url : String) :
    AnnounceMove s pid sid url (s.announce pid sid url) := by
  rw [Runner.announce]
  have hemitted := emitted s (.enrich pid) sid (.enrichResolved pid url)
  split <;>
  next t heq =>
    rw [heq] at hemitted
    first
      | exact .emit hemitted
      | exact .wait hemitted
      | (cases hemitted with
        | raised hraised hfresh => exact .raise (.raised hraised hfresh))

theorem AnnounceMove.aside {url : String} (h : AnnounceMove s pid sid url s') :
    Aside s s' none ∨ Aside s s' (some ⟨sid, .enrichResolved pid url⟩) := by
  cases h with
  | emit hemitted => exact Or.inr (hemitted.aside.update _ _ _ _ _)
  | wait hemitted => exact Or.inl (hemitted.aside.update _ _ _ _ _)
  | raise => exact Or.inl ((Aside.refl s).update _ _ _ _ _)

inductive EnrichedMove (cfg : StreamConfig) (s : Runner) (pid : PlaceholderId) (sid : StreamId)
    (answer : Option String) : Runner → Prop where
  | failed (hanswer : answer = none) :
      EnrichedMove cfg s pid sid answer ((s.markFailed (· == pid)).setEnrichTask pid .over)
  | resolved (url : String) (hanswer : answer = some url)
      (h : ¬(cfg.enrichEager = true ∧ url ≠ "")) :
      EnrichedMove cfg s pid sid answer ((s.markResolved pid url).setEnrichTask pid .over)
  | announce {s' : Runner} (url : String) (hanswer : answer = some url)
      (heager : cfg.enrichEager = true) (hurl : url ≠ "")
      (hmove : AnnounceMove (s.markResolved pid url) pid sid url s') :
      EnrichedMove cfg s pid sid answer s'

def enrichTask? (s : Runner) (pid : PlaceholderId) : Option EnrichTask :=
  s.enrichTasks.find? fun task => task.placeholderId == pid

theorem enriched_move (h : s.enriched cfg pid answer = some s') :
    ∃ task, enrichTask? s pid = some task ∧ task.phase = .resolving ∧
      EnrichedMove cfg s pid task.streamId answer s' := by
  rw [Runner.enriched] at h
  split at h
  next p sid htask =>
    refine ⟨_, htask, rfl, ?_⟩
    split at h
    · obtain rfl := Option.some.inj h
      exact .failed rfl
    next url =>
      split_ifs at h with heager
      · obtain rfl := Option.some.inj h
        exact .announce url rfl heager.1 heager.2 (announce_move _ _ _ _)
      · obtain rfl := Option.some.inj h
        exact .resolved url rfl heager
  next => simp at h

theorem enrichTurn_move (h : s.enrichTurn pid = some s') :
    ∃ task url, enrichTask? s pid = some task ∧ task.phase = .announcing url ∧
      AnnounceMove s pid task.streamId url s' := by
  rw [Runner.enrichTurn] at h
  split at h
  next p sid url htask =>
    obtain rfl := Option.some.inj h
    exact ⟨_, url, htask, rfl, announce_move _ _ _ _⟩
  next => simp at h

theorem EnrichedMove.aside (h : EnrichedMove cfg s pid sid answer s') :
    Aside s s' none ∨ ∃ url, Aside s s' (some ⟨sid, .enrichResolved pid url⟩) := by
  cases h with
  | failed | resolved => exact Or.inl ((Aside.refl s).update _ _ _ _ _)
  | announce url hanswer heager hurl hmove =>
    rcases hmove.aside with h | h
    · exact Or.inl { h with }
    · exact Or.inr ⟨url, { h with }⟩

end Orditect.Stream.Runner.Proofs
