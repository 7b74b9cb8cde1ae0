import Orditect.Stream.Proofs.Turns
/-!
# What the stages still have to do

The list of a stage comes from a chunk of a stream that was not cancelled, gets shorter from the
front, and has the end of the stage as its last content.  What the stages and the enrich tasks
put into the queue comes from there.
-/

namespace Orditect.Stream.Runner.Proofs

open Support

/-! ## Executors that stay as they are -/

variable {item : Item} {s t : Runner} {cfg : StreamConfig} {s' : Runner}
  {sid : StreamId} {index : Nat} {task : StageTask} {index' : Nat} {sid' : StreamId}
  {task' : StageTask} {e : Step}

theorem Emitted.executors {o : Owner} {turn : Turn} (h : Emitted s o item (t, turn)) :
    t.executors = s.executors := by
  cases h <;> rfl

theorem RunMove.executors (h : RunMove cfg s s') :
    s'.executors = s.executors := by
  cases h with
  | start h hcount hemitted | startWait h hcount hemitted => exact hemitted.executors
  | take h hrunning hmux hitems hdelivered => cases hdelivered <;> rfl
  | _ => rfl

theorem AnnounceMove.executors {pid : PlaceholderId} {url : String}
    (h : AnnounceMove s pid sid url s') : s'.executors = s.executors := by
  cases h with
  | emit hemitted | wait hemitted => exact hemitted.executors
  | raise => rfl

theorem EnrichedMove.executors {pid : PlaceholderId} {answer : Option String}
    (h : EnrichedMove cfg s pid sid answer s') :
    s'.executors = s.executors := by
  cases h with
  | failed | resolved => rfl
  | announce url hanswer heager hurl hmove => exact hmove.executors

theorem ProducerMove.executors (h : ProducerMove cfg s s') :
    s'.executors = s.executors ∨ ∀ executor ∈ s'.executors, executor.tasks = [] := by
  cases h with
  | spawn =>
    refine Or.inr fun executor hexecutor => ?_
    rw [List.eq_of_mem_replicate hexecutor]
  | beginSettle =>
    rw [Runner.beginSettle]
    split <;> exact Or.inl rfl
  | endSettle =>
    rw [Runner.endSettle]
    split <;> exact Or.inl rfl
  | announce h hemitted | announceWait h hemitted | produce h hemitted
  | produceWait h hemitted => exact Or.inl hemitted.executors
  | _ => exact Or.inl rfl

/-! ## The lists -/

/-- Where the list of a stage comes from. -/
inductive Descends (s : Runner) (sid : StreamId) (task' : StageTask) : Prop where
  | kept {index : Nat} {task : StageTask} (h : s.task? sid index = some task)
      (htodo : task'.todo <:+ task.todo)
      (hrequested : task.cancelRequested = true → task'.cancelRequested = true)
  | idle (h : task'.todo = [])
  | closing (h : task'.todo = [.emit .stageEnd])
  | chunk {first hits : Nat} {todo : List StageAction} (hcancelled : s.isCancelled sid = false)
      (h : FromChunk first todo hits) (htodo : task'.todo <:+ todo)

theorem Descends.of_executors (h : s'.executors = s.executors)
    (htask : s'.task? sid index = some task) :
    Descends s sid task := by
  rw [Runner.task?, h] at htask
  exact .kept htask List.suffix_rfl id

theorem task?_of_setTask (h : (s.setTask sid index task).task? sid' index' = some task') :
    sid' = sid ∧ task' = task ∨ s.task? sid' index' = some task' := by
  obtain ⟨executor, hexecutor, htask⟩ := task?_eq_some.mp h
  obtain ⟨before, hbefore, rfl⟩ := executor_setTask.mp hexecutor
  split at htask
  next hsid =>
    subst hsid
    by_cases hindex : index = index'
    · subst hindex
      rw [List.getElem?_set_self'] at htask
      obtain ⟨_, _, rfl⟩ := Option.map_eq_some_iff.mp htask
      exact Or.inl ⟨rfl, rfl⟩
    · rw [List.getElem?_set_ne hindex] at htask
      exact Or.inr (task?_eq_some.mpr ⟨before, hbefore, htask⟩)
  next => exact Or.inr (task?_eq_some.mpr ⟨before, hbefore, htask⟩)

theorem Descends.of_setTask (h : t.executors = s.executors)
    (htask : (t.setTask sid index task).task? sid' index' = some task')
    (hnew : Descends s sid task) : Descends s sid' task' := by
  rcases task?_of_setTask htask with ⟨rfl, rfl⟩ | hold
  · exact hnew
  · exact .of_executors h hold

theorem Descends.trans (h : Descends t sid task)
    (hcancelled : t.isCancelled sid = s.isCancelled sid)
    (hbefore : ∀ {index between}, t.task? sid index = some between → Descends s sid between) :
    Descends s sid task := by
  cases h with
  | kept hbetween htodo hrequested =>
    cases hbefore hbetween with
    | kept h htodo' hrequested' =>
      exact .kept h (htodo.trans htodo') fun hr => hrequested (hrequested' hr)
    | idle h =>
      rw [h] at htodo
      exact .idle (List.suffix_nil.mp htodo)
    | closing h =>
      rw [h] at htodo
      rcases List.suffix_cons_iff.mp htodo with heq | hnil
      · exact .closing heq
      · exact .idle (List.suffix_nil.mp hnil)
    | chunk hcancelled' h htodo' => exact .chunk hcancelled' h (htodo.trans htodo')
  | idle h => exact .idle h
  | closing h => exact .closing h
  | chunk hcancelled' h htodo => exact .chunk (hcancelled ▸ hcancelled') h htodo

theorem executorTurn_descends (h : s.executorTurn sid = some s')
    (htask : s'.task? sid' index = some task) :
    Descends s sid' task := by
  obtain ⟨executor, executor', n, hexecutor, rfl, htasks⟩ := executorTurn_move h
  obtain ⟨found, hfound, htask⟩ := task?_eq_some.mp htask
  by_cases hsid : sid = sid'
  · subst hsid
    rw [List.getElem?_set_self (List.getElem?_eq_some_iff.mp hexecutor).1] at hfound
    obtain rfl := Option.some.inj hfound
    have hmem := List.mem_of_getElem? htask
    rw [htasks] at hmem
    rcases List.mem_append.mp hmem with hold | hnew
    · obtain ⟨i, hi⟩ := List.mem_iff_getElem?.mp hold
      exact .kept (task?_eq_some.mpr ⟨executor, hexecutor, hi⟩) List.suffix_rfl id
    · rw [List.eq_of_mem_replicate hnew]
      exact .idle rfl
  · rw [List.getElem?_set_ne hsid] at hfound
    exact .kept (task?_eq_some.mpr ⟨found, hfound, htask⟩) List.suffix_rfl id

theorem StageMove.descends (hfound : s.task? sid index = some task)
    (h : StageMove s sid index task s') (htask : s'.task? sid' index' = some task') :
    Descends s sid' task' := by
  cases h with
  | abandoned => exact .of_setTask (s := s) (t := { s with mux := _ }) rfl htask (.idle rfl)
  | emit event rest hrequested htodo hemitted =>
    refine .of_setTask hemitted.executors htask (.kept hfound ?_ id)
    rw [htodo]
    exact List.suffix_cons _ _
  | wait event hemitted => exact .of_executors hemitted.executors htask
  | raise => exact .of_setTask rfl htask (.idle rfl)
  | register pid rest htodo =>
    refine .of_setTask (s := s) (t := s.register pid sid) rfl htask (.kept hfound ?_ id)
    rw [htodo]
    exact List.suffix_cons _ _
  | leave todo phase htodo hnext =>
    rcases hnext with rfl | rfl
    · exact .of_setTask rfl htask (.idle rfl)
    · exact .of_setTask rfl htask (.closing rfl)

theorem SourceMove.descends (hfound : s.task? sid index = some task)
    (h : SourceMove s sid index task s') (htask : s'.task? sid' index' = some task') :
    Descends s sid' task' := by
  cases h with
  | pass => exact .of_executors rfl htask
  | leave phase => exact .of_setTask rfl htask (.kept hfound List.suffix_rfl id)
  | handle todo phase hits hcancelled htodo hmove =>
    have hladen : ∀ {sid' index' task'},
        (laden s sid index { task with todo := todo, phase := phase } hits).task? sid' index' =
          some task' → Descends s sid' task' := by
      intro sid' index' task' htask'
      exact .of_setTask (s := s) (t := { s with placeholders := s.placeholders + hits }) rfl htask'
        (.chunk hcancelled htodo List.suffix_rfl)
    rcases hmove with hturn | rfl
    · have hgiven : (laden s sid index { task with todo := todo, phase := phase } hits).task? sid
          index = some { task with todo := todo, phase := phase } := task?_setTask hfound
      exact ((stageTurn_laden hfound hturn).descends hgiven htask).trans rfl hladen
    · exact hladen htask

theorem cancel_descends {force : Bool} (hstep : Runner.step cfg s (.cancel sid force) = some s')
    (htask : s'.task? sid' index = some task) : Descends s sid' task := by
  cases cancel_move hstep with
  | unknown => exact .of_executors rfl htask
  | known h hmux hitems hexecutors =>
    cases hexecutors with
    | same => exact .of_executors rfl htask
    | requested hforce hexecutor hresult =>
      obtain ⟨found, hfound, htask⟩ := task?_eq_some.mp htask
      rw [List.getElem?_modify, Option.map_eq_map, Option.map_eq_some_iff] at hfound
      obtain ⟨before, hbefore, rfl⟩ := hfound
      split at htask
      · rw [requested, List.getElem?_map, Option.map_eq_some_iff] at htask
        obtain ⟨task, hbegun, rfl⟩ := htask
        exact .kept (task?_eq_some.mpr ⟨before, hbefore, hbegun⟩) List.suffix_rfl fun _ => rfl
      · exact .kept (task?_eq_some.mpr ⟨before, hbefore, htask⟩) List.suffix_rfl id

theorem step_descends (hstep : Runner.step cfg s e = some s')
    (htask : s'.task? sid index = some task) : Descends s sid task := by
  cases e with
  | run => exact .of_executors (runTurn_move hstep).executors htask
  | producer =>
    rcases (producerTurn_move hstep).executors with hsame | hnew
    · exact .of_executors hsame htask
    · obtain ⟨executor, hexecutor, htask⟩ := task?_eq_some.mp htask
      rw [hnew executor (List.mem_of_getElem? hexecutor)] at htask
      simp at htask
  | executor sid => exact executorTurn_descends hstep htask
  | stage sid index =>
    obtain ⟨task, hfound, hmove⟩ := stageTurn_move hstep
    exact hmove.descends hfound htask
  | source sid index chunk =>
    obtain ⟨task, hfound, -, -, hmove⟩ := source_move hstep
    exact hmove.descends hfound htask
  | enrich pid =>
    obtain ⟨task, url, -, -, hmove⟩ := enrichTurn_move hstep
    exact .of_executors hmove.executors htask
  | enriched pid url =>
    obtain ⟨task, -, -, hmove⟩ := enriched_move hstep
    exact .of_executors hmove.executors htask
  | cancel sid force => exact cancel_descends hstep htask
  | tick ms | disconnect | reconnect =>
    obtain rfl := Option.some.inj hstep
    exact .of_executors rfl htask

/-! ## The events of the stages -/

def stageEvent : EventData → Bool
  | .content _ | .thinking _ | .references | .enrichMarker _ | .enrichPlaceholder _
  | .stageEnd => true
  | _ => false

theorem FromChunk.stageEvent {first hits : Nat} {todo : List StageAction}
    (h : FromChunk first todo hits) {event : EventData} (hevent : .emit event ∈ todo) :
    stageEvent event = true := by
  have honHit : ∀ hits, .emit event ∈ (List.range' first hits).flatMap onHit →
      Proofs.stageEvent event = true := by
    intro hits hmem
    obtain ⟨pid, -, hpid⟩ := List.mem_flatMap.mp hmem
    simp only [onHit, List.mem_cons, StageAction.emit.injEq, reduceCtorEq, List.not_mem_nil,
      or_false] at hpid
    rcases hpid with rfl | rfl <;> rfl
  cases h with
  | thinking text =>
    obtain rfl : event = .thinking text := by simpa using hevent
    rfl
  | references =>
    obtain rfl : event = .references := by simpa using hevent
    rfl
  | hits hits => exact honHit hits hevent
  | content text hits =>
    rcases List.mem_cons.mp hevent with heq | hmem
    · obtain rfl : event = .content text := by simpa using heq
      rfl
    · exact honHit hits hmem

def Staged (s : Runner) : Prop :=
  ∀ sid index task, s.task? sid index = some task → ∀ event, .emit event ∈ task.todo →
    stageEvent event = true

theorem fresh_staged (cfg : StreamConfig) : Staged (fresh cfg) := by
  intro sid index task htask
  simp [Runner.task?, fresh] at htask

theorem Staged.step (h : Staged s) (hstep : Runner.step cfg s e = some s') : Staged s' := by
  intro sid index task htask event hevent
  cases step_descends hstep htask with
  | kept hfound htodo => exact h sid _ _ hfound event (htodo.subset hevent)
  | idle hnil => simp [hnil] at hevent
  | closing htodo =>
    obtain rfl : event = .stageEnd := by simpa [htodo] using hevent
    rfl
  | chunk hcancelled hchunk htodo => exact hchunk.stageEvent (htodo.subset hevent)

/-! ## What the tasks put into the queue -/

def isTask : Step → Bool
  | .executor _ | .stage .. | .source .. | .enrich _ | .enriched .. => true
  | _ => false

/-- Where an event comes from. -/
inductive Origin (s : Runner) : Item → Prop where
  | stage {sid : StreamId} {index : Nat} {task : StageTask} {event : EventData}
      (htask : s.task? sid index = some task) (hrequested : task.cancelRequested = false)
      (hevent : .emit event ∈ task.todo) : Origin s ⟨sid, event⟩
  | chunk {sid : StreamId} {first hits : Nat} {event : EventData} {todo : List StageAction}
      (hcancelled : s.isCancelled sid = false) (hchunk : FromChunk first todo hits)
      (hevent : .emit event ∈ todo) : Origin s ⟨sid, event⟩
  | enrich {sid : StreamId} {pid : PlaceholderId} {url : String} :
      Origin s ⟨sid, .enrichResolved pid url⟩

theorem task_aside (he : isTask e = true) (hstep : Runner.step cfg s e = some s') :
    ∃ put, Aside s s' put ∧ ∀ item ∈ put, Origin s item := by
  have hnone (h : Aside s s' none) : ∃ put, Aside s s' put ∧ ∀ item ∈ put, Origin s item :=
    ⟨none, h, fun item hitem => nomatch hitem⟩
  have hsome {item} (h : Aside s s' (some item)) (horigin : Origin s item) :
      ∃ put, Aside s s' put ∧ ∀ item ∈ put, Origin s item := by
    refine ⟨some item, h, fun found hfound => ?_⟩
    obtain rfl : item = found := by simpa using hfound
    exact horigin
  cases e with
  | executor sid => exact hnone (executorTurn_aside hstep)
  | stage sid index =>
    obtain ⟨task, htask, hmove⟩ := stageTurn_move hstep
    rcases hmove.aside with h | ⟨event, rest, hrequested, htodo, h⟩
    · exact hnone h
    · exact hsome h (.stage htask hrequested (by simp [htodo]))
  | source sid index chunk =>
    obtain ⟨task, htask, -, -, hmove⟩ := source_move hstep
    rcases hmove.aside htask with h | ⟨hcancelled, event, todo, hits, hchunk, h⟩
    · exact hnone h
    · exact hsome h (.chunk hcancelled hchunk (List.mem_cons_self ..))
  | enrich pid =>
    obtain ⟨task, url, -, -, hmove⟩ := enrichTurn_move hstep
    rcases hmove.aside with h | h
    · exact hnone h
    · exact hsome h .enrich
  | enriched pid url =>
    obtain ⟨task, -, -, hmove⟩ := enriched_move hstep
    rcases hmove.aside with h | ⟨url, h⟩
    · exact hnone h
    · exact hsome h .enrich
  | _ => simp [isTask] at he

theorem Origin.event (hstaged : Staged s) (h : Origin s item) :
    stageEvent item.event = true ∨ ∃ pid url, item.event = .enrichResolved pid url := by
  cases h with
  | stage htask hrequested hevent => exact Or.inl (hstaged _ _ _ htask _ hevent)
  | chunk hcancelled hchunk hevent => exact Or.inl (hchunk.stageEvent hevent)
  | enrich => exact Or.inr ⟨_, _, rfl⟩

theorem Origin.not_passes (hstaged : Staged s) (h : Origin s item) : passes item.event = false := by
  rcases h.event hstaged with hstage | ⟨pid, url, hresolved⟩
  · cases hevent : item.event <;> rw [hevent] at hstage <;>
      first | rfl | exact Bool.noConfusion hstage
  · rw [hresolved]
    rfl

/-! ## The producer -/

def Begun (s : Runner) : Prop := s.producer = .absent ∨ ∃ consumer, s.run = .consuming consumer

theorem fresh_begun (cfg : StreamConfig) : Begun (fresh cfg) := Or.inl rfl

theorem Begun.absent (h : Begun s) {phase : RunPhase} (hphase : s.run = phase)
    (hnot : ∀ consumer, phase ≠ .consuming consumer) : s.producer = .absent :=
  h.resolve_right fun ⟨consumer, hrun⟩ => hnot consumer (hphase.symm.trans hrun)

theorem Begun.run (h : Begun s) (hmove : RunMove cfg s s') :
    Begun s' := by
  cases hmove with
  | register hphase
  | registered hphase => exact Or.inl (h.absent hphase fun _ => RunPhase.noConfusion)
  | start hphase hcount hemitted | startWait hphase hcount hemitted =>
    exact Or.inl (hemitted.aside.producer.trans (h.absent hphase fun _ => RunPhase.noConfusion))
  | startRaise hphase => exact Or.inl (h.absent hphase fun _ => RunPhase.noConfusion)
  | take hphase hrunning hmux hitems hdelivered => cases hdelivered <;> exact Or.inr ⟨_, rfl⟩
  | _ => exact Or.inr ⟨_, rfl⟩

theorem Begun.step (h : Begun s) (hstep : Runner.step cfg s e = some s') : Begun s' := by
  cases e with
  | run => exact h.run (runTurn_move hstep)
  | producer =>
    have hproducer : s.producer ≠ .absent := fun habsent => by
      simp [Runner.step, Runner.producerTurn, habsent] at hstep
    obtain ⟨consumer, hrun⟩ := h.resolve_left hproducer
    exact Or.inr ⟨consumer, (producerTurn_move hstep).untouched.run.trans hrun⟩
  | cancel sid force =>
    cases cancel_move hstep <;> exact h
  | tick ms | disconnect | reconnect =>
    obtain rfl := Option.some.inj hstep
    exact h
  | _ =>
    obtain ⟨put, haside, -⟩ := task_aside rfl hstep
    rw [Begun, haside.producer, haside.run]
    exact h

/-! ## Conditions on a step -/

def roomy (s : Runner) : Prop := s.mux.backpressure = .fail → s.mux.queue.full = false

def isClosing : ProducerPhase → Bool
  | .closing _ | .ended => true
  | _ => false

def put? (cfg : StreamConfig) (s : Runner) (e : Step) :
    Option Item :=
  (Runner.step cfg s e).bind fun s' => ((items s').drop (items s).length).head?.join

theorem put?_eq {put : Option Item}
    (hstep : Runner.step cfg s e = some s') (hitems : items s' = items s ++ (put.map some).toList) :
    put? cfg s e = put := by
  rw [put?, hstep, Option.bind_some, hitems, List.drop_left]
  cases put <;> rfl

end Orditect.Stream.Runner.Proofs
