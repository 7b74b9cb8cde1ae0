import Orditect.Stream.Proofs.Stages
/-!
# The content at a cancellation

`run()` collects the content it takes from the queue before it looks at the token, so what is
still on its way when `cancel` is called is collected later and never yielded.  What `cancel`
returns, its event, what was yielded and the content collected later agree if nothing is on its
way.
-/

namespace Orditect.Stream.Partial.Proofs

open Support Support.Transition Stream.Runner.Proofs

/-! ## Content on its way -/

def contentFor (sid : StreamId) (item : Item) : List Char :=
  if item.streamId = sid then contentOf item.event else []

def contentIn (sid : StreamId) (events : List Item) : List Char :=
  events.flatMap (contentFor sid)

def textLeft (task : StageTask) : List Char :=
  task.todo.flatMap fun action =>
    match action with
    | .emit event => contentOf event
    | .register _ => []

abbrev yieldedContent (s : Runner) (sid : StreamId) : List Char :=
  contentIn sid (s.yielded.map (·.toQueuedItem))

def finished (s : Runner) : Bool := s.run = .consuming .ended ∨ s.run = .raised

def silent (task : StageTask) : Bool := task.cancelRequested || decide (textLeft task = [])

/-- No stage of the stream will have content in front of the sentinel, if `cancel` is called
with `force`. -/
def stagesSilent (s : Runner) (sid : StreamId) (force : Bool) : Bool :=
  decide (none ∈ items s) || (s.executors[sid]?).all fun executor =>
    force && executor.result.isNone || executor.tasks.all silent

def caughtUp (s : Runner) (sid : StreamId) (force : Bool) : Prop :=
  finished s = true ∨ contentIn sid (visible (items s)) = [] ∧ stagesSilent s sid force = true

/-- No content is taken for a client that is away, and none is on its way at a `cancel`. -/
def quiet (s : Runner) : Runner.Step → Prop
  | .run => s.monitor.shouldBuffer = true →
      ∀ item ∈ (items s).head?.join, contentOf item.event = []
  | .cancel sid force => sid < s.tokens.length → caughtUp s sid force
  | _ => True

/-- The text that `cancel` returned for a stream is the content of the stream for everybody. -/
structure Agrees (s : Runner) (sid : StreamId) (text : List Char) : Prop where
  later : s.partials sid = text
  yielded : yieldedContent s sid = text
  events : ∀ partialContent, some ⟨sid, .streamCancelled partialContent⟩ ∈ s.taken ++ items s →
    partialContent = text

theorem contentIn_append (sid : StreamId) (l : List Item) (item : Item) :
    contentIn sid (l ++ [item]) = contentIn sid l ++ contentFor sid item := by
  simp [contentIn]

variable {sid : StreamId} {s s' : Runner} {cfg : StreamConfig} {force : Bool}

theorem contentFor_of_ne {item : Item} (h : item.streamId ≠ sid) : contentFor sid item = [] :=
  if_neg h

theorem textLeft_of_suffix {task task' : StageTask} (h : task'.todo <:+ task.todo)
    (htext : textLeft task = []) : textLeft task' = [] := by
  rw [textLeft, List.flatMap_eq_nil_iff] at htext ⊢
  exact fun action haction => htext action (h.subset haction)

theorem contentOf_of_textLeft {task : StageTask} {event : EventData}
    (h : .emit event ∈ task.todo) (htext : textLeft task = []) : contentOf event = [] := by
  rw [textLeft, List.flatMap_eq_nil_iff] at htext
  exact htext _ h

/-! ## The invariant -/

def Settled (s : Runner) (sid : StreamId) : Prop :=
  finished s = true ∨ contentIn sid (visible (items s)) = [] ∧
    (none ∈ items s ∨ ∀ index task, s.task? sid index = some task → silent task = true)

structure Consistent (s : Runner) (sid : StreamId) : Prop where
  shown : yieldedContent s sid = s.partials sid
  returned : ∀ text, (sid, text) ∈ s.returned → text = s.partials sid ∧ s.isCancelled sid = true
  events : ∀ text, some ⟨sid, .streamCancelled text⟩ ∈ s.taken ++ items s →
    text = s.partials sid ∧ s.isCancelled sid = true
  settled : s.isCancelled sid = true → Settled s sid

theorem Consistent.agrees (h : Consistent s sid) {text : List Char}
    (htext : (sid, text) ∈ s.returned) : Agrees s sid text := by
  obtain ⟨rfl, hcancelled⟩ := h.returned text htext
  exact ⟨rfl, h.shown, fun text' hevent => (h.events text' hevent).1⟩

theorem fresh_consistent (cfg : StreamConfig) (sid : StreamId) :
    Consistent (Runner.fresh cfg) sid where
  shown := rfl
  returned := by simp [Runner.fresh]
  events := by simp [Runner.fresh, items]
  settled h := by simp [Runner.isCancelled, Runner.fresh] at h

theorem Consistent.keep (h : Consistent s sid) (hpartials : s'.partials = s.partials)
    (hyielded : s'.yielded = s.yielded) (hreturned : s'.returned = s.returned)
    (hcancelled : s'.isCancelled sid = s.isCancelled sid)
    (hevents : ∀ text, some ⟨sid, .streamCancelled text⟩ ∈ s'.taken ++ items s' →
      some ⟨sid, .streamCancelled text⟩ ∈ s.taken ++ items s)
    (hsettled : s.isCancelled sid = true → Settled s sid → Settled s' sid) :
    Consistent s' sid where
  shown := by
    rw [yieldedContent, hyielded, hpartials]
    exact h.shown
  returned := by
    rw [hreturned, hpartials, hcancelled]
    exact h.returned
  events text htext := by
    rw [hpartials, hcancelled]
    exact h.events text (hevents text htext)
  settled hs' := by
    rw [hcancelled] at hs'
    exact hsettled hs' (h.settled hs')

theorem silent_of_descends {task : StageTask} (hcancelled : s.isCancelled sid = true)
    (hsilent : ∀ index task, s.task? sid index = some task → silent task = true)
    (h : Descends s sid task) : silent task = true := by
  rw [silent, Bool.or_eq_true, decide_eq_true_eq]
  cases h with
  | kept hfound htodo hrequested =>
    have hbefore := hsilent _ _ hfound
    rw [silent, Bool.or_eq_true, decide_eq_true_eq] at hbefore
    exact hbefore.imp hrequested (textLeft_of_suffix htodo)
  | idle h | closing h => exact Or.inr (by rw [textLeft, h]; rfl)
  | chunk hopen => rw [hcancelled] at hopen; exact Bool.noConfusion hopen

theorem Settled.put {e : Runner.Step} (h : Settled s sid) (hcancelled : s.isCancelled sid = true)
    (hstep : Runner.step cfg s e = some s') (hrun : finished s = true → finished s' = true)
    (put : Option (Option Item)) (hitems : items s' = items s ++ put.toList)
    (hput : ∀ item, put = some (some item) → item.streamId = sid →
      (∀ index task, s.task? sid index = some task → silent task = true) →
      contentOf item.event = []) : Settled s' sid := by
  rcases h with hfinished | ⟨hqueue, hstages⟩
  · exact Or.inl (hrun hfinished)
  right
  have htasks (hsilent : ∀ index task, s.task? sid index = some task → silent task = true) :
      ∀ index task, s'.task? sid index = some task → silent task = true :=
    fun index task htask => silent_of_descends hcancelled hsilent (step_descends hstep htask)
  rw [hitems]
  cases put with
  | none =>
    rw [Option.toList, List.append_nil]
    exact ⟨hqueue, hstages.imp_right htasks⟩
  | some a =>
    rw [Option.toList, visible_append]
    rcases hstages with hsentinel | hsilent
    · rw [if_pos hsentinel]
      exact ⟨hqueue, Or.inl (List.mem_append_left _ hsentinel)⟩
    · refine ⟨?_, Or.inr (htasks hsilent)⟩
      split
      · exact hqueue
      · cases a with
        | none => rwa [Option.toList, List.append_nil]
        | some item =>
          rw [Option.toList, contentIn_append, hqueue, List.nil_append, contentFor]
          split
          next hsid => exact hput item rfl hsid hsilent
          next => rfl

theorem finished_eq (h : s'.run = s.run) : finished s' = finished s := by
  rw [finished, finished, h]

theorem Consistent.put {e : Runner.Step} (h : Consistent s sid)
    (hstep : Runner.step cfg s e = some s') (huntouched : Untouched s s')
    (put : Option (Option Item)) (hitems : items s' = items s ++ put.toList)
    (hevent : ∀ item text, put = some (some item) → item.event ≠ .streamCancelled text)
    (hput : ∀ item, put = some (some item) → item.streamId = sid → s.isCancelled sid = true →
      (∀ index task, s.task? sid index = some task → silent task = true) →
      contentOf item.event = []) : Consistent s' sid := by
  refine h.keep huntouched.partials huntouched.yielded huntouched.returned ?_ ?_ ?_
  · rw [Runner.isCancelled, huntouched.tokens]
    rfl
  · intro text htext
    rw [huntouched.taken, hitems, ← List.append_assoc] at htext
    rcases List.mem_append.mp htext with hold | hnew
    · exact hold
    · exact absurd rfl (hevent _ text (Option.mem_toList.mp hnew))
  · intro hcancelled hsettled
    refine hsettled.put hcancelled hstep (fun hf => by rwa [finished_eq huntouched.run]) put
      hitems ?_
    exact fun item hitem hsid => hput item hitem hsid hcancelled

theorem Consistent.still {e : Runner.Step} (h : Consistent s sid)
    (hstep : Runner.step cfg s e = some s') (huntouched : Untouched s s')
    (hitems : items s' = items s) : Consistent s' sid :=
  h.put hstep huntouched none (by simp [hitems]) (fun _ _ hitem => nomatch hitem)
    fun _ hitem => nomatch hitem

theorem Consistent.task {e : Runner.Step} (h : Consistent s sid) (hstaged : Staged s)
    (he : isTask e = true) (hstep : Runner.step cfg s e = some s') : Consistent s' sid := by
  obtain ⟨put, haside, horigin⟩ := task_aside he hstep
  have horigin' : ∀ item, put.map some = some (some item) → Origin s item := by
    intro item hitem
    obtain ⟨found, hfound, heq⟩ := Option.map_eq_some_iff.mp hitem
    obtain rfl := Option.some.inj heq
    exact horigin found hfound
  refine h.put hstep haside.toUntouched (put.map some) haside.items ?_ ?_
  · intro item text hitem hevent
    rcases (horigin' item hitem).event hstaged with hstage | ⟨pid, url, hresolved⟩
    · rw [hevent] at hstage
      exact Bool.noConfusion hstage
    · rw [hevent] at hresolved
      exact EventData.noConfusion hresolved
  · intro item hitem hsid hcancelled hsilent
    cases horigin' item hitem with
    | stage htask hrequested hevent =>
      obtain rfl := hsid
      have hs := hsilent _ _ htask
      rw [silent, hrequested, Bool.false_or, decide_eq_true_eq] at hs
      exact contentOf_of_textLeft hevent hs
    | chunk hopen =>
      obtain rfl := hsid
      rw [hcancelled] at hopen
      exact Bool.noConfusion hopen
    | enrich => rfl

theorem Consistent.producer (h : Consistent s sid) (hstep : Runner.step cfg s .producer = some s') :
    Consistent s' sid := by
  have hmove := producerTurn_move hstep
  rcases hmove.items with hsame | ⟨a, hfrom, hitems⟩
  · exact h.still hstep hmove.untouched hsame
  · refine h.put hstep hmove.untouched (some a) hitems ?_ ?_
    · rintro item text hitem hevent
      obtain rfl := Option.some.inj hitem
      simp [FromProducer, hevent] at hfrom
    · rintro item hitem - - -
      obtain rfl := Option.some.inj hitem
      rcases hfrom with hevent | hevent | ⟨pid, url, hevent⟩ | ⟨placeholders, hevent⟩ <;>
        rw [hevent] <;> rfl

/-! ## Turns of `run()` -/

section Take

variable {consumer : Consumer} {mux : RunMux} {e : OutEvent}

theorem Consistent.nothing (h : Consistent s sid) (hrun : s.run = .consuming consumer)
    (hrunning : consumer ≠ .ended) (hitems : items s = some e.toQueuedItem :: mux.queue.items)
    (hcancelled : s.isCancelled sid = true) : contentFor sid e.toQueuedItem = [] := by
  rcases h.settled hcancelled with hfinished | ⟨hqueue, -⟩
  · simp [finished, hrun, hrunning] at hfinished
  · rw [hitems, visible, contentIn, List.flatMap_cons, List.append_eq_nil_iff] at hqueue
    exact hqueue.1

theorem collected_eq (s : Runner) (e : OutEvent) (sid : StreamId) :
    collected s e sid = s.partials sid ++ contentFor sid e.toQueuedItem := by
  rw [collected, contentFor]
  by_cases h : sid = e.streamId
  · rw [if_pos h, if_pos h.symm]
  · rw [if_neg h, if_neg (Ne.symm h), List.append_nil]

section

variable (h : Consistent s sid) (hrun : s.run = .consuming consumer) (hrunning : consumer ≠ .ended)
  (hitems : items s = some e.toQueuedItem :: mux.queue.items)
include h hrun hrunning hitems

theorem Consistent.collect (monitor : DisconnectMonitor OutEvent) (yielded : List OutEvent)
    (hshown : contentIn sid (yielded.map (·.toQueuedItem)) =
      s.partials sid ++ contentFor sid e.toQueuedItem) :
    Consistent
      { s with
        mux := mux
        run := .consuming .checking
        taken := s.taken ++ [some e.toQueuedItem]
        partials := collected s e
        monitor := monitor
        yielded := yielded } sid := by
  have hsame (hcancelled : s.isCancelled sid = true) : collected s e sid = s.partials sid := by
    rw [collected_eq, h.nothing hrun hrunning hitems hcancelled, List.append_nil]
  refine ⟨hshown.trans (collected_eq s e sid).symm, fun text htext => ?_, fun text htext => ?_,
    fun hcancelled => ?_⟩
  · obtain ⟨hpartials, hcancelled⟩ := h.returned text htext
    exact ⟨hpartials.trans (hsame hcancelled).symm, hcancelled⟩
  · have hold : some ⟨sid, .streamCancelled text⟩ ∈ s.taken ++ items s := by
      rw [hitems]
      simpa using htext
    obtain ⟨hpartials, hcancelled⟩ := h.events text hold
    exact ⟨hpartials.trans (hsame hcancelled).symm, hcancelled⟩
  · rcases h.settled hcancelled with hfinished | ⟨hqueue, hstages⟩
    · simp [finished, hrun, hrunning] at hfinished
    · rw [hitems, visible, contentIn, List.flatMap_cons, List.append_eq_nil_iff] at hqueue
      refine Or.inr ⟨hqueue.2, hstages.imp_left fun hsentinel => ?_⟩
      rw [hitems] at hsentinel
      exact (List.mem_cons.mp hsentinel).resolve_left (Option.some_ne_none _).symm

theorem Consistent.take (hquiet : s.monitor.shouldBuffer = true → contentOf e.event = [])
    (hdelivered : Delivered
      { s with
        mux := mux
        run := .consuming .checking
        taken := s.taken ++ [some e.toQueuedItem] } e s') : Consistent s' sid := by
  have hnothing := h.nothing hrun hrunning hitems
  cases hdelivered with
  | hidden hcancelled hpasses =>
    refine h.collect hrun hrunning hitems s.monitor s.yielded ?_
    have hempty : contentFor sid e.toQueuedItem = [] := by
      by_cases hsid : e.streamId = sid
      · exact hnothing (hsid ▸ hcancelled)
      · exact contentFor_of_ne hsid
    rw [hempty, List.append_nil]
    exact h.shown
  | buffered hshown hbuffer =>
    refine h.collect hrun hrunning hitems _ s.yielded ?_
    rw [contentFor, hquiet hbuffer, ite_self, List.append_nil]
    exact h.shown
  | yielded =>
    refine h.collect hrun hrunning hitems s.monitor (s.yielded ++ [e]) ?_
    rw [List.map_append, List.map_singleton, contentIn_append]
    exact congrArg (· ++ contentFor sid e.toQueuedItem) h.shown

end

end Take

theorem Consistent.run (h : Consistent s sid) (hquiet : quiet s .run)
    (hstep : Runner.step cfg s .run = some s') : Consistent s' sid := by
  have hmove := runTurn_move hstep
  -- The turns that leave the queue as it is.
  have hstill (hrun : finished s = true → finished s' = true) (hitems : items s' = items s) :
      s.isCancelled sid = true → Settled s sid → Settled s' sid := by
    intro hcancelled hsettled
    refine hsettled.put hcancelled hstep hrun none (by simp [hitems]) ?_
    exact fun item hitem => nomatch hitem
  cases hmove with
  | register hphase =>
    refine h.keep rfl rfl rfl (isCancelled_register s sid _ _) (fun text => id) (hstill ?_ rfl)
    simp [finished, hphase]
  | registered hphase =>
    exact h.keep rfl rfl rfl rfl (fun text => id) (hstill (by simp [finished, hphase]) rfl)
  | start hphase hcount hemitted =>
    have haside := hemitted.aside
    refine h.keep haside.partials haside.yielded haside.returned ?_ ?_ ?_
    · exact congrArg (·.getD sid false) haside.tokens
    · intro text htext
      rw [haside.taken, haside.items] at htext
      simpa using htext
    · intro hcancelled hsettled
      refine hsettled.put hcancelled hstep (by simp [finished, hphase]) (some (some _))
        haside.items ?_
      rintro item hitem - -
      obtain rfl := Option.some.inj (Option.some.inj hitem)
      rfl
  | startWait hphase hcount hemitted =>
    exact h.still hstep hemitted.aside.toUntouched (hemitted.aside.items.trans (List.append_nil _))
  | startRaise hphase hcount hemitted =>
    exact h.keep rfl rfl rfl rfl (fun text => id) fun _ _ => Or.inl rfl
  | started hphase =>
    exact h.keep rfl rfl rfl rfl (fun text => id) (hstill (by simp [finished, hphase]) rfl)
  | stop => exact h.keep rfl rfl rfl rfl (fun text => id) fun _ _ => Or.inl rfl
  | starve hphase hrunning =>
    refine h.keep rfl rfl rfl rfl (fun text => id) (hstill ?_ rfl)
    simp [finished, hphase, hrunning]
  | sentinel hphase hrunning hmux hitems =>
    refine h.keep rfl rfl rfl rfl (fun text htext => ?_) fun _ _ => Or.inl rfl
    rw [hitems]
    simpa using htext
  | take hphase hrunning hmux hitems hdelivered =>
    refine h.take hphase hrunning hitems (fun hbuffer => hquiet hbuffer _ ?_) hdelivered
    rw [hitems]
    rfl

/-! ## `cancel` -/

theorem cancel_content {m : RunMux} {sid' : StreamId} {text : List Char}
    {after : List (Option Item)} (h : CancelItems m ⟨sid, .streamCancelled text⟩ after) :
    contentIn sid' (visible after) = contentIn sid' (visible m.queue.items) := by
  cases h with
  | dropped => rfl
  | put =>
    rw [visible_append]
    split
    · rfl
    · have hnothing : contentFor sid' ⟨sid, .streamCancelled text⟩ = [] := ite_self []
      rw [Option.toList, contentIn_append, hnothing, List.append_nil]

theorem silent_of_forced {executors : List StreamExecutor}
    (hforced : Forced s sid force executors) (hexecutors : s'.executors = executors)
    (hsentinel : none ∉ items s) (h : stagesSilent s sid force = true) {index : Nat}
    {task : StageTask} (htask : s'.task? sid index = some task) : silent task = true := by
  rw [stagesSilent, Bool.or_eq_true, decide_eq_true_eq] at h
  have hall := h.resolve_left hsentinel
  obtain ⟨executor, hexecutor, htask⟩ := task?_eq_some.mp htask
  rw [hexecutors] at hexecutor
  cases hforced with
  | same hbusy =>
    rw [hexecutor, Option.all_some, Bool.or_eq_true, Bool.and_eq_true] at hall
    rcases hall with ⟨hforce, hresult⟩ | hall
    · exact absurd (Option.isNone_iff_eq_none.mp hresult) (hbusy hforce executor hexecutor)
    · exact List.all_eq_true.mp hall task (List.mem_of_getElem? htask)
  | requested =>
    rw [List.getElem?_modify, Option.map_eq_map, Option.map_eq_some_iff] at hexecutor
    obtain ⟨before, -, rfl⟩ := hexecutor
    rw [if_pos rfl, requested, List.getElem?_map, Option.map_eq_some_iff] at htask
    obtain ⟨task, -, rfl⟩ := htask
    rfl

theorem caughtUp.settled {executors : List StreamExecutor} {item : Item}
    (h : caughtUp s sid force) (hrun : s'.run = s.run) (hforced : Forced s sid force executors)
    (hexecutors : s'.executors = executors) (hitems : CancelItems s.mux item (items s'))
    (hcontent : contentIn sid (visible (items s')) = contentIn sid (visible (items s))) :
    Settled s' sid := by
  rcases h with hfinished | ⟨hqueue, hstages⟩
  · exact Or.inl (by rwa [finished_eq hrun])
  · refine Or.inr ⟨hcontent.trans hqueue, ?_⟩
    by_cases hsentinel : none ∈ items s
    · exact Or.inl (hitems.sentinel hsentinel)
    · exact Or.inr fun index task =>
        silent_of_forced hforced hexecutors hsentinel hstages

theorem Consistent.cancel {sid' : StreamId} (h : Consistent s sid')
    (hquiet : quiet s (.cancel sid force))
    (hstep : Runner.step cfg s (.cancel sid force) = some s') : Consistent s' sid' := by
  cases cancel_move hstep with
  | unknown => exact h
  | known hsid hmux hitems hexecutors =>
    have hcaughtUp := hquiet hsid
    have hkept : s.isCancelled sid' = true → (s.tokens.set sid true).getD sid' false = true := by
      intro hold
      rw [isCancelled_set hsid, hold, ite_self]
    refine ⟨h.shown, fun text htext => ?_, fun text htext => ?_, fun hcancelled => ?_⟩
    · rcases List.mem_append.mp htext with hold | hnew
      · exact (h.returned text hold).imp_right hkept
      · obtain ⟨rfl, rfl⟩ := Prod.mk.inj (List.mem_singleton.mp hnew)
        exact ⟨rfl, (isCancelled_set hsid).trans (if_pos rfl)⟩
    · rcases List.mem_append.mp htext with htaken | hqueued
      · exact (h.events text (List.mem_append_left _ htaken)).imp_right hkept
      · rcases hitems.mem hqueued with hold | hnew
        · exact (h.events text (List.mem_append_right _ hold)).imp_right hkept
        · obtain ⟨rfl, hevent⟩ := QueuedItem.mk.inj (Option.some.inj hnew)
          exact ⟨EventData.streamCancelled.inj hevent, (isCancelled_set hsid).trans (if_pos rfl)⟩
    · by_cases hsame : sid = sid'
      · subst hsame
        exact hcaughtUp.settled rfl hexecutors rfl hitems (cancel_content hitems)
      · have hold : s.isCancelled sid' = true :=
          ((isCancelled_set hsid).trans (if_neg hsame)).symm.trans hcancelled
        have hsettled := h.settled hold
        rcases hsettled with hfinished | ⟨hqueue, hstages⟩
        · exact Or.inl hfinished
        · refine Or.inr ⟨(cancel_content hitems).trans hqueue, hstages.imp hitems.sentinel ?_⟩
          exact fun hsilent index task htask =>
            silent_of_descends hold hsilent (step_descends hstep htask)

/-! ## Every run -/

theorem Consistent.step {e : Runner.Step} (h : Consistent s sid) (hstaged : Staged s)
    (hquiet : quiet s e) (hstep : Runner.step cfg s e = some s') : Consistent s' sid := by
  cases e with
  | run => exact h.run hquiet hstep
  | producer => exact h.producer hstep
  | cancel sid force => exact h.cancel hquiet hstep
  | tick ms | disconnect | reconnect =>
    obtain rfl := Option.some.inj hstep
    exact { h with }
  | _ => exact h.task hstaged rfl hstep

/-- In every run that takes no content for a client that is away, and calls `cancel` only while no
content of the stream is on its way, what each call returned, its event, what was yielded and what
is collected later are the same. -/
theorem partials_agree (cfg : StreamConfig) (steps : List Runner.Step) (s : Runner)
    (hquiet : Along (Runner.step cfg) quiet (Runner.fresh cfg) steps)
    (hrun : run (Runner.step cfg) (Runner.fresh cfg) steps = some s) :
    ∀ sid text, (sid, text) ∈ s.returned → Agrees s sid text := by
  have hinvariant : Staged s ∧ ∀ sid, Consistent s sid :=
    run_invariant_along (I := fun s => Staged s ∧ ∀ sid, Consistent s sid)
      (fun s e s' h hquiet hstep =>
        ⟨h.1.step hstep, fun sid => (h.2 sid).step h.1 hquiet hstep⟩)
      ⟨fresh_staged cfg, fresh_consistent cfg⟩ hquiet hrun
  exact fun sid text htext => (hinvariant.2 sid).agrees htext

instance (s : Runner) (e : Runner.Step) : Decidable (quiet s e) := by
  unfold quiet caughtUp
  cases e <;> infer_instance

def single : StreamConfig := { stages := [.serial] }

def opening : List Runner.Step :=
  [.run, .run, .run, .run, .producer, .executor 0, .source 0 0 (.marked ['a', 'b'] 0 false), .run]

/-- `cancel` is called when the delta has been yielded; the client has been away before. -/
def caughtUpRun : List Runner.Step :=
  opening ++ [.disconnect, .reconnect, .run, .cancel 0 false, .run]

theorem partials_agree_caught_up :
    Along (Runner.step single) quiet (Runner.fresh single) caughtUpRun ∧
      (0, ['a', 'b']) ∈ (replay (Runner.step single) (Runner.fresh single) caughtUpRun).returned ∧
      Agrees (replay (Runner.step single) (Runner.fresh single) caughtUpRun) 0 ['a', 'b'] := by
  have hquiet : Along (Runner.step single) quiet (Runner.fresh single) caughtUpRun := by decide
  have hreturned : (0, ['a', 'b']) ∈
      (replay (Runner.step single) (Runner.fresh single) caughtUpRun).returned := by decide
  exact ⟨hquiet, hreturned, partials_agree single _ _ hquiet (run_eq_replay (by decide)) _ _
    hreturned⟩

/-- `cancel` is called while the delta is in the queue: it is collected afterwards, and nobody
gets it. -/
theorem partials_differ :
    (run (Runner.step single) (Runner.fresh single) (opening ++ [.cancel 0 false, .run])).map
        (fun s => (s.returned, yieldedContent s 0, s.partials 0)) =
      some ([(0, [])], [], ['a', 'b']) := by
  decide

end Orditect.Stream.Partial.Proofs
