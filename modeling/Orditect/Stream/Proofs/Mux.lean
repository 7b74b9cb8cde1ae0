import Mathlib.Data.List.ReduceOption
import Orditect.Stream.Mux
import Orditect.Support.Transition
/-!
# Delivery through the multiplexer

Everything the consumer takes it yields, numbered in a row for each stream.  Nothing is left
behind when it ends, as long as no `emit` waits for space at the moment the last stream is
closed: the sentinel then enters behind all events, and no event enters after it.
-/

namespace Orditect.Stream.Mux.Proofs

open Support Support.Transition

variable {σ ω δ : Type}

def entered (t : Traffic σ ω δ) : List (Option (QueuedItem σ δ)) := t.taken ++ t.mux.queue.items

/-! ## The invariant -/

variable {o : ω} {t : Traffic σ ω δ}

section

variable [DecidableEq ω]

theorem setCall_calls_self (t : Traffic σ ω δ) (o : ω) (call : Call σ δ) :
    (t.setCall o call).calls o = call := if_pos rfl

theorem setCall_calls_of_ne (t : Traffic σ ω δ) {p : ω} (h : p ≠ o) (call : Call σ δ) :
    (t.setCall o call).calls p = t.calls p := if_neg h

theorem calls_of_setCall {p : ω} {call call' : Call σ δ} (hcall : call ≠ call')
    (h : (t.setCall o call).calls p = call') : t.calls p = call' := by
  by_cases hp : p = o
  · rw [hp, setCall_calls_self] at h
    exact absurd h hcall
  · rwa [setCall_calls_of_ne t hp] at h

theorem setCall_self {call : Call σ δ} (h : t.calls o = call) :
    t.setCall o call = t := by
  have hcalls : (fun p => if p = o then call else t.calls p) = t.calls := by
    funext p
    split
    next hp => rw [hp, h]
    next => rfl
  rw [Traffic.setCall, hcalls]

end

variable [DecidableEq σ] [DecidableEq ω]

structure Sound (t : Traffic σ ω δ) : Prop where
  asleep : ∀ o, t.mux.queue.suspended o = false ↔ t.calls o = .idle
  numbered : ∀ sid, (t.yielded.filter fun e => decide (e.streamId = sid)).map (·.seq) =
    List.range' 1 (t.mux.allocators sid)
  returned : t.returned = (entered t).reduceOption
  taken : t.taken.reduceOption = t.yielded.map (·.toQueuedItem)
  /-- While a stream is open, there is no sentinel anywhere. -/
  beforeClose : t.mux.closed = false →
    none ∉ t.mux.queue.items ∧ (∀ o sid, t.calls o ≠ .closing sid) ∧ t.consumer ≠ .ended
  afterClose : t.mux.closed = true → ∀ o item, t.calls o ≠ .emitting item
  /-- There is one sentinel. -/
  single : ∀ o p sid sid', t.calls o = .closing sid → t.calls p = .closing sid' → o = p
  sentinel : none ∈ entered t → ∀ o sid, t.calls o ≠ .closing sid
  last : ∃ events : List (QueuedItem σ δ),
    t.mux.queue.items = events.map some ∨ t.mux.queue.items = events.map some ++ [none]
  stopped : none ∈ t.taken → t.consumer = .ended
  ended : t.consumer = .ended → t.mux.queue.items.reduceOption = []

theorem Sound.asleep_put (h : Sound t) (o : ω) (a : Option (QueuedItem σ δ)) (call : Call σ δ)
    (hcall : call = .idle ↔ (t.mux.queue.put o a).2 = true) (p : ω) :
    (t.mux.queue.put o a).1.suspended p = false ↔ (t.setCall o call).calls p = .idle := by
  by_cases hp : p = o
  · rw [hp, setCall_calls_self, AsyncQueue.suspended_put_self, hcall]
    simp
  · rw [setCall_calls_of_ne t hp, AsyncQueue.suspended_put_of_ne _ hp]
    exact h.asleep p

theorem Sound.emitTurn (h : Sound t) {item : QueuedItem σ δ}
    (hcall : t.calls o = .idle ∨ t.calls o = .emitting item) : Sound (t.emitTurn o item) := by
  unfold Traffic.emitTurn
  rcases t.mux.emit_cases o item with ⟨hemit, hfresh, -⟩ | ⟨hemit, hopen⟩
  · rw [hemit]
    dsimp only
    rw [setCall_self ((h.asleep o).mp hfresh)]
    exact h
  have hopen : t.mux.closed = false := by
    rcases hcall with hidle | hemitting
    · exact hopen ((h.asleep o).mpr hidle)
    · by_contra hclosed
      exact h.afterClose (by simpa using hclosed) o item hemitting
  obtain ⟨hnone, hclosing, hrunning⟩ := h.beforeClose hopen
  obtain ⟨events, hevents⟩ :
      ∃ events : List (QueuedItem σ δ), t.mux.queue.items = events.map some := by
    obtain ⟨events, hevents | hevents⟩ := h.last
    · exact ⟨events, hevents⟩
    · simp [hevents] at hnone
  have hitems := t.mux.queue.items_put o (some item)
  rw [hemit, StreamMux.put]
  cases hin : (t.mux.queue.put o (some item)).2 with
  | false =>
    rw [hin, if_neg (by decide)] at hitems
    have hentered : t.taken ++ (t.mux.queue.put o (some item)).1.items = entered t := by
      rw [hitems, entered]
    exact
      { asleep := h.asleep_put o (some item) _ (by simp [hin])
        numbered := h.numbered
        returned := h.returned.trans (congrArg _ hentered.symm)
        taken := h.taken
        beforeClose := fun _ => ⟨(congrArg (none ∉ ·) hitems).mpr hnone,
          fun p sid hp => hclosing p sid (calls_of_setCall (by simp) hp), hrunning⟩
        afterClose := fun hclosed => absurd (hopen.symm.trans hclosed) (by decide)
        single := fun p _ sid _ hp _ => absurd (calls_of_setCall (by simp) hp) (hclosing p sid)
        sentinel := fun _ p sid hp => hclosing p sid (calls_of_setCall (by simp) hp)
        last := ⟨events, Or.inl (hitems.trans hevents)⟩
        stopped := h.stopped
        ended := fun hended => absurd hended hrunning }
  | true =>
    rw [hin, if_pos rfl] at hitems
    have hentered : t.taken ++ (t.mux.queue.put o (some item)).1.items =
        entered t ++ [some item] := by
      rw [hitems, entered, List.append_assoc]
    exact
      { asleep := h.asleep_put o (some item) _ (by simp [hin])
        numbered := h.numbered
        returned := by
          refine Eq.trans ?_ (congrArg _ hentered.symm)
          rw [List.reduceOption_append, ← h.returned]
          rfl
        taken := h.taken
        beforeClose := fun _ => ⟨(congrArg (none ∉ ·) hitems).mpr (by simp [hnone]),
          fun p sid hp => hclosing p sid (calls_of_setCall (by simp) hp), hrunning⟩
        afterClose := fun hclosed => absurd (hopen.symm.trans hclosed) (by decide)
        single := fun p _ sid _ hp _ => absurd (calls_of_setCall (by simp) hp) (hclosing p sid)
        sentinel := fun _ p sid hp => hclosing p sid (calls_of_setCall (by simp) hp)
        last := ⟨events ++ [item], Or.inl (hitems.trans (by simp [hevents]))⟩
        stopped := h.stopped
        ended := fun hended => absurd hended hrunning }

theorem Sound.sendSentinel (h : Sound t) (sid : σ) (hclosed : t.mux.closed = true)
    (hsingle : ∀ p s, t.calls p = .closing s → p = o) (hnone : none ∉ entered t) :
    Sound (({ t with mux := (t.mux.put o none).1 } : Traffic σ ω δ).setCall o
      (match (t.mux.put o none).2 with
        | .waiting => .closing sid
        | _ => .idle)) := by
  obtain ⟨events, hevents⟩ :
      ∃ events : List (QueuedItem σ δ), t.mux.queue.items = events.map some := by
    obtain ⟨events, hevents | hevents⟩ := h.last
    · exact ⟨events, hevents⟩
    · simp [entered, hevents] at hnone
  have hitems := t.mux.queue.items_put o none
  rw [StreamMux.put]
  cases hin : (t.mux.queue.put o none).2 with
  | false =>
    rw [hin, if_neg (by decide)] at hitems
    have hentered : t.taken ++ (t.mux.queue.put o none).1.items = entered t := by
      rw [hitems, entered]
    exact
      { asleep := h.asleep_put o none _ (by simp [hin])
        numbered := h.numbered
        returned := h.returned.trans (congrArg _ hentered.symm)
        taken := h.taken
        beforeClose := fun hopen => absurd (hclosed.symm.trans hopen) (by decide)
        afterClose := fun _ p item hp => h.afterClose hclosed p item (calls_of_setCall (by simp) hp)
        single := by
          have hall : ∀ p s, (t.setCall o (.closing sid)).calls p = .closing s → p = o := by
            intro p s hp
            by_contra hpo
            rw [setCall_calls_of_ne t hpo] at hp
            exact hpo (hsingle p s hp)
          exact fun p q s s' hp hq => (hall p s hp).trans (hall q s' hq).symm
        sentinel := fun hmem => absurd ((congrArg (none ∈ ·) hentered).mp hmem) hnone
        last := ⟨events, Or.inl (hitems.trans hevents)⟩
        stopped := h.stopped
        ended := fun hended => (congrArg _ hitems).trans (h.ended hended) }
  | true =>
    rw [hin, if_pos rfl] at hitems
    have hentered : t.taken ++ (t.mux.queue.put o none).1.items = entered t ++ [none] := by
      rw [hitems, entered, List.append_assoc]
    have hclosing : ∀ p s, (t.setCall o .idle).calls p ≠ .closing s := by
      intro p s hp
      have hpo := hsingle p s (calls_of_setCall (by simp) hp)
      rw [hpo, setCall_calls_self] at hp
      exact absurd hp (by simp)
    exact
      { asleep := h.asleep_put o none _ (by simp [hin])
        numbered := h.numbered
        returned := by
          refine Eq.trans ?_ (congrArg _ hentered.symm)
          rw [List.reduceOption_append]
          exact h.returned.trans (List.append_nil _).symm
        taken := h.taken
        beforeClose := fun hopen => absurd (hclosed.symm.trans hopen) (by decide)
        afterClose := fun _ p item hp => h.afterClose hclosed p item (calls_of_setCall (by simp) hp)
        single := fun p _ s _ hp _ => absurd hp (hclosing p s)
        sentinel := fun _ => hclosing
        last := ⟨events, Or.inr (hitems.trans (by rw [hevents]))⟩
        stopped := h.stopped
        ended := fun hended => by
          refine (congrArg _ hitems).trans ?_
          rw [List.reduceOption_append, h.ended hended]
          rfl }

/-- The last open stream is closed while no call waits for space. -/
def quietClose (t : Traffic σ ω δ) (o : ω) (sid : σ) : Prop :=
  t.calls o = .idle → t.mux.openStreams.filter (· ≠ sid) = [] → t.mux.closed = false →
    t.mux.queue.putters = [] ∧ t.mux.queue.woken = []

theorem Sound.closeTurn (h : Sound t) {sid : σ}
    (hcall : t.calls o = .idle ∨ t.calls o = .closing sid) (hquiet : quietClose t o sid) :
    Sound (t.closeTurn o sid) := by
  unfold Traffic.closeTurn StreamMux.closeStream
  split
  next hasleep =>
    have hbusy : t.calls o ≠ .idle := fun hidle => by
      rw [(h.asleep o).mpr hidle] at hasleep
      exact absurd hasleep (by decide)
    have hclosing := hcall.resolve_left hbusy
    refine h.sendSentinel sid ?_ (fun p s hp => h.single p o s sid hp hclosing)
      fun hnone => h.sentinel hnone o sid hclosing
    by_contra hopen
    exact (h.beforeClose (by simpa using hopen)).2.1 o sid hclosing
  next hfresh =>
    have hidle := (h.asleep o).mp (by simpa using hfresh)
    dsimp only
    split
    next hlast =>
      obtain ⟨hputters, hwoken⟩ := hquiet hidle hlast.1 hlast.2
      obtain ⟨hnone, hclosing, hrunning⟩ := h.beforeClose hlast.2
      have hcalls : ∀ p, t.calls p = .idle := by
        intro p
        rw [← h.asleep, AsyncQueue.suspended, hputters, hwoken]
        rfl
      have hclosed : Sound { t with mux := { t.mux with
          openStreams := t.mux.openStreams.filter (· ≠ sid), closed := true } } :=
        { h with
          beforeClose := fun hopen => Bool.noConfusion hopen
          afterClose := fun _ p item hp => by
            rw [hcalls p] at hp
            exact absurd hp (by simp) }
      refine hclosed.sendSentinel sid rfl (fun p s hp => absurd hp (hclosing p s)) fun hmem => ?_
      rcases List.mem_append.mp hmem with hmem | hmem
      · exact hrunning (h.stopped hmem)
      · exact hnone hmem
    next =>
      rw [setCall_self (t := { t with mux := { t.mux with
        openStreams := t.mux.openStreams.filter (· ≠ sid) } }) hidle]
      exact { h with }

/-! ## The consumer -/

theorem Sound.numbered_next (h : Sound t) (item : QueuedItem σ δ) (sid : σ) :
    ((t.yielded ++ [(⟨item, t.mux.allocators item.streamId + 1⟩ : NumberedEvent σ δ)]).filter
        fun e => decide (e.streamId = sid)).map (·.seq) =
      List.range' 1
        (if sid = item.streamId then t.mux.allocators item.streamId + 1
          else t.mux.allocators sid) := by
  rw [List.filter_append, List.map_append, h.numbered sid]
  by_cases hsid : sid = item.streamId
  · rw [if_pos hsid, hsid, List.range'_concat]
    simp [Nat.add_comm]
  · rw [if_neg hsid, List.filter_singleton, decide_eq_false (Ne.symm hsid)]
    simp

theorem Sound.get (h : Sound t) (hrunning : t.consumer ≠ .ended) :
    Sound t.get := by
  unfold Traffic.get StreamMux.take
  cases hget : t.mux.queue.getNowait with
  | none =>
    exact
      { h with
        beforeClose := fun hopen => ⟨(h.beforeClose hopen).1, (h.beforeClose hopen).2.1, by simp⟩
        stopped := fun hmem => absurd (h.stopped hmem) hrunning
        ended := fun hended => absurd hended (by simp) }
  | some head =>
    obtain ⟨a, queue⟩ := head
    have hitems := AsyncQueue.items_getNowait hget
    have hasleep : ∀ o, queue.suspended o = false ↔ t.calls o = .idle := by
      intro o
      rw [AsyncQueue.suspended_getNowait hget]
      exact h.asleep o
    have hentered : t.taken ++ [a] ++ queue.items = entered t := by
      rw [entered, hitems, List.append_assoc, List.singleton_append]
    obtain ⟨events, hevents⟩ := h.last
    rw [hitems] at hevents
    cases a with
    | none =>
      obtain hrest : queue.items = [] := by
        cases events <;> simp at hevents
        exact hevents
      have hclosed : t.mux.closed ≠ false := fun hopen =>
        (h.beforeClose hopen).1 (by rw [hitems]; exact List.mem_cons_self)
      exact
        { asleep := hasleep
          numbered := h.numbered
          returned := h.returned.trans (congrArg _ hentered.symm)
          taken := by
            rw [List.reduceOption_append]
            exact (List.append_nil _).trans h.taken
          beforeClose := fun hopen => absurd hopen hclosed
          afterClose := h.afterClose
          single := h.single
          sentinel := fun hmem => h.sentinel ((congrArg (none ∈ ·) hentered).mp hmem)
          last := ⟨[], Or.inl hrest⟩
          stopped := fun _ => rfl
          ended := fun _ => congrArg _ hrest }
    | some item =>
      exact
        { asleep := hasleep
          numbered := fun sid => h.numbered_next item sid
          returned := h.returned.trans (congrArg _ hentered.symm)
          taken := by
            rw [List.reduceOption_append, List.map_append, h.taken]
            rfl
          beforeClose := fun hopen => by
            obtain ⟨hnone, hclosing, -⟩ := h.beforeClose hopen
            rw [hitems, List.mem_cons, not_or] at hnone
            exact ⟨hnone.2, hclosing, by simp⟩
          afterClose := h.afterClose
          single := h.single
          sentinel := fun hmem => h.sentinel ((congrArg (none ∈ ·) hentered).mp hmem)
          last := by
            cases events with
            | nil => simp at hevents
            | cons e events =>
              simp only [List.map_cons, List.cons_append, List.cons.injEq] at hevents
              exact ⟨events, hevents.imp And.right And.right⟩
          stopped := fun hmem => absurd (h.stopped (by simpa using hmem)) hrunning
          ended := fun hended => absurd hended (by simp) }

/-! ## Whole runs -/

def quiet (t : Traffic σ ω δ) : Traffic.Action σ ω δ → Prop
  | .close o sid => quietClose t o sid
  | _ => True

theorem step_sound {t' : Traffic σ ω δ} {action : Traffic.Action σ ω δ} (h : Sound t)
    (hquiet : quiet t action) (hstep : t.step action = some t') : Sound t' := by
  cases action with
  | register sid =>
    rw [← Option.some.inj hstep]
    exact { h with }
  | emit o item =>
    simp only [Traffic.step] at hstep
    split at hstep
    next hidle =>
      rw [← Option.some.inj hstep]
      exact h.emitTurn (Or.inl hidle)
    next => simp at hstep
  | close o sid =>
    simp only [Traffic.step] at hstep
    split at hstep
    next hidle =>
      rw [← Option.some.inj hstep]
      exact h.closeTurn (Or.inl hidle) hquiet
    next => simp at hstep
  | turn o =>
    simp only [Traffic.step] at hstep
    split at hstep
    next => simp at hstep
    next item hcall =>
      rw [← Option.some.inj hstep]
      exact h.emitTurn (Or.inr hcall)
    next sid hcall =>
      rw [← Option.some.inj hstep]
      exact h.closeTurn (Or.inr hcall) fun hidle => absurd (hcall.symm.trans hidle) (by simp)
  | consume =>
    simp only [Traffic.step] at hstep
    split at hstep
    next hchecking =>
      split at hstep
      next hend =>
        rw [← Option.some.inj hstep]
        exact
          { h with
            beforeClose := fun hopen => absurd (hend.1.symm.trans hopen) (by decide)
            stopped := fun _ => rfl
            ended := fun _ => congrArg _ hend.2 }
      next =>
        rw [← Option.some.inj hstep]
        exact h.get (by simp [hchecking])
    next hgetting =>
      rw [← Option.some.inj hstep]
      exact h.get (by simp [hgetting])
    next => simp at hstep

def untouched (maxsize : Nat) (policy : BackpressurePolicy) : Traffic σ ω δ where
  mux := { queue := { maxsize := maxsize }, backpressure := policy }

theorem sound_untouched (maxsize : Nat) (policy : BackpressurePolicy) :
    Sound (untouched maxsize policy : Traffic σ ω δ) where
  asleep _ := by simp [untouched, AsyncQueue.suspended]
  numbered _ := rfl
  returned := rfl
  taken := rfl
  beforeClose _ := ⟨by simp [untouched], by simp [untouched], by simp [untouched]⟩
  afterClose hclosed := absurd hclosed (by simp [untouched])
  single _ _ _ _ hcall := absurd hcall (by simp [untouched])
  sentinel hmem := absurd hmem (by simp [untouched, entered])
  last := ⟨[], Or.inl rfl⟩
  stopped hmem := absurd hmem (by simp [untouched])
  ended _ := rfl

/-- Each stream is numbered in a row from 1, in the order the events entered the queue; and at
the end of `events` all events have been yielded whose `emit` returned. -/
structure Delivered (t : Traffic σ ω δ) : Prop where
  numbered : ∀ sid, ∃ n,
    (t.yielded.filter fun e => decide (e.streamId = sid)).map (·.seq) = List.range' 1 n
  ordered : t.yielded.map (·.toQueuedItem) <+: (entered t).reduceOption
  complete : t.consumer = .ended → t.yielded.map (·.toQueuedItem) = t.returned

theorem Sound.delivered (h : Sound t) : Delivered t where
  numbered sid := ⟨_, h.numbered sid⟩
  ordered := by
    rw [← h.taken, entered, List.reduceOption_append]
    exact List.prefix_append _ _
  complete hended := by
    rw [h.returned, ← h.taken, entered, List.reduceOption_append, h.ended hended, List.append_nil]

/-- In every run in which the last stream is closed only while no `emit` waits for space, the
events are delivered. -/
theorem events_delivered (maxsize : Nat) (policy : BackpressurePolicy)
    (actions : List (Traffic.Action σ ω δ)) (t : Traffic σ ω δ)
    (hquiet : Along Traffic.step quiet (untouched maxsize policy) actions)
    (hrun : run Traffic.step (untouched maxsize policy) actions = some t) : Delivered t :=
  (run_invariant_along (fun _ _ _ => step_sound)
    (sound_untouched maxsize policy) hquiet hrun).delivered

instance [DecidableEq δ] (t : Traffic σ ω δ) (action : Traffic.Action σ ω δ) :
    Decidable (quiet t action) := by
  unfold quiet quietClose
  cases action <;> infer_instance

def patient : List (Traffic.Action Nat Nat Nat) :=
  [.register 0, .emit 1 ⟨0, 10⟩, .emit 2 ⟨0, 11⟩, .consume, .turn 2, .close 3 0, .consume, .turn 3,
    .consume]

theorem events_delivered_patient :
    Along Traffic.step quiet (untouched 1 .block) patient ∧
      (run Traffic.step (untouched 1 .block) patient).isSome = true ∧
      Delivered (replay Traffic.step (untouched 1 .block) patient) := by
  have hquiet : Along Traffic.step quiet (untouched 1 .block) patient := by decide
  have hrun : (run Traffic.step (untouched 1 .block) patient).isSome = true := by decide
  exact ⟨hquiet, hrun, events_delivered 1 .block patient _ hquiet (run_eq_replay hrun)⟩

def hurried : List (Traffic.Action Nat Nat Nat) :=
  [.register 0, .emit 1 ⟨0, 10⟩, .emit 2 ⟨0, 11⟩, .close 3 0, .consume, .consume, .turn 2]

theorem event_lost :
    (run Traffic.step (untouched 1 .block) hurried).map
        (fun t => (t.consumer, t.returned, t.yielded.map (·.toQueuedItem))) =
      some (.ended, [⟨0, 10⟩, ⟨0, 11⟩], [⟨0, 10⟩]) := by
  decide

end Orditect.Stream.Mux.Proofs
