import Orditect.Stream.Proofs.Stages
/-!
# The start of a run

`run()` puts a start event for every stream into the queue before anybody takes from it: it is
itself the one that consumes.  If the queue has no space for all of them `run()` waits for
good.  A `cancel` before that, as from a hook, takes a place as well.
-/

namespace Orditect.Stream.Start.Proofs

open Support Support.Transition Stream.Runner.Proofs

/-- One stream is cancelled; `cancel` without a stream id does this for each of them. -/
def isCancel : Runner.Step → Bool
  | .cancel .. => true
  | _ => false

/-- `run()` waits for space, and nobody consumes. -/
def Stuck (s : Runner) : Prop :=
  (∃ count, s.run = .starting count) ∧ Owner.run ∈ s.mux.queue.putters

/-- Turns of `run()` alone lead to the point where the producer is started. -/
def Starts (cfg : StreamConfig) (s : Runner) : Prop :=
  ∃ t, Reaches (Runner.step cfg) (· = .run) s t ∧ t.producer ≠ .absent

structure Early (cfg : StreamConfig) (s : Runner) : Prop where
  phase : (∃ count, s.run = .registering count) ∨ ∃ count, s.run = .starting count
  producer : s.producer = .absent
  executors : s.executors = []
  enrichTasks : s.enrichTasks = []
  opened : s.mux.closed = false
  block : s.mux.backpressure = .block
  maxsize : s.mux.queue.maxsize = cfg.queueMaxsize
  putters : s.mux.queue.putters = []
  woken : s.mux.queue.woken = []

variable {cfg : StreamConfig} {s : Runner}

def ahead (cfg : StreamConfig) : RunPhase → Nat
  | .registering _ => cfg.maxId
  | .starting count => cfg.maxId - count
  | _ => 0

def turnsLeft (cfg : StreamConfig) : RunPhase → Nat
  | .registering count => (cfg.maxId - count) + cfg.maxId + 2
  | .starting count => cfg.maxId - count + 1
  | _ => 0

def pushed (s : Runner) (item : Item) : Runner :=
  { s with mux := { s.mux with queue := { s.mux.queue with items := items s ++ [some item] } } }

theorem Early.full_iff (h : Early cfg s) : s.mux.queue.full = true ↔
    0 < cfg.queueMaxsize ∧ cfg.queueMaxsize ≤ (items s).length := by
  rw [AsyncQueue.full, h.maxsize, Bool.and_eq_true, decide_eq_true_eq, decide_eq_true_eq]

theorem Early.suspended (h : Early cfg s) (o : Owner) :
    s.mux.queue.suspended o = false := by
  simp [AsyncQueue.suspended, h.putters, h.woken]

/-! ## Turns of `run()` -/

section Turns

variable (h : Early cfg s) {count : Nat}

include h

theorem Early.emit_space (o : Owner) (sid : StreamId) (event : EventData)
    (hspace : s.mux.queue.full = false) :
    s.emit o sid event = (pushed s ⟨sid, event⟩, .returned) := by
  have hput : s.mux.queue.put o (some ⟨sid, event⟩) =
      ({ s.mux.queue with items := items s ++ [some ⟨sid, event⟩] }, true) := by
    simp [AsyncQueue.put, h.putters, h.woken, hspace]
  simp [Runner.emit, StreamMux.emit, StreamMux.put, h.suspended, h.opened, h.block, hput, pushed]

theorem Early.emit_full (o : Owner) (sid : StreamId) (event : EventData)
    (hfull : s.mux.queue.full = true) :
    s.emit o sid event =
      ({ s with mux := { s.mux with queue := { s.mux.queue with putters := [o] } } },
        .waiting) := by
  have hput : s.mux.queue.put o (some ⟨sid, event⟩) =
      ({ s.mux.queue with putters := [o] }, false) := by
    simp [AsyncQueue.put, h.putters, h.woken, hfull]
  simp [Runner.emit, StreamMux.emit, StreamMux.put, h.suspended, h.opened, h.block, hput]

end Turns

inductive EarlyTurn (cfg : StreamConfig) (s : Runner) : Runner → Prop where
  | register {s' : Runner} (hearly : Early cfg s')
      (hitems : (items s').length = (items s).length)
      (hahead : ahead cfg s'.run = ahead cfg s.run)
      (hturns : turnsLeft cfg s'.run < turnsLeft cfg s.run) : EarlyTurn cfg s s'
  | start {s' : Runner} (hearly : Early cfg s') (hspace : s.mux.queue.full = false)
      (hitems : (items s').length = (items s).length + 1)
      (hahead : ahead cfg s'.run + 1 = ahead cfg s.run)
      (hturns : turnsLeft cfg s'.run < turnsLeft cfg s.run) : EarlyTurn cfg s s'
  | block {s' : Runner} (hfull : s.mux.queue.full = true) (hahead : 0 < ahead cfg s.run)
      (hstuck : Stuck s') : EarlyTurn cfg s s'
  | consume {s' : Runner} (hrun : s'.run = .consuming .checking)
      (hproducer : s'.producer = .spawning) (hahead : ahead cfg s.run = 0) : EarlyTurn cfg s s'

theorem Early.turn (h : Early cfg s) :
    ∃ s', s.runTurn cfg = some s' ∧ EarlyTurn cfg s s' := by
  rcases h.phase with ⟨count, hphase⟩ | ⟨count, hphase⟩
  · rw [Runner.runTurn, hphase]
    dsimp only
    split
    next hcount =>
      refine ⟨_, rfl, .register { h with phase := Or.inl ⟨_, rfl⟩ } rfl ?_ ?_⟩
      · rw [hphase]
        rfl
      · rw [hphase]
        simp only [turnsLeft]
        omega
    next hcount =>
      refine ⟨_, rfl, .register { h with phase := Or.inr ⟨_, rfl⟩ } rfl ?_ ?_⟩
      · rw [hphase]
        rfl
      · rw [hphase]
        simp only [turnsLeft]
        omega
  · rw [Runner.runTurn, hphase]
    dsimp only
    split
    next hcount =>
      cases hfull : s.mux.queue.full with
      | false =>
        rw [h.emit_space .run count .streamStart hfull]
        refine ⟨_, rfl, .start { h with phase := Or.inr ⟨_, rfl⟩ } hfull List.length_append ?_
          ?_⟩
        · rw [hphase]
          simp only [ahead]
          omega
        · rw [hphase]
          simp only [turnsLeft]
          omega
      | true =>
        rw [h.emit_full .run count .streamStart hfull]
        refine ⟨_, rfl, .block hfull ?_ ⟨⟨count, hphase⟩, List.mem_singleton_self _⟩⟩
        rw [hphase]
        simp only [ahead]
        omega
    next hcount =>
      refine ⟨_, rfl, .consume rfl rfl ?_⟩
      rw [hphase]
      simp only [ahead]
      omega

/-- Turns of `run()` start the producer if there is space for the start events still to come, and
get stuck if there is not. -/
theorem Early.decided (h : Early cfg s) (hqueue : 1 ≤ cfg.queueMaxsize)
    (hitems : (items s).length ≤ cfg.queueMaxsize) :
    ∃ t, Reaches (Runner.step cfg) (· = .run) s t ∧
      if (items s).length + ahead cfg s.run ≤ cfg.queueMaxsize then t.producer ≠ .absent
      else Stuck t := by
  -- On the turns that are left.
  induction hturns : turnsLeft cfg s.run using Nat.strongRecOn generalizing s with
  | _ n ih =>
    obtain ⟨s', hturn, hmove⟩ := h.turn
    have hstep : Reaches (Runner.step cfg) (· = .run) s s' := .single rfl hturn
    have hfull := h.full_iff
    cases hmove with
    | register hearly hsame hahead hless =>
      obtain ⟨t, hreach, ht⟩ := ih _ (hturns ▸ hless) hearly (by omega) rfl
      rw [hsame, hahead] at ht
      exact ⟨t, hstep.trans hreach, ht⟩
    | start hearly hspace hmore hahead hless =>
      rw [hspace] at hfull
      obtain ⟨t, hreach, ht⟩ := ih _ (hturns ▸ hless) hearly (by simp at hfull; omega) rfl
      rw [hmore, Nat.add_assoc, Nat.add_comm 1, hahead] at ht
      exact ⟨t, hstep.trans hreach, ht⟩
    | block hblock hahead hstuck =>
      refine ⟨s', hstep, ?_⟩
      rwa [if_neg (by have := hfull.mp hblock; omega)]
    | consume hrun hproducer hahead =>
      refine ⟨s', hstep, ?_⟩
      rw [if_pos (by omega), hproducer]
      exact ProducerPhase.noConfusion

/-! ## `cancel` before the start -/

theorem forceCancelExecutor_nil (h : s.executors = []) (sid : StreamId) :
    s.forceCancelExecutor sid = s := by
  simp [Runner.forceCancelExecutor, h]

theorem emitCancelledEvent_open (h : s.mux.closed = false) (sid : StreamId) :
    s.emitCancelledEvent sid =
      if s.mux.queue.full then s else pushed s ⟨sid, .streamCancelled (s.partials sid)⟩ := by
  rw [Runner.emitCancelledEvent, if_neg (by simp [h]), AsyncQueue.putNowait]
  cases s.mux.queue.full <;> rfl

def noted (s : Runner) (sid : StreamId) : Runner :=
  { s with
    returned := s.returned ++ [(sid, s.partials sid)]
    tokens := s.tokens.set sid true }

theorem cancel_eq (hopen : s.mux.closed = false) (hnone : s.executors = []) {sid : StreamId}
    (hsid : sid < s.tokens.length) (force : Bool) :
    s.cancel sid force =
      if s.mux.queue.full then noted s sid
      else pushed (noted s sid) ⟨sid, .streamCancelled (s.partials sid)⟩ := by
  have hnoted : s.cancel sid force =
      if force then ((noted s sid).emitCancelledEvent sid).forceCancelExecutor sid
      else (noted s sid).emitCancelledEvent sid := by
    rw [Runner.cancel, if_pos hsid]
    rfl
  have hevent : (noted s sid).emitCancelledEvent sid =
      if s.mux.queue.full then noted s sid
      else pushed (noted s sid) ⟨sid, .streamCancelled (s.partials sid)⟩ :=
    emitCancelledEvent_open (s := noted s sid) hopen sid
  have hexecutors : ((noted s sid).emitCancelledEvent sid).executors = [] := by
    rw [hevent]
    split <;> exact hnone
  rw [hnoted, forceCancelExecutor_nil hexecutors, ite_self, hevent]

theorem Early.cancel (h : Early cfg s) (sid : StreamId) (force : Bool) :
    Early cfg (s.cancel sid force) ∧ (s.cancel sid force).run = s.run ∧
      (s.cancel sid force).tokens.length = s.tokens.length ∧
      (items (s.cancel sid force)).length =
        (items s).length + if sid < s.tokens.length ∧ s.mux.queue.full = false then 1 else 0 := by
  by_cases hsid : sid < s.tokens.length
  · rw [cancel_eq h.opened h.executors hsid]
    cases hfull : s.mux.queue.full with
    | false =>
      rw [if_neg (by decide), if_pos ⟨hsid, rfl⟩]
      exact ⟨{ h with }, rfl, List.length_set, List.length_append⟩
    | true =>
      rw [if_pos rfl, if_neg (by simp)]
      exact ⟨{ h with }, rfl, List.length_set, rfl⟩
  · rw [Runner.cancel, if_neg hsid, if_neg (by simp [hsid])]
    exact ⟨h, rfl, rfl, rfl⟩

theorem Early.cancels (h : Early cfg s) (htokens : 0 < s.tokens.length) {k : Nat}
    (hk : (items s).length + k ≤ cfg.queueMaxsize) :
    ∃ t, run (Runner.step cfg) s (List.replicate k (.cancel 0 false)) = some t ∧ Early cfg t ∧
      t.run = s.run ∧ (items t).length = (items s).length + k := by
  induction k generalizing s with
  | zero => exact ⟨s, rfl, h, rfl, rfl⟩
  | succ k ih =>
    obtain ⟨hearly, hrun, hlength, hitems⟩ := h.cancel 0 false
    have hspace : s.mux.queue.full = false := by
      rw [← Bool.not_eq_true, h.full_iff]
      omega
    rw [if_pos ⟨htokens, hspace⟩] at hitems
    obtain ⟨t, hrest, ht, hphase, hcount⟩ := ih hearly (by omega) (by omega)
    exact ⟨t, run_cons_eq_some.mpr ⟨_, rfl, hrest⟩, ht, hphase.trans hrun, by omega⟩

/-! ## Every run -/

structure Started (s : Runner) : Prop where
  consuming : ∃ consumer, s.run = .consuming consumer
  producer : s.producer ≠ .absent

/-- The queue has space for the start events that are still to come and for `cancels` calls of
`cancel`. -/
inductive Safe (cfg : StreamConfig) (cancels : Nat) (s : Runner) : Prop where
  | early (h : Early cfg s)
      (hspace : (items s).length + ahead cfg s.run + cancels ≤ cfg.queueMaxsize)
  | started (h : Started s)

variable {cancels : Nat} {e : Runner.Step} {s' : Runner}

theorem Safe.starts (h : Safe cfg cancels s) (hqueue : 1 ≤ cfg.queueMaxsize) : Starts cfg s := by
  cases h with
  | early h hspace =>
    obtain ⟨t, hreach, ht⟩ := h.decided hqueue (by omega)
    exact ⟨t, hreach, by rwa [if_pos (by omega)] at ht⟩
  | started h => exact ⟨s, .refl _ _ s, h.producer⟩

theorem Early.step (h : Early cfg s)
    (hspace : (items s).length + ahead cfg s.run + cancels ≤ cfg.queueMaxsize)
    (hcancels : isCancel e = true → 0 < cancels) (hstep : Runner.step cfg s e = some s') :
    Safe cfg (cancels - if isCancel e then 1 else 0) s' := by
  cases e with
  | run =>
    obtain ⟨t, hturn, hmove⟩ := h.turn
    obtain rfl : t = s' := Option.some.inj (hturn.symm.trans hstep)
    cases hmove with
    | register hearly hitems hahead => exact .early hearly (by rw [hitems, hahead]; exact hspace)
    | start hearly hfull hitems hahead => exact .early hearly (by simp [isCancel]; omega)
    | block hfull hahead =>
      rw [h.full_iff] at hfull
      omega
    | consume hrun hproducer =>
      exact .started ⟨⟨_, hrun⟩, by rw [hproducer]; exact ProducerPhase.noConfusion⟩
  | cancel sid force =>
    obtain rfl : s.cancel sid force = s' := Option.some.inj hstep
    obtain ⟨hearly, hrun, -, hitems⟩ := h.cancel sid force
    have hpos := hcancels rfl
    refine .early hearly ?_
    rw [hrun, hitems]
    simp only [isCancel, if_true]
    split <;> omega
  | tick ms | disconnect | reconnect =>
    obtain rfl := Option.some.inj hstep
    exact .early { h with } hspace
  | _ => exact absurd hstep (no_other_task h.producer h.executors h.enrichTasks rfl)

theorem Started.step (h : Started s) (hstep : Runner.step cfg s e = some s') : Started s' := by
  obtain ⟨⟨consumer, hrun⟩, hproducer⟩ := h
  cases e with
  | run =>
    have hmove := runTurn_move hstep
    cases hmove with
    | stop | starve | sentinel => exact ⟨⟨_, rfl⟩, hproducer⟩
    | take h hrunning hmux hitems hdelivered =>
      cases hdelivered <;> exact ⟨⟨_, rfl⟩, hproducer⟩
    | started => exact ⟨⟨_, rfl⟩, ProducerPhase.noConfusion⟩
    | _ => simp_all
  | producer =>
    have hmove := producerTurn_move hstep
    exact ⟨⟨consumer, hmove.untouched.run.trans hrun⟩, hmove.not_absent⟩
  | cancel sid force => cases cancel_move hstep <;> exact ⟨⟨consumer, hrun⟩, hproducer⟩
  | tick ms | disconnect | reconnect =>
    obtain rfl := Option.some.inj hstep
    exact ⟨⟨consumer, hrun⟩, hproducer⟩
  | _ =>
    obtain ⟨put, haside, -⟩ := task_aside rfl hstep
    exact ⟨⟨consumer, haside.run.trans hrun⟩, haside.producer.symm ▸ hproducer⟩

theorem Safe.run {t : Runner} {steps : List Runner.Step} (h : Safe cfg cancels s)
    (hcount : steps.countP isCancel ≤ cancels)
    (hrun : Transition.run (Runner.step cfg) s steps = some t) : ∃ left, Safe cfg left t := by
  induction steps generalizing s cancels with
  | nil =>
    obtain rfl : s = t := by simpa using hrun
    exact ⟨cancels, h⟩
  | cons e steps ih =>
    obtain ⟨s', hstep, hrest⟩ := run_cons_eq_some.mp hrun
    rw [List.countP_cons] at hcount
    have hnext : Safe cfg (cancels - if isCancel e then 1 else 0) s' := by
      cases h with
      | early h hspace =>
        refine h.step hspace (fun he => ?_) hstep
        rw [if_pos he] at hcount
        omega
      | started h => exact .started (h.step hstep)
    exact ih hnext (by omega) hrest

structure Deadlocked (cfg : StreamConfig) (s : Runner) : Prop where
  phase : ∃ count < cfg.maxId, s.run = .starting count
  putter : Owner.run ∈ s.mux.queue.putters
  opened : s.mux.closed = false
  producer : s.producer = .absent
  executors : s.executors = []
  enrichTasks : s.enrichTasks = []

theorem Deadlocked.runTurn (h : Deadlocked cfg s) :
    s.runTurn cfg = some s := by
  obtain ⟨count, hcount, hphase⟩ := h.phase
  have hput : s.mux.queue.put .run (some ⟨count, .streamStart⟩) = (s.mux.queue, false) := by
    simp [AsyncQueue.put, h.putter]
  have hsuspended : s.mux.queue.suspended .run = true := by
    simp [AsyncQueue.suspended, h.putter]
  have hemit : s.emit .run count .streamStart = (s, .waiting) := by
    simp [Runner.emit, StreamMux.emit, StreamMux.put, hsuspended, hput]
  rw [Runner.runTurn, hphase]
  dsimp only
  rw [if_pos hcount, hemit]

theorem Deadlocked.cancel (h : Deadlocked cfg s) (sid : StreamId) (force : Bool) :
    Deadlocked cfg (s.cancel sid force) := by
  by_cases hsid : sid < s.tokens.length
  · rw [cancel_eq h.opened h.executors hsid]
    split <;> exact { h with }
  · rw [Runner.cancel, if_neg hsid]
    exact h

theorem Deadlocked.step (h : Deadlocked cfg s) (hstep : Runner.step cfg s e = some s') :
    Deadlocked cfg s' := by
  cases e with
  | run =>
    obtain rfl : s = s' := Option.some.inj (h.runTurn.symm.trans hstep)
    exact h
  | cancel sid force =>
    obtain rfl : s.cancel sid force = s' := Option.some.inj hstep
    exact h.cancel sid force
  | tick ms | disconnect | reconnect =>
    obtain rfl := Option.some.inj hstep
    exact { h with }
  | _ => exact absurd hstep (no_other_task h.producer h.executors h.enrichTasks rfl)

end Orditect.Stream.Start.Proofs
