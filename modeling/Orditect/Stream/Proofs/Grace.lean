import Orditect.Stream.Proofs.Stages
/-!
# Nothing is lost without the flag

What was yielded, returned and is still buffered is what came out of the multiplexer, but for the
events that a full buffer evicted.  They are the first of their interval, and its flag tells.  A run
of the runner is a run of this loop over the events that it does not hide.
-/

namespace Orditect.Stream.Grace.Proofs

open Support.Transition

variable {α : Type*} {s s' : Session α} {e : Session.Step α}

theorem put_evicts (b : GraceBuffer α) (event : α) :
    ∃ evicted, b.buf ++ [event] = evicted ++ (b.put event).buf ∧
      ((b.put event).gap = true ↔ b.gap = true ∨ evicted ≠ []) := by
  refine ⟨(b.buf ++ [event]).take (b.buf.length + 1 - b.maxsize),
    (List.take_append_drop ..).symm, ?_⟩
  have hbounded := b.bounded
  have hfull : b.buf.length = b.maxsize ↔ b.buf.length + 1 - b.maxsize ≠ 0 := by omega
  simp [GraceBuffer.put, List.take_eq_nil_iff, hfull]

/-- The events that deliveries stand for.  A call of `notify_reconnect` stands for those it
returned and, before them, those that were lost. -/
inductive Accounts : List (Delivery α) → List α → Prop where
  | nil : Accounts [] []
  | yielded {delivered : List (Delivery α)} {events : List α} (event : α)
      (h : Accounts delivered events) :
      Accounts (delivered ++ [.yielded event]) (events ++ [event])
  | drained {delivered : List (Delivery α)} {events : List α} (lost kept : List α) (gap : Bool)
      (h : Accounts delivered events) (hgap : gap = true ↔ lost ≠ []) :
      Accounts (delivered ++ [.drained kept gap]) (events ++ (lost ++ kept))

/-- The deliveries and the buffer account for what was received. -/
def Accounted (s : Session α) : Prop :=
  ∃ events lost, Accounts s.delivered events ∧
    s.received = events ++ (lost ++ s.monitor.buffer.buf) ∧
    (s.monitor.buffer.gap = true ↔ lost ≠ [])

structure Sound (s : Session α) : Prop where
  policy : s.monitor.onDisconnect = .grace
  live : s.monitor.cancelled = false
  drained : s.monitor.disconnected = false →
    s.monitor.buffer.buf = [] ∧ s.monitor.buffer.gap = false
  accounted : Accounted s

theorem Sound.event (h : Sound s) (event : α) (hstep : s.step (.event event) = some s') :
    Sound s' := by
  obtain ⟨events, lost, haccounts, hreceived, hgap⟩ := h.accounted
  have hbuffer : s.monitor.shouldBuffer = s.monitor.disconnected := by
    simp [DisconnectMonitor.shouldBuffer, h.policy, h.live]
  simp only [Session.step, hbuffer] at hstep
  split_ifs at hstep with haway
  · obtain rfl := Option.some.inj hstep
    obtain ⟨evicted, hevicted, hgap'⟩ := put_evicts s.monitor.buffer event
    refine ⟨h.policy, h.live, fun hthere => ?_, events, lost ++ evicted, haccounts, ?_, ?_⟩
    · exact Bool.noConfusion (haway.symm.trans hthere)
    · simp [hreceived, hevicted]
    · rw [hgap', hgap]
      simp [Classical.or_iff_not_imp_left]
  · obtain rfl := Option.some.inj hstep
    obtain ⟨hbuf, hnogap⟩ := h.drained (Bool.eq_false_iff.mpr haway)
    have hlost : lost = [] := by simpa [hnogap] using hgap
    refine ⟨h.policy, h.live, h.drained, events ++ [event], [], haccounts.yielded event, ?_, ?_⟩
    · simp [hreceived, hlost, hbuf]
    · simp [hnogap]

theorem Sound.disconnect (h : Sound s) (hstep : s.step .disconnect = some s') : Sound s' := by
  obtain rfl := Option.some.inj hstep
  rw [DisconnectMonitor.notifyDisconnect, h.policy]
  split_ifs with haway
  · exact h
  · exact ⟨rfl, h.live, Bool.noConfusion, h.accounted⟩

theorem Sound.reconnect (h : Sound s) (hstep : s.step .reconnect = some s') : Sound s' := by
  obtain ⟨events, lost, haccounts, hreceived, hgap⟩ := h.accounted
  have hdrain : ¬(s.monitor.onDisconnect ≠ .grace ∨ s.monitor.cancelled = true) := by
    simp [h.policy, h.live]
  simp only [Session.step, DisconnectMonitor.notifyReconnect, if_neg hdrain] at hstep
  obtain rfl := Option.some.inj hstep
  refine ⟨h.policy, h.live, fun _ => ⟨rfl, rfl⟩, _, [], haccounts.drained lost _ _ hgap, ?_, ?_⟩
  · rw [hreceived]
    exact (List.append_nil _).symm
  · simp [GraceBuffer.drain]

/-- Whatever the capacity and whenever the client goes and comes back. -/
theorem grace_accounted (maxsize : Nat) (steps : List (Session.Step α)) (s : Session α)
    (htimer : ∀ e ∈ steps, e ≠ .timeout)
    (hrun : run Session.step (Session.start maxsize) steps = some s) : Accounted s := by
  have hsound : Sound s := by
    refine run_invariant_mem (fun s e s' h he hstep => ?_)
      ⟨rfl, rfl, fun _ => ⟨rfl, rfl⟩, [], [], .nil, rfl, by simp [Session.start]⟩
      htimer hrun
    cases e with
    | event event => exact h.event event hstep
    | disconnect => exact h.disconnect hstep
    | reconnect => exact h.reconnect hstep
    | timeout => exact absurd rfl he
  exact hsound.accounted

def twice : List (Session.Step Nat) :=
  [.event 1, .disconnect, .event 2, .event 3, .reconnect, .event 4, .disconnect, .event 5,
    .reconnect]

theorem grace_accounted_twice :
    (run Session.step (Session.start 1) twice).map (·.delivered) =
        some [.yielded 1, .drained [3] true, .yielded 4, .drained [5] false] ∧
      Accounted (replay Session.step (Session.start 1) twice) :=
  ⟨by decide +kernel, grace_accounted 1 twice _ (by simp [twice]) (run_eq_replay rfl)⟩

/-! ## The runner -/

def Delivery.event? : Delivery α → Option α
  | .yielded event => some event
  | .drained .. => none

/-- The session has the monitor of the runner, and yields what the runner does. -/
structure Plays (s : Runner) (g : Session OutEvent) : Prop where
  monitor : g.monitor = s.monitor
  yielded : g.delivered.filterMap Delivery.event? = s.yielded

open Runner.Proofs in
theorem Plays.step {cfg : StreamConfig} {s s' : Runner} {g : Session OutEvent} {e : Runner.Step}
    (h : Plays s g) (hstep : Runner.step cfg s e = some s') :
    ∃ g', Reaches Session.step (· ≠ .timeout) g g' ∧ Plays s' g' := by
  obtain ⟨monitor, received, delivered⟩ := g
  obtain ⟨rfl, hyielded⟩ := h
  have hstill : s'.monitor = s.monitor → s'.yielded = s.yielded →
      ∃ g', Reaches Session.step (· ≠ .timeout) ⟨s.monitor, received, delivered⟩ g' ∧ Plays s' g' :=
    fun hmonitor hsame => ⟨_, .refl _ _ _, hmonitor.symm, hyielded.trans hsame.symm⟩
  cases e with
  | run =>
    cases runTurn_move hstep with
    | start hphase hcount hemitted | startWait hphase hcount hemitted =>
      exact hstill hemitted.aside.monitor hemitted.aside.yielded
    | @take _ _ _ event hphase hrunning hmux hitems hdelivered =>
      have hevent : Session.Step.event event ≠ .timeout := by simp
      cases hdelivered with
      | hidden => exact hstill rfl rfl
      | buffered hshown hbuffer => exact ⟨_, .single hevent (if_pos hbuffer), rfl, hyielded⟩
      | yielded hshown hbuffer =>
        refine ⟨_, .single hevent (if_neg (by simpa using hbuffer)), rfl, ?_⟩
        rw [List.filterMap_append, hyielded]
        rfl
    | _ => exact hstill rfl rfl
  | producer =>
    have huntouched := (producerTurn_move hstep).untouched
    exact hstill huntouched.monitor huntouched.yielded
  | cancel sid force => cases cancel_move hstep <;> exact hstill rfl rfl
  | tick ms =>
    obtain rfl := Option.some.inj hstep
    exact hstill rfl rfl
  | disconnect =>
    obtain rfl := Option.some.inj hstep
    exact ⟨⟨s.monitor.notifyDisconnect, received, delivered⟩,
      .single (e := .disconnect) (by simp) rfl, rfl, hyielded⟩
  | reconnect =>
    obtain rfl := Option.some.inj hstep
    refine ⟨_, .single (e := .reconnect) (by simp) rfl, rfl, ?_⟩
    rw [List.filterMap_append, hyielded]
    exact List.append_nil _
  | _ =>
    obtain ⟨put, haside, -⟩ := task_aside rfl hstep
    exact hstill haside.monitor haside.yielded

/-- Every run under the grace policy is, for its client, a run of the loop. -/
theorem runner_plays {cfg : StreamConfig} {steps : List Runner.Step} {s : Runner}
    (hgrace : cfg.grace = true)
    (hrun : run (Runner.step cfg) (Runner.fresh cfg) steps = some s) :
    ∃ g, Reaches Session.step (· ≠ .timeout) (Session.start 5000) g ∧ Plays s g := by
  refine run_invariant (I := fun s => ∃ g, Reaches Session.step (· ≠ .timeout)
    (Session.start 5000) g ∧ Plays s g) (fun s e s' h hstep => ?_) ⟨_, .refl _ _ _, ?_, rfl⟩ hrun
  · obtain ⟨g, hreach, hplays⟩ := h
    obtain ⟨g', hreach', hplays'⟩ := hplays.step hstep
    exact ⟨g', hreach.trans hreach', hplays'⟩
  · simp [Session.start, Runner.fresh, hgrace]

end Orditect.Stream.Grace.Proofs
