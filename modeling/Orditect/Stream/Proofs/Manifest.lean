import Orditect.Stream.Proofs.Placeholders
/-!
# The states in the manifest

The local mode fails what is still pending when the settle window ends.  Without a window `settle`
returns before it comes to that, and the manifest has what is pending at that moment.
-/

namespace Orditect.Stream.Manifest.Proofs

open Support Support.Transition Stream.Runner.Proofs

def Final (s : Runner) : Prop :=
  ∀ placeholders sid, s.producer = .manifest placeholders sid →
    ∀ p ∈ placeholders, p.state ≠ .pending

/-- Nothing is pending when `_produce` comes to a `settle` without a window. -/
def settled (cfg : StreamConfig) (s : Runner) : Runner.Step → Prop
  | .producer =>
    match s.producer with
    | .reporting sid => cfg.maxId ≤ sid → cfg.enrichSettleTimeout = 0 → s.pending = []
    | _ => True
  | _ => True

variable {cfg : StreamConfig} {s s' : Runner} {e : Runner.Step}

theorem final_of_ne (h : ∀ placeholders sid, s.producer ≠ .manifest placeholders sid) : Final s :=
  fun placeholders sid hproducer => absurd hproducer (h placeholders sid)

theorem Final.congr (h : Final s) (hproducer : s'.producer = s.producer) : Final s' := by
  rw [Final, hproducer]
  exact h

theorem final_of_snapshot (hproducer : s'.producer = .manifest s.snapshot 0)
    (h : ∀ entry ∈ s.registry, entry.state ≠ .pending) : Final s' := by
  intro placeholders sid hmanifest p hp
  obtain ⟨rfl, -⟩ := ProducerPhase.manifest.inj (hproducer.symm.trans hmanifest)
  obtain ⟨entry, hentry, rfl⟩ := List.mem_map.mp hp
  exact h entry hentry

theorem beginSettle_final (h : cfg.enrichSettleTimeout = 0 → s.pending = []) :
    Final (s.beginSettle cfg) := by
  rw [Runner.beginSettle]
  split_ifs with htimeout
  · refine final_of_snapshot rfl fun entry hentry hpending => ?_
    have hmem : entry.placeholderId ∈ s.pending :=
      List.mem_map.mpr ⟨entry, List.mem_filter.mpr ⟨hentry, by simpa using hpending⟩, rfl⟩
    simp [h htimeout] at hmem
  · exact final_of_ne fun _ _ => ProducerPhase.noConfusion

theorem endSettle_final (hlocal : cfg.taskflow = false) : Final (s.endSettle cfg) := by
  rw [Runner.endSettle, hlocal]
  refine final_of_snapshot rfl fun failed hfailed => ?_
  rw [if_neg (by decide), registry_markFailed] at hfailed
  obtain ⟨entry, -, rfl⟩ := List.mem_map.mp hfailed
  rw [failedIf]
  split_ifs with h
  · exact PlaceholderState.noConfusion
  · exact fun hpending => h ⟨rfl, hpending⟩

theorem Final.run (h : Final s) (hmove : RunMove cfg s s') : Final s' := by
  cases hmove with
  | started => exact final_of_ne fun _ _ => ProducerPhase.noConfusion
  | start hphase hcount hemitted
  | startWait hphase hcount hemitted => exact h.congr hemitted.aside.producer
  | take hphase hrunning hmux hitems hdelivered => cases hdelivered <;> exact h
  | _ => exact h

theorem Final.producer (h : Final s) (hlocal : cfg.taskflow = false)
    (hsettled : settled cfg s .producer) (hmove : ProducerMove cfg s s') : Final s' := by
  cases hmove with
  | advance next hadvances =>
    cases hadvances <;> exact final_of_ne fun _ _ => ProducerPhase.noConfusion
  | beginSettle hproducer hsid =>
    simp only [settled, hproducer] at hsettled
    exact beginSettle_final (hsettled hsid)
  | endSettle => exact endSettle_final hlocal
  | produce hproduces =>
    cases hproduces with
    | manifest hproducer =>
      intro placeholders sid hmanifest
      obtain ⟨rfl, -⟩ := ProducerPhase.manifest.inj hmanifest
      exact h _ _ hproducer
    | _ => exact final_of_ne fun _ _ => ProducerPhase.noConfusion
  | produceWait hproduces hemitted => exact h.congr hemitted.aside.producer
  | produceRaise hproduces =>
    cases hproduces <;> exact final_of_ne fun _ _ => ProducerPhase.noConfusion
  | closeWait => exact h
  | _ => exact final_of_ne fun _ _ => ProducerPhase.noConfusion

theorem Final.step (h : Final s) (hlocal : cfg.taskflow = false) (hsettled : settled cfg s e)
    (hstep : Runner.step cfg s e = some s') : Final s' := by
  cases e with
  | run => exact h.run (runTurn_move hstep)
  | producer => exact h.producer hlocal hsettled (producerTurn_move hstep)
  | cancel sid force =>
    cases cancel_move hstep <;> exact h
  | tick ms | disconnect | reconnect =>
    obtain rfl := Option.some.inj hstep
    exact h
  | _ =>
    obtain ⟨put, haside, -⟩ := task_aside rfl hstep
    exact h.congr haside.producer

/-- In every run of the local mode in which nothing is pending at a `settle` without a window, no
placeholder of the manifest is pending. -/
theorem manifest_final (cfg : StreamConfig) (hlocal : cfg.taskflow = false)
    (steps : List Runner.Step) (s : Runner)
    (hsettled : Along (Runner.step cfg) (settled cfg) (Runner.fresh cfg) steps)
    (hrun : run (Runner.step cfg) (Runner.fresh cfg) steps = some s) : Final s :=
  run_invariant_along (fun _ _ _ h hsettled hstep => h.step hlocal hsettled hstep)
    (final_of_ne fun _ _ => ProducerPhase.noConfusion) hsettled hrun

theorem settled_of_window (h : cfg.enrichSettleTimeout ≠ 0) (s : Runner) (e : Runner.Step) :
    settled cfg s e := by
  unfold settled
  split
  · split
    · exact fun _ hzero => absurd hzero h
    · trivial
  · trivial

def windowed (timeout : Nat) : StreamConfig :=
  { stages := [.serial], enrichSettleTimeout := timeout }

def unanswered : List Runner.Step :=
  [.run, .run, .run, .run, .producer, .executor 0, .source 0 0 (.marked [] 1 false), .stage 0 0,
    .stage 0 0, .source 0 0 .exhausted, .stage 0 0, .stage 0 0, .stage 0 0, .executor 0,
    .producer, .producer, .producer]

theorem manifest_final_expired :
    let steps := unanswered ++ [.producer, .tick 5000, .producer, .producer]
    (run (Runner.step (windowed 5000)) (Runner.fresh (windowed 5000)) steps).map (·.producer) =
        some (.manifest [⟨0, .failed, none⟩] 0) ∧
      Final (replay (Runner.step (windowed 5000)) (Runner.fresh (windowed 5000)) steps) := by
  have hmanifest : (run (Runner.step (windowed 5000)) (Runner.fresh (windowed 5000))
      (unanswered ++ [.producer, .tick 5000, .producer, .producer])).map (·.producer) =
        some (.manifest [⟨0, .failed, none⟩] 0) := by decide +kernel
  refine ⟨hmanifest, manifest_final (windowed 5000) rfl _ _ ?_ (run_eq_replay ?_)⟩
  · exact along_of_forall_mem (fun e _ s => settled_of_window (by decide) s e) _
  · exact Option.isSome_map.symm.trans (congrArg Option.isSome hmanifest)

/-- Without a window the placeholder that has no answer yet is pending in the manifest. -/
theorem manifest_pending :
    (run (Runner.step (windowed 0)) (Runner.fresh (windowed 0)) unanswered).map (·.producer) =
      some (.manifest [⟨0, .pending, none⟩] 0) := by
  decide +kernel

end Orditect.Stream.Manifest.Proofs
