import Orditect.Executor.Slot
import Orditect.Executor.Proofs.Session
import Orditect.Governor.Client
/-!
# Slots are given back

Whatever happens to a call of `execute` or of a governed client, it comes to its `finally`
block once, and the release that is started there is out of reach for cancellations.
-/

namespace Orditect.Executor.Slot.Proofs

open Support.Bracket Support.LuaJson Support.Transition
open TaskStore (Store)
open Executor.Proofs (next_eq_some plain queued)

variable {ν : Type}

/-! ## The token of an execution -/

def waiting : Pc ν → Bool
  | .checkCancel | .queryReuse | .readReuse | .readExemption | .walkAncestors | .acquire => true
  | _ => false

def governed : Pc ν → Bool
  | .readExemption | .walkAncestors | .acquire => true
  | _ => false

structure Forward (cfg : Config) (pc pc' : Pc ν) : Prop where
  back : waiting pc' = true → waiting pc = true
  via : governed pc' = true → cfg.governor = true ∨ governed pc = true

variable {cfg : Config} {pc pc' : Pc ν}

theorem waiting_of_governed (h : governed pc = true) : waiting pc = true := by
  cases pc <;> simp_all [governed, waiting]

theorem Forward.later (h : waiting pc' = false) : Forward cfg pc pc' where
  back hwaiting := by simp [h] at hwaiting
  via hgoverned := by simp [waiting_of_governed hgoverned] at h

theorem Forward.ite {c : Prop} [Decidable c] {a b : Pc ν} (ha : Forward cfg pc a)
    (hb : Forward cfg pc b) : Forward cfg pc (if c then a else b) := by
  split
  · exact ha
  · exact hb

theorem Forward.afterReuse (hpc : waiting pc = true) :
    Forward cfg pc (afterReuse cfg) where
  back _ := hpc
  via h := by
    unfold Executor.afterReuse at h
    split at h
    · exact Or.inl ‹_›
    · simp [governed] at h

theorem Forward.afterCheck (hpc : waiting pc = true) : Forward cfg pc (afterCheck cfg) :=
  .ite (.afterReuse hpc) ⟨fun _ => hpc, by simp [governed]⟩

theorem Forward.acquires (hpc : governed pc = true) : Forward cfg pc pc' :=
  ⟨fun _ => waiting_of_governed hpc, fun _ => Or.inr hpc⟩

theorem forward_interrupted : Forward cfg pc pc.interrupted := by
  refine .later ?_
  unfold Pc.interrupted
  split
  · rfl
  · rfl
  · split
    · rename_i hshielded
      cases pc <;> simp_all [Pc.shielded, waiting]
    · rfl

theorem some_forward {s' : Store ν} {row : Option (SnapshotRow ν)} (h : Forward cfg pc pc') :
    ∀ e ∈ some (⟨pc', s', row⟩ : Effect ν), Forward cfg pc e.pc := by
  intro e he
  obtain rfl := Option.some.inj he
  exact h

/-! ## One step of the call -/

/-- What the `finally` block finds: a token only where there is a governor, and never a
token and an inherited slot. -/
structure Tidy (cfg : Config) (b : Body ν) : Prop where
  before : waiting b.execution.pc = true → b.token = none ∧ b.inherited = false
  governor : governed b.execution.pc = true ∨ b.token.isSome = true → cfg.governor = true
  apart : b.inherited = true → b.token = none

theorem tidy_start (birth : String) (here timed : Bool) (store : Store ν) :
    Tidy cfg (Body.start birth here timed store) where
  before _ := ⟨rfl, rfl⟩
  governor h := by simp [Body.start, governed] at h
  apart _ := rfl

theorem governed_of_inherits (h : inherits pc pc' = true) :
    governed pc = true ∧ waiting pc' = false := by
  unfold inherits at h
  split at h
  · exact ⟨rfl, rfl⟩
  · exact ⟨rfl, rfl⟩
  · simp at h

section

variable [DecidableEq ν] [LuaNumber ν] {s : Store ν} {b b' : Body ν}

theorem forward_next {timed : Bool} {choice : Choice ν} :
    ∀ e ∈ pc.next cfg timed s choice, Forward cfg pc e.pc := by
  unfold Pc.next
  split
  -- the checks before the resource
  · exact some_forward (.ite (.later rfl) (.afterCheck rfl))
  · exact some_forward (.afterCheck rfl)
  · exact some_forward (.ite ⟨fun _ => rfl, by simp [governed]⟩ (.afterReuse rfl))
  · exact some_forward (.afterReuse rfl)
  · exact some_forward (.ite (.later rfl) (.afterReuse rfl))
  · exact some_forward (.afterReuse rfl)
  -- the exemption
  · split
    · exact some_forward (.acquires rfl)
    · exact some_forward (.acquires rfl)
    · split <;> exact some_forward (.acquires rfl)
  · exact some_forward (.acquires rfl)
  · exact some_forward (.acquires rfl)
  -- from here on every place is after the acquisition
  all_goals try exact some_forward (.later rfl)
  all_goals try exact some_forward (.ite (.later rfl) (.later rfl))
  · dsimp only
    split <;> exact some_forward (.later rfl)
  · split
    · exact some_forward (.later rfl)
    · simp
  all_goals try split <;> exact some_forward (.later rfl)
  · simp

theorem forward_execution {x x' : Execution ν} {choice : Choice ν} {e : Effect ν}
    (h : x.next cfg s choice = some (x', e)) : Forward cfg x.pc x'.pc := by
  by_cases hchoice : choice = .interrupt
  · subst hchoice
    simp only [Execution.next, Option.ite_none_right_eq_some, Option.some.injEq,
      Prod.mk.injEq] at h
    obtain ⟨-, rfl, -⟩ := h
    exact forward_interrupted
  · obtain ⟨hnext, rfl⟩ := next_eq_some hchoice h
    exact forward_next e hnext

theorem Tidy.proceed {choice : Choice ν} (h : Tidy cfg b)
    (hstep : b.proceed cfg choice = some b') : Tidy cfg b' := by
  obtain ⟨⟨x, e⟩, hnext, rfl⟩ := Option.map_eq_some_iff.mp hstep
  have hforward := forward_execution hnext
  refine ⟨fun hwaiting => ?_, fun hgovernor => ?_, fun hinherited => ?_⟩
  · obtain ⟨htoken, hinherited⟩ := h.before (hforward.back hwaiting)
    refine ⟨htoken, ?_⟩
    cases hinherits : inherits b.execution.pc x.pc with
    | false => simp [hinherited, hinherits]
    | true =>
      have hlater := (governed_of_inherits hinherits).2
      simp [hlater] at hwaiting
  · rcases hgovernor with hgoverned | htoken
    · rcases hforward.via hgoverned with hgovernor | hgoverned
      · exact hgovernor
      · exact h.governor (Or.inl hgoverned)
    · exact h.governor (Or.inr htoken)
  · rcases Bool.or_eq_true_iff.mp hinherited with hinherited | hinherits
    · exact h.apart hinherited
    · exact (h.before (waiting_of_governed (governed_of_inherits hinherits).1)).1

theorem Tidy.granted {token : String} (h : Tidy cfg b) (hpc : b.execution.pc = .acquire)
    (hstep : b.proceed cfg .proceed = some b') : Tidy cfg { b' with token := some token } := by
  have hgovernor : cfg.governor = true := h.governor (Or.inl (by simp [hpc, governed]))
  have hinherited : b.inherited = false := (h.before (by simp [hpc, waiting])).2
  obtain ⟨⟨x, e⟩, hnext, rfl⟩ := Option.map_eq_some_iff.mp hstep
  obtain ⟨hpc', rfl⟩ := next_eq_some (by simp) hnext
  have heffect : e = ⟨.writeResource, b.store, none⟩ := by
    rw [hpc] at hpc'
    exact (Option.some.inj hpc').symm
  subst heffect
  refine ⟨by simp [waiting], fun _ => hgovernor, ?_⟩
  simp [hinherited, hpc, inherits]

theorem tidy_step {e : Event ν} (h : Tidy cfg b) (hstep : b.step cfg e = some b') :
    Tidy cfg b' := by
  unfold Body.step at hstep
  split at hstep
  · split at hstep
    · rename_i hpc
      obtain ⟨b'', hproceed, rfl⟩ := Option.map_eq_some_iff.mp hstep
      exact h.granted hpc hproceed
    · simp at hstep
  · split at hstep
    · simp at hstep
    · exact h.proceed hstep
  · simp only [Option.ite_none_right_eq_some, Option.some.injEq] at hstep
    obtain ⟨-, rfl⟩ := hstep
    refine ⟨by simp [waiting], fun hgovernor => ?_, h.apart⟩
    exact h.governor (hgovernor.imp (by simp [governed]) id)
  · obtain rfl := Option.some.inj hstep
    exact ⟨h.before, h.governor, h.apart⟩

theorem execute_leaves (b : Body ν) (hb : (execute cfg).left b = false) :
    ∃ e b', (execute cfg).step b e = some b' ∧ (execute cfg).left b' = true := by
  have hattached : b.execution.attached = true := by simpa [execute] using hb
  refine ⟨.escape, { b with execution := { b.execution with pc := .finished, attached := false } },
    ?_, rfl⟩
  simp [execute, Body.step, hattached]

theorem owes_of_tidy (h : Tidy cfg b) {token : String} (htoken : b.token = some token) :
    (execute cfg).owes b = if token = "" then none else some token := by
  have hgovernor : cfg.governor = true := h.governor (Or.inr (by simp [htoken]))
  have hinherited : b.inherited = false := by
    cases hi : b.inherited with
    | false => rfl
    | true => simp [h.apart hi] at htoken
  by_cases hempty : token = "" <;>
    simp [execute, htoken, Option.filter, hgovernor, hinherited, hempty]

/-! ## Whole runs -/

section Runs

variable {birth : String} {here timed : Bool} {store : Store ν}
  {es : List (Support.Bracket.Event (Event ν))} {s : Support.Bracket.State (Body ν) String}

section

variable
  (hrun : run (execute cfg).next (Coroutine.start (Body.start birth here timed store)) es = some s)
include hrun

theorem settled_tidy : Settled (execute cfg) s ∧ Tidy cfg s.body :=
  ⟨settled_run rfl hrun, body_invariant (B := execute cfg)
    (fun _ _ _ h hstep => tidy_step h hstep) (tidy_start birth here timed store) hrun⟩

theorem conserved_execute_iff :
    (execute cfg).Conserved s.body.token s ↔
      (s.returned = true → s.body.token ≠ some "") := by
  obtain ⟨hsettled, htidy⟩ := settled_tidy hrun
  constructor
  · intro hconserved hreturned hempty
    -- the empty token is owed no release
    have howes : (execute cfg).owes s.body = none := by simp [owes_of_tidy htidy hempty]
    have hnone := (hsettled.free (hsettled.left hreturned) howes).1
    have hstarted := (hconserved.cleaned "" hempty hreturned).1
    simp [hnone] at hstarted
  · intro htoken
    refine ⟨fun token heq hreturned => ?_, hsettled.once, hsettled.returns execute_leaves⟩
    have hne : token ≠ "" := fun hempty => htoken hreturned (by rw [heq, hempty])
    exact hsettled.cleanedUp (hsettled.left hreturned) (by simp [owes_of_tidy htidy heq, hne])

theorem inherited_not_started (hinherited : s.body.inherited = true) : s.started = [] := by
  obtain ⟨hsettled, htidy⟩ := settled_tidy hrun
  have howes : (execute cfg).owes s.body = none := by
    simp [execute, htidy.apart hinherited]
  cases hleft : (execute cfg).left s.body with
  | false => exact (hsettled.inside hleft).2.1
  | true => exact (hsettled.free hleft howes).1

end

end Runs

end

/-! ## The governed client -/

theorem client_leaves {ρ : Type} (cfg : Governor.Client.Config) (b : Governor.Client.State ρ)
    (hb : (Governor.Client.call cfg).left b = false) :
    ∃ e b', (Governor.Client.call cfg).step b e = some b' ∧
      (Governor.Client.call cfg).left b' = true := by
  refine ⟨.raised .cancelled, { b with pc := .left (.error .cancelled) }, ?_, rfl⟩
  cases hpc : b.pc <;> simp_all [Governor.Client.call, Governor.Client.next,
    Governor.Client.Pc.isLeft]

theorem conserved_client {ρ : Type} {cfg : Governor.Client.Config}
    {es : List (Support.Bracket.Event (Governor.Client.Choice ρ))}
    {s : Support.Bracket.State (Governor.Client.State ρ) String}
    (hrun : run (Governor.Client.call cfg).next (Coroutine.start Governor.Client.State.start) es =
      some s) : (Governor.Client.call cfg).Conserved s.body.token s := by
  have hsettled : Settled (Governor.Client.call cfg) s := settled_run rfl hrun
  refine ⟨fun token htoken hreturned => ?_, hsettled.once, hsettled.returns (client_leaves cfg)⟩
  exact hsettled.cleanedUp (hsettled.left hreturned) htoken

/-- Slots are conserved by the governed client, and by `execute` if and only if the token the
governor returned is not empty; an inherited slot is never released. -/
theorem slots_conserved_iff {ν ρ : Type} [DecidableEq ν] [LuaNumber ν] :
    (∀ (cfg : Config) (birth : String) (here timed : Bool) (store : Store ν)
        (es : List (Support.Bracket.Event (Event ν))) (s : Support.Bracket.State (Body ν) String),
        run (execute cfg).next (Coroutine.start (Body.start birth here timed store)) es = some s →
        (s.body.inherited = true → s.started = []) ∧
          ((execute cfg).Conserved s.body.token s ↔
            (s.returned = true → s.body.token ≠ some ""))) ∧
      ∀ (cfg : Governor.Client.Config)
        (es : List (Support.Bracket.Event (Governor.Client.Choice ρ)))
        (s : Support.Bracket.State (Governor.Client.State ρ) String),
        run (Governor.Client.call cfg).next (Coroutine.start Governor.Client.State.start) es =
          some s → (Governor.Client.call cfg).Conserved s.body.token s :=
  ⟨fun _ _ _ _ _ _ _ hrun =>
      ⟨inherited_not_started hrun, conserved_execute_iff hrun⟩,
    fun _ _ _ hrun => conserved_client hrun⟩

/-! ## Two tokens -/

private def governedTask : Config := { plain with governor := true }

private def cancelledThrice (token : String) : List (Support.Bracket.Event (Event Int)) :=
  [.body (.proceed .proceed), .body (.proceed .proceed), .body (.proceed (.inherited false)),
    .body (.granted token), .body (.proceed .interrupt), .body (.proceed .interrupt), .interrupt]

private def called (token : String) (n : Nat) : Support.Bracket.State (Body Int) String :=
  replay (execute governedTask).next
    (Coroutine.start (Body.start "exec-1" true false queued)) ((cancelledThrice token).take n)

private def handlerCancelled : List (Support.Bracket.Event (Governor.Client.Choice Unit)) :=
  [.body .proceed, .body (.granted "slot-1"), .body (.raised .cancelled)]

private def client : Governor.Client.Config := ⟨true, false, false⟩

theorem slots_conserved_cancelled :
    (execute governedTask).Conserved (called "slot-1" 7).body.token (called "slot-1" 7) ∧
      (Governor.Client.call client).Conserved (some "slot-1")
        (replay (Governor.Client.call client).next (Coroutine.start Governor.Client.State.start)
          handlerCancelled) :=
  ⟨((slots_conserved_iff (ν := Int) (ρ := Unit)).1 governedTask "exec-1" true false queued _ _
      (run_eq_replay (by decide))).2.mpr (by decide),
    (slots_conserved_iff (ν := Int) (ρ := Unit)).2 client handlerCancelled _
      (run_eq_replay (by decide))⟩

/-- With an empty token the call returns and no release has been started. -/
theorem empty_token_not_released :
    ∃ s, run (execute governedTask).next
        (Coroutine.start (Body.start "exec-1" true false queued)) ((cancelledThrice "").take 6) =
          some s ∧
      s.returned = true ∧ s.body.token = some "" ∧ s.body.inherited = false ∧ s.started = [] ∧
      ¬(execute governedTask).Conserved s.body.token s := by
  refine ⟨called "" 6, run_eq_replay (by decide), by decide, by decide, by decide, by decide, ?_⟩
  intro h
  have hstarted := (h.cleaned "" (by decide) (by decide)).1
  exact absurd hstarted (by decide)

end Orditect.Executor.Slot.Proofs
