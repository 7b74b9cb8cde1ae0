import Orditect.Governor.Streaming
/-!
# When a streaming call releases its slot

Every way out of the `try` block leads into the `finally` block with the token still held;
from there the generator gets to its release, or is thrown out before it.
-/

namespace Orditect.Governor.Streaming.Proofs

open Support.Bracket Support.Transition

variable {ρ ν : Type}

section

variable {cfg : Config} {s s' : State ρ ν}

def inside : Pc ν → Bool
  | .enter | .checkBudget | .checkCancel | .acquire | .ended => false
  | _ => true

/-- The token is there exactly between `governor.acquire` and the release: a generator that
has ended without getting to its release never had one. -/
def Holding (s : State ρ ν) : Prop := s.token.isSome = inside s.pc

theorem Holding.token (h : Holding s) {pc : Pc ν} (hpc : s.pc = pc) (hinside : inside pc = true) :
    s.token.isSome = true :=
  Eq.trans h (hpc ▸ hinside)

theorem holding_of_inside (htoken : s.token.isSome = true) (hpc : inside s.pc = true) :
    Holding s :=
  htoken.trans hpc.symm

theorem Holding.moves {t : State ρ ν} (h : Holding s) (hstep : some t = some s') {pc : Pc ν}
    (hpc : s.pc = pc) (htoken : t.token = s.token) (hpc' : inside t.pc = inside pc) :
    Holding s' := by
  obtain rfl := Option.some.inj hstep
  unfold Holding
  rw [htoken, hpc', ← hpc]
  exact h

/-! ## The ways through the `finally` block -/

@[simp] theorem inside_afterBudget : inside (afterBudget cfg : Pc ν) = false := by
  unfold afterBudget
  split <;> rfl

@[simp] theorem inside_afterPointer (d : List (String × Support.LuaJson.Json ν))
    (pointer : Option (Support.LuaJson.Json ν)) : inside (afterPointer cfg d pointer) = true := by
  unfold afterPointer
  split <;> rfl

@[simp] theorem inside_afterClose : inside (afterClose cfg s) = true := by
  unfold afterClose
  split <;> rfl

theorem holding_leaveTry (htoken : s.token.isSome = true) : Holding (leaveTry cfg s) := by
  refine holding_of_inside htoken ?_
  unfold leaveTry
  split
  · rfl
  · exact inside_afterClose

theorem holding_salvage (htoken : s.token.isSome = true) : Holding (salvage cfg s) := by
  unfold salvage
  split
  · exact holding_of_inside htoken rfl
  · exact holding_leaveTry htoken

theorem holding_afterSalvageResult (htoken : s.token.isSome = true) :
    Holding (afterSalvageResult cfg s) := by
  unfold afterSalvageResult
  split
  · exact holding_of_inside htoken rfl
  · exact holding_leaveTry htoken

theorem holding_handle (htoken : s.token.isSome = true) (error : Raised) :
    Holding (handle cfg s error) := by
  cases error with
  | generatorExit =>
    simp only [handle]
    split
    · exact holding_of_inside htoken rfl
    · exact holding_salvage htoken
  | cancelled => exact holding_leaveTry htoken
  | exception | other => exact holding_salvage htoken

end

variable [IntCast ν] {cfg : Config} {s s' : State ρ ν}

@[simp] theorem inside_afterError (ms : Int) (d : List (String × Support.LuaJson.Json ν))
    (error : Option String) : inside (afterError cfg s ms d error) = true := by
  simp only [afterError]
  split
  · rfl
  · simp

@[simp] theorem inside_afterPayload (ms : Int) (d : List (String × Support.LuaJson.Json ν)) :
    inside (afterPayload cfg s ms d) = true := by
  unfold afterPayload
  split
  · rfl
  · simp

/-! ## One step -/

theorem holding_raised (h : Holding s) {error : Raised} (hbreaks : s.pc.breaks error = false)
    (hstep : raised cfg s error = some s') : Holding s' := by
  unfold raised at hstep
  cases hpc : s.pc with
  | enter | checkBudget | checkCancel | acquire =>
    simp only [hpc] at hstep
    exact h.moves hstep hpc rfl rfl
  | openHandler | nextChunk | yielded | readResult | price | charge =>
    simp only [hpc, Option.some.injEq] at hstep
    subst hstep
    exact holding_handle (h.token hpc rfl) error
  | checkToken | salvagePrice | salvageCharge =>
    simp only [hpc, Option.some.injEq] at hstep
    subst hstep
    exact holding_leaveTry (h.token hpc rfl)
  | salvageResult =>
    have htoken := h.token hpc rfl
    simp only [hpc, Option.some.injEq] at hstep
    subst hstep
    split
    · exact holding_afterSalvageResult htoken
    · exact holding_leaveTry htoken
  | closeHandler | readPartial | payload | pointerize | audit =>
    -- what does not break out of the block is an `Exception`
    have herror : error = .exception := by simpa [Pc.breaks, hpc] using hbreaks
    have htoken := h.token hpc rfl
    simp only [hpc, herror, if_true, Option.some.injEq] at hstep
    subst hstep
    exact holding_of_inside htoken (by first | rfl | simp)
  | errorText => simp [Pc.breaks, hpc] at hbreaks
  | finalize | release | ended => simp [hpc] at hstep

theorem holding_next (h : Holding s) {choice : Choice ρ ν}
    (hbreaks : ∀ error, choice = .raised error → s.pc.breaks error = false)
    (hstep : next cfg s choice = some s') : Holding s' := by
  unfold next at hstep
  split at hstep
  -- the token stays where both places are inside, or both outside
  all_goals try (rename_i hpc; exact h.moves hstep hpc rfl rfl)
  · exact holding_raised h (hbreaks _ rfl) hstep
  -- `governor.acquire` has not returned yet
  · refine h.moves hstep ‹_› rfl ?_
    dsimp only
    split
    · rfl
    · split
      · rfl
      · exact inside_afterBudget
  · exact h.moves hstep ‹_› rfl inside_afterBudget
  · exact h.moves hstep ‹_› rfl (by dsimp only; split <;> rfl)
  · obtain rfl := Option.some.inj hstep
    rfl
  -- the `try` block
  · exact h.moves hstep ‹_› rfl (by dsimp only; split <;> rfl)
  · obtain rfl := Option.some.inj hstep
    have htoken := h.token ‹_› rfl
    dsimp only
    split
    · exact holding_of_inside htoken rfl
    · exact holding_leaveTry htoken
  · obtain rfl := Option.some.inj hstep
    exact holding_leaveTry (h.token ‹_› rfl)
  -- the `except` clauses
  · obtain rfl := Option.some.inj hstep
    have htoken := h.token ‹_› rfl
    split
    · exact holding_leaveTry htoken
    · exact holding_salvage htoken
  · obtain rfl := Option.some.inj hstep
    exact holding_afterSalvageResult (h.token ‹_› rfl)
  · obtain rfl := Option.some.inj hstep
    have htoken := h.token ‹_› rfl
    dsimp only
    split
    · exact holding_of_inside htoken rfl
    · exact holding_leaveTry htoken
  · obtain rfl := Option.some.inj hstep
    exact holding_leaveTry (h.token ‹_› rfl)
  -- the `finally` block
  · exact h.moves hstep ‹_› rfl inside_afterClose
  · refine h.moves hstep ‹_› rfl ?_
    dsimp only
    split
    · rfl
    · exact inside_afterPayload ..
  · exact h.moves hstep ‹_› rfl (inside_afterPayload ..)
  · exact h.moves hstep ‹_› rfl (inside_afterError ..)
  · exact h.moves hstep ‹_› rfl (inside_afterPointer ..)
  · simp at hstep

theorem ended_of_breaks {error : Raised} (hbreaks : s.pc.breaks error = true)
    (hstep : next cfg s (.raised error) = some s') : s'.pc = .ended := by
  have hraised : raised cfg s error = some s' := by simpa [next] using hstep
  unfold raised at hraised
  cases hpc : s.pc with
  | closeHandler | readPartial | payload | pointerize | audit =>
    have herror : error ≠ .exception := by simpa [Pc.breaks, hpc] using hbreaks
    simp only [hpc, herror, if_false, Option.some.injEq] at hraised
    rw [← hraised]
  | errorText =>
    simp only [hpc, Option.some.injEq] at hraised
    rw [← hraised]
  | _ => simp [Pc.breaks, hpc] at hbreaks

/-! ## Whole runs -/

/-- The state of a generator that nothing has thrown out of its `finally` block. -/
structure Good (cfg : Config) (s : Support.Bracket.State (State ρ ν) String) : Prop where
  settled : Settled (callStreaming cfg) s
  holding : Holding s.body

theorem Good.next {s s' : Support.Bracket.State (State ρ ν) String} {e : Event (Choice ρ ν)}
    (h : Good cfg s) (he : Undisturbed s e) (hstep : (callStreaming cfg).next s e = some s') :
    Good cfg s' := by
  refine ⟨settled_next h.settled hstep, ?_⟩
  rcases body_next hstep with ⟨choice, rfl, -, hbody⟩ | ⟨-, hbody⟩
  · refine holding_next h.holding (fun error herror => ?_) hbody
    subst herror
    exact he
  · rw [hbody]
    exact h.holding

theorem not_started_of_disturbed {s s' t : Support.Bracket.State (State ρ ν) String}
    {e : Event (Choice ρ ν)} {es : List (Event (Choice ρ ν))} (h : Good cfg s)
    (he : ¬Undisturbed s e) (hstep : (callStreaming cfg).next s e = some s')
    (hrun : run (callStreaming cfg).next s' es = some t) : t.started = [] := by
  obtain ⟨error, rfl, hbreaks⟩ : ∃ error, e = .body (.raised error) ∧
      s.body.pc.breaks error = true := by
    unfold Undisturbed disturbs at he
    split at he
    · exact ⟨_, rfl, by simpa using he⟩
    · simp at he
  have hended : s'.body.pc = .ended := by
    rcases body_next hstep with ⟨choice, hchoice, -, hbody⟩ | ⟨hnone, -⟩
    · obtain rfl := Event.body.inj hchoice
      exact ended_of_breaks hbreaks hbody
    · exact absurd rfl (hnone _)
  have hsettled := run_invariant (I := Settled (callStreaming cfg))
    (fun _ _ _ hI => settled_next hI) (settled_next h.settled hstep) hrun
  have hbody : t.body = s'.body :=
    body_of_left (B := callStreaming cfg) (by simp [callStreaming, hended, Pc.isOver]) hrun
  exact (hsettled.free (by simp [callStreaming, hbody, hended, Pc.isOver])
    (by simp [callStreaming, hbody, hended])).1

theorem Good.started {s : Support.Bracket.State (State ρ ν) String} (h : Good cfg s)
    (hreturned : s.returned = true) {token : String} (htoken : s.body.token = some token) :
    s.started = [token] := by
  have hleft : s.body.pc.isOver = true := h.settled.left hreturned
  have hrelease : s.body.pc = .release := by
    have hinside : inside s.body.pc = true := by simpa [Holding, htoken] using h.holding.symm
    cases hpc : s.body.pc <;> simp_all [Pc.isOver, inside]
  exact (h.settled.owed token hleft (by simp [callStreaming, hrelease, htoken])).1

/-- A streaming call whose generator has terminated after `governor.acquire` returned a token
has started its release exactly once if and only if nothing was thrown out of its `finally`
block before the release. -/
theorem release_started_iff (cfg : Config) (es : List (Event (Choice ρ ν)))
    {s : Support.Bracket.State (State ρ ν) String} {token : String}
    (hrun : run (callStreaming cfg).next (Coroutine.start State.start) es = some s)
    (hreturned : s.returned = true) (htoken : s.body.token = some token) :
    s.started = [token] ↔
      Along (callStreaming cfg).next Undisturbed (Coroutine.start State.start) es := by
  have hgood : Good cfg (Coroutine.start (State.start : State ρ ν)) :=
    ⟨settled_start rfl, rfl⟩
  generalize (Coroutine.start State.start : Support.Bracket.State (State ρ ν) String) = u at *
  induction es generalizing u with
  | nil =>
    obtain rfl : u = s := by simpa using hrun
    simp [Along, hgood.started hreturned htoken]
  | cons e es ih =>
    obtain ⟨u', hstep, hrest⟩ := run_cons_eq_some.mp hrun
    by_cases he : Undisturbed u e
    · refine (ih u' hrest (hgood.next he hstep)).trans ⟨fun h => ⟨he, fun v hv => ?_⟩, ?_⟩
      · obtain rfl := Option.some.inj (hstep.symm.trans hv)
        exact h
      · exact fun h => h.2 u' hstep
    · have hnone := not_started_of_disturbed hgood he hstep hrest
      constructor
      · intro h
        simp [hnone] at h
      · exact fun h => absurd h.1 he

/-! ## Two endings -/

private def audited : Config where
  handler := true
  closable := true
  cancelToken := false
  budget := false
  resultFn := false
  payloadFn := false
  partialFn := false
  contentWriter := false
  auditWriter := true
  callId := "call-1"
  taskId := none
  parentTaskId := none
  executionId := none
  scope := none
  eventType := ""

private abbrev Stream := Support.Bracket.State (State Unit Int) String

private def opening : Stream := Coroutine.start State.start

private def closedEarly : List (Event (Choice Unit Int)) :=
  [.body .proceed, .body (.granted "t"), .body .proceed, .body .chunk,
    .body (.raised .generatorExit)]

private def auditFails : List (Event (Choice Unit Int)) :=
  closedEarly ++ [.body .proceed, .body (.elapsed 7), .body (.raised .exception), .interrupt]

theorem release_started_audit_fails :
    (replay (callStreaming audited).next opening auditFails).started = ["t"] :=
  (release_started_iff audited auditFails (run_eq_replay (by decide)) (by decide)
    (by decide)).mpr (by decide)

private def closeCancelled : List (Event (Choice Unit Int)) :=
  closedEarly ++ [.body (.raised .cancelled)]

theorem cancelled_close_keeps_slot :
    ∃ s, run (callStreaming audited).next opening closeCancelled = some s ∧
      s.returned = true ∧ s.body.token = some "t" ∧ s.started = [] :=
  ⟨replay (callStreaming audited).next opening closeCancelled, run_eq_replay (by decide),
    by decide, by decide, by decide⟩

end Orditect.Governor.Streaming.Proofs
