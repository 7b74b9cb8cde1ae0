import Mathlib.Algebra.Order.Group.Int
import Orditect.Executor.Token
import Orditect.TaskStore.Proofs.Terminal
/-!
# When a poll notices the cancellation

The cache may hide a cancellation for `min_interval`, counted from the reply and not from the
read; and the flag belongs to the record, not to the generation that polls it.
-/

namespace Orditect.Executor.Token.Proofs

open Support.LuaJson Support.Transition
open TaskStore (Store Call getTask field perform tick)
open TaskStore.Proofs (plainConfig Shrinks shrinks_tick shrinks_evict field_congr begin_spec)

variable {ν τ : Type}

section Store

variable [DecidableEq ν] [LuaNumber ν]

theorem shrinks_or_performs {cfg : TaskStore.Config} {s s' : TaskStore.State ν}
    {e : TaskStore.Event ν} (h : TaskStore.step cfg s e = some s') :
    Shrinks s.store s'.store ∨
      ∃ client call, e = .proceed client ∧ s.calls client = some call ∧
        s'.store = (perform cfg s.store call).2 := by
  have hbegin {client : Nat} {call : Call ν} (h : TaskStore.begin client call s = some s') :
      Shrinks s.store s'.store := fun t => Or.inl (by rw [(begin_spec h).1])
  cases e with
  | initializeTask | updateTask | reopenTask => exact Or.inl (hbegin h)
  | proceed client =>
    simp only [TaskStore.step] at h
    split at h
    · simp at h
    next call hcall =>
      obtain rfl := Option.some.inj h
      exact Or.inr ⟨client, call, rfl, hcall, rfl⟩
  | listTaskIdsByStatus status nowMs =>
    simp only [TaskStore.step] at h
    split at h
    · obtain rfl := Option.some.inj h
      exact Or.inl fun t => Or.inl rfl
    · simp at h
  | advance ms =>
    obtain rfl := Option.some.inj h
    exact Or.inl (shrinks_tick ms s.store)
  | evict t =>
    obtain rfl := Option.some.inj h
    exact Or.inl (shrinks_evict s.store t)

variable {p : Params τ} {s s' : Store ν}

theorem flagged_of_shrinks (h : Shrinks s s')
    (hexists : (getTask p.taskId s').isSome = true) : flagged p s' = flagged p s := by
  rcases h p.taskId with hsame | hgone
  · unfold flagged
    rw [field_congr hsame]
  · simp [getTask, hgone] at hexists

theorem flagged_of_cancelled (h : cancelled p s = true) : flagged p s = true := by
  unfold cancelled at h
  split at h
  · exact (Bool.and_eq_true_iff.mp h).2
  · simp at h

end Store

variable [DecidableEq ν] [LuaNumber ν] [LinearOrder τ]

/-- `flag` holds once the flag was set; `stale` says that an answer `False` in the cache is
from before. -/
structure Alert (p : Params τ) (s : State ν τ) : Prop where
  flag : s.setAt.isSome = true → (getTask p.taskId s.base.store).isSome = true →
    flagged p s.base.store = true
  past : ∀ result time, s.cached = some (result, time) → time ≤ s.clock
  stale : ∀ time setAt, s.cached = some (false, time) → s.setAt = some setAt → time ≤ setAt
  polled : ∀ i poll, s.polls i = some poll → poll.due = true →
    s.setAt.isSome = true ∧ ∀ result ∈ poll.read, result = true
  answered : ∀ answer ∈ s.answers, answer.due = true → answer.result = true

theorem Alert.update_polls {p : Params τ} {s : State ν τ} (h : Alert p s) {i : Nat}
    {new : Option Poll} (hnew : ∀ poll, new = some poll → poll.due = true →
      s.setAt.isSome = true ∧ ∀ result ∈ poll.read, result = true) :
    ∀ j poll, Function.update s.polls i new j = some poll → poll.due = true →
      s.setAt.isSome = true ∧ ∀ result ∈ poll.read, result = true := by
  intro j poll hpoll hdue
  by_cases hj : j = i
  · subst hj
    exact hnew poll (by simpa using hpoll) hdue
  · exact h.polled j poll (by simpa [hj] using hpoll) hdue

theorem alert_start (p : Params τ) (now : Nat) (clock : τ) :
    Alert p (start now clock : State ν τ) where
  flag h := by simp [start] at h
  past _ _ h := by simp [start] at h
  stale _ _ h := by simp [start] at h
  polled _ _ h := by simp [start] at h
  answered _ h := by simp [start] at h

variable {cfg : TaskStore.Config} {p : Params τ} {s s' : State ν τ}

theorem alert_mark (h : Alert p s) : Alert p (mark p s) := by
  unfold mark
  cases hset : s.setAt with
  | some setAt =>
    rw [Option.some_or, ← hset]
    exact h
  | none =>
    have hundue : ∀ i poll, s.polls i = some poll → poll.due = true → False := by
      intro i poll hpoll hdue
      have hsome := (h.polled i poll hpoll hdue).1
      simp [hset] at hsome
    refine ⟨?_, h.past, ?_, fun i poll hpoll hdue => (hundue i poll hpoll hdue).elim, h.answered⟩
    · intro hsome _
      apply flagged_of_cancelled (p := p)
      by_contra hnot
      simp [hnot] at hsome
    · intro time setAt hcached hnew
      obtain ⟨-, rfl⟩ : cancelled p s.base.store = true ∧ s.clock = setAt := by
        simpa using hnew
      exact h.past _ _ hcached

variable [AddCommGroup τ]

theorem alert_store (h : Alert p s) {e : TaskStore.Event ν} {base : TaskStore.State ν}
    (hexists : Exists p s (.store e)) (hheeded : Heeded cfg p s (.store e))
    (hstep : TaskStore.step cfg s.base e = some base) : Alert p { s with base := base } := by
  refine ⟨?_, h.past, h.stale, h.polled, h.answered⟩
  intro hsome hthere
  have hflag := h.flag hsome (hexists hsome)
  rcases shrinks_or_performs hstep with hshrinks | ⟨client, call, rfl, hcall, hstore⟩
  · exact (flagged_of_shrinks hshrinks hthere).trans hflag
  · have hkept : lowers cfg p s.base.store call = false := by
      simpa [hcall] using hheeded hsome
    dsimp only at hthere ⊢
    rw [hstore] at hthere ⊢
    simpa [lowers, hflag, hthere] using hkept

theorem alert_read (h : Alert p s) {i : Nat} (hexists : Exists p s (.read i))
    (hstep : step cfg p s (.read i) = some s') : Alert p s' := by
  simp only [step] at hstep
  split at hstep
  next due hasked =>
    obtain rfl := Option.some.inj hstep
    refine ⟨h.flag, h.past, h.stale, h.update_polls ?_, h.answered⟩
    rintro _ ⟨rfl⟩ hdue
    obtain ⟨hsome, -⟩ := h.polled i _ hasked hdue
    refine ⟨hsome, ?_⟩
    rintro result ⟨rfl⟩
    exact h.flag hsome (hexists hsome)
  · simp at hstep

theorem alert_reply (h : Alert p s) {i : Nat} (hheeded : Heeded cfg p s (.reply i))
    (hstep : step cfg p s (.reply i) = some s') : Alert p s' := by
  simp only [step] at hstep
  split at hstep
  next due result hread =>
    obtain rfl := Option.some.inj hstep
    refine ⟨h.flag, ?_, ?_, h.update_polls nofun, ?_⟩
    · intro cached time hcached
      dsimp only at hcached ⊢
      split at hcached
      · obtain ⟨-, rfl⟩ : result = cached ∧ s.clock = time := by simpa using hcached
        exact le_rfl
      · exact h.past cached time hcached
    · intro time setAt hcached hset
      dsimp only at hcached
      split at hcached
      next hpos =>
        obtain ⟨rfl, rfl⟩ : result = false ∧ s.clock = time := by simpa using hcached
        exact hheeded hpos (by simp [hread]) setAt hset
      · exact h.stale time setAt hcached hset
    · intro answer hanswer hdue
      rcases List.mem_append.mp hanswer with hold | hnew
      · exact h.answered answer hold hdue
      · obtain rfl := List.mem_singleton.mp hnew
        exact (h.polled i _ hread hdue).2 result rfl
  · simp at hstep

variable [IsOrderedAddMonoid τ]

theorem eq_true_of_fresh (h : Alert p s) {result : Bool} (hfresh : fresh p s = some result)
    (hdue : due p s = true) : result = true := by
  obtain ⟨setAt, hset, hle⟩ : ∃ setAt, s.setAt = some setAt ∧
      setAt + p.minInterval ≤ s.clock := by
    simpa [due, Option.any_eq_true] using hdue
  unfold fresh at hfresh
  split at hfresh
  next cached time hcached =>
    split at hfresh
    next hrecent =>
      obtain rfl := Option.some.inj hfresh
      by_contra hfalse
      have hstale := h.stale time setAt (by simpa [hfalse] using hcached) hset
      have hlt : s.clock < setAt + p.minInterval :=
        (sub_lt_iff_lt_add'.mp hrecent.2).trans_le (add_le_add_left hstale _)
      exact absurd hlt (not_lt.mpr hle)
    · simp at hfresh
  · simp at hfresh

theorem alert_isCancelled (h : Alert p s) {i : Nat}
    (hstep : step cfg p s (.isCancelled i) = some s') : Alert p s' := by
  simp only [step] at hstep
  split at hstep
  · simp at hstep
  next result hidle hfresh =>
    obtain rfl := Option.some.inj hstep
    refine ⟨h.flag, h.past, h.stale, h.polled, ?_⟩
    intro answer hanswer hdue
    rcases List.mem_append.mp hanswer with hold | hnew
    · exact h.answered answer hold hdue
    · obtain rfl := List.mem_singleton.mp hnew
      exact eq_true_of_fresh h hfresh hdue
  · obtain rfl := Option.some.inj hstep
    refine ⟨h.flag, h.past, h.stale, h.update_polls ?_, h.answered⟩
    rintro _ ⟨rfl⟩ hdue
    obtain ⟨setAt, hset, -⟩ := (Option.any_eq_true ..).mp hdue
    exact ⟨Option.isSome_of_mem hset, nofun⟩

theorem alert_step (h : Alert p s) {e : Event ν τ} (hexists : Exists p s e)
    (hheeded : Heeded cfg p s e) (hstep : step cfg p s e = some s') : Alert p s' := by
  cases e with
  | store e =>
    obtain ⟨base, hbase, rfl⟩ := Option.map_eq_some_iff.mp hstep
    exact alert_mark (alert_store h hexists hheeded hbase)
  | requestCancel client =>
    simp only [step] at hstep
    split at hstep
    · obtain ⟨base, hbegin, rfl⟩ := Option.map_eq_some_iff.mp hstep
      refine ⟨?_, h.past, h.stale, h.polled, h.answered⟩
      dsimp only
      rw [(begin_spec hbegin).1]
      exact h.flag
    · obtain rfl := Option.some.inj hstep
      exact h
  | wait clock =>
    simp only [step] at hstep
    split at hstep
    next hle =>
      obtain rfl := Option.some.inj hstep
      exact ⟨h.flag, fun result time hcached => (h.past result time hcached).trans hle,
        h.stale, h.polled, h.answered⟩
    · simp at hstep
  | isCancelled i => exact alert_isCancelled h hstep
  | read i => exact alert_read h hexists hstep
  | reply i => exact alert_reply h hheeded hstep
  | fail i =>
    simp only [step] at hstep
    split at hstep
    · obtain rfl := Option.some.inj hstep
      exact ⟨h.flag, h.past, h.stale, h.update_polls nofun, h.answered⟩
    · simp at hstep

/-- Every poll that begins at least `min_interval` after the flag was set for the generation
answers `True`, as long as the record is there, no script takes the flag back, and no earlier
reading is cached afterwards. -/
theorem polls_notice (cfg : TaskStore.Config) (p : Params τ) (now : Nat) (clock : τ)
    {es : List (Event ν τ)} {s : State ν τ} (hrun : run (step cfg p) (start now clock) es = some s)
    (hexists : Along (step cfg p) (Exists p) (start now clock) es)
    (hheeded : Along (step cfg p) (Heeded cfg p) (start now clock) es) :
    ∀ answer ∈ s.answers, answer.due = true → answer.result = true := by
  have halert : Alert p s :=
    run_invariant_along (fun _ _ _ h hG => alert_step h hG.1 hG.2) (alert_start p now clock)
      (hexists.and hheeded) hrun
  exact halert.answered

/-! ## Three runs -/

private def token : Params Int := ⟨"t", "exec-1", 100⟩

private def begun : List (Event Int Int) :=
  [.store (.initializeTask 0 "t" none "in_progress" false none "" "exec-1"), .store (.proceed 0)]

private def request : List (Event Int Int) := [.requestCancel 0, .store (.proceed 0)]

private def asked (poll : Nat) : List (Event Int Int) :=
  [.isCancelled poll, .read poll, .reply poll]

private def noticed : List (Event Int Int) :=
  begun ++ asked 1 ++ request ++ [.wait 50, .isCancelled 1, .wait 100] ++ asked 1

theorem polls_notice_afterInterval :
    (replay (step plainConfig token) (start 0 0) noticed).answers =
        [⟨false, false⟩, ⟨false, false⟩, ⟨true, true⟩] ∧
      ∀ answer ∈ (replay (step plainConfig token) (start 0 0) noticed).answers,
        answer.due = true → answer.result = true :=
  ⟨by decide, polls_notice plainConfig token 0 0 (run_eq_replay (by decide))
    (by decide) (by decide)⟩

private def reopened : List (Event Int Int) :=
  let settled : Fields Int := fun k => if k = "status" then some (.str "cancelled") else none
  begun ++ request ++ [.store (.updateTask 0 "t" settled none true), .store (.proceed 0),
    .store (.proceed 0), .store (.reopenTask 0 "t" "pending" none "exec-2"), .store (.proceed 0),
    .wait 100] ++ asked 1

private def overtaken : List (Event Int Int) :=
  begun ++ [.isCancelled 1, .read 1] ++ request ++
    [.wait 50, .reply 1, .wait 100, .isCancelled 2]

theorem polls_miss :
    (∃ s, run (step plainConfig token) (start 0 0) reopened = some s ∧
      Along (step plainConfig token) (Exists token) (start 0 0) reopened ∧
      s.answers = [⟨true, false⟩]) ∧
    ∃ s, run (step plainConfig token) (start 0 0) overtaken = some s ∧
      Along (step plainConfig token) (Exists token) (start 0 0) overtaken ∧
      s.answers = [⟨false, false⟩, ⟨true, false⟩] :=
  ⟨⟨_, run_eq_replay (by decide), by decide, by decide⟩,
    ⟨_, run_eq_replay (by decide), by decide, by decide⟩⟩

end Orditect.Executor.Token.Proofs
