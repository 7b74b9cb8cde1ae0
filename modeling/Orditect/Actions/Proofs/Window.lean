import Orditect.Actions.Dispatcher
import Orditect.Support.Recency
/-!
# Which commands are skipped

Whatever the commands do, the window of the dispatcher holds the ids that were seen last, as many
as it has room for.  So a command is skipped exactly if its id came up before and fewer other ids
than that have come up since.
-/

namespace Orditect.Actions.Proofs

open Support.Recency

variable {σ : Type} (ops : Operations σ) (dedupCapacity : Nat)

theorem markSeen_eq (seen : List String) (actionId : String) :
    markSeen dedupCapacity seen actionId =
      (decide (actionId ∈ seen), touch dedupCapacity seen actionId) := by
  unfold markSeen touch
  split
  · rename_i hseen
    rw [decide_eq_true hseen]
  · rename_i hseen
    rw [decide_eq_false hseen]

theorem seen_execute (s : Dispatcher σ) (command : ActionCommand) :
    (execute ops dedupCapacity s command).2.seen =
      touch dedupCapacity s.seen command.actionId := by
  rw [execute, markSeen_eq]
  cases decide (command.actionId ∈ s.seen) <;> rfl

theorem isSome_execute (s : Dispatcher σ) (command : ActionCommand) :
    (execute ops dedupCapacity s command).1.isSome = decide (command.actionId ∉ s.seen) := by
  rw [execute, markSeen_eq, decide_not]
  cases decide (command.actionId ∈ s.seen) <;> rfl

theorem seen_dispatch (world : σ) (commands : List ActionCommand) :
    (dispatch ops dedupCapacity ⟨[], world⟩ commands).seen =
      recent dedupCapacity (commands.map ActionCommand.actionId) := by
  induction commands using List.reverseRecOn with
  | nil => simp [dispatch, recent]
  | append_singleton commands command ih =>
    rw [dispatch, List.foldl_append, List.foldl_cons, List.foldl_nil, ← dispatch, seen_execute,
      ih, touch_recent, List.map_append, List.map_singleton]

/-- A command is executed exactly if its id is new or as many others as the window holds have come
up since, and the window never holds more. -/
theorem executed_iff (world : σ) (commands : List ActionCommand) (command : ActionCommand) :
    let s := dispatch ops dedupCapacity ⟨[], world⟩ commands
    let ids := commands.map ActionCommand.actionId
    ((execute ops dedupCapacity s command).1.isSome = true ↔
      command.actionId ∉ ids ∨
        ∃ before since, ids = before ++ command.actionId :: since ∧ command.actionId ∉ since ∧
          dedupCapacity ≤ since.toFinset.card) ∧
    s.seen.length ≤ dedupCapacity := by
  intro s ids
  have hseen : s.seen = recent dedupCapacity ids := seen_dispatch ops dedupCapacity world commands
  refine ⟨?_, hseen ▸ length_recent_le dedupCapacity ids⟩
  rw [isSome_execute, decide_eq_true_eq, hseen, notMem_recent_iff]
  rfl

end Orditect.Actions.Proofs
