import Mathlib.Data.List.Basic
/-!
# A bounded queue on an event loop

`asyncio.Queue` as its callers see it.  A caller that finds the queue full goes to sleep; taking
an item wakes the caller that has slept longest, and that one looks again when it gets its turn.
Until then anyone may take the place that became free.
-/

namespace Orditect.Support

/-- `putters` sleep, in the order they came; `woken` have been woken and had no turn since.  A
`maxsize` of 0 is no bound. -/
structure AsyncQueue (ω α : Type) where
  maxsize : Nat
  items : List α := []
  putters : List ω := []
  woken : List ω := []

namespace AsyncQueue

variable {ω α : Type}

def full (q : AsyncQueue ω α) : Bool :=
  decide (0 < q.maxsize) && decide (q.maxsize ≤ q.items.length)

/-- `_wakeup_next` of the putters. -/
def wake (q : AsyncQueue ω α) : AsyncQueue ω α :=
  match q.putters with
  | [] => q
  | o :: os => { q with putters := os, woken := q.woken ++ [o] }

/-- `put_nowait`; `none` where it raises. -/
def putNowait (q : AsyncQueue ω α) (a : α) : Option (AsyncQueue ω α) :=
  if q.full then none else some { q with items := q.items ++ [a] }

/-- `get_nowait`; `none` where it raises. -/
def getNowait (q : AsyncQueue ω α) : Option (α × AsyncQueue ω α) :=
  match q.items with
  | [] => none
  | a :: rest => some (a, { q with items := rest }.wake)

section

variable [DecidableEq ω]

def suspended (q : AsyncQueue ω α) (o : ω) : Bool := decide (o ∈ q.putters) || decide (o ∈ q.woken)

/-- A turn of `o` in `put(a)`, its first one or one after it was woken: whether the item is
in. -/
def put (q : AsyncQueue ω α) (o : ω) (a : α) : AsyncQueue ω α × Bool :=
  if o ∈ q.putters then (q, false)
  else
    let woken := q.woken.filter (· ≠ o)
    if q.full then ({ q with putters := q.putters ++ [o], woken := woken }, false)
    else ({ q with items := q.items ++ [a], woken := woken }, true)

/-- `o` is cancelled inside of `put`: one that was woken passes the waking on. -/
def abandon (q : AsyncQueue ω α) (o : ω) : AsyncQueue ω α :=
  let left := { q with putters := q.putters.filter (· ≠ o), woken := q.woken.filter (· ≠ o) }
  if o ∈ q.woken ∧ q.full = false then left.wake else left

end

@[simp] theorem items_wake (q : AsyncQueue ω α) : q.wake.items = q.items := by
  unfold wake
  split <;> rfl

variable {a : α} {q q' : AsyncQueue ω α}

theorem putNowait_eq_some :
    q.putNowait a = some q' ↔ q.full = false ∧ { q with items := q.items ++ [a] } = q' := by
  rw [putNowait]
  cases q.full <;> simp

theorem items_getNowait (h : q.getNowait = some (a, q')) :
    q.items = a :: q'.items := by
  rw [getNowait] at h
  split at h
  · simp at h
  next hitems =>
    obtain ⟨rfl, rfl⟩ := Prod.mk.inj (Option.some.inj h)
    rw [items_wake, hitems]

theorem getNowait_eq_none : q.getNowait = none ↔ q.items = [] := by
  rw [getNowait]
  split
  next h => simp [h]
  next h => simp [h]

variable [DecidableEq ω]

@[simp] theorem items_abandon (q : AsyncQueue ω α) (o : ω) : (q.abandon o).items = q.items := by
  rw [abandon]
  split <;> simp

theorem items_put (q : AsyncQueue ω α) (o : ω) (a : α) :
    (q.put o a).1.items = if (q.put o a).2 then q.items ++ [a] else q.items := by
  rw [put]
  split
  · rfl
  split <;> rfl

@[simp] theorem suspended_wake (q : AsyncQueue ω α) (o : ω) :
    q.wake.suspended o = q.suspended o := by
  unfold wake
  split
  · rfl
  next p ps h =>
    simp only [suspended, h, List.mem_cons, List.mem_append, List.not_mem_nil, or_false]
    rw [Bool.eq_iff_iff]
    simp only [Bool.or_eq_true, decide_eq_true_eq]
    tauto

theorem suspended_put_self (q : AsyncQueue ω α) (o : ω) (a : α) :
    (q.put o a).1.suspended o = !(q.put o a).2 := by
  rw [put]
  split
  next h => simp [suspended, h]
  next h =>
    dsimp only
    split
    · simp [suspended]
    · simp [suspended, h]

theorem suspended_put_of_ne (q : AsyncQueue ω α) {o p : ω} (h : p ≠ o) (a : α) :
    (q.put o a).1.suspended p = q.suspended p := by
  rw [put]
  split
  · rfl
  dsimp only
  split <;> simp [suspended, h]

theorem suspended_abandon_of_ne (q : AsyncQueue ω α) {o p : ω} (h : p ≠ o) :
    (q.abandon o).suspended p = q.suspended p := by
  rw [abandon]
  split
  · rw [suspended_wake]
    simp [suspended, h]
  · simp [suspended, h]

theorem suspended_getNowait (h : q.getNowait = some (a, q')) (o : ω) :
    q'.suspended o = q.suspended o := by
  rw [getNowait] at h
  split at h
  · simp at h
  · obtain ⟨-, rfl⟩ := Prod.mk.inj (Option.some.inj h)
    rw [suspended_wake]
    rfl

end AsyncQueue

end Orditect.Support
