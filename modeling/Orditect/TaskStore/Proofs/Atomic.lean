import Orditect.TaskStore.Proofs.Merge
/-!
# Whether a failed update leaves its traces

`task_update.lua` writes the record before it touches the status indexes, and the keys of
the indexes are concatenated from status values that may be anything JSON has.  Where a
concatenation raises, the server keeps what the script has written up to there.
-/

namespace Orditect.TaskStore.Atomic.Proofs

open Support.Expiring Support.LuaJson Support.SortedSet TaskStore.Proofs TaskStore.Merge.Proofs

variable {ν : Type} [DecidableEq ν] [LuaNumber ν]

section Migration

variable {old new : Json ν} {t : String} {n : Nat} {s : Store ν}

def leaves (old new : Json ν) : Bool := !old.luaEq new && !old.luaEq (.str "")

def Indexable (old new : Json ν) : Prop :=
  (leaves old new = true → old.concat ≠ none) ∧
    (new.luaEq (.str "") = true ∨ new.concat ≠ none)

def Absent (old new : Json ν) (t : String) (s : Store ν) : Prop :=
  ∀ key, leaves old new = true → old.concat = some key →
    del t (s.statusIndex key) = s.statusIndex key

def enter (new : Json ν) (t : String) (n : Nat) (s : Store ν) : UpdateReply × Store ν :=
  if new.luaEq (.str "") then (.ok, s)
  else
    match new.concat with
    | none => (.raised, s)
    | some key => (.ok, leaseStatus key t n s)

theorem migrateStatus_stuck (hleaves : leaves old new = true) (hkey : old.concat = none) :
    migrateStatus old new t n s = (.raised, s) := by
  rw [leaves] at hleaves
  simp only [migrateStatus, hleaves, hkey]

theorem migrateStatus_leave (hleaves : leaves old new = true) {key : String}
    (hkey : old.concat = some key) :
    migrateStatus old new t n s = enter new t n (dropStatus key t s) := by
  rw [leaves] at hleaves
  simp only [migrateStatus, hleaves, hkey]
  rfl

theorem migrateStatus_stay (hleaves : leaves old new = false) :
    migrateStatus old new t n s = enter new t n s := by
  rw [leaves] at hleaves
  simp only [migrateStatus, hleaves]
  rfl

theorem enter_ok (h : new.luaEq (.str "") = true ∨ new.concat ≠ none) :
    (enter new t n s).1 = .ok := by
  unfold enter
  split
  · rfl
  next hne =>
    split
    next hnone => exact absurd hnone (h.resolve_left hne)
    next => rfl

theorem enter_stuck (h : ¬ (new.luaEq (.str "") = true ∨ new.concat ≠ none)) :
    enter new t n s = (.raised, s) := by
  obtain ⟨hne, hnone⟩ := not_or.mp h
  simp [enter, hne, not_not.mp hnone]

theorem migrateStatus_ok (h : Indexable old new) : (migrateStatus old new t n s).1 = .ok := by
  cases hleaves : leaves old new with
  | false =>
    rw [migrateStatus_stay hleaves]
    exact enter_ok h.2
  | true =>
    obtain ⟨key, hkey⟩ := Option.ne_none_iff_exists'.mp (h.1 hleaves)
    rw [migrateStatus_leave hleaves hkey]
    exact enter_ok h.2

omit [DecidableEq ν] [LuaNumber ν] in
theorem statusIndex_dropStatus {key : String} :
    (dropStatus key t s).statusIndex = s.statusIndex ↔
      del t (s.statusIndex key) = s.statusIndex key :=
  Function.update_eq_self_iff

theorem migrateStatus_not_indexable (h : ¬ Indexable old new) :
    (migrateStatus old new t n s).1 = .raised ∧
      ((migrateStatus old new t n s).2.statusIndex = s.statusIndex ↔ Absent old new t s) := by
  cases hleaves : leaves old new with
  | false =>
    have hstuck : ¬ (new.luaEq (.str "") = true ∨ new.concat ≠ none) :=
      fun hnew => h ⟨fun hl => absurd (hleaves.symm.trans hl) (by simp), hnew⟩
    rw [migrateStatus_stay hleaves, enter_stuck hstuck]
    simp [Absent, hleaves]
  | true =>
    cases hkey : old.concat with
    | none =>
      rw [migrateStatus_stuck hleaves hkey]
      simp [Absent, hkey]
    | some key =>
      have hstuck : ¬ (new.luaEq (.str "") = true ∨ new.concat ≠ none) :=
        fun hnew => h ⟨fun _ => by simp [hkey], hnew⟩
      rw [migrateStatus_leave hleaves hkey, enter_stuck hstuck]
      simp [Absent, hleaves, hkey, statusIndex_dropStatus]

end Migration

/-- A failed update has changed neither a record or its expiry nor a status index. -/
def AllOrNothing (cfg : Config) (updates : Fields ν) (expiry : Int) (t : String) (s : Store ν) :
    Prop :=
  (taskUpdate cfg updates expiry t s).1 ≠ .ok →
    (taskUpdate cfg updates expiry t s).2.records = s.records ∧
      (taskUpdate cfg updates expiry t s).2.statusIndex = s.statusIndex

/-- The script would write the record that is there, with the expiry it has, and drop the
task from no index. -/
def Idle (updates current : Fields ν) (expiry : Int) (t : String) (s : Store ν) : Prop :=
  Cell.setEx s.now expiry.toNat (updates.merge current).recode = s.records t ∧
    Absent (Json.orEmpty (current "status"))
      ((updates "status").getD (Json.orEmpty (current "status"))) t s

theorem taskUpdate_accepted {cfg : Config} {updates current : Fields ν} {expiry : Int}
    (hexpiry : 0 < expiry) {t : String} {s : Store ν} (hget : (s.records t).get = some current)
    (haccepted : ¬ ((Json.orEmpty (current "status")).luaEq
        ((updates "status").getD (Json.orEmpty (current "status"))) = false ∧
      isTerminal cfg (Json.orEmpty (current "status")) = true)) :
    taskUpdate cfg updates expiry t s =
      migrateStatus (Json.orEmpty (current "status"))
        ((updates "status").getD (Json.orEmpty (current "status"))) t expiry.toNat
        (setRecord t (updates.merge current) expiry.toNat s) := by
  have heffective : ∀ ttl, effectiveExpiry cfg expiry ttl = expiry := fun ttl => by
    rw [effectiveExpiry, if_neg (by omega)]
  simp only [taskUpdate, hget, heffective]
  rw [if_neg (by simpa using haccepted), if_neg (by omega)]

/-- An update with a positive expiry is all or nothing exactly when, unless the transfer is
refused, every index key it needs can be concatenated or there is nothing it would
change. -/
theorem update_atomic_iff (cfg : Config) (updates : Fields ν) (expiry : Int) (hexpiry : 0 < expiry)
    (t : String) (s : Store ν) :
    AllOrNothing cfg updates expiry t s ↔
      ∀ current, getTask t s = some current →
        let old := Json.orEmpty (current "status")
        let new := (updates "status").getD old
        (old.luaEq new = false ∧ isTerminal cfg old = true) ∨ Indexable old new ∨
          Idle updates current expiry t s := by
  cases hget : (s.records t).get with
  | none => simp [AllOrNothing, taskUpdate, getTask, hget]
  | some current =>
    have hcurrent : getTask t s = some current := hget
    simp only [hcurrent, Option.some.injEq, forall_eq']
    by_cases hrefused : (Json.orEmpty (current "status")).luaEq
          ((updates "status").getD (Json.orEmpty (current "status"))) = false ∧
        isTerminal cfg (Json.orEmpty (current "status")) = true
    · have hreply : taskUpdate cfg updates expiry t s = (.invalidTransfer, s) := by
        simp [taskUpdate, hget, hrefused]
      simp [AllOrNothing, hreply, hrefused]
    · rw [AllOrNothing, taskUpdate_accepted hexpiry hget hrefused]
      by_cases hindexable : Indexable (Json.orEmpty (current "status"))
          ((updates "status").getD (Json.orEmpty (current "status")))
      · simp [migrateStatus_ok hindexable, hindexable]
      · obtain ⟨hraised, hindex⟩ := migrateStatus_not_indexable (t := t) (n := expiry.toNat)
          (s := setRecord t (updates.merge current) expiry.toNat s) hindexable
        rw [hraised, (migrateStatus_frame ..).2.1]
        simp only [hrefused, hindexable, false_or]
        refine ⟨fun h => ?_, fun h _ => ?_⟩
        · obtain ⟨hrecords, hstatus⟩ := h (by simp)
          exact ⟨Function.update_eq_self_iff.mp hrecords, hindex.mp hstatus⟩
        · exact ⟨Function.update_eq_self_iff.mpr h.1, hindex.mpr h.2⟩

def flagged : Fields Int := Fields.set "status" (.bool true) fun _ => none

/-- The script raises, but it has written what was there. -/
theorem update_atomic_idle :
    (taskUpdate plainConfig flagged 100 "t" (storedRecord flagged)).1 = .raised ∧
      AllOrNothing plainConfig flagged 100 "t" (storedRecord flagged) := by
  refine ⟨rfl, (update_atomic_iff plainConfig flagged 100 (by decide) "t" _).mpr ?_⟩
  intro current hcurrent
  obtain rfl : flagged = current := Option.some.inj hcurrent
  have hstays : leaves (Json.orEmpty (flagged "status")) (.bool true) = false := by decide
  refine Or.inr (Or.inr ⟨?_, fun key hleaves => absurd (hstays.symm.trans hleaves) (by decide)⟩)
  have hsame : ((flagged.merge flagged).recode : Fields Int) = flagged := by
    funext key
    by_cases hkey : key = "status"
    · subst hkey
      rfl
    · simp [flagged, Fields.merge, Fields.recode, Fields.set, hkey]
  rw [hsame]
  rfl

/-- A status that is no string: the script raises, and the record has it. -/
theorem update_leaves_traces :
    (taskUpdate plainConfig flagged 100 "t" (storedRecord running)).1 = .raised ∧
      ¬ AllOrNothing plainConfig flagged 100 "t" (storedRecord running) := by
  refine ⟨rfl, fun h => ?_⟩
  have hrecord := congrFun (h (by decide)).1 "t"
  have hstatus : some (Json.recode (.bool true : Json Int)) = some (.str "in_progress") :=
    congrArg (fun cell => cell.get.bind fun record => record "status") hrecord
  exact absurd hstatus (by simp [Json.recode])

end Orditect.TaskStore.Atomic.Proofs
