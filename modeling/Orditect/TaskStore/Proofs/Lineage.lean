import Orditect.TaskStore.Lineage
import Orditect.TaskStore.Proofs.StatusIndex
/-!
# The lineage index against the records

A child is leased in the index of its parent when it is initialised, and never again:
neither an update nor a reopening touches the index.  So the index is exact as long as
every initialisation of a task names the same parent and no script moves the expiry of a
record past the lease.
-/

namespace Orditect.TaskStore.Proofs

open Support.Expiring Support.SortedSet Support.LuaJson Support.Transition

variable {ν : Type}

def Leased (c : Cell (ZSet String)) (t : String) (e : Nat) : Prop :=
  ∃ score, Listed c t score ∧ e ≤ score + 500

def CallHomed (home : String → Option String) : Call ν → Prop
  | .initializeTask t _ _ _ parent _ _ => parent = home t
  | .validateTransfer _ updates _ => updates "parent_task_id" = none
  | .updateTask _ updates _ => updates "parent_task_id" = none
  | .reopenTask _ _ _ _ => True

/-! ## The scripts -/

section Scripts

variable [DecidableEq ν] [LuaNumber ν]

/-- The task and the expiry argument of a call whose script rewrites a record in place.  An
update that raises may have written the record before. -/
def rewrites (cfg : Config) (s : Store ν) : Call ν → Option (String × Option Int)
  | .updateTask t updates expiry =>
    match (taskUpdate cfg updates (expiry.getD (-1)) t s).1 with
    | .ok | .raised => some (t, expiry)
    | .notFound | .invalidTransfer => none
  | .reopenTask t status expiry eid =>
    match (taskReopen cfg t eid status (expiry.getD (-1)) s).1 with
    | .reopened .. => some (t, expiry)
    | _ => none
  | _ => none

theorem rewrites_updateTask {cfg : Config} {s : Store ν} {t : String} {current updates : Fields ν}
    (hcur : getTask t s = some current)
    (hkeep : (Json.orEmpty (current "status")).luaEq
        ((updates "status").getD (Json.orEmpty (current "status"))) = true ∨
      isTerminal cfg (Json.orEmpty (current "status")) = false) (expiry : Option Int) :
    rewrites cfg s (.updateTask t updates expiry) = some (t, expiry) := by
  have hreply : (taskUpdate cfg updates (expiry.getD (-1)) t s).1 = .ok ∨
      (taskUpdate cfg updates (expiry.getD (-1)) t s).1 = .raised := by
    unfold taskUpdate
    rw [show (s.records t).get = some current from hcur]
    dsimp only
    rw [if_neg (by rcases hkeep with h | h <;> simp [h])]
    split
    · exact Or.inr rfl
    · exact reply_migrateStatus ..
  rcases hreply with h | h <;> simp [rewrites, h]

theorem rewrites_reopenTask {cfg : Config} {s : Store ν} {t : String} {current : Fields ν}
    {expiry : Option Int} (hcur : getTask t s = some current)
    (hterm : isTerminal cfg (Json.orEmpty (current "status")) = true)
    (hn : 0 < rewrittenFor cfg s t expiry) (status eid : String) :
    rewrites cfg s (.reopenTask t status expiry eid) = some (t, expiry) := by
  simp only [rewrites]
  unfold taskReopen
  unfold rewrittenFor at hn
  rw [show (s.records t).get = some current from hcur]
  dsimp only
  rw [if_neg (by simp [hterm]), if_neg (by omega)]

inductive LineageEffect (cfg : Config) (s : Store ν) (call : Call ν) (s' : Store ν) : Prop
  | same (hrecords : s'.records = s.records) (hchildren : s'.childrenIndex = s.childrenIndex)
  | created (t : String) (parent : Option String) (n : Nat) (f : Fields ν) (hn : 0 < n)
      (hcall : ∀ home, CallHomed home call → parent = home t)
      (hrecords : s'.records = Function.update s.records t (Cell.setEx s.now n f))
      (hparent : f "parent_task_id" = parent.map .str)
      (hchildren : s'.childrenIndex = if parent.getD "" ≠ "" then
        Function.update s.childrenIndex (parent.getD "")
          (lease s.now n t (s.childrenIndex (parent.getD ""))) else s.childrenIndex)
  | rewritten (t : String) (expiry : Option Int) (current f : Fields ν)
      (hcall : rewrites cfg s call = some (t, expiry)) (hcurrent : getTask t s = some current)
      (hrecords : s'.records =
        Function.update s.records t (Cell.setEx s.now (rewrittenFor cfg s t expiry) f))
      (hparent : f "parent_task_id" = (current "parent_task_id").map Json.recode)
      (hchildren : s'.childrenIndex = s.childrenIndex)

theorem childrenIndex_taskUpdate (cfg : Config) (updates : Fields ν) (expiry : Int) (t : String)
    (s : Store ν) : (taskUpdate cfg updates expiry t s).2.childrenIndex = s.childrenIndex := by
  unfold taskUpdate
  dsimp only
  split
  · rfl
  · split
    · rfl
    · split
      · rfl
      · exact (migrateStatus_frame ..).2.2

theorem Performs.lineageEffect {cfg : Config} {s s' : Store ν} {call : Call ν}
    {home : String → Option String} (hhomed : CallHomed home call)
    (h : Performs cfg s call s') : LineageEffect cfg s call s' := by
  cases h with
  | still => exact .same rfl rfl
  | initializes t expiry status ifNotExists parent timestamp eid hnew hn =>
    obtain ⟨hnow, hrecords, hchildren⟩ := relabel_frame t
      (Fields.set "execution_id" (.str eid) (initialData timestamp status parent))
      (expiry.getD cfg.defaultExpireTime).toNat none status s
    refine .created t parent _ _ hn (fun _ hhomed => hhomed)
      ((enlist_frame ..).2.trans hrecords) ?_ ?_
    · cases parent <;> simp [Fields.recode, Fields.set, initialData]
    · rw [← hchildren, ← hnow, enlist]
      split <;> rfl
  | updates t updates expiry current hcur hkeep =>
    obtain ⟨-, hrecords, hchildren⟩ := migrateStatus_frame (Json.orEmpty (current "status"))
      ((updates "status").getD (Json.orEmpty (current "status"))) t (rewrittenFor cfg s t expiry)
      (setRecord t (updates.merge current) (rewrittenFor cfg s t expiry) s)
    refine .rewritten t expiry current _ (rewrites_updateTask hcur hkeep expiry) hcur hrecords ?_
      hchildren
    simp [Fields.recode, Fields.merge, show updates "parent_task_id" = none from hhomed]
  | reopens t status expiry eid current hcur hterm hn =>
    obtain ⟨-, hrecords, hchildren⟩ := relabel_frame t
      (reopened current (Json.orEmpty (current "status")) eid status s.now)
      (rewrittenFor cfg s t expiry) _ status s
    refine .rewritten t expiry current _ (rewrites_reopenTask hcur hterm hn status eid) hcur
      hrecords ?_ hchildren
    simp [Fields.recode, reopened, Fields.set, Fields.unset]

end Scripts

/-! ## The index -/

/-- Every record names the home of its task, the index lists tasks under their home only
and under a key that lives as long as the lease, and a record with a home is leased there,
or about to expire. -/
structure Homed (home : String → Option String) (s : Store ν) : Prop where
  parents : ∀ t record, getTask t s = some record →
    record "parent_task_id" = (home t).map .str
  members : ∀ t p score, find t (s.childrenIndex p) = some score →
    home t = some p ∧ Listed (s.childrenIndex p) t score
  leased : ∀ t p e, (s.records t).deadline = some e → home t = some p →
    e ≤ s.now + 1000 ∨ Leased (s.childrenIndex p) t e

variable {t p : String}

section Index

variable {home : String → Option String} {s s' : Store ν} {f : Fields ν} {n : Nat}

theorem parents_rewrite (hs : Homed home s)
    (hrecords : s'.records = Function.update s.records t (Cell.setEx s.now n f))
    (hparent : f "parent_task_id" = (home t).map .str) (x : String) (record : Fields ν)
    (hget : getTask x s' = some record) : record "parent_task_id" = (home x).map .str := by
  unfold getTask at hget
  rw [hrecords] at hget
  by_cases hx : x = t
  · subst hx
    rw [Function.update_self, get_setEx] at hget
    obtain rfl := Option.some.inj hget
    exact hparent
  · rw [Function.update_of_ne hx] at hget
    exact hs.parents x record hget

theorem homed_congr (hs : Homed home s) (hnow : s'.now = s.now)
    (hrecords : s'.records = s.records) (hchildren : s'.childrenIndex = s.childrenIndex) :
    Homed home s' := by
  refine ⟨?_, ?_, ?_⟩
  · simpa only [getTask, hrecords] using hs.parents
  · simpa only [hchildren] using hs.members
  · simpa only [hrecords, hchildren, hnow] using hs.leased

theorem leased_lease {c : Cell (ZSet String)} {now e : Nat} {x : String} (hn : 0 < n) (hx : x ≠ t)
    (h : Leased c x e) : Leased (lease now n t c) x e := by
  obtain ⟨score, hlisted, hle⟩ := h
  exact ⟨score, listed_lease hn hx hlisted, hle⟩

theorem eq_some_getD {parent : Option String} (h : parent.getD "" ≠ "") :
    parent = some (parent.getD "") := by
  cases parent with
  | none => exact absurd rfl h
  | some p => rfl

theorem homed_created (hhome : ∀ t, home t ≠ some "") (hs : Homed home s) (hn : 0 < n)
    (hnow : s'.now = s.now)
    (hrecords : s'.records = Function.update s.records t (Cell.setEx s.now n f))
    (hparent : f "parent_task_id" = (home t).map .str)
    (hchildren : s'.childrenIndex = if (home t).getD "" ≠ "" then
      Function.update s.childrenIndex ((home t).getD "")
        (lease s.now n t (s.childrenIndex ((home t).getD ""))) else s.childrenIndex) :
    Homed home s' := by
  refine ⟨parents_rewrite hs hrecords hparent, ?_, ?_⟩
  · intro x p score hfind
    rw [hchildren] at hfind ⊢
    split at hfind
    · rename_i hne
      rw [if_pos hne]
      by_cases hpq : p = (home t).getD ""
      · subst hpq
        rw [Function.update_self] at hfind ⊢
        by_cases hxt : x = t
        · subst hxt
          have hscore : find x (lease s.now n x (s.childrenIndex ((home x).getD ""))) =
              some (s.now + n * 1000) := (listed_lease_self hn).1
          obtain rfl := Option.some.inj (hfind.symm.trans hscore)
          exact ⟨eq_some_getD hne, listed_lease_self hn⟩
        · rw [find_lease hn, if_neg hxt] at hfind
          obtain ⟨hx, hlisted⟩ := hs.members x _ score hfind
          exact ⟨hx, listed_lease hn hxt hlisted⟩
      · rw [Function.update_of_ne hpq] at hfind ⊢
        exact hs.members x p score hfind
    · rename_i hblank
      rw [if_neg hblank]
      exact hs.members x p score hfind
  · intro x p e hdeadline hx
    have hp : p ≠ "" := fun hblank => hhome x (hx.trans (by rw [hblank]))
    rw [hrecords] at hdeadline
    by_cases hxt : x = t
    · subst hxt
      rw [Function.update_self, deadline_setEx] at hdeadline
      obtain rfl := Option.some.inj hdeadline
      apply Or.inr
      rw [hchildren, hx]
      simp only [Option.getD_some, ne_eq, hp, not_false_eq_true, if_true, Function.update_self]
      exact ⟨_, listed_lease_self hn, by omega⟩
    · rw [Function.update_of_ne hxt] at hdeadline
      rcases hs.leased x p e hdeadline hx with hsoon | hleased
      · exact Or.inl (by omega)
      · apply Or.inr
        rw [hchildren]
        split
        · by_cases hpq : p = (home t).getD ""
          · rw [← hpq, Function.update_self]
            exact leased_lease hn hxt hleased
          · rw [Function.update_of_ne hpq]
            exact hleased
        · exact hleased

theorem homed_rewritten (hs : Homed home s) {current : Fields ν} [LuaNumber ν]
    (hnow : s'.now = s.now) (hcurrent : getTask t s = some current)
    (hrecords : s'.records = Function.update s.records t (Cell.setEx s.now n f))
    (hparent : f "parent_task_id" = (current "parent_task_id").map Json.recode)
    (hchildren : s'.childrenIndex = s.childrenIndex)
    (hlease : ∀ p, home t = some p → s.now + n * 1000 ≤ s.now + 1000 ∨
      Leased (s.childrenIndex p) t (s.now + n * 1000)) : Homed home s' := by
  have hhome : f "parent_task_id" = (home t).map .str := by
    rw [hparent, hs.parents t current hcurrent]
    cases home t <;> simp
  refine ⟨parents_rewrite hs hrecords hhome, ?_, ?_⟩
  · rw [hchildren]
    exact hs.members
  · intro x p e hdeadline hx
    rw [hrecords] at hdeadline
    rw [hchildren, hnow]
    by_cases hxt : x = t
    · subst hxt
      rw [Function.update_self, deadline_setEx] at hdeadline
      obtain rfl := Option.some.inj hdeadline
      exact hlease p hx
    · rw [Function.update_of_ne hxt] at hdeadline
      exact hs.leased x p e hdeadline hx

theorem homed_tick (hs : Homed home s) (ms : Nat) : Homed home (tick ms s) := by
  refine ⟨?_, ?_, ?_⟩
  · intro t record hget
    rcases shrinks_tick ms s t with hsame | hgone
    · unfold getTask at hget
      rw [hsame] at hget
      exact hs.parents t record hget
    · simp [getTask, hgone] at hget
  · intro t p score hfind
    have hpurge : find t ((s.childrenIndex p).purge (s.now + ms)) = some score := hfind
    rcases purge_eq_or (s.now + ms) (s.childrenIndex p) with ⟨hkeep, -⟩ | ⟨hdrop, -⟩
    · show home t = some p ∧ Listed ((s.childrenIndex p).purge (s.now + ms)) t score
      rw [hkeep] at hpurge ⊢
      exact hs.members t p score hpurge
    · rw [hdrop] at hpurge
      simp at hpurge
  · intro t p e hdeadline hhome
    show e ≤ s.now + ms + 1000 ∨ Leased ((s.childrenIndex p).purge (s.now + ms)) t e
    rcases shrinks_tick ms s t with hsame | hgone
    · rw [hsame] at hdeadline
      rcases hs.leased t p e hdeadline hhome with hsoon | hleased
      · exact Or.inl (by omega)
      · rcases purge_eq_or (s.now + ms) (s.childrenIndex p) with ⟨hkeep, -⟩ | ⟨-, d, hd, hle⟩
        · rw [hkeep]
          exact Or.inr hleased
        · -- the key went first: the record has at most a second left
          obtain ⟨score, ⟨-, d', hd', hscore⟩, hlease⟩ := hleased
          obtain rfl : d = d' := Option.some.inj (hd.symm.trans hd')
          exact Or.inl (by omega)
    · simp [hgone] at hdeadline

theorem homed_evict (hs : Homed home s) (t : String) :
    Homed home { s with records := Function.update s.records t none } := by
  have hkept : ∀ x, Function.update s.records t none x ≠ none →
      Function.update s.records t none x = s.records x := by
    intro x hx
    exact (shrinks_evict s t x).resolve_right hx
  refine ⟨?_, hs.members, ?_⟩
  · intro x record hget
    have hlive : Function.update s.records t none x ≠ none := by
      intro hgone
      simp [getTask, hgone] at hget
    apply hs.parents x record
    rw [← hget]
    exact congrArg Cell.get (hkept x hlive).symm
  · intro x p e hdeadline hhome
    have hlive : Function.update s.records t none x ≠ none := by
      intro hgone
      simp [hgone] at hdeadline
    exact hs.leased x p e (hkept x hlive ▸ hdeadline) hhome

theorem childrenIndex_cleanUp_self (p : String) (nowMs : Nat) :
    (cleanUpChildren p nowMs s).childrenIndex p = remRangeByScore nowMs (s.childrenIndex p) :=
  Function.update_self _ _ _

theorem childrenIndex_cleanUp_ne {q : String} (hq : q ≠ p) (nowMs : Nat) :
    (cleanUpChildren p nowMs s).childrenIndex q = s.childrenIndex q :=
  Function.update_of_ne hq _ _

theorem homed_cleanUp (hs : Homed home s) {nowMs : Nat} (hle : nowMs ≤ s.now) (p : String) :
    Homed home (cleanUpChildren p nowMs s) := by
  refine ⟨hs.parents, ?_, ?_⟩
  · intro t q score hfind
    by_cases hq : q = p
    · subst hq
      rw [childrenIndex_cleanUp_self] at hfind ⊢
      obtain ⟨hold, hlt⟩ := find_remRangeByScore.mp hfind
      obtain ⟨ht, hlisted⟩ := hs.members t q score hold
      exact ⟨ht, listed_cleanUp (Int.ofNat_lt.mp hlt) hlisted⟩
    · rw [childrenIndex_cleanUp_ne hq] at hfind ⊢
      exact hs.members t q score hfind
  · intro t q e hdeadline hhome
    rcases hs.leased t q e hdeadline hhome with hsoon | hleased
    · exact Or.inl hsoon
    · by_cases hq : q = p
      · subst hq
        obtain ⟨score, hlisted, hle'⟩ := hleased
        by_cases hlapsed : score ≤ nowMs
        · apply Or.inl
          show e ≤ s.now + 1000
          omega
        · refine Or.inr ⟨score, ?_, hle'⟩
          rw [childrenIndex_cleanUp_self]
          exact listed_cleanUp (by omega) hlisted
      · apply Or.inr
        rw [childrenIndex_cleanUp_ne hq]
        exact hleased

end Index

/-! ## Runs -/

def StaysHome (home : String → Option String) : LineageEvent ν → Prop
  | .call (.initializeTask _ t _ _ _ parent _ _) => parent = home t
  | .call (.updateTask _ _ updates _ _) => updates "parent_task_id" = none
  | _ => True

/-- The script that rewrites the record of `t` lets it expire within half a second of its
lease in the lineage index, or within the next second. -/
def withinLease (cfg : Config) (s : Store ν) (t : String) (expiry : Option Int) : Bool :=
  let expireAt := s.now + rewrittenFor cfg s t expiry * 1000
  match field s t "parent_task_id" with
  | some (.str p) =>
    match find t (s.childrenIndex p) with
    | some score => decide (expireAt ≤ s.now + 1000) || decide (expireAt ≤ score + 500)
    | none => decide (expireAt ≤ s.now + 1000)
  | _ => true

/-- A script that writes nothing may be told any expiry. -/
def keepsLease [DecidableEq ν] [LuaNumber ν] (cfg : Config) (s : State ν) :
    LineageEvent ν → Bool
  | .call (.proceed client) =>
    match (s.calls client).bind (rewrites cfg s.store) with
    | some (t, expiry) => withinLease cfg s.store t expiry
    | none => true
  | _ => true

theorem mem_listChildren {s : Store ν} :
    t ∈ (listChildren p s).1 ↔
      ∃ score, find t (s.childrenIndex p) = some score ∧ s.now < score := by
  show t ∈ range ((cleanUpChildren p s.now s).childrenIndex p) ↔ _
  rw [mem_range, childrenIndex_cleanUp_self]
  simp only [find_remRangeByScore, Int.ofNat_lt]

structure LineageInv (home : String → Option String) (s : State ν) : Prop where
  homed : Homed home s.store
  calls : ∀ c call, s.calls c = some call → CallHomed home call

section Runs

variable {home : String → Option String} {s s' : State ν} {client : Nat} {call : Call ν}

theorem lineageInv_begin (hs : LineageInv home s) (hcall : CallHomed home call)
    (h : begin client call s = some s') : LineageInv home s' := by
  have hstore := (begin_spec h).1
  refine ⟨hstore ▸ hs.homed, ?_⟩
  intro c other hc
  rcases calls_begin h hc with ⟨-, rfl⟩ | ⟨-, hold⟩
  · exact hcall
  · exact hs.calls c other hold

theorem lease_of_withinLease {cfg : Config} {store : Store ν} {expiry : Option Int}
    {record : Fields ν} (hs : Homed home store) (hrecord : getTask t store = some record)
    (hp : home t = some p) (h : withinLease cfg store t expiry = true) :
    store.now + rewrittenFor cfg store t expiry * 1000 ≤ store.now + 1000 ∨
      Leased (store.childrenIndex p) t
        (store.now + rewrittenFor cfg store t expiry * 1000) := by
  have hfield : field store t "parent_task_id" = some (.str p) := by
    simp [field, hrecord, hs.parents t record hrecord, hp]
  simp only [withinLease, hfield] at h
  split at h
  · rename_i score hscore
    rw [Bool.or_eq_true, decide_eq_true_eq, decide_eq_true_eq] at h
    rcases h with hsoon | hlease
    · exact Or.inl hsoon
    · exact Or.inr ⟨score, (hs.members t p score hscore).2, hlease⟩
  · exact Or.inl (decide_eq_true_eq.mp h)

variable [DecidableEq ν] [LuaNumber ν] {cfg : Config}

theorem lineageInv_proceed (hhome : ∀ t, home t ≠ some "") (hs : LineageInv home s)
    (hlease : keepsLease cfg s (.call (.proceed client)) = true)
    (h : step cfg s (.proceed client) = some s') : LineageInv home s' := by
  obtain ⟨call, hcall, rfl⟩ := step_proceed h
  have hhomed := hs.calls client call hcall
  constructor
  · have hnow := now_perform cfg s.store call
    cases (performs cfg s.store call).lineageEffect hhomed with
    | same hrecords hchildren => exact homed_congr hs.homed hnow hrecords hchildren
    | created t parent n f hn hcalled hrecords hparent hchildren =>
      obtain rfl := hcalled home hhomed
      exact homed_created hhome hs.homed hn hnow hrecords hparent hchildren
    | rewritten t expiry current f hcalled hcurrent hrecords hparent hchildren =>
      apply homed_rewritten hs.homed hnow hcurrent hrecords hparent hchildren
      intro p hp
      simp only [keepsLease, hcall, Option.bind_some, hcalled] at hlease
      exact lease_of_withinLease hs.homed hcurrent hp hlease
  · intro c other hc
    rcases calls_proceed hc with ⟨-, hold⟩ | ⟨-, t, updates, expiry, heq, rfl⟩
    · exact hs.calls c other hold
    · rw [heq] at hhomed
      exact hhomed

theorem lineageInv_step (hhome : ∀ t, home t ≠ some "") (hs : LineageInv home s)
    {e : LineageEvent ν} (hstays : StaysHome home e) (hlease : keepsLease cfg s e = true)
    (h : lineageStep cfg s e = some s') : LineageInv home s' := by
  cases e with
  | listChildren p nowMs =>
    simp only [lineageStep] at h
    split at h
    · rename_i hle
      obtain rfl := Option.some.inj h
      exact ⟨homed_cleanUp hs.homed hle p, hs.calls⟩
    · simp at h
  | call event =>
    cases event with
    | initializeTask client t expiry status ifNotExists parent timestamp eid =>
      exact lineageInv_begin hs (by exact hstays) h
    | updateTask client t updates expiry validate =>
      have hcall : CallHomed home (if validate && (updates "status").isSome
          then .validateTransfer t updates expiry else .updateTask t updates expiry) := by
        split <;> exact hstays
      exact lineageInv_begin hs hcall h
    | reopenTask client t status expiry eid => exact lineageInv_begin hs (by trivial) h
    | proceed client => exact lineageInv_proceed hhome hs hlease h
    | listTaskIdsByStatus status nowMs =>
      simp only [lineageStep, step] at h
      split at h
      · obtain rfl := Option.some.inj h
        exact ⟨homed_congr hs.homed rfl rfl rfl, hs.calls⟩
      · simp at h
    | advance ms =>
      obtain rfl := Option.some.inj h
      exact ⟨homed_tick hs.homed ms, hs.calls⟩
    | evict t =>
      obtain rfl := Option.some.inj h
      exact ⟨homed_evict hs.homed t, hs.calls⟩

omit [DecidableEq ν] [LuaNumber ν] in
theorem lineageInv_start (home : String → Option String) (now : Nat) :
    LineageInv home (start now : State ν) := by
  refine ⟨⟨?_, ?_, ?_⟩, ?_⟩
  · intro t record hget
    simp [start, getTask] at hget
  · intro t p score hfind
    simp [start] at hfind
  · intro t p e hdeadline
    simp [start] at hdeadline
  · intro c call hc
    simp [start] at hc

/-- In every run in which each task is initialised under one parent only and no script
rewrites a record past its lease, the lineage index is exact. -/
theorem lineage_index_exact (cfg : Config) (now : Nat) (es : List (LineageEvent ν)) (s : State ν)
    (home : String → Option String) (hhome : ∀ t, home t ≠ some "")
    (hstays : ∀ e ∈ es, StaysHome home e)
    (hlease : Along (lineageStep cfg) (fun s e => keepsLease cfg s e = true) (start now) es)
    (hrun : run (lineageStep cfg) (start now) es = some s) (p : String) :
    (∀ t e, field s.store t "parent_task_id" = some (.str p) →
        (s.store.records t).deadline = some e → s.store.now + 1000 < e →
        t ∈ (listChildren p s.store).1) ∧
      ∀ t ∈ (listChildren p s.store).1, ∀ record, getTask t s.store = some record →
        record "parent_task_id" = some (.str p) := by
  have hinv : LineageInv home s := by
    have hG := (along_of_forall_mem (fun e he _ => hstays e he) (start now)).and hlease
    apply run_invariant_along _ (lineageInv_start home now) hG hrun
    intro u e u' hu hguard hstep
    exact lineageInv_step hhome hu hguard.1 hguard.2 hstep
  constructor
  · intro t e hparent hdeadline hlong
    have ht : home t = some p := by
      obtain ⟨record, hrecord, hfield⟩ := Option.bind_eq_some_iff.mp hparent
      rw [hinv.homed.parents t record hrecord] at hfield
      simpa using hfield
    apply mem_listChildren.mpr
    rcases hinv.homed.leased t p e hdeadline ht with hsoon | ⟨score, hlisted, hle⟩
    · omega
    · exact ⟨score, hlisted.1, by omega⟩
  · intro t ht record hrecord
    obtain ⟨score, hfind, -⟩ := mem_listChildren.mp ht
    rw [hinv.homed.parents t record hrecord, (hinv.homed.members t p score hfind).1]
    rfl

end Runs

def settledChild : List (LineageEvent Int) :=
  [.call (.initializeTask 0 "c" (some 60) "pending" false (some "p") "2026-01-01T00:00:00+00:00"
      "exec-1"), .call (.proceed 0), .call (.advance 700), .listChildren "p" 500,
    .call (.updateTask 0 "c" (setStatus "in_progress") none false), .call (.proceed 0),
    .call (.updateTask 0 "c" (setStatus "completed") (some 30) false), .call (.proceed 0),
    -- refused, so the hour it asks for is of no account
    .call (.updateTask 0 "c" (setStatus "failed") (some 3600) false), .call (.proceed 0)]

theorem lineage_index_exact_settled :
    "c" ∈ (listChildren "p" (replay (lineageStep standard) (start 0) settledChild).store).1 := by
  have hstays : ∀ e ∈ settledChild, StaysHome (fun _ => some "p") e := by
    simp [settledChild, StaysHome, setStatus, Fields.set]
  exact (lineage_index_exact standard 0 settledChild _ (fun _ => some "p") (by simp) hstays
    (by decide) (run_eq_replay (by decide)) "p").1 "c" 30700 rfl rfl (by decide)

def extendedChild : List (LineageEvent Int) :=
  [.call (.initializeTask 0 "c" (some 10) "pending" false (some "p") "2026-01-01T00:00:00+00:00"
      "exec-1"), .call (.proceed 0),
    .call (.updateTask 0 "c" (setStatus "in_progress") (some 100) true), .call (.proceed 0),
    .call (.proceed 0), .call (.advance 11000)]

def adoptedChild : List (LineageEvent Int) :=
  [.call (.initializeTask 0 "c" (some 60) "pending" false (some "p") "2026-01-01T00:00:00+00:00"
      "exec-1"), .call (.proceed 0),
    .call (.initializeTask 0 "c" (some 60) "pending" false (some "q") "2026-01-01T00:00:00+00:00"
      "exec-2"), .call (.proceed 0)]

/-- A child with 89 seconds to live is not listed; another one is listed under a parent
that is not its own. -/
theorem lineage_index_diverges :
    run (lineageStep standard) (start 0) extendedChild =
        some (replay (lineageStep standard) (start 0) extendedChild) ∧
      field (replay (lineageStep standard) (start 0) extendedChild).store "c" "parent_task_id" =
        some (.str "p") ∧
      ((replay (lineageStep standard) (start 0) extendedChild).store.records "c").deadline =
        some 100000 ∧
      (replay (lineageStep standard) (start 0) extendedChild).store.now = 11000 ∧
      (listChildren "p" (replay (lineageStep standard) (start 0) extendedChild).store).1 = [] ∧
      run (lineageStep standard) (start 0) adoptedChild =
        some (replay (lineageStep standard) (start 0) adoptedChild) ∧
      field (replay (lineageStep standard) (start 0) adoptedChild).store "c" "parent_task_id" =
        some (.str "q") ∧
      (listChildren "p" (replay (lineageStep standard) (start 0) adoptedChild).store).1 = ["c"] :=
  ⟨run_eq_replay (by decide), rfl, rfl, rfl, by decide, run_eq_replay (by decide), rfl,
    by decide⟩

end Orditect.TaskStore.Proofs
