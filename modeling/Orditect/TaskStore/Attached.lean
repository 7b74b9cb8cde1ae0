import Orditect.TaskStore.System
/-!
# Attached keys and their time to live

The dependency keys of a task live under the key of its record: the counter
`remaining_deps` and three sets.  A write of one of them is followed by `_sync_attached_ttl`,
an `update_task` by `_follow_attached_keys_ttl`; both read or know the time the record has
left and send an `EXPIRE`.  Calls come one after the other, a command at a time, and the
clock may move between any two commands.
-/

namespace Orditect.TaskStore.Attached

open Support.Expiring Support.LuaJson

variable {ν : Type} [DecidableEq ν] [LuaNumber ν]

inductive Suffix where
  | activeChildren
  | remainingDeps
  | cancelVotes
  | resultConsumers
  deriving DecidableEq

def suffixes : List Suffix := [.activeChildren, .remainingDeps, .cancelVotes, .resultConsumers]

structure Key where
  taskId : String
  suffix : Suffix
  deriving DecidableEq

inductive Value where
  | counter (n : Int)
  | members (ids : List String)

inductive Command where
  | set (n : Int)
  | decr
  | sadd (id : String)

def Command.apply (cell : Cell Value) : Command → Cell Value
  | .set n => Cell.set (.counter n)
  -- a missing counter starts at zero
  | .decr =>
    match cell.get with
    | some (.counter n) => cell.modify (.counter (n - 1))
    | _ => cell.modify (.counter (-1))
  | .sadd id =>
    match cell.get with
    | some (.members ids) => cell.modify (.members (if id ∈ ids then ids else ids ++ [id]))
    | _ => cell.modify (.members [id])

inductive Phase (ν : Type) where
  | script (call : Call ν)
  | write (key : Key) (command : Command)
  | syncTtl (key : Key)
  | syncExists (key : Key) (ownerTtl : Int)
  | followTtl (taskId : String)
  | expire (seconds : Nat) (keys : List Key)

/-- The keys of the server, and what became of one of them.  `owed` says that it was written
for the record that is there now, `lapsed` when it expired first, and `early` that some record
lived on for more than a second after that. -/
structure State (ν : Type) where
  store : Store ν
  attached : Key → Cell Value
  phase : Option (Phase ν)
  owed : Bool
  lapsed : Option Nat
  early : Bool

inductive Event (ν : Type) where
  | initializeTask (taskId : String) (expiry : Option Int) (initialStatus : String)
      (parentTaskId : Option String) (timestamp executionId : String)
  | updateTask (taskId : String) (updates : Fields ν) (expiry : Option Int)
      (validateStatusTransfer : Bool)
  | reopenTask (taskId initialStatus : String) (expiry : Option Int) (executionId : String)
  | setRemainingDeps (taskId : String) (n : Int)
  | decrRemainingDeps (taskId : String)
  | saddActiveChild (parentId childId : String)
  | voteAndCheckThreshold (childId parentId : String)
  | saddResultConsumer (taskId consumerId : String)
  | proceed
  | advance (ms : Nat)

def start (now : Nat) : State ν :=
  ⟨⟨now, fun _ => none, fun _ => none, fun _ => none⟩, fun _ => none, none, false, none, false⟩

def Event.first : Event ν → Option (Phase ν)
  | .initializeTask taskId expiry initialStatus parentTaskId timestamp executionId =>
    some (.script (.initializeTask taskId expiry initialStatus true parentTaskId timestamp
      executionId))
  | .updateTask taskId updates expiry validate =>
    some (.script (if validate && (updates "status").isSome
      then .validateTransfer taskId updates expiry else .updateTask taskId updates expiry))
  | .reopenTask taskId initialStatus expiry executionId =>
    some (.script (.reopenTask taskId initialStatus expiry executionId))
  | .setRemainingDeps taskId n => some (.write ⟨taskId, .remainingDeps⟩ (.set n))
  | .decrRemainingDeps taskId => some (.write ⟨taskId, .remainingDeps⟩ .decr)
  | .saddActiveChild parentId childId => some (.write ⟨parentId, .activeChildren⟩ (.sadd childId))
  | .voteAndCheckThreshold childId parentId =>
    some (.write ⟨childId, .cancelVotes⟩ (.sadd parentId))
  | .saddResultConsumer taskId consumerId =>
    some (.write ⟨taskId, .resultConsumers⟩ (.sadd consumerId))
  | .proceed | .advance _ => none

def expireAll (taskId : String) (seconds : Int) : Option (Phase ν) :=
  if seconds ≤ 0 then none else some (.expire seconds.toNat (suffixes.map (Key.mk taskId)))

/-- `_follow_attached_keys_ttl`, with the expiry `update_task` went by. -/
def followAttachedKeysTtl (taskId : String) (expiry : Int) : Option (Phase ν) :=
  if expiry < 0 then some (.followTtl taskId) else expireAll taskId expiry

/-- When `k` expired first, if it is gone from `attached` while it was owed. -/
def lapse (k : Key) (now : Nat) (attached : Key → Cell Value) (s : State ν) : Option Nat :=
  s.lapsed.or (if s.owed && (attached k).isNone
    then some (min ((s.attached k).deadline.getD now) now) else none)

/-- `k` and the record it belongs to, before and after the clock moved or `k` was sent an
`EXPIRE`: note if `k` is gone while it was owed, and if the record is gone too, by how much
they missed each other. -/
def settle (k : Key) (store : Store ν) (attached : Key → Cell Value) (s : State ν) : State ν :=
  let lapsed := lapse k store.now attached s
  let ended := (store.records k.taskId).isNone
  { s with
    store := store
    attached := attached
    owed := s.owed && (attached k).isSome && !ended
    lapsed := if ended then none else lapsed
    early := s.early || ended && lapsed.any fun d =>
      (s.store.records k.taskId).deadline.any fun expiry => decide (d + 1000 < expiry) }

def proceed (cfg : Config) (k : Key) (s : State ν) : Phase ν → State ν
  | .script (.updateTask taskId updates expiry) =>
    let result := taskUpdate cfg updates (expiry.getD (-1)) taskId s.store
    { s with
      store := result.2
      phase := if result.1 = .ok then followAttachedKeysTtl taskId (expiry.getD (-1)) else none }
  | .script call =>
    let result := perform cfg s.store call
    { s with store := result.2, phase := result.1.map .script }
  | .write key command =>
    { s with
      attached := Function.update s.attached key (command.apply (s.attached key))
      phase := some (.syncTtl key)
      owed := s.owed || (decide (key = k) && (s.store.records k.taskId).isSome) }
  | .syncTtl key =>
    { s with phase := some (.syncExists key ((s.store.records key.taskId).ttl s.store.now)) }
  | .syncExists key ownerTtl =>
    { s with
      phase := if (s.attached key).isNone then none
        else some (.expire (if 0 < ownerTtl then ownerTtl else cfg.defaultExpireTime).toNat
          [key]) }
  | .followTtl taskId =>
    { s with phase := expireAll taskId ((s.store.records taskId).ttl s.store.now) }
  | .expire _ [] => { s with phase := none }
  | .expire seconds (key :: keys) =>
    let cell := (s.attached key).expire s.store.now seconds
    { settle k s.store (Function.update s.attached key cell) s with
      phase := some (.expire seconds keys) }

def step (cfg : Config) (k : Key) (s : State ν) (e : Event ν) : Option (State ν) :=
  match s.phase, e with
  | some phase, .proceed => some (proceed cfg k s phase)
  | _, .advance ms =>
    let store := tick ms s.store
    some (settle k store (fun key => (s.attached key).purge store.now) s)
  | none, e => e.first.map fun phase => { s with phase := some phase }
  | _, _ => none

/-! ## What lets a key expire too early -/

def within (k : Key) (store : Store ν) (d : Nat) : Prop :=
  ∀ expiry ∈ (store.records k.taskId).deadline, expiry ≤ d + 1000

instance (k : Key) (store : Store ν) (d : Nat) : Decidable (within k store d) :=
  inferInstanceAs (Decidable (∀ _ ∈ _, _))

def Succeeds (cfg : Config) (s : State ν) (e : Event ν) : Prop :=
  match s.phase, e with
  | some (.script (.updateTask taskId updates expiry)), .proceed =>
    (taskUpdate cfg updates (expiry.getD (-1)) taskId s.store).1 ≠ .raised
  | _, _ => True

instance (cfg : Config) (s : State ν) (e : Event ν) : Decidable (Succeeds cfg s e) := by
  unfold Succeeds
  split <;> infer_instance

/-- The expiry of the record is moved by more than the second only where the key follows.  A
reopening moves it by no more; an update finds a key that is still there; and the clock does
not run past the expiry of the key while the `EXPIRE` is on its way. -/
def Follows (cfg : Config) (k : Key) (s : State ν) (e : Event ν) : Prop :=
  match s.phase, e with
  | some (.script (.reopenTask taskId status expiry executionId)), .proceed =>
    let store := (perform cfg s.store (.reopenTask taskId status expiry executionId)).2
    (∀ d ∈ s.lapsed, within k store d) ∧
      (s.owed = true → ∀ d ∈ (s.attached k).deadline, within k store d)
  | some (.script (.updateTask taskId updates expiry)), .proceed =>
    let store := (perform cfg s.store (.updateTask taskId updates expiry)).2
    ∀ d ∈ s.lapsed, within k store d
  | some _, .advance ms =>
    s.owed = true → ∀ d ∈ (s.attached k).deadline, d ≤ s.store.now + ms → within k s.store d
  | _, _ => True

instance (cfg : Config) (k : Key) (s : State ν) (e : Event ν) : Decidable (Follows cfg k s e) := by
  unfold Follows
  split <;> infer_instance

end Orditect.TaskStore.Attached
