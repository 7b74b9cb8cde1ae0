import Orditect.Support.Transition
import Orditect.Support.Totals
/-!
# Admission quota

`quota_reserve.lua` and `quota_release.lua` over the three keys of one scope:
the counter of pending units, the sorted set of leases (member = task, score =
time of the last reservation) and the hash of their units.  Totals are small
enough for Lua numbers, so they are exact integers here.
-/

namespace Orditect.Quota

open Support.Expiring Support.SortedSet Support.Totals

structure Store where
  now : Nat
  pending : Cell Int
  leases : Cell (ZSet String)
  units : Cell (Hash String Int)

/-- The `reason` of a reply; `reserved` is the empty one of a fresh admission
and `released` that of a release. -/
inductive Reason where
  | reserved
  | alreadyReserved
  | limitExceeded
  | invalidUnits
  | invalidMaxUnits
  | released
  | notReserved
  deriving DecidableEq, Repr

structure Reply where
  ok : Bool
  reason : Reason
  current : Int
  amount : Int
  deriving DecidableEq, Repr

/-- `tonumber(redis.call("GET", pending_key) or "0")`. -/
def pendingUnits (s : Store) : Int := s.pending.get.getD 0

/-- `math.max(1, math.floor(task_ttl * 2))`. -/
def leasesTtl (taskTtl : Nat) : Nat := max 1 (taskTtl * 2)

/-- One round of the reaping loop.  A dead counter is left dead, so that it is
rebuilt from the surviving leases later. -/
def reapOne (taskTtl : Nat) (s : Store) (expiredTask : String) : Store :=
  match find expiredTask s.units with
  | some expiredUnits =>
    { s with
      pending := s.pending.bind fun counter =>
        (Cell.set (max 0 (counter.value - expiredUnits))).bump s.now (leasesTtl taskTtl)
      units := del expiredTask s.units
      leases := del expiredTask s.leases }
  | none => { s with leases := del expiredTask s.leases }

def reap (taskTtl : Nat) (s : Store) : Store :=
  (rangeByScore ((s.now : Int) - taskTtl * 1000) s.leases).foldl (reapOne taskTtl) s

def leasedUnits (s : Store) : Int :=
  (range s.leases).foldl (fun total member => total + (find member s.units).getD 0) 0

/-- The branch of a task that already has a lease: a retry is a renewal. -/
def renew (taskTtl : Nat) (taskId : String) (s : Store) : Reply × Store :=
  let ttl := leasesTtl taskTtl
  let s := { s with
    leases := (put taskId s.now s.leases).expire s.now ttl
    units := s.units.expire s.now ttl }
  let existingUnits := (find taskId s.units).getD 0
  let s := match s.pending with
    | some _ => { s with pending := s.pending.bump s.now ttl }
    | none => { s with pending := Cell.setEx s.now ttl (leasedUnits s) }
  (⟨true, .alreadyReserved, pendingUnits s, existingUnits⟩, s)

/-- The counter as the quota check reads it, rebuilt when it is dead. -/
def currentUnits (taskTtl : Nat) (s : Store) : Int × Store :=
  match s.pending.get with
  | some current => (current, s)
  | none =>
    let current := leasedUnits s
    if 0 < current then
      (current, { s with pending := Cell.setEx s.now (leasesTtl taskTtl) current })
    else (current, s)

/-- The branch of a task without a lease: quota check, then the lease. -/
def admitTask (units maxUnits : Int) (taskTtl : Nat) (taskId : String) (s : Store) :
    Reply × Store :=
  let ttl := leasesTtl taskTtl
  let (current, s) := currentUnits taskTtl s
  let nextv := current + units
  if maxUnits < nextv then
    (⟨false, .limitExceeded, current, 0⟩, s)
  else
    (⟨true, .reserved, nextv, units⟩,
      { s with
        pending := (Cell.set nextv).bump s.now ttl
        leases := (put taskId s.now s.leases).expire s.now ttl
        units := (put taskId units s.units).expire s.now ttl })

def quotaReserve (units maxUnits : Int) (taskTtl : Nat) (taskId : String) (s : Store) :
    Reply × Store :=
  if units < 0 then
    (⟨false, .invalidUnits, pendingUnits s, 0⟩, s)
  else if maxUnits ≤ 0 then
    (⟨false, .invalidMaxUnits, pendingUnits s, 0⟩, s)
  else
    let s := reap taskTtl s
    match find taskId s.leases with
    | some _ => renew taskTtl taskId s
    | none => admitTask units maxUnits taskTtl taskId s

def quotaRelease (taskId : String) (fallbackTtl : Nat) (s : Store) : Reply × Store :=
  match find taskId s.leases with
  | none => (⟨true, .notReserved, pendingUnits s, 0⟩, s)
  | some _ =>
    let units := (find taskId s.units).getD 0
    let pttl := s.pending.ttl s.now
    let nextv := max 0 (pendingUnits s - units)
    let pending : Cell Int :=
      if nextv = 0 ∧ pttl ≤ 0 then none
      else if 0 < pttl then (Cell.set nextv).expire s.now pttl.toNat
      else (Cell.set nextv).expire s.now fallbackTtl
    (⟨true, .released, nextv, units⟩,
      { s with pending := pending, leases := del taskId s.leases, units := del taskId s.units })

/-! ## Runs of one scope -/

/-- The task time to live all callers of the scope use, and the fallback the
release side passes. -/
structure Config where
  taskTtl : Nat
  fallbackTtl : Nat
  ttl_pos : 1 ≤ taskTtl

structure Lease where
  units : Int
  since : Nat
  deriving DecidableEq, Repr

/-- The store and the history: the leases that were admitted and not released,
with the time they were reserved or last renewed. -/
structure State where
  store : Store
  ledger : Hash String Lease

inductive Event where
  | reserve (taskId : String) (units maxUnits : Int)
  | release (taskId : String)
  | advance (ms : Nat)
  deriving DecidableEq

def start (now : Nat) : State := ⟨⟨now, none, none, none⟩, ∅⟩

/-- The history after a reservation was answered: a renewal keeps the units of
the lease it renews. -/
def record (taskId : String) (units : Int) (now : Nat) (reason : Reason)
    (ledger : Hash String Lease) : Hash String Lease :=
  match reason with
  | .reserved => ledger.insert taskId ⟨units, now⟩
  | .alreadyReserved =>
    match ledger.lookup taskId with
    | some lease => ledger.insert taskId ⟨lease.units, now⟩
    | none => ledger
  | _ => ledger

def tick (ms : Nat) (s : Store) : Store :=
  let now := s.now + ms
  ⟨now, s.pending.purge now, s.leases.purge now, s.units.purge now⟩

def step (cfg : Config) (s : State) : Event → Option State
  | .reserve taskId units maxUnits =>
    let (reply, store) := quotaReserve units maxUnits cfg.taskTtl taskId s.store
    some ⟨store, record taskId units s.store.now reply.reason s.ledger⟩
  | .release taskId =>
    some ⟨(quotaRelease taskId cfg.fallbackTtl s.store).2, s.ledger.erase taskId⟩
  | .advance ms => some { s with store := tick ms s.store }

def Young (cfg : Config) (now : Nat) (lease : Lease) : Prop :=
  now < lease.since + cfg.taskTtl * 1000

instance (cfg : Config) (now : Nat) (lease : Lease) : Decidable (Young cfg now lease) :=
  inferInstanceAs (Decidable (_ < _))

def youngLeases (cfg : Config) (s : State) : Hash String Lease :=
  filterEntries (fun _ lease => decide (Young cfg s.store.now lease)) s.ledger

def youngUnits (cfg : Config) (s : State) : Int := total Lease.units (youngLeases cfg s)

end Orditect.Quota
