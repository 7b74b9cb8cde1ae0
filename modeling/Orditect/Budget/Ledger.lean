import Orditect.Quota.Scripts
/-!
# Budget ledger

`BudgetLedger` keeps the spent units of a task tree as admission-quota leases of
one scope: `open()` leases zero units under `__ledger__`, every charge leases its
units under its `call_id`, and the balance is read off the pending counter.
-/

namespace Orditect.Budget

open Support.SortedSet Support.Totals
open Quota (Store Reason Reply Lease quotaReserve pendingUnits tick)

/-- The arguments of one ledger and the default expiry of its quota database. -/
structure Config where
  maxUnits : Int
  taskTtlSec : Int
  defaultExpireTime : Nat
  default_pos : 1 ≤ defaultExpireTime

def Config.ttl (cfg : Config) : Nat :=
  if cfg.taskTtlSec ≤ 0 then cfg.defaultExpireTime else cfg.taskTtlSec.toNat

theorem Config.ttl_pos (cfg : Config) : 1 ≤ cfg.ttl := by
  have hdefault := cfg.default_pos
  unfold Config.ttl
  split <;> omega

def Config.quota (cfg : Config) : Quota.Config := ⟨cfg.ttl, cfg.defaultExpireTime, cfg.ttl_pos⟩

def ledgerId : String := "__ledger__"

def reserveUnits (cfg : Config) (taskId : String) (units maxUnits : Int) (s : Store) :
    Reply × Store :=
  quotaReserve units maxUnits cfg.ttl taskId s

def balance (cfg : Config) (s : Store) : Int := cfg.maxUnits - pendingUnits s

/-- `open()`; a refused registration raises with the reason. -/
def openLedger (cfg : Config) (s : Store) : Except Reason Unit × Store :=
  let (result, s) := reserveUnits cfg ledgerId 0 cfg.maxUnits s
  (if result.ok then .ok () else .error result.reason, s)

/-- `check()`; the error carries the exhausted balance. -/
def check (cfg : Config) (s : Store) : Except Int Unit :=
  let balance := balance cfg s
  if balance ≤ 0 then .error balance else .ok ()

structure AuditRecord where
  callId : String
  units : Int
  balanceAfter : Int
  deriving DecidableEq, Repr

/-- `charge()`: the balance it returns, the audit record it writes and the reply of
the quota, which is only logged. -/
structure Settlement where
  balance : Int
  audit : Option AuditRecord
  result : Option Reply
  store : Store

def charge (cfg : Config) (units : Int) (callId : String) (s : Store) : Settlement :=
  if units ≤ 0 then ⟨balance cfg s, none, none, s⟩
  else
    -- the limit is enlarged: a charge records what was spent and intercepts nothing
    let (result, s) := reserveUnits cfg callId units (cfg.maxUnits * 1000) s
    let balance := balance cfg s
    ⟨balance, some ⟨callId, units, balance⟩, some result, s⟩

/-! ## Runs of one ledger -/

/-- The store and the history: the units of the first charge under each call id with
the time of the last one, and the time of the last call. -/
structure State where
  store : Store
  charged : Hash String Lease
  lastCall : Option Nat

inductive Event where
  | openLedger
  | charge (units : Int) (callId : String)
  | advance (ms : Nat)
  deriving DecidableEq

def start (now : Nat) : State := ⟨⟨now, none, none, none⟩, ∅, none⟩

def enter (units : Int) (callId : String) (now : Nat) (charged : Hash String Lease) :
    Hash String Lease :=
  charged.insert callId ⟨((charged.lookup callId).map Lease.units).getD units, now⟩

def step (cfg : Config) (s : State) : Event → Option State
  | .openLedger => some ⟨(openLedger cfg s.store).2, s.charged, some s.store.now⟩
  | .charge units callId =>
    if 0 < units then
      some ⟨(charge cfg units callId s.store).store,
        enter units callId s.store.now s.charged, some s.store.now⟩
    else some s
  | .advance ms => some { s with store := tick ms s.store }

/-- The sum, over the distinct call ids, of the units of their first charge. -/
def spent (s : State) : Int := total Lease.units s.charged

/-- The call ids charged so far were all charged less than the time to live ago. -/
def AllYoung (cfg : Config) (s : State) : Prop :=
  ∀ e ∈ s.charged.entries, s.store.now < e.2.since + cfg.ttl * 1000

def Accepted (cfg : Config) (s : State) (units : Int) (callId : String) : Prop :=
  (reserveUnits cfg callId units (cfg.maxUnits * 1000) s.store).1.ok = true

instance (cfg : Config) (s : State) : Decidable (AllYoung cfg s) :=
  inferInstanceAs (Decidable (∀ e ∈ s.charged.entries, _))

instance (cfg : Config) (s : State) (units : Int) (callId : String) :
    Decidable (Accepted cfg s units callId) :=
  inferInstanceAs (Decidable (_ = true))

/-- A ledger in continuous use: consecutive calls are less than the time to live
apart and no charge is rejected. -/
def InUse (cfg : Config) (s : State) : Event → Prop
  | .openLedger => True
  | .charge units callId => 0 < units ∧ Accepted cfg s units callId
  | .advance ms => ∀ t ∈ s.lastCall, s.store.now + ms < t + cfg.ttl * 1000

/-- Nothing spent is forgotten: at every call all charges are young, the counter does
not lapse while something is spent, and no charge uses the id of the ledger itself. -/
def Remembered (cfg : Config) (s : State) : Event → Prop
  | .openLedger => AllYoung cfg s
  | .charge units callId =>
    0 < units ∧ Accepted cfg s units callId ∧ callId ≠ ledgerId ∧ AllYoung cfg s
  | .advance ms => (tick ms s.store).pending = none → spent s = 0

instance (cfg : Config) (s : State) : ∀ e, Decidable (InUse cfg s e)
  | .openLedger => isTrue trivial
  | .charge units callId => inferInstanceAs (Decidable (0 < units ∧ Accepted cfg s units callId))
  | .advance _ => inferInstanceAs (Decidable (∀ t ∈ s.lastCall, _))

instance (cfg : Config) (s : State) : ∀ e, Decidable (Remembered cfg s e)
  | .openLedger => inferInstanceAs (Decidable (AllYoung cfg s))
  | .charge units callId => inferInstanceAs
      (Decidable (0 < units ∧ Accepted cfg s units callId ∧ callId ≠ ledgerId ∧ AllYoung cfg s))
  | .advance _ => inferInstanceAs (Decidable (_ → _))

end Orditect.Budget
