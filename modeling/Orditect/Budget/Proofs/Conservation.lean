import Orditect.Budget.Ledger
import Orditect.Quota.Proofs.Admission
/-!
# Conservation of the budget

A ledger's calls are reservations of its quota scope, so the invariant of the
quota carries over: while every charge is young, the hash of the scope holds the
charges and nothing else but the zero units of `open()`, and the counter equals
their sum.  A charge that grows older than the time to live is reaped by the next
call like any lease, and its units come back.
-/

namespace Orditect.Budget.Proofs

open Support.Expiring Support.SortedSet Support.Totals Support.Transition
open Quota (Store Lease quotaReserve pendingUnits tick reap record)
open Quota.Proofs (heldUnits CounterIn Reserved)

/-- The quota's history of leases `ledger` is the history of the charges, together with
the zero units of `open()`. -/
structure Backed (cfg : Config) (ledger : Hash String Lease) (s : State) : Prop where
  quota : Quota.Proofs.Inv (0 ≤ ·) cfg.quota ⟨s.store, ledger⟩
  same : ∀ id, id ≠ ledgerId → ledger.lookup id = s.charged.lookup id
  free : ∀ lease, ledger.lookup ledgerId = some lease → lease.units = 0
  unused : s.charged.lookup ledgerId = none

structure Inv (cfg : Config) (s : State) : Prop where
  backed : ∃ ledger, Backed cfg ledger s
  counted : pendingUnits s.store = spent s

section Calls

variable {cfg : Config} {ledger : Hash String Lease} {s : State}

variable {id : String} {lease : Lease} {s' : State} {callId : String} {units : Int}

theorem young_of_allYoung (h : AllYoung cfg s) (hid : s.charged.lookup id = some lease) :
    s.store.now < lease.since + cfg.ttl * 1000 :=
  h _ (AList.mem_lookup_iff.mp hid)

theorem find_units_of_charged (h : Backed cfg ledger s) (hyoung : AllYoung cfg s)
    (hid : s.charged.lookup id = some lease) :
    find id s.store.leases = some lease.since ∧ find id s.store.units = some lease.units := by
  have hne : id ≠ ledgerId := by
    rintro rfl
    rw [h.unused] at hid
    simp at hid
  have hlook : ledger.lookup id = some lease := (h.same id hne).trans hid
  have hlease := h.quota.kept id lease hlook (young_of_allYoung hyoung hid)
  obtain ⟨u, hu, hrec⟩ := h.quota.recorded id lease.since hlease
  have hunits : lease = ⟨u, lease.since⟩ := Option.some.inj (hlook.symm.trans hrec)
  rw [hunits]
  exact ⟨hlease, hu⟩

theorem charged_of_find_units (h : Backed cfg ledger s) {u : Int}
    (hid : find id s.store.units = some u) :
    (id = ledgerId ∧ u = 0) ∨ ∃ since, s.charged.lookup id = some ⟨u, since⟩ := by
  obtain ⟨score, hscore⟩ := (h.quota.sound.members id).mpr ⟨u, hid⟩
  obtain ⟨v, hv, hlook⟩ := h.quota.recorded id score hscore
  obtain rfl : v = u := Option.some.inj (hv.symm.trans hid)
  by_cases hne : id = ledgerId
  · subst hne
    exact Or.inl ⟨rfl, h.free _ hlook⟩
  · exact Or.inr ⟨score, (h.same id hne).symm.trans hlook⟩

theorem heldUnits_eq_spent (h : Backed cfg ledger s) (hyoung : AllYoung cfg s) :
    heldUnits s.store = spent s := by
  -- the zero units of `open()` are taken out before the lookups are compared
  have hrest : total id ((content s.store.units).erase ledgerId) = spent s := by
    refine total_congr fun t => ?_
    rw [Option.map_id, id_eq]
    by_cases ht : t = ledgerId
    · subst ht
      rw [AList.lookup_erase, h.unused]
      rfl
    · rw [AList.lookup_erase_ne ht]
      cases hcharge : s.charged.lookup t with
      | some lease => exact (find_units_of_charged h hyoung hcharge).2
      | none =>
        refine Option.eq_none_iff_forall_ne_some.mpr fun u hu => ?_
        rcases charged_of_find_units h hu with ⟨hledger, -⟩ | ⟨since, hsince⟩
        · exact ht hledger
        · rw [hcharge] at hsince
          simp at hsince
  rw [← hrest]
  cases hledger : find ledgerId s.store.units with
  | none =>
    refine total_congr fun t => ?_
    by_cases ht : t = ledgerId
    · subst ht
      rw [AList.lookup_erase]
      exact congrArg (Option.map id) hledger
    · rw [AList.lookup_erase_ne ht]
  | some u =>
    have hzero : u = 0 := by
      rcases charged_of_find_units h hledger with ⟨-, hu⟩ | ⟨since, hsince⟩
      · exact hu
      · rw [h.unused] at hsince
        simp at hsince
    have herase := total_erase id hledger
    rw [herase, hzero]
    simp [heldUnits]

theorem quota_reserveUnits (h : Backed cfg ledger s) (hcount : pendingUnits s.store = spent s)
    (hyoung : AllYoung cfg s) (taskId : String) (units maxUnits : Int) :
    Quota.Proofs.Inv (0 ≤ ·) cfg.quota
        ⟨(reserveUnits cfg taskId units maxUnits s.store).2, record taskId units s.store.now
          (reserveUnits cfg taskId units maxUnits s.store).1.reason ledger⟩ ∧
      pendingUnits (reserveUnits cfg taskId units maxUnits s.store).2 =
        heldUnits (reserveUnits cfg taskId units maxUnits s.store).2 ∧
      (reserveUnits cfg taskId units maxUnits s.store).2.now = s.store.now :=
  ⟨Quota.Proofs.inv_reserve le_rfl (fun _ hd => hd) h.quota rfl,
    Quota.Proofs.pendingUnits_quotaReserve h.quota.sound
      (hcount.trans (heldUnits_eq_spent h hyoung).symm) taskId units maxUnits,
    Quota.Proofs.now_quotaReserve le_rfl (fun _ hd => hd) h.quota.sound h.quota.counter
      taskId units maxUnits⟩

theorem inv_open (h : Inv cfg s) (hyoung : AllYoung cfg s)
    (hstep : step cfg s .openLedger = some s') : Inv cfg s' := by
  obtain ⟨⟨ledger, hb⟩, hcount⟩ := h
  obtain ⟨hinv, hexact, hnow⟩ := quota_reserveUnits hb hcount hyoung ledgerId 0 cfg.maxUnits
  obtain rfl := Option.some.inj hstep
  generalize hreply : reserveUnits cfg ledgerId 0 cfg.maxUnits s.store = result at hinv hexact hnow
  have hstore : (openLedger cfg s.store).2 = result.2 := congrArg Prod.snd hreply
  have hb' : Backed cfg (record ledgerId 0 s.store.now result.1.reason ledger)
      ⟨(openLedger cfg s.store).2, s.charged, some s.store.now⟩ := by
    refine ⟨hstore ▸ hinv, ?_, ?_, hb.unused⟩
    · intro id hne
      rw [Quota.Proofs.lookup_record_ne hne]
      exact hb.same id hne
    · intro lease hlease
      exact Quota.Proofs.units_record hb.free rfl hlease
  refine ⟨⟨_, hb'⟩, ?_⟩
  have hyoung' : AllYoung cfg ⟨(openLedger cfg s.store).2, s.charged, some s.store.now⟩ := by
    intro e he
    rw [hstore, hnow]
    exact hyoung e he
  rw [← heldUnits_eq_spent hb' hyoung', hstore]
  exact hexact

theorem lookup_record_charge (h : Backed cfg ledger s) (hyoung : AllYoung cfg s)
    (hok : Accepted cfg s units callId) (hne : callId ≠ ledgerId) :
    (record callId units s.store.now
        (reserveUnits cfg callId units (cfg.maxUnits * 1000) s.store).1.reason
        ledger).lookup callId =
      (enter units callId s.store.now s.charged).lookup callId := by
  have hD : ∀ d : Int, 0 ≤ d → 0 ≤ d := fun _ hd => hd
  have hsame := h.same callId hne
  have hcases := Quota.Proofs.reserved_quotaReserve le_rfl hD h.quota.sound h.quota.counter callId
    units (cfg.maxUnits * 1000)
  change (quotaReserve units (cfg.maxUnits * 1000) cfg.ttl callId s.store).1.ok = true at hok
  change Reserved _ _ _ _ _ _ (quotaReserve units (cfg.maxUnits * 1000) cfg.ttl callId s.store)
    at hcases
  unfold reserveUnits
  generalize quotaReserve units (cfg.maxUnits * 1000) cfg.ttl callId s.store = result
    at hcases hok ⊢
  rw [enter, AList.lookup_insert]
  cases hcases with
  | invalid reply hfalse _ =>
    rw [hfalse] at hok
    simp at hok
  | renewed reply store score hold hreason _ =>
    have hlease := ((Quota.Proofs.find_leases_reap hD h.quota.sound h.quota.counter).mp hold).1
    obtain ⟨u, -, hlook⟩ := h.quota.recorded callId score hlease
    change ledger.lookup callId = some ⟨u, score⟩ at hlook
    simp only [record, hreason, ← hsame, hlook, AList.lookup_insert, Option.map_some,
      Option.getD_some]
  | rejected => simp at hok
  | admitted current store hnew _ _ _ _ =>
    -- a young charge would have kept its lease
    have hfirst : s.charged.lookup callId = none := by
      refine Option.eq_none_iff_forall_ne_some.mpr fun lease hlease => ?_
      have hfind := (find_units_of_charged h hyoung hlease).1
      have hkept := (Quota.Proofs.find_leases_reap hD h.quota.sound h.quota.counter).mpr
        ⟨hfind, young_of_allYoung hyoung hlease⟩
      have hnone := hnew.symm.trans hkept
      simp at hnone
    simp only [record, hfirst, AList.lookup_insert, Option.map_none, Option.getD_none]

theorem inv_charge (h : Inv cfg s) (hG : Remembered cfg s (.charge units callId))
    (hstep : step cfg s (.charge units callId) = some s') : Inv cfg s' := by
  obtain ⟨hpos, hok, hne, hyoung⟩ := hG
  obtain ⟨⟨ledger, hb⟩, hcount⟩ := h
  obtain ⟨hinv, hexact, hnow⟩ := quota_reserveUnits hb hcount hyoung callId units
    (cfg.maxUnits * 1000)
  have hrecord := lookup_record_charge hb hyoung hok hne
  simp only [step, if_pos hpos, Option.some.injEq] at hstep
  subst hstep
  generalize hreply : reserveUnits cfg callId units (cfg.maxUnits * 1000) s.store = result
    at hinv hexact hnow hrecord
  have hstore : (charge cfg units callId s.store).store = result.2 := by
    simp only [charge, if_neg (not_le.mpr hpos), hreply]
  simp only [hstore]
  have hb' : Backed cfg (record callId units s.store.now result.1.reason ledger)
      ⟨result.2, enter units callId s.store.now s.charged, some s.store.now⟩ := by
    refine ⟨hinv, ?_, ?_, ?_⟩
    · intro id hid
      by_cases hcall : id = callId
      · rw [hcall]
        exact hrecord
      · rw [Quota.Proofs.lookup_record_ne hcall]
        exact (hb.same id hid).trans (AList.lookup_insert_ne hcall).symm
    · intro lease hlease
      rw [Quota.Proofs.lookup_record_ne hne.symm] at hlease
      exact hb.free lease hlease
    · exact (AList.lookup_insert_ne hne.symm).trans hb.unused
  refine ⟨⟨_, hb'⟩, ?_⟩
  have hyoung' : AllYoung cfg
      ⟨result.2, enter units callId s.store.now s.charged, some s.store.now⟩ := by
    intro e he
    have httl := cfg.ttl_pos
    have hlook : (enter units callId s.store.now s.charged).lookup e.1 = some e.2 :=
      AList.mem_lookup_iff.mpr he
    rw [hnow]
    by_cases hcall : e.1 = callId
    · rw [hcall, enter, AList.lookup_insert] at hlook
      have hsince : s.store.now = e.2.since := congrArg Lease.since (Option.some.inj hlook)
      omega
    · rw [enter, AList.lookup_insert_ne hcall] at hlook
      exact young_of_allYoung hyoung hlook
  exact hexact.trans (heldUnits_eq_spent hb' hyoung')

theorem inv_advance (h : Inv cfg s) {ms : Nat} (hG : Remembered cfg s (.advance ms))
    (hstep : step cfg s (.advance ms) = some s') : Inv cfg s' := by
  obtain ⟨⟨ledger, hb⟩, hcount⟩ := h
  obtain rfl := Option.some.inj hstep
  have hinv := Quota.Proofs.inv_advance hb.quota
    (Quota.Proofs.counter_tick_nonneg hb.quota.sound hb.quota.counter ms) rfl
  refine ⟨⟨ledger, hinv, hb.same, hb.free, hb.unused⟩, ?_⟩
  change pendingUnits (tick ms s.store) = spent s
  cases hpend : (tick ms s.store).pending.get with
  | some p =>
    rw [← hcount, pendingUnits, pendingUnits, hpend, Quota.Proofs.pending_tick hpend]
  | none =>
    rw [pendingUnits, hpend, hG (get_eq_none.mp hpend), Option.getD_none]

end Calls

theorem inv_start (cfg : Config) (now : Nat) : Inv cfg (start now) :=
  ⟨⟨∅, Quota.Proofs.inv_start _ _ now, fun _ _ => rfl, by simp, rfl⟩, rfl⟩

/-- Conservation of the budget: in every run in which nothing spent is forgotten, the
balance is the budget minus the first charges of the distinct call ids. -/
theorem balance_conserved (cfg : Config) (now : Nat) (es : List Event) (s : State)
    (hG : Along (step cfg) (Remembered cfg) (start now) es)
    (hrun : run (step cfg) (start now) es = some s) :
    balance cfg s.store = cfg.maxUnits - spent s := by
  have hinv : Inv cfg s := by
    refine run_invariant_along ?_ (inv_start cfg now) hG hrun
    intro s e s' h hguard hstep
    cases e with
    | openLedger => exact inv_open h hguard hstep
    | charge units callId => exact inv_charge h hguard hstep
    | advance ms => exact inv_advance h hguard hstep
  rw [balance, hinv.counted]

def hundred : Config := ⟨100, 1, 604800, by decide⟩

def burst : List Event :=
  [.openLedger, .charge 10 "a", .advance 600, .charge 10 "b", .charge 25 "a", .advance 900,
    .charge 10 "c"]

theorem balance_conserved_burst :
    spent (replay (step hundred) (start 0) burst) = 30 ∧
      balance hundred (replay (step hundred) (start 0) burst).store = 70 := by
  have hspent : spent (replay (step hundred) (start 0) burst) = 30 := by decide
  have hbal := balance_conserved hundred 0 burst _ (by decide) (run_eq_replay (by decide))
  rw [hspent] at hbal
  exact ⟨hspent, hbal⟩

def steady : List Event :=
  [.openLedger, .charge 10 "a", .advance 900, .charge 10 "b", .advance 900, .charge 10 "c"]

/-- The ledger is in continuous use, and the third call gives back the units of the
first. -/
theorem budget_regained_in_use :
    Along (step hundred) (InUse hundred) (start 0) steady ∧
      run (step hundred) (start 0) steady = some (replay (step hundred) (start 0) steady) ∧
      spent (replay (step hundred) (start 0) steady) = 30 ∧
      balance hundred (replay (step hundred) (start 0) steady).store = 80 :=
  ⟨by decide, run_eq_replay (by decide), by decide, by decide⟩

end Orditect.Budget.Proofs
