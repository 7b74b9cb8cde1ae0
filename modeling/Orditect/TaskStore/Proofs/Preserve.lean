import Orditect.TaskStore.Proofs.Terminal
/-!
# Calls that keep the expiry of a record

Without an expiry, `update_task` and `reopen_task` read the remaining life of the record in
whole seconds and write it back with that many seconds to live.  The reading is rounded to
the nearest second, so each rewrite may move the expiry instant by up to half a second in
either direction, and a reading of zero is taken for a record without one.
-/

namespace Orditect.TaskStore.Preserve.Proofs

open Support.Expiring Support.LuaJson Support.Transition TaskStore.Proofs

variable {ν : Type}

def Keeps (t : String) : Call ν → Prop
  | .updateTask x _ expiry => x = t ∧ expiry = none
  | .reopenTask x _ expiry _ => x = t ∧ expiry = none
  | _ => False

def expiresAt (t : String) (s : Store ν) : Option Nat := (s.records t).deadline

/-- By how much a gap between two writes misses a whole number of seconds, between -499 ms and
500 ms. -/
def offset (gap : Nat) : Int :=
  if gap % 1000 ≤ 500 then (gap % 1000 : Nat) else (gap % 1000 : Nat) - 1000

/-- The store, the time since the record was last written, and the sum of the offsets of the
gaps between its writes so far. -/
structure Kept (ν : Type) where
  store : Store ν
  since : Nat
  drift : Int

section

variable [DecidableEq ν] [LuaNumber ν]

def accepted (cfg : Config) (t : String) (s : Store ν) (call : Call ν) : Bool :=
  (getTask t s).any fun current =>
    let oldStatus := Json.orEmpty (current "status")
    match call with
    | .updateTask _ updates _ =>
      oldStatus.luaEq ((updates "status").getD oldStatus) || !isTerminal cfg oldStatus
    | .reopenTask .. => isTerminal cfg oldStatus
    | _ => false

def serve (cfg : Config) (t : String) (s : Kept ν) (c : Nat × Call ν) : Option (Kept ν) :=
  let store := tick c.1 s.store
  let since := s.since + c.1
  let next := (perform cfg store c.2).2
  some (if accepted cfg t store c.2 then ⟨next, 0, s.drift + offset since⟩
    else ⟨next, since, s.drift⟩)

def timely (cfg : Config) (t : String) (s : Kept ν) (c : Nat × Call ν) : Prop :=
  accepted cfg t (tick c.1 s.store) c.2 = true →
    ∀ d ∈ expiresAt t s.store, s.store.now + c.1 + 500 ≤ d

instance (cfg : Config) (t : String) (s : Kept ν) (c : Nat × Call ν) :
    Decidable (timely cfg t s c) := by
  unfold timely
  infer_instance

end

/-- While the record is there, it expires a whole number of seconds after its last write, and
`drift` after the instant it was given at first. -/
structure Aligned (t : String) (first : Nat) (s : Kept ν) : Prop where
  exists_expiresAt : s.store.records t ≠ none → ∃ d, expiresAt t s.store = some d
  wholeSeconds : ∀ d, expiresAt t s.store = some d →
    ∃ written n, s.store.now = written + s.since ∧ d = written + n * 1000
  drifted : ∀ d, expiresAt t s.store = some d → (d : Int) = first + s.drift

theorem rounded_expiry {d now written since n : Nat} (hnow : now = written + since)
    (hd : d = written + n * 1000) (hle : now + 500 ≤ d) :
    0 < (d - now + 500) / 1000 ∧
      ((now + (d - now + 500) / 1000 * 1000 : Nat) : Int) = d + offset since := by
  unfold offset
  split <;> omega

section

variable [DecidableEq ν] [LuaNumber ν] {cfg : Config} {t : String}

theorem records_of_refused {s : Store ν} {call : Call ν} (hkeeps : Keeps t call)
    (h : accepted cfg t s call = false) : (perform cfg s call).2.records = s.records := by
  cases call with
  | updateTask x updates expiry =>
    obtain ⟨rfl, rfl⟩ := hkeeps
    dsimp only [perform]
    unfold taskUpdate
    cases hget : (s.records x).get with
    | none => rfl
    | some current =>
      rw [accepted, getTask, hget, Option.any_some] at h
      simp only [Bool.or_eq_false_iff, Bool.not_eq_false'] at h
      simp [h.1, h.2]
  | reopenTask x status expiry eid =>
    obtain ⟨rfl, rfl⟩ := hkeeps
    dsimp only [perform]
    unfold taskReopen
    cases hget : (s.records x).get with
    | none => rfl
    | some current =>
      rw [accepted, getTask, hget, Option.any_some] at h
      simp only at h
      simp [h]
  | initializeTask | validateTransfer => exact absurd hkeeps id

theorem expiresAt_of_accepted {s : Store ν} {call : Call ν} (hkeeps : Keeps t call)
    (h : accepted cfg t s call = true) {n : Nat} (hn : 0 < n) (httl : (s.records t).ttl s.now = n) :
    expiresAt t (perform cfg s call).2 = some (s.now + n * 1000) := by
  have heffective : effectiveExpiry cfg (-1) ((s.records t).ttl s.now) = n := by
    simp [effectiveExpiry, httl, hn]
  cases call with
  | updateTask x updates expiry =>
    obtain ⟨rfl, rfl⟩ := hkeeps
    dsimp only [perform]
    unfold taskUpdate
    cases hget : (s.records x).get with
    | none => simp [accepted, getTask, hget] at h
    | some current =>
      rw [accepted, getTask, hget, Option.any_some] at h
      simp only [Bool.or_eq_true, Bool.not_eq_true'] at h
      have hpass : (!(Json.orEmpty (current "status")).luaEq
          ((updates "status").getD (Json.orEmpty (current "status"))) &&
          isTerminal cfg (Json.orEmpty (current "status"))) = false := by
        rcases h with h | h <;> simp [h]
      simp only [Option.getD_none, heffective, hpass, Bool.false_eq_true, if_false]
      rw [if_neg (by omega), expiresAt, (migrateStatus_frame ..).2.1]
      simp [setRecord]
  | reopenTask x status expiry eid =>
    obtain ⟨rfl, rfl⟩ := hkeeps
    dsimp only [perform]
    unfold taskReopen
    cases hget : (s.records x).get with
    | none => simp [accepted, getTask, hget] at h
    | some current =>
      rw [accepted, getTask, hget, Option.any_some] at h
      simp only at h
      simp only [Option.getD_none, heffective, h, Bool.not_true, Bool.false_eq_true, if_false]
      rw [if_neg (by omega)]
      split <;> split <;> simp [expiresAt, setRecord, dropStatus, leaseStatus]
  | initializeTask | validateTransfer => exact absurd hkeeps id

theorem aligned_serve {first : Nat} {s s' : Kept ν} {c : Nat × Call ν} (hs : Aligned t first s)
    (hkeeps : Keeps t c.2) (htimely : timely cfg t s c) (h : serve cfg t s c = some s') :
    Aligned t first s' := by
  have hnow := now_perform cfg (tick c.1 s.store) c.2
  rw [serve, Option.some.injEq] at h
  cases haccepted : accepted cfg t (tick c.1 s.store) c.2 with
  | false =>
    rw [haccepted, if_neg (by decide)] at h
    subst h
    have hrecords := records_of_refused hkeeps haccepted
    -- the clock has moved on, or the record has expired meanwhile
    rcases purge_eq_or (s.store.now + c.1) (s.store.records t) with ⟨hsame, -⟩ | ⟨hgone, -⟩
    · have hcell : (perform cfg (tick c.1 s.store) c.2).2.records t = s.store.records t := by
        rw [hrecords]
        exact hsame
      have hexpires : expiresAt t (perform cfg (tick c.1 s.store) c.2).2 = expiresAt t s.store :=
        congrArg Cell.deadline hcell
      refine ⟨?_, ?_, ?_⟩
      · dsimp only
        rw [hcell, hexpires]
        exact hs.exists_expiresAt
      · dsimp only
        rw [hexpires, hnow]
        intro d hd
        obtain ⟨written, n, hwritten, hn⟩ := hs.wholeSeconds d hd
        exact ⟨written, n, by simp only [tick]; omega, hn⟩
      · dsimp only
        rw [hexpires]
        exact hs.drifted
    · have hcell : (perform cfg (tick c.1 s.store) c.2).2.records t = none := by
        rw [hrecords]
        exact hgone
      refine ⟨fun hne => absurd hcell hne, ?_, ?_⟩ <;>
      · intro d hd
        simp [expiresAt, hcell] at hd
  | true =>
    rw [haccepted, if_pos rfl] at h
    subst h
    obtain ⟨current, hcurrent⟩ : ∃ current, getTask t (tick c.1 s.store) = some current := by
      rw [accepted, Option.any_eq_true] at haccepted
      obtain ⟨current, hcurrent, -⟩ := haccepted
      exact ⟨current, hcurrent⟩
    -- the record is still there, so the cell is the one of the last write
    have hcell : (tick c.1 s.store).records t = s.store.records t := by
      rcases purge_eq_or (s.store.now + c.1) (s.store.records t) with ⟨hsame, -⟩ | ⟨hgone, -⟩
      · exact hsame
      · have hmissing : (tick c.1 s.store).records t = none := hgone
        simp [getTask, hmissing] at hcurrent
    have hpresent : s.store.records t ≠ none := by
      intro hnone
      simp [getTask, hcell, hnone] at hcurrent
    obtain ⟨d, hd⟩ := hs.exists_expiresAt hpresent
    obtain ⟨written, n, hwritten, hn⟩ := hs.wholeSeconds d hd
    obtain ⟨hpos, hrounded⟩ := rounded_expiry
      (show s.store.now + c.1 = written + (s.since + c.1) by omega) hn (htimely haccepted d hd)
    have hexpires := expiresAt_of_accepted hkeeps haccepted hpos (by
      rw [hcell]
      exact ttl_of_deadline hd)
    refine ⟨fun _ => ⟨_, hexpires⟩, ?_, ?_⟩
    · intro e he
      obtain rfl := Option.some.inj (hexpires.symm.trans he)
      exact ⟨_, _, by simp only [hnow, Nat.add_zero], rfl⟩
    · intro e he
      obtain rfl := Option.some.inj (hexpires.symm.trans he)
      have hfirst := hs.drifted d hd
      simp only [tick] at *
      omega

omit [DecidableEq ν] in
theorem aligned_initialised {data : Fields ν} {expiry : Int} {ifNotExists : Bool}
    {status parentId eid : String} {s s' : Store ν}
    (h : taskInit data expiry t ifNotExists status parentId eid s = (.written, s')) :
    Aligned t (s.now + expiry.toNat * 1000) ⟨s', 0, 0⟩ := by
  have hexpires : expiresAt t s' = some (s.now + expiry.toNat * 1000) ∧ s'.now = s.now := by
    unfold taskInit at h
    dsimp only at h
    split at h
    · simp at h
    · split at h
      · simp at h
      · obtain rfl := congrArg Prod.snd h
        constructor
        · dsimp only
          split <;> split <;> simp [expiresAt, setRecord, leaseStatus, leaseChild]
        · dsimp only
          split <;> split <;> rfl
  refine ⟨fun _ => ⟨_, hexpires.1⟩, ?_, ?_⟩
  · intro d hd
    obtain rfl := Option.some.inj (hexpires.1.symm.trans hd)
    exact ⟨s.now, expiry.toNat, hexpires.2, rfl⟩
  · intro d hd
    obtain rfl := Option.some.inj (hexpires.1.symm.trans hd)
    simp

theorem aligned_run {first : Nat} {s u : Kept ν} {calls : List (Nat × Call ν)}
    (hs : Aligned t first s) (hkeeps : ∀ c ∈ calls, Keeps t c.2)
    (htimely : Along (serve cfg t) (timely cfg t) s calls)
    (hrun : run (serve cfg t) s calls = some u) : Aligned t first u := by
  have hkept : Along (serve cfg t) (fun _ c => Keeps t c.2) s calls :=
    along_of_forall_mem (fun c hc _ => hkeeps c hc) s
  exact run_invariant_along (fun s c s' hs hc h => aligned_serve hs hc.1 hc.2 h) hs
    (hkept.and htimely) hrun

/-- As long as no call rewrites the record in its last half second, its expiry instant stays
within a second of the first one exactly when the gaps between the writes, each counted by its
offset from whole seconds, never add up to more than a second. -/
theorem expiry_preserved_iff (cfg : Config) (data : Fields ν) (expiry : Int) (t : String)
    (ifNotExists : Bool) (status parentId eid : String) (s s' : Store ν)
    (hinit : taskInit data expiry t ifNotExists status parentId eid s = (.written, s'))
    (calls : List (Nat × Call ν)) (hkeeps : ∀ c ∈ calls, Keeps t c.2)
    (htimely : Along (serve cfg t) (timely cfg t) ⟨s', 0, 0⟩ calls) :
    (∀ es fs u, calls = es ++ fs → run (serve cfg t) ⟨s', 0, 0⟩ es = some u →
        ∀ d, expiresAt t u.store = some d → d ≤ s.now + expiry.toNat * 1000 + 1000) ↔
      ∀ es fs u, calls = es ++ fs → run (serve cfg t) ⟨s', 0, 0⟩ es = some u →
        (expiresAt t u.store).isSome → u.drift ≤ 1000 := by
  have haligned : ∀ es fs u, calls = es ++ fs → run (serve cfg t) ⟨s', 0, 0⟩ es = some u →
      Aligned t (s.now + expiry.toNat * 1000) u := by
    rintro es fs u rfl hrun
    exact aligned_run (aligned_initialised hinit) (fun c hc => hkeeps c (by simp [hc]))
      (Along.of_append hrun htimely).1 hrun
  constructor
  · intro h es fs u hes hrun hsome
    obtain ⟨d, hd⟩ := Option.isSome_iff_exists.mp hsome
    have hle := h es fs u hes hrun d hd
    have hdrift := (haligned es fs u hes hrun).drifted d hd
    omega
  · intro h es fs u hes hrun d hd
    have hle := h es fs u hes hrun (by simp [hd])
    have hdrift := (haligned es fs u hes hrun).drifted d hd
    omega

end

def emptyStore : Store Int := ⟨0, fun _ => none, fun _ => none, fun _ => none⟩

def initialised (seconds : Int) : InitReply × Store Int :=
  taskInit (initialData "now" "pending" none) seconds "t" true "pending" "" "exec-1" emptyStore

def report (n : Int) : Call Int :=
  .updateTask "t" (Fields.set "progress" (.num n) fun _ => none) none

def settle (word : String) : Call Int :=
  .updateTask "t" (Fields.set "status" (.str word) fun _ => none) none

def regularCalls : List (Nat × Call Int) :=
  [(400, report 1), (600, settle "completed"), (5000, .reopenTask "t" "pending" none "exec-2"),
    (900, report 2)]

theorem keeps_regularCalls : ∀ c ∈ regularCalls, Keeps "t" c.2 := by
  simp [regularCalls, Keeps, report, settle]

theorem expiry_preserved_regular :
    (initialised 100).1 = .written ∧
      ∀ es fs u, regularCalls = es ++ fs →
        run (serve plainConfig "t") ⟨(initialised 100).2, 0, 0⟩ es = some u →
          ∀ d, expiresAt "t" u.store = some d →
            d ≤ emptyStore.now + (100 : Int).toNat * 1000 + 1000 := by
  refine ⟨rfl, (expiry_preserved_iff plainConfig (initialData "now" "pending" none) 100 "t" true
    "pending" "" "exec-1" emptyStore (initialised 100).2 rfl regularCalls keeps_regularCalls
    (by decide)).mpr ?_⟩
  have hdrift : ∀ es ∈ regularCalls.inits,
      (replay (serve plainConfig "t") ⟨(initialised 100).2, 0, 0⟩ es).drift ≤ 1000 := by decide
  intro es fs u hes hrun _
  have hle := hdrift es ((List.mem_inits _ _).mpr ⟨fs, hes.symm⟩)
  rwa [replay, hrun] at hle

/-- Reports every half second keep a record of a hundred seconds alive, and a report in the last
half second of a record gives it the default life. -/
theorem expiry_extended :
    (initialised 100).1 = .written ∧
      expiresAt "t" (replay (serve plainConfig "t") ⟨(initialised 100).2, 0, 0⟩
        [(500, report 1), (500, report 2), (500, report 3)]).store = some 101500 ∧
      100 * 1000 + 1000 < 101500 ∧
      (initialised 1).1 = .written ∧
      expiresAt "t" (replay (serve plainConfig "t") ⟨(initialised 1).2, 0, 0⟩
        [(600, report 1)]).store = some 3600600 ∧
      1 * 1000 + 1000 < 3600600 := by
  decide

end Orditect.TaskStore.Preserve.Proofs
