import Orditect.TaskStore.Attached
import Orditect.TaskStore.Proofs.Generations
/-!
# Attached keys outlive their record

Whatever reads the time the record has left is off by less than half a second, and the
`EXPIRE` that follows counts from a later moment, so a key that is followed expires at most
499 ms before its record.
-/

namespace Orditect.TaskStore.Attached.Proofs

open Support.Expiring Support.LuaJson Support.Transition TaskStore.Proofs

variable {ν : Type} {cfg : Config} {k : Key}

/-! ## What the scripts do to the expiry of a record -/

theorem not_removed {s s' : Store ν} {t x : String} {f : Fields ν} (h : Rewrites s s' t f)
    (hnone : s'.records x = none) : s.records x = none := by
  by_cases hx : x = t
  · subst hx
    obtain ⟨n, hrec⟩ := h
    simp [hrec, Cell.setEx] at hnone
  · rw [← h.records_ne hx, hnone]

theorem expiry_le_of_ttl {c : Cell (Fields ν)} (now : Nat) {expiry : Nat}
    (hexpiry : c.deadline = some expiry) :
    expiry ≤ now + (c.ttl now).toNat * 1000 + 499 := by
  rw [ttl_of_deadline hexpiry, Int.toNat_natCast]
  omega

variable {updates : Fields ν} {seconds : Nat} {store : Store ν} {phase : Option (Phase ν)}
  {taskId : String}

section Scripts

variable [DecidableEq ν] [LuaNumber ν] {s : Store ν} {t : String}

theorem taskUpdate_ok {expiry : Int} (h : (taskUpdate cfg updates expiry t s).1 = .ok) :
    ∃ f, 0 < effectiveExpiry cfg expiry ((s.records t).ttl s.now) ∧
      (taskUpdate cfg updates expiry t s).2.records = Function.update s.records t
        (Cell.setEx s.now (effectiveExpiry cfg expiry ((s.records t).ttl s.now)).toNat f) := by
  unfold taskUpdate at h ⊢
  dsimp only at h ⊢
  split at h
  · simp at h
  next current hcur =>
    split at h
    · simp at h
    next hlegal =>
      split at h
      · simp at h
      next hpos =>
        rw [if_neg hlegal, if_neg hpos, (migrateStatus_frame ..).2.1]
        exact ⟨_, by omega, rfl⟩

theorem taskUpdate_refused {expiry : Int} (hok : (taskUpdate cfg updates expiry t s).1 ≠ .ok)
    (hraised : (taskUpdate cfg updates expiry t s).1 ≠ .raised) :
    (taskUpdate cfg updates expiry t s).2 = s := by
  have hspec := updates_taskUpdate cfg updates expiry t s
  generalize taskUpdate cfg updates expiry t s = result at *
  obtain ⟨reply, s'⟩ := result
  cases hspec with
  | notFound | refused => rfl
  | unexpiring => exact absurd rfl hraised
  | written reply s' current hcur hkeep hw hreply => exact absurd hreply (by simp_all)

end Scripts

/-! ## The invariant -/

def Awaits (k : Key) : Option (Phase ν) → Prop
  | some (.syncTtl key) | some (.syncExists key _) => key = k
  | some (.followTtl taskId) => taskId = k.taskId
  | some (.expire _ keys) => k ∈ keys
  | _ => False

def Reaches (k : Key) (store : Store ν) (seconds : Nat) : Prop :=
  ∀ expiry ∈ (store.records k.taskId).deadline, expiry ≤ store.now + seconds * 1000 + 499

theorem Reaches.mono {seconds' : Nat} (h : Reaches k store seconds) (hle : seconds ≤ seconds') :
    Reaches k store seconds' := by
  intro expiry hexpiry
  have hlater : seconds * 1000 ≤ seconds' * 1000 := Nat.mul_le_mul_right 1000 hle
  exact (h expiry hexpiry).trans (Nat.add_le_add_right (Nat.add_le_add_left hlater _) _)

def Measured (k : Key) (store : Store ν) : Option (Phase ν) → Prop
  | some (.script (.initializeTask _ _ _ ifNotExists _ _ _)) => ifNotExists = true
  | some (.syncExists key ownerTtl) => key = k → Reaches k store ownerTtl.toNat
  | some (.expire seconds keys) => k ∈ keys → Reaches k store seconds
  | _ => True

theorem Reaches.tick (h : Reaches k store seconds) (ms : Nat) :
    Reaches k (tick ms store) seconds := by
  intro expiry hexpiry
  rcases purge_eq_or (store.now + ms) (store.records k.taskId) with ⟨hkeep, -⟩ | ⟨hdrop, -⟩
  · have hle := h expiry (by simpa [TaskStore.tick, hkeep] using hexpiry)
    simp only [TaskStore.tick]
    omega
  · simp [TaskStore.tick, hdrop] at hexpiry

theorem Measured.tick (h : Measured k store phase) (ms : Nat) :
    Measured k (TaskStore.tick ms store) phase := by
  unfold Measured at h ⊢
  split
  · exact h
  · exact fun hkey => (h hkey).tick ms
  · exact fun hmem => (h hmem).tick ms
  · trivial

/-- A key that was written for the record expires at most a second before it, unless the call
in progress is still to move the key; `gone` says that nothing is owed without a record. -/
structure Near (k : Key) (s : State ν) : Prop where
  live : (s.attached k).Live s.store.now
  present : s.owed = true → (s.attached k).isSome = true
  gone : s.store.records k.taskId = none → s.owed = false ∧ s.lapsed = none
  lapsed : ∀ d ∈ s.lapsed, within k s.store d
  rested : ¬Awaits k s.phase → s.owed = true → ∀ d ∈ (s.attached k).deadline, within k s.store d
  measured : Measured k s.store s.phase
  early : s.early = false

theorem near_start (k : Key) (now : Nat) : Near k (start now : State ν) where
  live := live_none now
  present h := by simp [start] at h
  gone _ := ⟨rfl, rfl⟩
  lapsed _ h := by simp [start] at h
  rested _ h := by simp [start] at h
  measured := trivial
  early := rfl

theorem mem_suffixes (suffix : Suffix) : suffix ∈ suffixes := by cases suffix <;> simp [suffixes]

theorem mem_attached : k ∈ suffixes.map (Key.mk taskId) ↔ k.taskId = taskId := by
  obtain ⟨x, suffix⟩ := k
  simp [mem_suffixes, eq_comm]

/-- An update that went through, with the expiry it was given or the one that was left, is
followed by every attached key. -/
theorem awaits_follow {expiry ttl : Int} (hpos : 0 < effectiveExpiry cfg expiry ttl) :
    Awaits k (followAttachedKeysTtl k.taskId expiry : Option (Phase ν)) := by
  unfold followAttachedKeysTtl expireAll
  split
  · rfl
  next hgiven =>
    rw [effectiveExpiry, if_neg hgiven] at hpos
    rw [if_neg (by omega)]
    exact mem_attached.mpr rfl

theorem measured_follow {expiry ttl : Int}
    (hexpiry : (store.records k.taskId).deadline =
      some (store.now + (effectiveExpiry cfg expiry ttl).toNat * 1000)) :
    Measured k store (followAttachedKeysTtl k.taskId expiry) := by
  unfold followAttachedKeysTtl expireAll
  split
  · trivial
  next hgiven =>
    split
    · trivial
    · rintro - d hd
      rw [effectiveExpiry, if_neg hgiven] at hexpiry
      obtain rfl := Option.some.inj (hexpiry.symm.trans hd)
      omega

theorem measured_first {e : Event ν} {phase : Phase ν} (h : e.first = some phase) :
    Measured k store (some phase) := by
  cases e with
  | updateTask taskId updates expiry validate =>
    obtain rfl := Option.some.inj h
    split <;> trivial
  | proceed | advance => simp [Event.first] at h
  | _ =>
    obtain rfl := Option.some.inj h
    trivial

theorem apply_spec (cell : Cell Value) (command : Command) :
    ∃ v, command.apply cell = Cell.set v ∨ command.apply cell = cell.modify v := by
  cases command with
  | set n => exact ⟨_, Or.inl rfl⟩
  | decr | sadd id =>
    dsimp only [Command.apply]
    split <;> exact ⟨_, Or.inr rfl⟩

theorem isSome_apply (cell : Cell Value) (command : Command) :
    (command.apply cell).isSome = true := by
  obtain ⟨v, happly | happly⟩ := apply_spec cell command <;> rw [happly] <;> rfl

theorem live_apply {now : Nat} {cell : Cell Value} (hlive : cell.Live now) (command : Command) :
    (command.apply cell).Live now := by
  intro e he
  obtain ⟨v, happly | happly⟩ := apply_spec cell command
  · simp [happly] at he
  · exact hlive e (by simpa [happly] using he)

section Steps

variable {s s' : State ν}

theorem Near.onward (h : Near k s) (hnow : store.now = s.store.now)
    (hgone : store.records k.taskId = none → s.store.records k.taskId = none)
    (hlapsed : ∀ d ∈ s.lapsed, within k store d)
    (hrested : ¬Awaits k phase → s.owed = true → ∀ d ∈ (s.attached k).deadline, within k store d)
    (hmeasured : Measured k store phase) : Near k { s with store := store, phase := phase } :=
  ⟨hnow ▸ h.live, h.present, fun hnone => h.gone (hgone hnone), hlapsed, hrested, hmeasured,
    h.early⟩

theorem Near.elsewhere (h : Near k s) (hnow : store.now = s.store.now)
    (hsame : store.records k.taskId = s.store.records k.taskId) (hphase : ¬Awaits k s.phase)
    (hmeasured : Measured k store phase) : Near k { s with store := store, phase := phase } := by
  have hwithin (d : Nat) : within k s.store d → within k store d := by
    unfold within
    rw [hsame]
    exact id
  exact h.onward hnow (fun hnone => hsame ▸ hnone) (fun d hd => hwithin d (h.lapsed d hd))
    (fun _ howed d hd => hwithin d (h.rested hphase howed d hd)) hmeasured

theorem within_of_lapse (h : Near k s) {now : Nat} {attached : Key → Cell Value}
    (hlost : s.owed = true → attached k = none →
      within k s.store (min ((s.attached k).deadline.getD now) now)) :
    ∀ d ∈ lapse k now attached s, within k s.store d := by
  intro d hd
  unfold lapse at hd
  cases hlapsed : s.lapsed with
  | some first =>
    obtain rfl : first = d := by simpa [hlapsed] using hd
    exact h.lapsed first hlapsed
  | none =>
    rw [hlapsed, Option.none_or] at hd
    split at hd
    next hgone =>
      obtain rfl := Option.some.inj hd
      obtain ⟨howed, hnone⟩ := Bool.and_eq_true_iff.mp hgone
      exact hlost howed (Option.isNone_iff_eq_none.mp hnone)
    · simp at hd

theorem near_settle (h : Near k s) {attached : Key → Cell Value}
    (hlive : (attached k).Live store.now)
    (hrecord : store.records k.taskId = s.store.records k.taskId ∨ store.records k.taskId = none)
    (hlost : s.owed = true → attached k = none →
      within k s.store (min ((s.attached k).deadline.getD store.now) store.now))
    (hrested : ¬Awaits k phase → s.owed = true → ∀ d ∈ (attached k).deadline, within k s.store d)
    (hmeasured : Measured k store phase) :
    Near k { settle k store attached s with phase := phase } := by
  have hwithin (hthere : store.records k.taskId ≠ none) (d : Nat) (hd : within k s.store d) :
      within k store d := by
    unfold within
    rw [hrecord.resolve_right hthere]
    exact hd
  have hlapse := within_of_lapse h hlost
  refine ⟨hlive, ?_, ?_, ?_, ?_, hmeasured, ?_⟩
  · intro howed
    simp only [settle, Bool.and_eq_true] at howed
    exact howed.1.2
  · intro hnone
    have hended : store.records k.taskId = none := hnone
    simp [settle, hended]
  · intro d hd
    dsimp only [settle] at hd
    split at hd
    · simp at hd
    next hended => exact hwithin (by simpa using hended) d (hlapse d hd)
  · intro hnot howed d hd
    simp only [settle, Bool.and_eq_true, Bool.not_eq_true', Option.isNone_eq_false_iff] at howed
    exact hwithin (Option.isSome_iff_ne_none.mp howed.2) d (hrested hnot howed.1.1 d hd)
  · dsimp only [settle]
    rw [h.early, Bool.false_or, Bool.and_eq_false_iff, ← Bool.not_eq_true (Option.any ..)]
    refine Or.inr fun hlate => ?_
    obtain ⟨d, hd, hafter⟩ := (Option.any_eq_true ..).mp hlate
    obtain ⟨expiry, hexpiry, hlt⟩ := (Option.any_eq_true ..).mp hafter
    have hle := hlapse d hd expiry hexpiry
    have hlt := of_decide_eq_true hlt
    omega

theorem near_expire_self (h : Near k s) (hreach : Reaches k s.store seconds)
    (hmeasured : Measured k s.store phase) :
    Near k { settle k s.store
      (Function.update s.attached k ((s.attached k).expire s.store.now seconds)) s with
        phase := phase } := by
  cases seconds with
  | zero =>
    -- no time is left: the key is deleted
    have hnone : Function.update s.attached k ((s.attached k).expire s.store.now 0) k = none :=
      Function.update_self ..
    refine near_settle h (hnone ▸ live_none _) (Or.inl rfl) ?_ ?_ hmeasured
    · intro _ _ expiry hexpiry
      have hle := hreach expiry hexpiry
      cases hdeadline : (s.attached k).deadline with
      | none =>
        simp only [Option.getD_none]
        omega
      | some d =>
        have hlt := h.live d hdeadline
        simp only [Option.getD_some]
        omega
    · intro _ _ d hd
      rw [hnone] at hd
      simp at hd
  | succ n =>
    have hcell : Function.update s.attached k ((s.attached k).expire s.store.now (n + 1)) k =
        (s.attached k).expire s.store.now (n + 1) := Function.update_self ..
    have hdeadline : ∀ d ∈ ((s.attached k).expire s.store.now (n + 1)).deadline,
        d = s.store.now + (n + 1) * 1000 := by
      intro d hd
      cases hcell : s.attached k with
      | none => simp [hcell, Cell.expire] at hd
      | some e =>
        rw [hcell] at hd
        exact Option.some.inj (hd.symm.trans (deadline_expire (by omega) (by simp)))
    refine near_settle h ?_ (Or.inl rfl) ?_ ?_ hmeasured
    · rw [hcell]
      intro d hd
      have hd := hdeadline d hd
      omega
    · intro howed hnone
      rw [hcell, ← get_eq_none, get_expire (by omega), get_eq_none] at hnone
      have hpresent := h.present howed
      simp [hnone] at hpresent
    · rw [hcell]
      intro _ _ d hd expiry hexpiry
      have hle := hreach expiry hexpiry
      have hd := hdeadline d hd
      omega

variable [DecidableEq ν] [LuaNumber ν]

/-! ## Scripts -/

variable {expiry : Option Int} {key : Key}

section

variable (h : Near k s)
include h

theorem near_updateTask (hphase : s.phase = some (.script (.updateTask taskId updates expiry)))
    (hsucceeds : Succeeds cfg s .proceed) (hfollows : Follows cfg k s .proceed) :
    Near k (proceed cfg k s (.script (.updateTask taskId updates expiry))) := by
  have hresting : ¬Awaits k s.phase := by simp [hphase, Awaits]
  simp only [Succeeds, hphase] at hsucceeds
  simp only [Follows, hphase] at hfollows
  have hnow := now_perform cfg s.store (.updateTask taskId updates expiry)
  dsimp only [proceed, perform] at hfollows hnow ⊢
  by_cases hok : (taskUpdate cfg updates (expiry.getD (-1)) taskId s.store).1 = .ok
  · obtain ⟨f, hpos, hrec⟩ := taskUpdate_ok hok
    rw [if_pos hok]
    by_cases htask : k.taskId = taskId
    · subst htask
      refine h.onward hnow (fun hnone => ?_) hfollows ?_ ?_
      · simp [hrec, Cell.setEx] at hnone
      · exact fun hnot => absurd (awaits_follow hpos) hnot
      · have hexpiry : ((taskUpdate cfg updates (expiry.getD (-1)) k.taskId s.store).2.records
            k.taskId).deadline = some (s.store.now + (effectiveExpiry cfg (expiry.getD (-1))
              ((s.store.records k.taskId).ttl s.store.now)).toNat * 1000) := by
          rw [hrec, Function.update_self, deadline_setEx]
        rw [← hnow] at hexpiry
        exact measured_follow hexpiry
    · refine h.elsewhere hnow (by rw [hrec, Function.update_of_ne htask]) hresting ?_
      unfold followAttachedKeysTtl expireAll
      split
      · trivial
      · split
        · trivial
        · exact fun hmem => absurd (mem_attached.mp hmem) htask
  · rw [if_neg hok, taskUpdate_refused hok hsucceeds]
    exact h.elsewhere rfl rfl hresting trivial

theorem near_reopenTask {status executionId : String}
    (hphase : s.phase = some (.script (.reopenTask taskId status expiry executionId)))
    (hfollows : Follows cfg k s .proceed) :
    Near k (proceed cfg k s (.script (.reopenTask taskId status expiry executionId))) := by
  simp only [Follows, hphase] at hfollows
  have hnow := now_perform cfg s.store (.reopenTask taskId status expiry executionId)
  dsimp only [proceed]
  refine h.onward hnow (fun hnone => ?_) hfollows.1 (fun _ => hfollows.2) trivial
  dsimp only [perform] at hnone
  rcases reopen_spec cfg s.store taskId executionId status (expiry.getD (-1)) with
    ⟨current, -, -, -, hw⟩ | ⟨-, hsame⟩
  · exact not_removed hw hnone
  · rw [hsame] at hnone
    exact hnone

theorem near_initializeTask {status timestamp executionId : String} {parent : Option String}
    (hphase : s.phase = some (.script (.initializeTask taskId expiry status true parent timestamp
      executionId))) :
    Near k (proceed cfg k s (.script (.initializeTask taskId expiry status true parent timestamp
      executionId))) := by
  have hresting : ¬Awaits k s.phase := by simp [hphase, Awaits]
  have hnow := now_perform cfg s.store (.initializeTask taskId expiry status true parent timestamp
    executionId)
  dsimp only [proceed, perform] at hnow ⊢
  rcases taskInit_spec (initialData timestamp status parent)
    (expiry.getD cfg.defaultExpireTime) taskId true status (parent.getD "") executionId s.store with
    hsame | ⟨hnew, hw⟩
  · rw [hsame]
    exact h.elsewhere rfl rfl hresting trivial
  · by_cases htask : k.taskId = taskId
    · subst htask
      have hnone : s.store.records k.taskId = none := by
        simpa [getTask, get_eq_none] using hnew
      obtain ⟨howed, hlapsed⟩ := h.gone hnone
      exact h.onward hnow (fun _ => hnone) (by simp [hlapsed]) (by simp [howed]) trivial
    · exact h.elsewhere hnow (hw.records_ne htask) hresting trivial

theorem near_validateTransfer
    (hphase : s.phase = some (.script (.validateTransfer taskId updates expiry))) :
    Near k (proceed cfg k s (.script (.validateTransfer taskId updates expiry))) := by
  have hresting : ¬Awaits k s.phase := by simp [hphase, Awaits]
  dsimp only [proceed, perform]
  split
  · exact h.elsewhere rfl rfl hresting trivial
  · split <;> exact h.elsewhere rfl rfl hresting trivial

/-! ## The commands on the attached keys -/

theorem near_write {command : Command} (hphase : s.phase = some (.write key command)) :
    Near k (proceed cfg k s (.write key command)) := by
  have hresting : ¬Awaits k s.phase := by simp [hphase, Awaits]
  dsimp only [proceed]
  by_cases hkey : key = k
  · subst hkey
    refine ⟨?_, ?_, ?_, h.lapsed, fun hnot => absurd rfl hnot, trivial, h.early⟩
    · simpa using live_apply h.live command
    · intro _
      simpa using isSome_apply (s.attached key) command
    · intro hnone
      dsimp only at hnone
      simpa [hnone] using h.gone hnone
  · have hother : Function.update s.attached key (command.apply (s.attached key)) k =
        s.attached k := Function.update_of_ne (Ne.symm hkey) _ _
    have howed : (s.owed || (decide (key = k) && (s.store.records k.taskId).isSome)) = s.owed := by
      simp [hkey]
    refine ⟨?_, ?_, ?_, h.lapsed, ?_, trivial, h.early⟩
    · simpa only [hother] using h.live
    · simpa only [hother, howed] using h.present
    · simpa only [howed] using h.gone
    · intro _
      simpa only [hother, howed] using h.rested hresting

theorem near_syncTtl (hphase : s.phase = some (.syncTtl key)) :
    Near k (proceed cfg k s (.syncTtl key)) := by
  refine h.onward rfl id h.lapsed ?_ ?_
  · intro hnot
    refine h.rested ?_
    rw [hphase]
    exact hnot
  · rintro rfl expiry hexpiry
    exact expiry_le_of_ttl _ hexpiry

theorem near_syncExists {ownerTtl : Int} (hphase : s.phase = some (.syncExists key ownerTtl)) :
    Near k (proceed cfg k s (.syncExists key ownerTtl)) := by
  have hmeasured := h.measured
  rw [hphase] at hmeasured
  refine h.onward rfl id h.lapsed ?_ ?_
  · intro hnot howed
    refine h.rested ?_ howed
    rw [hphase]
    rintro rfl
    have hpresent := h.present howed
    simp [Option.isSome_iff_ne_none.mp hpresent, Awaits] at hnot
  · split
    · trivial
    · intro hmem
      exact (hmeasured (List.mem_singleton.mp hmem).symm).mono (by split <;> omega)

theorem near_followTtl (hphase : s.phase = some (.followTtl taskId)) :
    Near k (proceed cfg k s (.followTtl taskId)) := by
  refine h.onward rfl id h.lapsed ?_ ?_
  · intro hnot howed d hd
    by_cases htask : taskId = k.taskId
    · subst htask
      -- nothing is sent, so the record is about to expire, and the key is still there
      have hread : (s.store.records k.taskId).ttl s.store.now ≤ 0 := by
        by_contra hpos
        rw [expireAll, if_neg hpos] at hnot
        exact hnot (mem_attached.mpr rfl)
      intro expiry hexpiry
      have hle := expiry_le_of_ttl s.store.now hexpiry
      have hlt := h.live d hd
      omega
    · refine h.rested ?_ howed d hd
      rw [hphase]
      exact htask
  · unfold expireAll
    split
    · trivial
    · intro hmem expiry hexpiry
      rw [mem_attached.mp hmem] at hexpiry
      exact expiry_le_of_ttl _ hexpiry

theorem near_expire {keys : List Key} (hphase : s.phase = some (.expire seconds keys)) :
    Near k (proceed cfg k s (.expire seconds keys)) := by
  have hmeasured := h.measured
  rw [hphase] at hmeasured
  cases keys with
  | nil =>
    refine h.onward rfl id h.lapsed (fun _ => h.rested ?_) trivial
    simp [hphase, Awaits]
  | cons key keys =>
    have hrest : Measured k s.store (some (.expire seconds keys)) := fun hmem =>
      hmeasured (List.mem_cons_of_mem key hmem)
    dsimp only [proceed]
    by_cases hkey : key = k
    · subst hkey
      exact near_expire_self h (hmeasured List.mem_cons_self) hrest
    · have hother : Function.update s.attached key
          ((s.attached key).expire s.store.now seconds) k = s.attached k :=
        Function.update_of_ne (Ne.symm hkey) _ _
      refine near_settle h ?_ (Or.inl rfl) ?_ ?_ hrest
      · rw [hother]
        exact h.live
      · intro howed hnone
        have hpresent := h.present howed
        simp [← hother, hnone] at hpresent
      · intro hnot howed
        rw [hother]
        refine h.rested ?_ howed
        rw [hphase]
        exact fun hmem => hnot ((List.mem_cons.mp hmem).resolve_left (Ne.symm hkey))

/-! ## Time -/

theorem near_advance {ms : Nat} (hfollows : Follows cfg k s (.advance ms)) :
    Near k (settle k (tick ms s.store)
      (fun key => (s.attached key).purge (s.store.now + ms)) s) := by
  have hexpired (howed : s.owed = true) {d : Nat} (hd : (s.attached k).deadline = some d)
      (hle : d ≤ s.store.now + ms) : within k s.store d := by
    cases hphase : s.phase with
    | none => exact h.rested (by simp [hphase, Awaits]) howed d hd
    | some phase =>
      simp only [Follows, hphase] at hfollows
      exact hfollows howed d hd hle
  refine near_settle h ?_ ?_ ?_ ?_ ?_
  · exact live_purge _ _
  · exact shrinks_tick ms s.store k.taskId
  · intro howed hnone
    have hnone : (s.attached k).purge (s.store.now + ms) = none := hnone
    rcases purge_eq_or (s.store.now + ms) (s.attached k) with ⟨hkeep, -⟩ | ⟨-, d, hd, hle⟩
    · have hpresent := h.present howed
      rw [hkeep] at hnone
      simp [hnone] at hpresent
    · have hmin : min ((s.attached k).deadline.getD (s.store.now + ms)) (s.store.now + ms) = d := by
        rw [hd, Option.getD_some, min_eq_left hle]
      show within k s.store (min ((s.attached k).deadline.getD (s.store.now + ms)) _)
      rw [hmin]
      exact hexpired howed hd hle
  · intro hnot howed d hd
    have hd : ((s.attached k).purge (s.store.now + ms)).deadline = some d := hd
    rcases purge_eq_or (s.store.now + ms) (s.attached k) with ⟨hkeep, -⟩ | ⟨hdrop, -⟩
    · exact h.rested hnot howed d (hkeep ▸ hd)
    · simp [hdrop] at hd
  · exact h.measured.tick ms

theorem near_step {e : Event ν} (hsucceeds : Succeeds cfg s e) (hfollows : Follows cfg k s e)
    (hstep : step cfg k s e = some s') : Near k s' := by
  unfold step at hstep
  split at hstep
  next phase hphase =>
    obtain rfl := Option.some.inj hstep
    cases phase with
    | script call =>
      cases call with
      | initializeTask taskId expiry status ifNotExists parent timestamp executionId =>
        have hmeasured := h.measured
        rw [hphase] at hmeasured
        obtain rfl : ifNotExists = true := hmeasured
        exact near_initializeTask h hphase
      | validateTransfer taskId updates expiry => exact near_validateTransfer h hphase
      | updateTask taskId updates expiry => exact near_updateTask h hphase hsucceeds hfollows
      | reopenTask taskId status expiry executionId => exact near_reopenTask h hphase hfollows
    | write key command => exact near_write h hphase
    | syncTtl key => exact near_syncTtl h hphase
    | syncExists key ownerTtl => exact near_syncExists h hphase
    | followTtl taskId => exact near_followTtl h hphase
    | expire seconds keys => exact near_expire h hphase
  · obtain rfl := Option.some.inj hstep
    exact near_advance h hfollows
  next hidle _ =>
    obtain ⟨phase, hfirst, rfl⟩ := Option.map_eq_some_iff.mp hstep
    exact h.elsewhere rfl rfl (by simp [hidle, Awaits]) (measured_first hfirst)
  · simp at hstep

end

end Steps

variable [DecidableEq ν] [LuaNumber ν]

/-- In every run in which the expiry of the record is never moved away from the key by more
than a second, no attached key that was written for a record expires more than a second
before it. -/
theorem never_early (cfg : Config) (k : Key) (now : Nat) {es : List (Event ν)} {s : State ν}
    (hrun : run (step cfg k) (start now) es = some s)
    (hsucceeds : Along (step cfg k) (Succeeds cfg) (start now) es)
    (hfollows : Along (step cfg k) (Follows cfg k) (start now) es) : s.early = false := by
  have hnear : Near k s :=
    run_invariant_along (fun _ _ _ h hG => near_step h hG.1 hG.2) (near_start k now)
      (hsucceeds.and hfollows) hrun
  exact hnear.early

/-! ## A record that is reopened -/

private def done (call : Event Int) (n : Nat) : List (Event Int) :=
  call :: List.replicate n .proceed

private def completed : Fields Int := fun key =>
  if key = "status" then some (.str "completed") else none

private def settled (expiry : Option Int) (n : Nat) : List (Event Int) :=
  done (.initializeTask "t" (some 60) "in_progress" none "" "exec-1") 1 ++
    done (.saddActiveChild "t" "c") 5 ++ [.advance 30400] ++
    done (.updateTask "t" completed expiry true) n

private def watched : Key := ⟨"t", .activeChildren⟩

private def kept : List (Event Int) :=
  settled (some 100) 7 ++ done (.reopenTask "t" "pending" none "exec-2") 1 ++
    [.advance 99999, .advance 1]

theorem never_early_kept :
    (replay (step plainConfig watched) (start 0) kept).store.now = 130400 ∧
      (replay (step plainConfig watched) (start 0) kept).early = false :=
  ⟨by decide, never_early plainConfig watched 0 (run_eq_replay (by decide)) (by decide) (by decide)⟩

private def extended : List (Event Int) :=
  settled none 8 ++ done (.reopenTask "t" "pending" (some 3600) "exec-2") 1 ++
    [.advance 30000, .advance 3570000]

theorem early_after_reopening :
    ∃ s, run (step plainConfig watched) (start 0) extended = some s ∧
      Along (step plainConfig watched) (Succeeds plainConfig) (start 0) extended ∧ s.early = true :=
  ⟨_, run_eq_replay (by decide), by decide, by decide⟩

end Orditect.TaskStore.Attached.Proofs
