import Orditect.Executor.Proofs.Fencing
import Orditect.Executor.Session
/-!
# The record an execution and its cancellations share

As long as the record is there, its status is one of the six words and its cancellation
flag a boolean, so every coroutine step is a move between program counters that changes at
most those two.  The moves are listed once.
-/

namespace Orditect.Executor.Proofs

open Support.LuaJson Support.Transition
open TaskStore (Store UpdateReply getTask field tick)

variable {ν : Type}

def KnowsTerminal (cfg : Config) : Prop :=
  ∀ word, word ∈ cfg.storage.terminalStatuses ↔
    ∃ w : TaskStatus, w.isTerminal = true ∧ word = w.value

/-- The store knows the words of the state machine, and what it writes does not expire at
once. -/
structure Vocabulary (cfg : Config) : Prop where
  terminal : KnowsTerminal cfg
  lifetime : 0 < cfg.storage.defaultExpireTime

theorem TaskStatus.value_injective : Function.Injective TaskStatus.value := by
  intro a b h
  cases a <;> cases b <;> simp_all [TaskStatus.value]

theorem TaskStatus.ofField_value (w : TaskStatus) :
    TaskStatus.ofField (some (.str w.value) : Option (Json ν)) = some w := by
  cases w <;> rfl

variable {w : TaskStatus} {cfg : Config} {eid : String} {flag : Bool}

theorem TaskStatus.eq_of_ofField {v : Option (Json ν)} (h : TaskStatus.ofField v = some w) :
    v = some (.str w.value) := by
  unfold TaskStatus.ofField at h
  split at h <;> simp_all [TaskStatus.value] <;> subst h <;> rfl

theorem Vocabulary.isTerminal (hv : Vocabulary cfg) (w : TaskStatus) :
    TaskStore.isTerminal cfg.storage (.str w.value : Json ν) = w.isTerminal := by
  have hiff : w.value ∈ cfg.storage.terminalStatuses ↔ w.isTerminal = true := by
    rw [hv.terminal w.value]
    constructor
    · rintro ⟨w', hterm, hvalue⟩
      rw [TaskStatus.value_injective hvalue]
      exact hterm
    · intro hterm
      exact ⟨w, hterm, rfl⟩
  show cfg.storage.terminalStatuses.contains w.value = w.isTerminal
  rw [List.contains_eq_mem, Bool.eq_iff_iff, decide_eq_true_iff]
  exact hiff

theorem vocabulary_defaultStorage (h : cfg.storage = defaultStorage) :
    Vocabulary cfg := by
  constructor
  · intro word
    rw [h]
    constructor
    · intro hword
      simp only [defaultStorage, List.mem_cons, List.not_mem_nil, or_false] at hword
      rcases hword with rfl | rfl | rfl
      · exact ⟨.succeeded, rfl, rfl⟩
      · exact ⟨.failed, rfl, rfl⟩
      · exact ⟨.cancelled, rfl, rfl⟩
    · rintro ⟨w, hterm, rfl⟩
      cases w <;> simp_all [TaskStatus.isTerminal, TaskStatus.value, defaultStorage]
  · rw [h]
    decide

/-- The record of the task: its status, its generation and its flag. -/
structure Record (cfg : Config) (eid : String) (s : Store ν) (w : TaskStatus) (flag : Bool) :
    Prop where
  status : field s cfg.taskId "status" = some (.str w.value)
  id : field s cfg.taskId "execution_id" = some (.str eid)
  flag : field s cfg.taskId "cancel_requested" = some (.bool flag)
  parent : field s cfg.taskId "parent_task_id" = none ∨
    ∃ p, field s cfg.taskId "parent_task_id" = some (.str p)

structure Says (updates : List (String × Json ν)) (word : Option TaskStatus) (b : Option Bool) :
    Prop where
  id : updates.lookup "execution_id" = none
  parent : updates.lookup "parent_task_id" = none
  status : updates.lookup "status" = word.map fun w => .str w.value
  flag : updates.lookup "cancel_requested" = b.map .bool

theorem Record.status_eq {s : Store ν} (hr : Record cfg eid s w flag) :
    Executor.status cfg s = some w := by
  unfold Executor.status
  rw [hr.status, TaskStatus.ofField_value]

variable {updates : List (String × Json ν)} {choice : Choice ν}

section

variable [DecidableEq ν] [LuaNumber ν] {s : Store ν}

theorem Record.isCancelRequested (hr : Record cfg eid s w flag) :
    isCancelRequested cfg s = flag := by
  unfold Executor.isCancelRequested
  rw [hr.flag]
  rfl

variable {word : Option TaskStatus}

theorem updateTask_spec (hv : Vocabulary cfg)
    (hstatus : field s cfg.taskId "status" = some (.str w.value))
    (hword : updates.lookup "status" = word.map fun w => .str w.value) :
    (word.getD w ≠ w ∧ w.isTerminal = true ∧
        updateTask cfg updates s = (.invalidTransfer, s)) ∨
      ((word.getD w = w ∨ w.isTerminal = false) ∧
        ∃ s', updateTask cfg updates s = (.ok, s') ∧
          ∀ k, field s' cfg.taskId k =
            ((updates.lookup k).or (field s cfg.taskId k)).map Json.recode) := by
  obtain ⟨record, hrecord, hfield⟩ := Option.bind_eq_some_iff.mp hstatus
  have hold : Json.orEmpty (record "status") = .str w.value := by rw [hfield]; rfl
  have hnew : (updates.lookup "status").getD (.str w.value) = .str (word.getD w).value := by
    rw [hword]
    cases word <;> rfl
  obtain ⟨⟨reply, s'⟩, hresult⟩ : ∃ result, updateTask cfg updates s = result := ⟨_, rfl⟩
  rw [hresult]
  cases updates_updateTask hresult with
  | notFound h => simp [hrecord] at h
  | refused current hcur hdiff hterm =>
    obtain rfl : record = current := Option.some.inj (hrecord.symm.trans hcur)
    rw [hold] at hdiff hterm
    rw [hnew, Json.luaEq_str] at hdiff
    refine Or.inl ⟨fun heq => ?_, (hv.isTerminal w).symm.trans hterm, rfl⟩
    simp [heq] at hdiff
  | unexpiring h =>
    have hlifetime := hv.lifetime
    unfold TaskStore.effectiveExpiry at h
    split at h
    · split at h <;> omega
    · omega
  | written reply s' current hcur hkeep hw _ hok =>
    obtain rfl : record = current := Option.some.inj (hrecord.symm.trans hcur)
    rw [hold] at hkeep hok
    rw [hnew, Json.luaEq_str, hv.isTerminal] at hkeep
    obtain rfl : reply = .ok := hok w.value (word.getD w).value rfl hnew
    refine Or.inr ⟨?_, s', rfl, fun k => ?_⟩
    · rcases hkeep with heq | hopen
      · left
        have hvalue : w.value = (word.getD w).value := by simpa using heq
        exact (TaskStatus.value_injective hvalue).symm
      · exact Or.inr hopen
    · have hcurrent : field s cfg.taskId k = record k := by simp [field, hrecord]
      rw [hcurrent]
      exact hw.field_self k

theorem Record.updateTask (hv : Vocabulary cfg) (hr : Record cfg eid s w flag) {b : Option Bool}
    (hgives : Says updates word b) :
    (word.getD w ≠ w ∧ w.isTerminal = true ∧
        updateTask cfg updates s = (.invalidTransfer, s)) ∨
      ((word.getD w = w ∨ w.isTerminal = false) ∧
        ∃ s', updateTask cfg updates s = (.ok, s') ∧
          Record cfg eid s' (word.getD w) (b.getD flag)) := by
  rcases updateTask_spec hv hr.status hgives.status with hrefused | ⟨hopen, s', heq, hfield⟩
  · exact Or.inl hrefused
  · refine Or.inr ⟨hopen, s', heq, ?_⟩
    constructor
    · rw [hfield, hgives.status, hr.status]
      cases word <;> simp
    · rw [hfield, hgives.id, hr.id]
      simp
    · rw [hfield, hgives.flag, hr.flag]
      cases b <;> simp [Json.recode]
    · rw [hfield, hgives.parent]
      rcases hr.parent with hnone | ⟨p, hp⟩
      · exact Or.inl (by simp [hnone])
      · exact Or.inr ⟨p, by simp [hp]⟩

end

/-! ## The moves of `execute` -/

def early : Pc ν → Bool
  | .checkCancel | .queryReuse | .readReuse | .readExemption | .walkAncestors | .acquire
  | .writeResource | .writeRunning => true
  | _ => false

theorem early_ite {c : Prop} [Decidable c] {a b : Pc ν} (ha : early a = true)
    (hb : early b = true) : early (if c then a else b) = true := by
  split
  · exact ha
  · exact hb

theorem early_afterReuse (cfg : Config) : early (afterReuse cfg : Pc ν) = true :=
  early_ite rfl rfl

theorem early_afterCheck (cfg : Config) : early (afterCheck cfg : Pc ν) = true :=
  early_ite (early_afterReuse cfg) rfl

def reliable : Pc ν → Choice ν → Bool
  | .queryReuse, _ | .writeSnapshot _ _, _ => true
  | _, .unavailable _ => false
  | _, _ => true

def TaskStatus.settled (w : TaskStatus) : TaskStatus := if w.isTerminal then w else .cancelled

def Undecided (w : TaskStatus) : Prop := w ≠ .succeeded ∧ w ≠ .failed

theorem Undecided.cancelled_of_terminal (h : Undecided w) (hterm : w.isTerminal = true) :
    w = .cancelled := by
  cases w <;> simp_all [Undecided, TaskStatus.isTerminal]

theorem Undecided.settled (h : Undecided w) :
    TaskStatus.settled w = .cancelled := by
  unfold TaskStatus.settled
  split
  · exact h.cancelled_of_terminal ‹_›
  · rfl

def undecided (cfg : Config) (s : Store ν) : Bool :=
  status cfg s != some .succeeded && status cfg s != some .failed

def ended (cfg : Config) (s : Store ν) : Bool := (status cfg s).any fun w => w.isTerminal

def Interferes (w w' : TaskStatus) : Prop := w' = w ∨ w.isTerminal = false ∧ w' = .cancelled

variable {w' : TaskStatus} {cancels : Bool} {h h' : Handle} {store : Store ν}

theorem Undecided.interferes (h : Undecided w) (hw : Interferes w w') :
    Undecided w' := by
  rcases hw with rfl | ⟨-, rfl⟩
  · exact h
  · exact ⟨by simp, by simp⟩

/-- One `await` of `execute` on a record with the status `w`: where it leads, the status
afterwards, and the row that is written. -/
inductive Turn [DecidableEq ν] [LuaNumber ν] (cfg : Config) (s : Store ν) (w : TaskStatus)
    (flag : Bool) : Pc ν → Pc ν → TaskStatus → Option (SnapshotRow ν) → Prop
  | early {pc pc' : Pc ν} (hpc : early pc = true) (hpc' : Proofs.early pc' = true) :
      Turn cfg s w flag pc pc' w none
  | refuses (hflag : flag = true) : Turn cfg s w flag .checkCancel .captureGeneration w none
  | reuses (h : (field s cfg.taskId "result").isSome = true) :
      Turn cfg s w flag .readReuse .finished w none
  | breaks {pc : Pc ν} (hpc : Proofs.early pc = true ∨ pc = .body) (error outcome : String) :
      Turn cfg s w flag pc (.finalizeFailure error outcome) w none
  | runs (hw : w = .running ∨ w.isTerminal = false) :
      Turn cfg s w flag .writeRunning
        (.readSnapshot false { status := .running, terminal := false }) .running none
  | composes (shielded : Bool) (request : SnapshotRequest ν) :
      Turn cfg s w flag (.readSnapshot shielded request)
        (.writeSnapshot shielded (snapshotRow cfg request s)) w none
  | saves (shielded : Bool) (row : SnapshotRow ν) (saved : Option (SnapshotRow ν))
      (hsaved : saved = some row ∨ saved = none) :
      Turn cfg s w flag (.writeSnapshot shielded row) (afterSnapshot shielded row.terminal) w saved
  | returns (result : Json ν) : Turn cfg s w flag .body (.checkCancelAfter result) w none
  | passes (result : Json ν) (hflag : flag = false) :
      Turn cfg s w flag (.checkCancelAfter result) (.writeSucceeded result) w none
  | stops (result : Json ν) (hflag : flag = true) :
      Turn cfg s w flag (.checkCancelAfter result) .settleCancelled w none
  | settles : Turn cfg s w flag .settleCancelled (.hook false) (TaskStatus.settled w) none
  | succeeds (result : Json ν) (hw : w = .succeeded ∨ w.isTerminal = false) :
      Turn cfg s w flag (.writeSucceeded result)
        (.readSnapshot false { status := .succeeded, terminal := true }) .succeeded none
  | outrun (result : Json ν) (hw : w.isTerminal = true) (hne : w ≠ .succeeded) :
      Turn cfg s w flag (.writeSucceeded result) (.hook false) w none
  | captures (eid : String) (hid : field s cfg.taskId "execution_id" = some (.str eid)) :
      Turn cfg s w flag .captureGeneration (.finalizeCancel (.str eid)) w none
  | failureFlagged (error outcome : String) (hflag : flag = true) :
      Turn cfg s w flag (.finalizeFailure error outcome) (.finalizeSettle error outcome) w none
  | failureUnflagged (error outcome : String) (hflag : flag = false) :
      Turn cfg s w flag (.finalizeFailure error outcome) (.finalizeFailed error) w none
  | failureSettles (error outcome : String) :
      Turn cfg s w flag (.finalizeSettle error outcome)
        (.readSnapshot true { status := .cancelled, terminal := true, error := some error })
        (TaskStatus.settled w) none
  | fails (error : String) (hw : w = .failed ∨ w.isTerminal = false) :
      Turn cfg s w flag (.finalizeFailed error)
        (.readSnapshot true { status := .failed, terminal := true, error := some error })
        .failed none
  | failureOutrun (error : String) (hw : w.isTerminal = true) (hne : w ≠ .failed) :
      Turn cfg s w flag (.finalizeFailed error) (.hook true) w none
  | cancels (id : Json ν) :
      Turn cfg s w flag (.finalizeCancel id)
        (.readSnapshot true { status := .cancelled, terminal := true, executionId := id })
        (TaskStatus.settled w) none
  | hooked (shielded : Bool) : Turn cfg s w flag (.hook shielded) .finished w none

section

variable [DecidableEq ν] [LuaNumber ν] {s : Store ν}

theorem Record.updateTerminal (hv : Vocabulary cfg) (hr : Record cfg eid s w flag)
    {word : TaskStatus} (updates : List (String × Json ν))
    (hgives : Says updates (some word) none) :
    (word ≠ w ∧ w.isTerminal = true ∧ updateTerminal cfg updates s = (.ok false, s)) ∨
      ((word = w ∨ w.isTerminal = false) ∧
        ∃ s', updateTerminal cfg updates s = (.ok true, s') ∧ Record cfg eid s' word flag) := by
  unfold Executor.updateTerminal
  rcases hr.updateTask hv hgives with ⟨hne, hterm, heq⟩ | ⟨hopen, s', heq, hr'⟩
  · exact Or.inl ⟨hne, hterm, by rw [heq]⟩
  · exact Or.inr ⟨hopen, s', by rw [heq], hr'⟩

theorem Record.settle (hv : Vocabulary cfg) (hr : Record cfg eid s w flag)
    (fields : List (String × Json ν))
    (hgives : Says (("status", .str TaskStatus.cancelled.value) :: fields) (some .cancelled) none) :
    ∃ ok s', Executor.updateTerminal cfg
        (("status", .str TaskStatus.cancelled.value) :: fields) s = (.ok ok, s') ∧
      Record cfg eid s' (TaskStatus.settled w) flag := by
  rcases hr.updateTerminal hv _ hgives with ⟨-, hterm, heq⟩ | ⟨hopen, s', heq, hr'⟩
  · exact ⟨false, s, heq, by simpa [TaskStatus.settled, hterm] using hr⟩
  · refine ⟨true, s', heq, ?_⟩
    have hsettled : TaskStatus.settled w = .cancelled := by
      rcases hopen with rfl | hopen
      · rfl
      · simp [TaskStatus.settled, hopen]
    rwa [hsettled]

def Lands (cfg : Config) (eid : String) (s : Store ν) (w : TaskStatus) (flag : Bool) (pc : Pc ν)
    (e : Effect ν) : Prop :=
  ∃ w', Turn cfg s w flag pc e.pc w' e.row ∧ Record cfg eid e.store w' flag

variable {pc : Pc ν}

theorem lands_read (hr : Record cfg eid s w flag) {pc' : Pc ν} {row : Option (SnapshotRow ν)}
    {e : Effect ν} (h : some ⟨pc', s, row⟩ = some e) (hturn : Turn cfg s w flag pc pc' w row) :
    Lands cfg eid s w flag pc e := by
  obtain rfl := Option.some.inj h
  exact ⟨w, hturn, hr⟩

variable {timed : Bool} {e : Effect ν}

/-- Every `await` of `execute`, one case for each branch of the code. -/
theorem turn_next (hv : Vocabulary cfg) (hr : Record cfg eid s w flag)
    (hrel : reliable pc choice = true) (h : pc.next cfg timed s choice = some e) :
    ∃ w', Turn cfg s w flag pc e.pc w' e.row ∧ Record cfg eid e.store w' flag := by
  have hread : ∀ {pc' : Pc ν} {row : Option (SnapshotRow ν)}, some ⟨pc', s, row⟩ = some e →
      Turn cfg s w flag pc pc' w row → Lands cfg eid s w flag pc e :=
    fun heq hturn => lands_read hr heq hturn
  have hflag := hr.isCancelRequested
  unfold Pc.next at h
  split at h
  -- a choice that is not reliable is none of the steps
  all_goals try exact absurd hrel Bool.false_ne_true
  -- the checks before the resource
  · rw [hflag] at h
    cases flag with
    | true => exact hread h (.refuses rfl)
    | false => exact hread h (.early rfl (early_afterCheck cfg))
  · exact hread h (.early rfl (early_ite rfl (early_afterReuse cfg)))
  · exact hread h (.early rfl (early_afterReuse cfg))
  · split at h
    · rename_i hresult
      exact hread h (.reuses hresult)
    · exact hread h (.early rfl (early_afterReuse cfg))
  -- the exemption and the resource
  · split at h
    · exact hread h (.early rfl rfl)
    · exact hread h (.early rfl rfl)
    · split at h
      · exact hread h (.early rfl rfl)
      · exact hread h (.early rfl rfl)
      · exact hread h (.breaks (Or.inl rfl) _ _)
  · exact hread h (.early rfl (early_ite rfl rfl))
  · exact hread h (.early rfl rfl)
  · exact hread h (.breaks (Or.inl rfl) _ _)
  · have hgives : Says [("resource", (.str cfg.resource : Json ν))] none none :=
      ⟨rfl, rfl, rfl, rfl⟩
    obtain rfl := Option.some.inj h
    refine ⟨w, .early rfl rfl, ?_⟩
    rcases hr.updateTask hv hgives with ⟨hne, -⟩ | ⟨-, s', heq, hr'⟩
    · exact absurd rfl hne
    · rw [heq]
      exact hr'
  -- the running status
  · have hgives : Says [("status", (.str TaskStatus.running.value : Json ν))] (some .running)
      none := ⟨rfl, rfl, rfl, rfl⟩
    rcases hr.updateTask hv hgives with ⟨-, -, heq⟩ | ⟨hopen, s', heq, hr'⟩
    · rw [heq] at h
      exact hread h (.breaks (Or.inl rfl) _ _)
    · rw [heq] at h
      obtain rfl := Option.some.inj h
      exact ⟨.running, .runs (hopen.imp_left Eq.symm), hr'⟩
  -- the body and what follows its return
  · exact hread h (.returns _)
  · exact hread h (.breaks (Or.inr rfl) _ _)
  · split at h
    · exact hread h (.breaks (Or.inr rfl) _ _)
    · simp at h
  · rw [hflag] at h
    cases flag with
    | true => exact hread h (.stops _ rfl)
    | false => exact hread h (.passes _ rfl)
  · obtain ⟨ok, s', heq, hr'⟩ := hr.settle hv
      [("cancel_outcome", .str "succeeded_but_cancelled")] ⟨rfl, rfl, rfl, rfl⟩
    rw [heq] at h
    obtain rfl := Option.some.inj h
    exact ⟨_, .settles, hr'⟩
  · rename_i result
    rcases hr.updateTerminal hv [("status", .str TaskStatus.succeeded.value), ("result", result),
      ("progress", .num (LuaNumber.ofNat 1))] ⟨rfl, rfl, rfl, rfl⟩ with
      ⟨hne, hterm, heq⟩ | ⟨hopen, s', heq, hr'⟩
    · rw [heq] at h
      exact hread h (.outrun result hterm hne.symm)
    · rw [heq] at h
      obtain rfl := Option.some.inj h
      exact ⟨.succeeded, .succeeds result (hopen.imp_left Eq.symm), hr'⟩
  -- the handler of a cancellation
  · rw [hr.id] at h
    exact hread h (.captures eid hr.id)
  -- the finalisation of a failure
  · rw [hflag] at h
    cases flag with
    | true => exact hread h (.failureFlagged _ _ rfl)
    | false => exact hread h (.failureUnflagged _ _ rfl)
  · rename_i error outcome
    obtain ⟨ok, s', heq, hr'⟩ := hr.settle hv [("cancel_outcome", .str outcome)]
      ⟨rfl, rfl, rfl, rfl⟩
    rw [heq] at h
    obtain rfl := Option.some.inj h
    exact ⟨_, .failureSettles error outcome, hr'⟩
  · rename_i error
    rcases hr.updateTerminal hv [("status", .str TaskStatus.failed.value), ("error", .str error)]
      ⟨rfl, rfl, rfl, rfl⟩ with ⟨hne, hterm, heq⟩ | ⟨hopen, s', heq, hr'⟩
    · rw [heq] at h
      exact hread h (.failureOutrun error hterm hne.symm)
    · rw [heq] at h
      obtain rfl := Option.some.inj h
      exact ⟨.failed, .fails error (hopen.imp_left Eq.symm), hr'⟩
  -- the finalisation of a cancellation
  · obtain ⟨ok, s', heq, hr'⟩ := hr.settle hv [] ⟨rfl, rfl, rfl, rfl⟩
    rw [heq] at h
    obtain rfl := Option.some.inj h
    exact ⟨_, .cancels _, hr'⟩
  -- the snapshot and the hook
  · exact hread h (.composes _ _)
  · exact hread h (.saves _ _ _ (Or.inl rfl))
  · exact hread h (.saves _ _ _ (Or.inr rfl))
  · exact hread h (.hooked _)
  · simp at h

end

/-! ## The moves of a cancellation -/

open Session

/-- One `await` of a cancellation on a record with the status `w`: where it leads, the status
and the flag afterwards, and whether it cancels the coroutine of `execute`. -/
inductive HandleTurn (w : TaskStatus) (flag running : Bool) :
    Handle → Handle → TaskStatus → Bool → Bool → Prop
  | tooLate (force : Bool) (hw : w.isTerminal = true) :
      HandleTurn w flag running (.read force) (.returned force false) w flag false
  | looks (force : Bool) (hw : w.isTerminal = false) :
      HandleTurn w flag running (.read force) (.requestRead force) w flag false
  | finds (force : Bool) :
      HandleTurn w flag running (.requestRead force) (.requestWrite force) w flag false
  | requests (force : Bool) :
      HandleTurn w flag running (.requestWrite force)
        (if force then .forceCancel else .transitionRead false) w true false
  | forces (hrunning : running = true) :
      HandleTurn w flag running .forceCancel (.returned true true) w flag true
  | notLocal (hrunning : running = false) :
      HandleTurn w flag running .forceCancel (.transitionRead true) w flag false
  | admits (force : Bool) (hw : w.isTerminal = false) :
      HandleTurn w flag running (.transitionRead force) (.transitionWrite force) w flag false
  | declines (force : Bool) (hw : w.isTerminal = true) :
      HandleTurn w flag running (.transitionRead force) (.confirm force) w flag false
  | commits (force : Bool) (hw : w = .cancelled ∨ w.isTerminal = false) :
      HandleTurn w flag running (.transitionWrite force) (.returned force true) .cancelled flag
        false
  | loses (force : Bool) (hw : w.isTerminal = true) :
      HandleTurn w flag running (.transitionWrite force) (.confirm force) w flag false
  | confirms (force : Bool) :
      HandleTurn w flag running (.confirm force) (.returned force (w == .cancelled)) w flag false

theorem TaskStatus.cancelled_allowed (w : TaskStatus) :
    w.allowedTransitions.contains .cancelled = !w.isTerminal := by
  cases w <;> rfl

theorem HandleTurn.outcome {flag' running : Bool}
    (hturn : HandleTurn w flag running h h' w' flag' cancels) :
    Interferes w w' ∧ (flag = true → flag' = true) := by
  cases hturn with
  | commits force hw =>
    refine ⟨?_, fun hflag => hflag⟩
    rcases hw with rfl | hopen
    · exact Or.inl rfl
    · exact Or.inr ⟨hopen, rfl⟩
  | requests force => exact ⟨Or.inl rfl, fun _ => rfl⟩
  | _ => exact ⟨Or.inl rfl, fun hflag => hflag⟩

/-- Where the same call stands among the controls, which do not tell what it returns. -/
def controlOf : Handle → Control
  | .read force => .cancelRead force
  | .requestRead force => .requestRead force
  | .requestWrite force => .requestWrite force
  | .forceCancel => .forceCancel
  | .transitionRead _ => .transitionRead
  | .transitionWrite _ => .transitionWrite
  | .confirm _ | .returned _ _ | .raised => .ended

theorem Record.getTask {s : Store ν} (hr : Record cfg eid s w flag) :
    ∃ record, getTask cfg.taskId s = some record := by
  obtain ⟨record, hrecord, -⟩ := Option.bind_eq_some_iff.mp hr.status
  exact ⟨record, hrecord⟩

section

variable [DecidableEq ν] [LuaNumber ν] {s : Session.State ν}

theorem handleTurn_next (hv : Vocabulary cfg) (hr : Record cfg eid s.store w flag)
    (hnext : h.next cfg s = some (h', store, cancels)) :
    ∃ w' flag', HandleTurn w flag (running s) h h' w' flag' cancels ∧
      Record cfg eid store w' flag' := by
  obtain ⟨record, hrecord⟩ := hr.getTask
  have hstatus := hr.status_eq
  have hread : ∀ {h₁ : Handle} {cancels₁ : Bool},
      some (h₁, s.store, cancels₁) = some (h', store, cancels) →
      HandleTurn w flag (running s) h h₁ w flag cancels₁ →
      ∃ w' flag', HandleTurn w flag (running s) h h' w' flag' cancels ∧
        Record cfg eid store w' flag' := by
    intro h₁ cancels₁ heq hturn
    simp only [Option.some.injEq, Prod.mk.injEq] at heq
    obtain ⟨rfl, rfl, rfl⟩ := heq
    exact ⟨w, flag, hturn, hr⟩
  cases h with
  | read force =>
    simp only [Handle.next, hrecord, hstatus] at hnext
    cases hw : w.isTerminal with
    | true =>
      rw [hw] at hnext
      exact hread hnext (.tooLate force hw)
    | false =>
      rw [hw] at hnext
      exact hread hnext (.looks force hw)
  | requestRead force =>
    simp only [Handle.next, hrecord] at hnext
    exact hread hnext (.finds force)
  | requestWrite force =>
    have hgives : Says [("cancel_requested", (.bool true : Json ν))] none (some true) :=
      ⟨rfl, rfl, rfl, rfl⟩
    rcases hr.updateTask hv hgives with ⟨hne, -⟩ | ⟨-, s', heq, hr'⟩
    · exact absurd rfl hne
    · simp only [Handle.next, heq, Option.some.injEq, Prod.mk.injEq] at hnext
      obtain ⟨rfl, rfl, rfl⟩ := hnext
      exact ⟨w, true, .requests force, hr'⟩
  | forceCancel =>
    simp only [Handle.next] at hnext
    cases hrunning : running s with
    | true =>
      rw [hrunning] at hnext hread
      exact hread hnext (.forces rfl)
    | false =>
      rw [hrunning] at hnext hread
      exact hread hnext (.notLocal rfl)
  | transitionRead force =>
    simp only [Handle.next, hrecord, hstatus, TaskStatus.cancelled_allowed] at hnext
    cases hw : w.isTerminal with
    | true =>
      rw [hw] at hnext
      exact hread hnext (.declines force hw)
    | false =>
      rw [hw] at hnext
      exact hread hnext (.admits force hw)
  | transitionWrite force =>
    have hgives : Says [("status", (.str TaskStatus.cancelled.value : Json ν))] (some .cancelled)
      none := ⟨rfl, rfl, rfl, rfl⟩
    rcases hr.updateTask hv hgives with ⟨-, hterm, heq⟩ | ⟨hopen, s', heq, hr'⟩
    · simp only [Handle.next, heq] at hnext
      exact hread hnext (.loses force hterm)
    · simp only [Handle.next, heq, Option.some.injEq, Prod.mk.injEq] at hnext
      obtain ⟨rfl, rfl, rfl⟩ := hnext
      exact ⟨.cancelled, flag, .commits force (hopen.imp_left Eq.symm), hr'⟩
  | confirm force =>
    simp only [Handle.next, hrecord, hstatus] at hnext
    exact hread hnext (.confirms force)
  | returned force ok | raised => simp [Handle.next] at hnext

/-- But for the last look of a call, which only decides what it returns, a turn of it is the turn
of its control. -/
theorem control_next {t : Executor.State ν} (hstore : t.store = s.store)
    (hrunning : t.running.isSome = running s) (hconfirm : ∀ force, h ≠ .confirm force)
    (hnext : h.next cfg s = some (h', store, cancels)) :
    (controlOf h).next cfg t = some (controlOf h', store) := by
  have hgone : getTask cfg.taskId s.store = none → status cfg s.store = none := by
    intro hnone
    simp [status, field, hnone, TaskStatus.ofField]
  cases h with
  | confirm force => exact absurd rfl (hconfirm force)
  | returned | raised => simp [Handle.next] at hnext
  | _ =>
    simp only [Handle.next] at hnext
    simp only [controlOf, Control.next, hstore, hrunning]
    (try split at hnext) <;> grind [controlOf]

end

/-! ## One event -/

theorem Record.tick {s : Store ν} (hr : Record cfg eid s w flag) {ms : Nat}
    (hlives : (TaskStore.getTask cfg.taskId (tick ms s)).isSome = true) :
    Record cfg eid (tick ms s) w flag := by
  have hsame : ∀ k, field (TaskStore.tick ms s) cfg.taskId k =
      field s cfg.taskId k := by
    rcases TaskStore.Proofs.shrinks_tick ms s cfg.taskId with hkeep | hgone
    · exact TaskStore.Proofs.field_congr hkeep
    · simp [TaskStore.getTask, hgone] at hlives
  exact ⟨(hsame _).trans hr.status, (hsame _).trans hr.id, (hsame _).trans hr.flag,
    by rw [hsame]; exact hr.parent⟩

section

variable [DecidableEq ν] [LuaNumber ν]

def steady (cfg : Config) (s : Session.State ν) : Session.Event ν → Bool
  | .proceed choice | .interrupt (some choice) =>
    match s.execution with
    | some x => reliable x.pc choice
    | none => true
  | .advance ms => (TaskStore.getTask cfg.taskId (tick ms s.store)).isSome
  | .evict => false
  | _ => true

/-- What an event can do, with the status and the flag of the record before and after. -/
inductive Moves (cfg : Config) (eid : String) (s : Session.State ν) (w : TaskStatus) (flag : Bool) :
    Session.Event ν → Session.State ν → TaskStatus → Bool → Prop
  | begins (here timed : Bool) (hnone : s.execution = none) :
      Moves cfg eid s w flag (.execute here timed)
        { s with execution := some ⟨eid, here, timed, true, .checkCancel⟩ } w flag
  | unstarts (hnone : s.execution = none) :
      Moves cfg eid s w flag .unstarted
        { s with execution := some ⟨eid, false, false, false, .finished⟩ } w flag
  | turns (choice : Choice ν) (x : Execution ν) (e : Effect ν) (w' : TaskStatus)
      (hx : s.execution = some x) (hfree : s.cancelling = true → x.pc.shielded = true)
      (hnext : x.pc.next cfg x.timed s.store choice = some e)
      (hturn : Turn cfg s.store w flag x.pc e.pc w' e.row) :
      Moves cfg eid s w flag (.proceed choice)
        { s.record cfg e with
          execution := some { x with pc := e.pc, attached := x.attached && !e.pc.isFinished }
          cancelling := s.cancelling && (x.attached && !e.pc.isFinished)
          hooks := if isHook e.pc then s.hooks ++ [hookAfter x.pc] else s.hooks } w' flag
  | cancels (x : Execution ν) (hx : s.execution = some x) (hattached : x.attached = true) :
      Moves cfg eid s w flag .cancelCoroutine { s with cancelling := true } w flag
  | interrupts (x : Execution ν) (hx : s.execution = some x) (hcancelling : s.cancelling = true)
      (hattached : x.attached = true) :
      Moves cfg eid s w flag (.interrupt none)
        { s with
          execution := some { x with
            pc := x.pc.interrupted, attached := x.pc.interrupted.isCapture }
          cancelling := false } w flag
  | interruptsLate (choice : Choice ν) (x : Execution ν) (e : Effect ν) (w' : TaskStatus)
      (hx : s.execution = some x) (hcancelling : s.cancelling = true)
      (hattached : x.attached = true) (hpc : x.pc.shielded = false)
      (hshielded : e.pc.shielded = false) (hfinished : e.pc.isFinished = false)
      (hnext : x.pc.next cfg x.timed s.store choice = some e)
      (hturn : Turn cfg s.store w flag x.pc e.pc w' e.row) :
      Moves cfg eid s w flag (.interrupt (some choice))
        { s.record cfg e with
          execution := some { x with pc := .captureGeneration }, cancelling := false } w' flag
  | swallows (x : Execution ν) (hx : s.execution = some x) (hpc : swallows x = true) :
      Moves cfg eid s w flag .swallow { s with cancelling := false } w flag
  | calls (event : Session.Event ν) (force : Bool) :
      Moves cfg eid s w flag event { s with handles := s.handles ++ [.read force] } w flag
  | handles (i : Nat) (h h' : Handle) (store : Store ν) (w' : TaskStatus) (flag' cancels : Bool)
      (hi : s.handles[i]? = some h)
      (hturn : HandleTurn w flag (running s) h h' w' flag' cancels) :
      Moves cfg eid s w flag (.handle i)
        { s with
          store := store
          handles := s.handles.set i h'
          cancelling := s.cancelling || cancels } w' flag'
  | handleFails (i : Nat) :
      Moves cfg eid s w flag (.handleFails i) { s with handles := s.handles.set i .raised } w flag
  | ages (ms : Nat) :
      Moves cfg eid s w flag (.advance ms) { s with store := tick ms s.store } w flag

variable {s s' : Session.State ν} {e : Session.Event ν}

theorem next_eq_some {x x' : Execution ν} {effect : Effect ν} (hchoice : choice ≠ .interrupt)
    (h : x.next cfg store choice = some (x', effect)) :
    x.pc.next cfg x.timed store choice = some effect ∧
      x' = { x with pc := effect.pc, attached := x.attached && !effect.pc.isFinished } := by
  unfold Execution.next at h
  split at h
  · exact absurd rfl hchoice
  · obtain ⟨effect', hnext, heq⟩ := Option.map_eq_some_iff.mp h
    obtain ⟨rfl, rfl⟩ := Prod.mk.inj heq
    exact ⟨hnext, rfl⟩

section

variable (hv : Vocabulary cfg) (hr : Record cfg eid s.store w flag)
include hv hr

theorem moves_proceed (hsteady : steady cfg s (.proceed choice) = true)
    (h : Session.proceed cfg choice s = some s') :
    ∃ w' flag', Moves cfg eid s w flag (.proceed choice) s' w' flag' ∧
      Record cfg eid s'.store w' flag' := by
  unfold Session.proceed at h
  split at h
  · simp at h
  · simp at h
  · rename_i choice _ _ x hx hchoice
    have hrel : reliable x.pc choice = true := by simpa [steady, hx] using hsteady
    split at h
    · simp at h
    · rename_i hfree
      obtain ⟨⟨x', effect⟩, hnext, rfl⟩ := Option.map_eq_some_iff.mp h
      obtain ⟨hpc, rfl⟩ := next_eq_some hchoice hnext
      obtain ⟨w', hturn, hr'⟩ := turn_next hv hr hrel hpc
      refine ⟨w', flag, .turns choice x effect w' hx ?_ hpc hturn, hr'⟩
      intro hcancelling
      simpa [hcancelling] using hfree

theorem moves_interrupt {done : Option (Choice ν)}
    (hsteady : steady cfg s (.interrupt done) = true) (h : Session.interrupt cfg done s = some s') :
    ∃ w' flag', Moves cfg eid s w flag (.interrupt done) s' w' flag' ∧
      Record cfg eid s'.store w' flag' := by
  unfold Session.interrupt at h
  split at h
  · simp at h
  · rename_i x hx
    split at h
    · rename_i hcancelling
      obtain ⟨⟨x', effect⟩, hnext, rfl⟩ := Option.map_eq_some_iff.mp h
      simp only [Execution.next] at hnext
      split at hnext
      · rename_i hattached
        obtain ⟨rfl, -⟩ := Prod.mk.inj (Option.some.inj hnext)
        exact ⟨w, flag, .interrupts x hx hcancelling hattached, hr⟩
      · simp at hnext
    · simp at h
  · rename_i x choice hx
    have hrel : reliable x.pc choice = true := by simpa [steady, hx] using hsteady
    split at h
    · rename_i hready
      simp only [Bool.and_eq_true, Bool.not_eq_true'] at hready
      obtain ⟨⟨hcancelling, hattached⟩, hshielded⟩ := hready
      obtain ⟨effect, hnext, hrest⟩ := Option.bind_eq_some_iff.mp h
      split at hrest
      · simp at hrest
      · rename_i hopen
        simp only [Bool.or_eq_true, not_or, Bool.not_eq_true] at hopen
        obtain rfl := Option.some.inj hrest
        obtain ⟨w', hturn, hr'⟩ := turn_next hv hr hrel hnext
        exact ⟨w', flag, .interruptsLate choice x effect w' hx hcancelling hattached hshielded
          hopen.1 hopen.2 hnext hturn, hr'⟩
    · simp at h

theorem moves_step (hsteady : steady cfg s e = true) (h : Session.step cfg s e = some s') :
    ∃ w' flag', Moves cfg eid s w flag e s' w' flag' ∧ Record cfg eid s'.store w' flag' := by
  cases e with
  | execute here timed =>
    simp only [Session.step, hr.id] at h
    split at h
    · rename_i hnone hbirth
      simp only [Option.some.injEq, Json.str.injEq] at hbirth
      subst hbirth
      obtain rfl := Option.some.inj h
      exact ⟨w, flag, .begins here timed hnone, hr⟩
    · simp at h
  | unstarted =>
    simp only [Session.step, hr.id] at h
    split at h
    · rename_i hnone hbirth
      simp only [Option.some.injEq, Json.str.injEq] at hbirth
      subst hbirth
      obtain rfl := Option.some.inj h
      exact ⟨w, flag, .unstarts hnone, hr⟩
    · simp at h
  | proceed choice => exact moves_proceed hv hr hsteady h
  | cancelCoroutine =>
    simp only [Session.step] at h
    split at h
    · rename_i x hx
      split at h
      · rename_i hattached
        obtain rfl := Option.some.inj h
        exact ⟨w, flag, .cancels x hx hattached, hr⟩
      · simp at h
    · simp at h
  | interrupt done => exact moves_interrupt hv hr hsteady h
  | swallow =>
    simp only [Session.step, Session.swallow] at h
    split at h
    · rename_i x hx
      split at h
      · rename_i hready
        obtain rfl := Option.some.inj h
        exact ⟨w, flag, .swallows x hx (Bool.and_eq_true_iff.mp hready).2, hr⟩
      · simp at h
    · simp at h
  | cancel =>
    obtain rfl := Option.some.inj h
    exact ⟨w, flag, .calls _ false, hr⟩
  | terminate =>
    obtain rfl := Option.some.inj h
    exact ⟨w, flag, .calls _ true, hr⟩
  | handle i =>
    obtain ⟨⟨h', store, cancels⟩, hbind, rfl⟩ := Option.map_eq_some_iff.mp h
    obtain ⟨handle, hi, hnext⟩ := Option.bind_eq_some_iff.mp hbind
    obtain ⟨w', flag', hturn, hr'⟩ := handleTurn_next hv hr hnext
    exact ⟨w', flag', .handles i handle h' store w' flag' cancels hi hturn, hr'⟩
  | handleFails i =>
    obtain ⟨h', hbind, rfl⟩ := Option.map_eq_some_iff.mp h
    obtain ⟨handle, -, hfails⟩ := Option.bind_eq_some_iff.mp hbind
    obtain rfl : h' = .raised := by
      unfold Handle.fails at hfails
      split at hfails <;> simp_all
    exact ⟨w, flag, .handleFails i, hr⟩
  | advance ms =>
    obtain rfl := Option.some.inj h
    exact ⟨w, flag, .ages ms, hr.tick hsteady⟩
  | evict => simp [steady] at hsteady

end

end

end Orditect.Executor.Proofs
