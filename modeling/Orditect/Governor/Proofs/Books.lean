import Orditect.Governor.Books
/-!
# The audit of a streaming call and the ledger

The audit reports the cost that was computed, not the charge that was recorded.  The two
agree as long as no computed cost is carried into the `finally` block without its charge.
-/

namespace Orditect.Governor.Books.Proofs

open Support.LuaJson Support.JsonText Support.Transition Governor.Streaming

variable {ρ ν : Type} {cfg : Config} {s s' : State ρ ν} {cost : Int}

/-! ## The payload -/

variable {d : List (String × Json ν)} {accepted : Bool}

section Payload

variable {call : Streaming.State ρ ν} {fields : List (String × Json ν)}

theorem lookup_optional (k : String) (value : Option (Json ν)) (d : List (String × Json ν))
    (key : String) :
    (optional k value d).lookup key =
      if key = k then value.or (d.lookup key) else d.lookup key := by
  cases value with
  | none => simp [Streaming.optional]
  | some value => simp [Streaming.optional, lookup_setItem]

theorem lookup_flag (k : String) (condition : Bool) (d : List (String × Json ν)) (key : String) :
    (flag k condition d).lookup key =
      if key = k ∧ condition = true then some (.bool true) else d.lookup key := by
  cases condition <;> simp [flag, lookup_setItem]

def Clean (call : Streaming.State ρ ν) (fields : List (String × Json ν)) : Prop :=
  (call.cost = none → fields.lookup "cost_units" = none) ∧
    ((call.error && call.cost.isSome) = false → fields.lookup "charged_on_error" = none)

theorem lookup_foldl_setItem {key : String} {pairs : List (String × Json ν)}
    (hpairs : pairs.lookup key = none) (hd : d.lookup key = none) :
    (pairs.foldl setItem d).lookup key = none := by
  induction pairs generalizing d with
  | nil => exact hd
  | cons f pairs ih =>
    obtain ⟨k, v⟩ := f
    have hne : key ≠ k := by
      rintro rfl
      simp at hpairs
    rw [lookup_cons_ne hne] at hpairs
    exact ih hpairs (by rw [lookup_setItem, if_neg hne, hd])

theorem Clean.dict (h : Clean call fields) : Clean call (dict fields) :=
  ⟨fun hcost => lookup_foldl_setItem (h.1 hcost) rfl,
    fun hflag => lookup_foldl_setItem (h.2 hflag) rfl⟩

theorem clean_nil : Clean call [] := ⟨fun _ => rfl, fun _ => rfl⟩

def Even (call : Streaming.State ρ ν) (recorded : List Entry) : Prop :=
  recorded = call.cost.toList.map fun units => ⟨units, call.error⟩

variable {recorded : List Entry}

theorem even_of_none (hcost : call.cost = none) (hempty : recorded = []) : Even call recorded := by
  rw [Even, hcost]
  exact hempty

variable [IntCast ν]

theorem lookup_payload_cost (ms : Int) (error : Option String) :
    (payload cfg call ms fields error).lookup "cost_units" =
      (call.cost.map fun units => Json.num (units : ν)).or (fields.lookup "cost_units") := by
  simp [payload, lookup_optional, lookup_flag, lookup_setItem]

theorem lookup_payload_charged (ms : Int) (error : Option String) :
    (payload cfg call ms fields error).lookup "charged_on_error" =
      if (call.error && call.cost.isSome) = true then some (.bool true)
      else fields.lookup "charged_on_error" := by
  simp [payload, lookup_optional, lookup_flag, lookup_setItem]

theorem Even.reconciled (h : Even call recorded) (hclean : Clean call fields) (ms : Int)
    (error : Option String) :
    Reconciled recorded (payload cfg call ms fields error) := by
  rw [Even] at h
  subst h
  refine ⟨by cases call.cost <;> simp, ?_, ?_⟩
  · rw [lookup_payload_cost]
    cases hcost : call.cost with
    | none => simp [hclean.1 hcost]
    | some units => simp
  · rw [lookup_payload_charged]
    cases hflag : call.error && call.cost.isSome with
    | true =>
      obtain ⟨herror, hcost⟩ := Bool.and_eq_true_iff.mp hflag
      obtain ⟨units, hunits⟩ := Option.isSome_iff_exists.mp hcost
      simp [hunits, herror]
    | false =>
      rw [hclean.2 hflag]
      cases hcost : call.cost with
      | none => simp
      | some units =>
        have herror : call.error = false := by simpa [hcost] using hflag
        simp [herror]

theorem reconciled_pointer (h : Reconciled recorded d) (pointer : Option (Json ν)) :
    Reconciled recorded (optional "pointer" pointer d) := by
  refine ⟨h.1, ?_, ?_⟩
  · rw [lookup_optional]
    exact h.2.1
  · rw [lookup_optional]
    exact h.2.2

end Payload

/-! ## The invariant -/

variable [IntCast ν]

def Held (cfg : Config) (cost : Int) (call : Streaming.State ρ ν) (recorded : List Entry) :
    Pc ν → Prop
  | .enter | .checkBudget | .checkCancel | .acquire | .openHandler | .nextChunk | .yielded
  | .readResult | .price => call.cost = none ∧ recorded = []
  | .charge => call.cost = some cost ∧ recorded = []
  | .checkToken => (call.cost = none ∨ cfg.resultFn = true) ∧ recorded = []
  | .salvageResult | .salvagePrice => recorded = []
  | .salvageCharge => call.cost = some cost ∧ recorded = []
  | .closeHandler | .readPartial | .finalize | .payload _ => Even call recorded
  | .errorText _ fields => Even call recorded ∧ Clean call fields
  | .pointerize d | .audit d => Reconciled recorded d
  | .release | .ended => True

structure Kept (cfg : Config) (cost : Int) (s : State ρ ν) : Prop where
  held : Held cfg cost s.call s.recorded s.call.pc
  audited : ∀ event ∈ s.call.audits, Reconciled s.recorded event.payload
  before : s.call.pc.isOver = false → s.call.audits = []

theorem kept_start : Kept cfg cost (State.start : State ρ ν) :=
  ⟨⟨rfl, rfl⟩, fun _ h => absurd h List.not_mem_nil, fun _ => rfl⟩

variable {pc : Pc ν} {error : Raised} {e : Event ρ ν} {call : Streaming.State ρ ν}

theorem Kept.stands (h : Kept cfg cost s) (hpc : s.call.pc = pc) (hbusy : pc.isOver = false) :
    s.call.audits = [] ∧ Held cfg cost s.call s.recorded pc := by
  subst hpc
  exact ⟨h.before hbusy, h.held⟩

section Ways

variable {call : Streaming.State ρ ν} {recorded : List Entry}

theorem Kept.of_held (haudits : call.audits = [])
    (hheld : Held cfg cost call recorded call.pc) : Kept cfg cost ⟨call, recorded⟩ :=
  ⟨hheld, fun _ h => absurd (haudits ▸ h) List.not_mem_nil, fun _ => haudits⟩

theorem Kept.moves {next : Streaming.State ρ ν} (h : Kept cfg cost s)
    (hnext : some next = some call) (hpc : s.call.pc = pc) (hbusy : pc.isOver = false)
    (haudits : next.audits = s.call.audits)
    (hheld : Held cfg cost s.call s.recorded pc → Held cfg cost next s.recorded next.pc) :
    Kept cfg cost ⟨call, s.recorded⟩ := by
  obtain rfl := Option.some.inj hnext
  obtain ⟨hnone, hstands⟩ := h.stands hpc hbusy
  exact .of_held (haudits.trans hnone) (hheld hstands)

variable (haudits : call.audits = [])

include haudits

theorem kept_leaveTry (h : Even call recorded) : Kept cfg cost ⟨leaveTry cfg call, recorded⟩ := by
  refine .of_held haudits ?_
  unfold leaveTry afterClose
  split
  · exact h
  · split <;> exact h

theorem kept_salvage (hnone : recorded = []) (h : call.cost = none ∨ cfg.resultFn = true) :
    Kept cfg cost ⟨salvage cfg call, recorded⟩ := by
  unfold salvage
  split
  · exact .of_held haudits hnone
  next hresult =>
    exact kept_leaveTry haudits (even_of_none (h.resolve_right hresult) hnone)

theorem kept_afterSalvageResult (hnone : recorded = [])
    (h : call.cost.isSome = true → call.result.isSome = true) :
    Kept cfg cost ⟨afterSalvageResult cfg call, recorded⟩ := by
  unfold afterSalvageResult
  split
  · exact .of_held haudits hnone
  next hresult =>
    have hcost : call.cost = none := by
      simpa using fun hsome => hresult (h hsome)
    exact kept_leaveTry haudits (even_of_none hcost hnone)

theorem kept_handle (herror : error ≠ .cancelled) (hnone : recorded = [])
    (h : call.cost = none ∨ cfg.resultFn = true) :
    Kept cfg cost ⟨handle cfg call error, recorded⟩ := by
  cases error with
  | generatorExit =>
    simp only [handle]
    split
    · exact .of_held haudits ⟨h, hnone⟩
    · exact kept_salvage haudits hnone h
  | cancelled => exact absurd rfl herror
  | exception | other =>
    have hraised : ({ call with error := true } : Streaming.State ρ ν).audits = [] := haudits
    exact kept_salvage hraised hnone h

theorem kept_afterPointer (h : Reconciled recorded d) (pointer : Option (Json ν)) :
    Kept cfg cost ⟨{ call with pc := afterPointer cfg d pointer }, recorded⟩ := by
  refine .of_held haudits ?_
  unfold afterPointer
  split
  · exact reconciled_pointer h pointer
  · trivial

variable {fields : List (String × Json ν)}

theorem kept_afterError (h : Even call recorded) (hclean : Clean call fields) (ms : Int)
    (error : Option String) :
    Kept cfg cost ⟨{ call with pc := afterError cfg call ms fields error }, recorded⟩ := by
  unfold afterError
  dsimp only
  split
  · exact .of_held haudits (h.reconciled hclean ms error)
  · exact kept_afterPointer haudits (h.reconciled hclean ms error) none

theorem kept_afterPayload (h : Even call recorded) (hclean : Clean call fields) (ms : Int) :
    Kept cfg cost ⟨{ call with pc := afterPayload cfg call ms fields }, recorded⟩ := by
  unfold afterPayload
  split
  · exact .of_held haudits ⟨h, hclean⟩
  · exact kept_afterError haudits h hclean ms none

end Ways

/-! ## Steps -/

omit [IntCast ν] in
theorem booked_eq_nil (h : ¬(atCharge s.call.pc = true ∧ e.choice = .proceed)) :
    booked s.call e = [] := by
  unfold booked
  rw [if_neg]
  rintro hbooked
  obtain ⟨hcharge, -⟩ := Bool.and_eq_true_iff.mp hbooked
  obtain ⟨hcharge, hproceed⟩ := Bool.and_eq_true_iff.mp hcharge
  refine h ⟨hcharge, ?_⟩
  cases hchoice : e.choice <;> simp [hchoice, Choice.isProceed] at hproceed ⊢

theorem Kept.raised (h : Kept cfg cost s) (hpriced : Priced cost s ⟨.raised error, accepted⟩)
    (hsteady : Steady cfg s ⟨.raised error, accepted⟩)
    (hraised : Streaming.raised cfg s.call error = some call) :
    Kept cfg cost ⟨call, s.recorded⟩ := by
  have hcancelled : error ≠ .cancelled := by
    rintro rfl
    exact hpriced
  unfold Streaming.raised at hraised
  cases hpc : s.call.pc with
  | enter | checkBudget | checkCancel | acquire =>
    simp only [hpc] at hraised
    exact h.moves hraised hpc rfl rfl fun _ => trivial
  | openHandler | nextChunk | yielded | readResult | price =>
    simp only [hpc, Option.some.injEq] at hraised
    subst hraised
    obtain ⟨haudits, hnone, hempty⟩ := h.stands hpc rfl
    exact kept_handle haudits hcancelled hempty (Or.inl hnone)
  | charge =>
    simp only [hpc, Option.some.injEq] at hraised
    subst hraised
    obtain ⟨haudits, -, hempty⟩ := h.stands hpc rfl
    have hresult : cfg.resultFn = true := by simpa [Steady, hpc] using hsteady
    exact kept_handle haudits hcancelled hempty (Or.inr hresult)
  | checkToken =>
    simp only [hpc, Option.some.injEq] at hraised
    subst hraised
    obtain ⟨haudits, -, hempty⟩ := h.stands hpc rfl
    have hcost : s.call.cost = none := by simpa [Steady, hpc] using hsteady
    exact kept_leaveTry haudits (even_of_none hcost hempty)
  | salvageResult =>
    simp only [hpc, Option.some.injEq] at hraised
    subst hraised
    obtain ⟨haudits, hempty⟩ := h.stands hpc rfl
    have hsome : s.call.cost.isSome = true →
        error = .exception ∧ s.call.result.isSome = true := by
      simpa [Steady, hpc] using hsteady
    split
    · exact kept_afterSalvageResult haudits hempty fun hcost => (hsome hcost).2
    next hother =>
      have hcost : s.call.cost = none := by
        simpa using fun hcost => hother (hsome hcost).1
      exact kept_leaveTry haudits (even_of_none hcost hempty)
  | salvagePrice =>
    have hnot : atPrice s.call.pc = false := by
      cases error with
      | cancelled => exact absurd rfl hcancelled
      | exception | generatorExit | other => exact hpriced
    simp [hpc, atPrice] at hnot
  | salvageCharge => exact absurd hsteady (by simp [Steady, hpc])
  | closeHandler =>
    simp only [hpc] at hraised
    refine h.moves hraised hpc rfl rfl fun heven => ?_
    dsimp only [afterClose]
    split
    · split <;> exact heven
    · trivial
  | readPartial =>
    simp only [hpc] at hraised
    refine h.moves hraised hpc rfl rfl fun heven => ?_
    dsimp only
    split
    · exact heven
    · trivial
  | payload ms =>
    simp only [hpc, Option.some.injEq] at hraised
    subst hraised
    obtain ⟨haudits, heven⟩ := h.stands hpc rfl
    split
    · exact kept_afterPayload haudits heven clean_nil ms
    · exact .of_held haudits trivial
  | errorText =>
    simp only [hpc] at hraised
    exact h.moves hraised hpc rfl rfl fun _ => trivial
  | pointerize d =>
    simp only [hpc, Option.some.injEq] at hraised
    subst hraised
    obtain ⟨haudits, hreconciled⟩ := h.stands hpc rfl
    split
    · exact kept_afterPointer haudits hreconciled none
    · exact .of_held haudits trivial
  | audit d =>
    simp only [hpc] at hraised
    refine h.moves hraised hpc rfl rfl fun _ => ?_
    dsimp only
    split <;> trivial
  | finalize | release | ended => simp [hpc] at hraised

theorem Kept.charged (h : Kept cfg cost s) (hpos : 0 < cost) (hcharge : atCharge s.call.pc = true)
    (hsteady : Steady cfg s ⟨.proceed, accepted⟩)
    (hnext : Streaming.next cfg s.call .proceed = some call) :
    Kept cfg cost ⟨call, s.recorded ++ booked s.call ⟨.proceed, accepted⟩⟩ := by
  have heven (hcost : s.call.cost = some cost) (hnone : s.recorded = [])
      (haccepted : accepted = true) :
      Even s.call (s.recorded ++ booked s.call ⟨.proceed, accepted⟩) := by
    simp [Even, booked, hcharge, Choice.isProceed, hcost, hpos, hnone, haccepted]
  cases hpc : s.call.pc with
  | charge | salvageCharge =>
    obtain ⟨haudits, hcost, hnone⟩ := h.stands hpc rfl
    have haccepted : accepted = true := by simpa [Steady, hpc] using hsteady
    simp only [Streaming.next, hpc, Option.some.injEq] at hnext
    subst hnext
    exact kept_leaveTry haudits (heven hcost hnone haccepted)
  | _ => simp [hpc, atCharge] at hcharge

theorem Kept.onward (h : Kept cfg cost s) {choice : Choice ρ ν} (hbudget : cfg.budget = true)
    (hcharge : ¬(atCharge s.call.pc = true ∧ choice = .proceed))
    (hpriced : Priced cost s ⟨choice, accepted⟩) (hsteady : Steady cfg s ⟨choice, accepted⟩)
    (hnext : Streaming.next cfg s.call choice = some call) :
    Kept cfg cost ⟨call, s.recorded⟩ := by
  unfold Streaming.next at hnext
  split at hnext
  · exact h.raised hpriced hsteady hnext
  -- before the `try` block
  · refine h.moves hnext ‹_› rfl rfl fun hheld => ?_
    simp only [hbudget, if_true]
    split
    · trivial
    · exact hheld
  · refine h.moves hnext ‹_› rfl rfl fun hheld => ?_
    dsimp only [afterBudget]
    split <;> exact hheld
  · refine h.moves hnext ‹_› rfl rfl fun hheld => ?_
    dsimp only
    split
    · trivial
    · exact hheld
  · exact h.moves hnext ‹_› rfl rfl id
  -- the `try` block
  · exact h.moves hnext ‹_› rfl rfl id
  · exact h.moves hnext ‹_› rfl rfl id
  · refine h.moves hnext ‹_› rfl rfl fun hheld => ?_
    dsimp only
    split <;> exact hheld
  · exact h.moves hnext ‹_› rfl rfl id
  · exact h.moves hnext ‹_› rfl rfl id
  · rename_i hpc
    obtain rfl := hpriced
    simp only [hbudget, if_true] at hnext
    exact h.moves hnext hpc rfl rfl fun hheld => ⟨rfl, hheld.2⟩
  · rename_i hpc
    simp [hpc, atCharge] at hcharge
  -- the `except` clauses
  · rename_i cancelled hpc
    obtain rfl := Option.some.inj hnext
    obtain ⟨haudits, hcharged, hempty⟩ := h.stands hpc rfl
    have hgoes : s.call.cost.isSome = true → cancelled = false := by
      simpa [Steady, hpc] using hsteady
    split
    next hcancelled =>
      have hcost : s.call.cost = none := by simpa [hcancelled] using hgoes
      exact kept_leaveTry haudits (even_of_none hcost hempty)
    · exact kept_salvage haudits hempty hcharged
  · rename_i result hpc
    obtain rfl := Option.some.inj hnext
    obtain ⟨haudits, hempty⟩ := h.stands hpc rfl
    have hresult : s.call.cost.isSome = true → result.isSome = true := by
      simpa [Steady, hpc] using hsteady
    exact kept_afterSalvageResult haudits hempty hresult
  · rename_i hpc
    obtain rfl := hpriced
    simp only [hbudget, if_true] at hnext
    exact h.moves hnext hpc rfl rfl fun hempty => ⟨rfl, hempty⟩
  · rename_i hpc
    simp [hpc, atCharge] at hcharge
  -- the `finally` block
  · refine h.moves hnext ‹_› rfl rfl fun heven => ?_
    dsimp only [afterClose]
    split <;> exact heven
  · exact h.moves hnext ‹_› rfl rfl id
  · rename_i hpc
    obtain rfl := Option.some.inj hnext
    obtain ⟨haudits, heven⟩ := h.stands hpc rfl
    split
    · exact .of_held haudits heven
    · exact kept_afterPayload haudits heven clean_nil _
  · rename_i d hpc
    obtain rfl := Option.some.inj hnext
    obtain ⟨haudits, heven⟩ := h.stands hpc rfl
    have hclean : Clean s.call d := by
      rw [Steady, hpc] at hsteady
      exact hsteady
    exact kept_afterPayload haudits heven hclean.dict _
  · rename_i hpc
    obtain rfl := Option.some.inj hnext
    obtain ⟨haudits, heven, hclean⟩ := h.stands hpc rfl
    exact kept_afterError haudits heven hclean _ _
  · rename_i hpc
    obtain rfl := Option.some.inj hnext
    obtain ⟨haudits, hreconciled⟩ := h.stands hpc rfl
    exact kept_afterPointer haudits hreconciled _
  · rename_i d hpc
    obtain rfl := Option.some.inj hnext
    obtain ⟨haudits, hheld⟩ := h.stands hpc rfl
    have hreconciled : Reconciled s.recorded d := hheld
    refine ⟨trivial, ?_, nofun⟩
    simpa [haudits, auditEvent] using hreconciled
  · simp at hnext

theorem Kept.step (h : Kept cfg cost s) (hbudget : cfg.budget = true) (hpos : 0 < cost)
    (hpriced : Priced cost s e) (hsteady : Steady cfg s e) (hstep : Books.step cfg s e = some s') :
    Kept cfg cost s' := by
  obtain ⟨choice, accepted⟩ := e
  obtain ⟨call, hnext, rfl⟩ := Option.map_eq_some_iff.mp hstep
  by_cases hcharge : atCharge s.call.pc = true ∧ choice = .proceed
  · obtain ⟨hcharge, rfl⟩ := hcharge
    exact h.charged hpos hcharge hsteady hnext
  · rw [booked_eq_nil hcharge, List.append_nil]
    exact h.onward hbudget hcharge hpriced hsteady hnext

/-- In every run in which no computed cost misses its charge, the audit of the call reports
the charge on the books: its units, and whether it was recorded on the error path. -/
theorem audit_reconciles (cfg : Config) (hbudget : cfg.budget = true) (cost : Int)
    (hpos : 0 < cost) {es : List (Event ρ ν)} {s : State ρ ν}
    (hrun : run (Books.step cfg) State.start es = some s)
    (hpriced : Along (Books.step cfg) (Priced cost) State.start es)
    (hsteady : Along (Books.step cfg) (Steady cfg) State.start es) :
    ∀ event ∈ s.call.audits, Reconciled s.recorded event.payload := by
  have hkept : Kept cfg cost s :=
    run_invariant_along (fun _ _ _ h hG => h.step hbudget hpos hG.1 hG.2) kept_start
      (hpriced.and hsteady) hrun
  exact hkept.audited

/-! ## A charge that fails on the normal path -/

private def budgeted (resultFn : Bool) : Config where
  handler := true
  closable := false
  cancelToken := false
  budget := true
  resultFn := resultFn
  payloadFn := false
  partialFn := false
  contentWriter := false
  auditWriter := true
  callId := "call-1"
  taskId := none
  parentTaskId := none
  executionId := none
  scope := none
  eventType := ""

private def took (choice : Choice Unit Int) : Event Unit Int := ⟨choice, true⟩

private def opened : List (Event Unit Int) :=
  [took .proceed, took .proceed, took (.granted "t"), took .proceed, took .exhausted]

private def closed : List (Event Unit Int) :=
  [took (.elapsed 7), took (.text "timeout"), took .proceed]

private def chargedAgain : List (Event Unit Int) :=
  opened ++ [took (.value (some ())), took (.priced 5), took (.raised .exception),
    took (.value (some ())), took (.priced 5), took .proceed] ++ closed

private def neverCharged : List (Event Unit Int) :=
  opened ++ [took (.priced 5), took (.raised .exception)] ++ closed

theorem audit_reconciles_chargedAgain :
    (replay (Books.step (budgeted true)) State.start chargedAgain).recorded = [⟨5, true⟩] ∧
      ∀ event ∈ (replay (Books.step (budgeted true)) State.start chargedAgain).call.audits,
        Reconciled [⟨5, true⟩] event.payload :=
  ⟨by decide, audit_reconciles (budgeted true) rfl 5 (by decide) (run_eq_replay (by decide))
    (by decide) (by decide)⟩

theorem audit_of_uncharged :
    ∃ s : State Unit Int, run (Books.step (budgeted false)) State.start neverCharged = some s ∧
      Along (Books.step (budgeted false)) (Priced 5) State.start neverCharged ∧
      s.recorded = [] ∧ ∃ event, s.call.audits = [event] ∧
        event.payload.lookup "cost_units" = some (.num 5) ∧
        event.payload.lookup "charged_on_error" = some (.bool true) :=
  ⟨_, run_eq_replay (by decide), by decide, by decide, _, rfl, rfl, rfl⟩

end Orditect.Governor.Books.Proofs
