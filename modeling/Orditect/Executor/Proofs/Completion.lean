import Orditect.Executor.Proofs.Session
/-!
# An execution that nobody disturbs

From a record that is open and not flagged, `execute` can run to a terminal status without a
failure and without a cancellation, however the executor is configured.
-/

namespace Orditect.Executor.Proofs

open Support.LuaJson
open TaskStore (Store field)

variable {ν : Type}

def untroubled : Choice ν → Bool
  | .unavailable _ | .interrupt => false
  | _ => true

structure Open (cfg : Config) (s : Store ν) : Prop where
  status : ∃ w : TaskStatus, w.isTerminal = false ∧
    field s cfg.taskId "status" = some (.str w.value)
  flag : field s cfg.taskId "cancel_requested" = some (.bool false)

variable [DecidableEq ν] [LuaNumber ν]

inductive CanEnd (cfg : Config) : Pc ν → Store ν → Prop
  | ended {pc : Pc ν} {s : Store ν} (h : ended cfg s = true) : CanEnd cfg pc s
  | step {pc : Pc ν} {s : Store ν} {e : Effect ν} (choice : Choice ν)
      (hchoice : untroubled choice = true) (hnext : pc.next cfg false s choice = some e)
      (h : CanEnd cfg e.pc e.store) : CanEnd cfg pc s

variable {cfg : Config} {s : Store ν}

theorem isCancelRequested_of_open (h : Open cfg s) : isCancelRequested cfg s = false := by
  unfold isCancelRequested
  rw [h.flag]
  rfl

section

variable (hv : Vocabulary cfg) (h : Open cfg s)
include hv h

theorem updateTask_of_open {updates : List (String × Json ν)} {word : Option TaskStatus}
    (hword : updates.lookup "status" = word.map fun w => .str w.value)
    (hopen : ∀ w ∈ word, w.isTerminal = false) (hflag : updates.lookup "cancel_requested" = none) :
    ∃ s', updateTask cfg updates s = (.ok, s') ∧ Open cfg s' := by
  obtain ⟨w, hw, hstatus⟩ := h.status
  rcases updateTask_spec hv hstatus hword with ⟨-, hterm, -⟩ | ⟨-, s', heq, hfield⟩
  · simp [hw] at hterm
  · refine ⟨s', heq, ?_, ?_⟩
    · cases word with
      | none =>
        refine ⟨w, hw, ?_⟩
        rw [hfield, hword, hstatus]
        rfl
      | some w' =>
        refine ⟨w', hopen w' rfl, ?_⟩
        rw [hfield, hword]
        rfl
    · rw [hfield, hflag, h.flag]
      rfl

theorem updateTerminal_of_open {updates : List (String × Json ν)} {word : TaskStatus}
    (hterm : word.isTerminal = true) (hword : updates.lookup "status" = some (.str word.value)) :
    ∃ s', updateTerminal cfg updates s = (.ok true, s') ∧ ended cfg s' = true := by
  obtain ⟨w, hw, hstatus⟩ := h.status
  have hword' : updates.lookup "status" = (some word).map fun w => .str w.value := hword
  rcases updateTask_spec hv hstatus hword' with ⟨-, hterm', -⟩ | ⟨-, s', heq, hfield⟩
  · simp [hw] at hterm'
  · have hstatus' : status cfg s' = some word := by
      unfold status
      rw [hfield, hword]
      exact TaskStatus.ofField_value word
    refine ⟨s', ?_, by simp [ended, hstatus', hterm]⟩
    unfold updateTerminal
    rw [heq]

/-! ## From the end to the beginning -/

theorem canEnd_failed (error : String) :
    CanEnd cfg (failed error) s := by
  have hword : List.lookup "status" [("status", (.str TaskStatus.failed.value : Json ν)),
      ("error", .str error)] = some (.str TaskStatus.failed.value) := rfl
  obtain ⟨s', heq, hended⟩ := updateTerminal_of_open hv h rfl hword
  have hcheck : (failed error : Pc ν).next cfg false s .proceed =
      some ⟨.finalizeFailed error, s, none⟩ := by
    simp only [failed, Pc.next, isCancelRequested_of_open h]
    rfl
  have hwrite : (Pc.finalizeFailed error).next cfg false s .proceed = some ⟨.readSnapshot true
      { status := .failed, terminal := true, error := some error }, s', none⟩ := by
    simp only [Pc.next, heq]
  exact .step .proceed rfl hcheck (.step .proceed rfl hwrite (.ended hended))

theorem canEnd_body : CanEnd cfg .body s := by
  have hword : List.lookup "status" [("status", (.str TaskStatus.succeeded.value : Json ν)),
      ("result", .null), ("progress", .num (LuaNumber.ofNat 1))] =
      some (.str TaskStatus.succeeded.value) := rfl
  obtain ⟨s', heq, hended⟩ := updateTerminal_of_open hv h rfl hword
  have hcheck : (Pc.checkCancelAfter (.null : Json ν)).next cfg false s .proceed =
      some ⟨.writeSucceeded .null, s, none⟩ := by
    simp only [Pc.next, isCancelRequested_of_open h]
    rfl
  have hwrite : (Pc.writeSucceeded (.null : Json ν)).next cfg false s .proceed = some
      ⟨.readSnapshot false { status := .succeeded, terminal := true }, s', none⟩ := by
    simp only [Pc.next, heq]
  exact .step (.returned .null) rfl rfl (.step .proceed rfl hcheck
    (.step .proceed rfl hwrite (.ended hended)))

theorem canEnd_writeRunning :
    CanEnd cfg .writeRunning s := by
  have hword : List.lookup "status" [("status", (.str TaskStatus.running.value : Json ν))] =
      Option.map (fun w => .str w.value) (some TaskStatus.running) := rfl
  obtain ⟨s', heq, hopen⟩ := updateTask_of_open hv h hword (by simp [TaskStatus.isTerminal]) rfl
  have hwrite : (Pc.writeRunning : Pc ν).next cfg false s .proceed = some
      ⟨.readSnapshot false { status := .running, terminal := false }, s', none⟩ := by
    simp only [Pc.next, heq]
    rfl
  -- the running snapshot is composed and saved
  exact .step .proceed rfl hwrite (.step .proceed rfl rfl (.step .proceed rfl rfl
    (canEnd_body hv hopen)))

theorem canEnd_acquire : CanEnd cfg .acquire s := by
  have hword : List.lookup "status" [("resource", (.str cfg.resource : Json ν))] =
      Option.map (fun w => .str w.value) (none : Option TaskStatus) := rfl
  obtain ⟨s', heq, hopen⟩ := updateTask_of_open hv h hword (by simp) rfl
  have hwrite : (Pc.writeResource : Pc ν).next cfg false s .proceed =
      some ⟨.writeRunning, s', none⟩ := by
    simp only [Pc.next, heq]
  exact .step .proceed rfl rfl (.step .proceed rfl hwrite (canEnd_writeRunning hv hopen))

theorem canEnd_readExemption :
    CanEnd cfg .readExemption s := by
  have hwalk : CanEnd cfg .walkAncestors s :=
    .step (.inherited true) rfl rfl (canEnd_writeRunning hv h)
  cases hfield : field s cfg.taskId "exempt_resources_snapshot" with
  | none =>
    have hnext : (Pc.readExemption : Pc ν).next cfg false s .proceed =
        some ⟨.walkAncestors, s, none⟩ := by
      simp only [Pc.next, hfield]
    exact .step .proceed rfl hnext hwalk
  | some snapshot =>
    by_cases hnull : snapshot = .null
    · have hnext : (Pc.readExemption : Pc ν).next cfg false s .proceed =
          some ⟨.walkAncestors, s, none⟩ := by
        simp only [Pc.next, hfield, hnull]
      exact .step .proceed rfl hnext hwalk
    · cases hexempts : exempts cfg.resource snapshot with
      | none =>
        have hnext : (Pc.readExemption : Pc ν).next cfg false s .proceed =
            some ⟨failed cfg.foreignError, s, none⟩ := by
          simp [Pc.next, hfield, hexempts]
        exact .step .proceed rfl hnext (canEnd_failed hv h _)
      | some granted =>
        cases granted with
        | true =>
          have hnext : (Pc.readExemption : Pc ν).next cfg false s .proceed =
              some ⟨.writeRunning, s, none⟩ := by
            simp [Pc.next, hfield, hexempts]
          exact .step .proceed rfl hnext (canEnd_writeRunning hv h)
        | false =>
          have hnext : (Pc.readExemption : Pc ν).next cfg false s .proceed =
              some ⟨.acquire, s, none⟩ := by
            simp [Pc.next, hfield, hexempts]
          exact .step .proceed rfl hnext (canEnd_acquire hv h)

theorem canEnd_afterReuse :
    CanEnd cfg (afterReuse cfg) s := by
  unfold afterReuse
  split
  · exact canEnd_readExemption hv h
  · exact canEnd_writeRunning hv h

theorem canEnd_checkCancel : CanEnd cfg .checkCancel s := by
  have hcheck : (Pc.checkCancel : Pc ν).next cfg false s .proceed =
      some ⟨afterCheck cfg, s, none⟩ := by
    simp [Pc.next, isCancelRequested_of_open h]
  refine .step .proceed rfl hcheck ?_
  show CanEnd cfg (afterCheck cfg) s
  unfold afterCheck
  split
  · exact canEnd_afterReuse hv h
  · exact .step (.latest none) rfl rfl (canEnd_afterReuse hv h)

end

end Orditect.Executor.Proofs
