import Orditect.Snapshot.Record
import Orditect.Support.Instant
/-!
# Snapshots as rows

`to_payload` writes a snapshot as a dictionary in which what is `None` is left out and the
instants are text.  A row that is read back keeps them as text until `model_validate`.
-/

namespace Orditect.Snapshot

open Support.Instant Support.JsonText Support.LuaJson

variable {ν : Type}

def TaskSnapshot.map {τ σ : Type} (f : τ → σ) (s : TaskSnapshot τ ν) : TaskSnapshot σ ν :=
  { taskId := s.taskId, step := s.step, executionId := s.executionId,
    parentTaskId := s.parentTaskId, status := s.status, inputPointer := s.inputPointer,
    outputPointer := s.outputPointer, error := s.error, cost := s.cost, model := s.model,
    createdAt := f s.createdAt, updatedAt := f s.updatedAt, expireAt := s.expireAt.map f }

/-! ## Writing -/

def compact {α : Type} (fields : List (String × Option α)) : List (String × α) :=
  fields.filterMap fun f => f.2.map fun v => (f.1, v)

def TaskSnapshot.payloadFields (s : TaskSnapshot DateTime ν) : List (String × Option (Json ν)) :=
  [("task_id", some (.str s.taskId)), ("step", some (.str s.step)),
    ("execution_id", some (.str s.executionId)), ("parent_task_id", s.parentTaskId.map .str),
    ("status", some (.str s.status)), ("input_pointer", s.inputPointer.map TaskPointer.dump),
    ("output_pointer", s.outputPointer.map TaskPointer.dump), ("error", s.error.map .str),
    ("cost", s.cost.map dumpCost), ("model", s.model.map .str),
    ("created_at", some (.str s.createdAt.iso)), ("updated_at", some (.str s.updatedAt.iso)),
    ("expire_at", s.expireAt.map fun d => .str d.iso)]

def TaskSnapshot.payload (s : TaskSnapshot DateTime ν) : List (String × Json ν) :=
  compact s.payloadFields

/-! ## Reading -/

def asStr : Json ν → Option String
  | .str s => some s
  | _ => none

def readPointer : Json ν → Option (TaskPointer ν)
  | .obj fields => do
      let backend ← (fields.lookup "backend").bind asStr
      let key ← (fields.lookup "key").bind asStr
      match fields.lookup "metadata" with
      | none => some ⟨backend, key, none⟩
      | some (.obj metadata) =>
        if h : distinct (.obj metadata) = true then some ⟨backend, key, some ⟨metadata, h⟩⟩
        else none
      | some _ => none
  | _ => none

def readMetrics : List (String × Json ν) → Option (List (String × ν))
  | [] => some []
  | (k, .num n) :: fields => (readMetrics fields).map fun metrics => (k, n) :: metrics
  | _ => none

def readCost : Json ν → Option (Cost ν)
  | .obj fields => do
      let metrics ← readMetrics fields
      if h : (metrics.map Prod.fst).Nodup then some ⟨metrics, h⟩ else none
  | _ => none

def readField {α : Type} (read : Json ν → Option α) : Option (Json ν) → Option (Option α)
  | none => some none
  | some v => (read v).map some

def readRow (row : List (String × Json ν)) : Option (TaskSnapshot String ν) := do
  let taskId ← (row.lookup "task_id").bind asStr
  let step ← (row.lookup "step").bind asStr
  let executionId ← (row.lookup "execution_id").bind asStr
  let parentTaskId ← readField asStr (row.lookup "parent_task_id")
  let status ← (row.lookup "status").bind asStr
  let inputPointer ← readField readPointer (row.lookup "input_pointer")
  let outputPointer ← readField readPointer (row.lookup "output_pointer")
  let error ← readField asStr (row.lookup "error")
  let cost ← readField readCost (row.lookup "cost")
  let model ← readField asStr (row.lookup "model")
  let createdAt ← (row.lookup "created_at").bind asStr
  let updatedAt ← (row.lookup "updated_at").bind asStr
  let expireAt ← readField asStr (row.lookup "expire_at")
  some { taskId, step, executionId, parentTaskId, status, inputPointer, outputPointer, error,
         cost, model, createdAt, updatedAt, expireAt }

def TaskSnapshot.validate (s : TaskSnapshot String ν) : Option (TaskSnapshot DateTime ν) := do
  let createdAt ← DateTime.parse s.createdAt
  let updatedAt ← DateTime.parse s.updatedAt
  let expireAt ←
    match s.expireAt with
    | none => some none
    | some text => (DateTime.parse text).map some
  some { s with createdAt, updatedAt, expireAt }

/-! ## A row is read back as it was written -/

variable {α : Type} {fields : List (String × Option α)}

theorem lookup_compact (h : (fields.map Prod.fst).Nodup) (k : String) :
    (compact fields).lookup k = (fields.lookup k).join := by
  induction fields with
  | nil => rfl
  | cons f fields ih =>
    obtain ⟨name, value⟩ := f
    obtain ⟨hnew, hnodup⟩ := List.nodup_cons.mp h
    by_cases hk : k = name
    · subst hk
      have habsent : fields.lookup k = none := by
        rw [List.lookup_eq_none_iff]
        intro g hg
        rw [bne_iff_ne]
        rintro rfl
        exact hnew (List.mem_map.mpr ⟨g, hg, rfl⟩)
      cases value with
      | none => simpa [compact, habsent] using ih hnodup
      | some v => simp [compact]
    · have hne : (k == name) = false := by simpa using hk
      cases value with
      | none | some v => simpa [compact, List.lookup_cons, hne] using ih hnodup

theorem mem_compact {f : String × α} :
    f ∈ compact fields ↔ (f.1, some f.2) ∈ fields := by
  unfold compact
  rw [List.mem_filterMap]
  constructor
  · rintro ⟨⟨name, value⟩, hmem, heq⟩
    obtain ⟨v, rfl, rfl⟩ := Option.map_eq_some_iff.mp heq
    exact hmem
  · exact fun hmem => ⟨_, hmem, rfl⟩

theorem nodup_compact (h : (fields.map Prod.fst).Nodup) :
    ((compact fields).map Prod.fst).Nodup := by
  refine h.sublist ?_
  clear h
  induction fields with
  | nil => simp [compact]
  | cons f fields ih =>
    obtain ⟨name, value⟩ := f
    cases value with
    | none => exact ih.cons name
    | some v => exact ih.cons_cons name

theorem nodup_payloadFields (s : TaskSnapshot DateTime ν) :
    (s.payloadFields.map Prod.fst).Nodup := by
  simp [TaskSnapshot.payloadFields]

theorem readPointer_dump (p : TaskPointer ν) : readPointer p.dump = some p := by
  obtain ⟨backend, key, metadata⟩ := p
  cases metadata with
  | none => rfl
  | some metadata =>
    have hdistinct := metadata.2
    simp [TaskPointer.dump, readPointer, List.lookup_cons, asStr, hdistinct]
    rfl

theorem readMetrics_map (metrics : List (String × ν)) :
    readMetrics (metrics.map fun c => (c.1, Json.num c.2)) = some metrics := by
  induction metrics with
  | nil => rfl
  | cons c metrics ih => simp [readMetrics, ih]

theorem readCost_dumpCost (cost : Cost ν) : readCost (dumpCost cost) = some cost := by
  have hnodup := cost.2
  simp [dumpCost, readCost, readMetrics_map, hnodup]
  rfl

@[simp] theorem readField_map {read : Json ν → Option α} {write : α → Json ν}
    (h : ∀ a, read (write a) = some a) (value : Option α) :
    readField read (value.map write) = some value := by
  cases value with
  | none => rfl
  | some a => simp [readField, h]

theorem readRow_payload (s : TaskSnapshot DateTime ν) :
    readRow s.payload = some (s.map DateTime.iso) := by
  have hlookup : ∀ k, s.payload.lookup k = (s.payloadFields.lookup k).join :=
    lookup_compact (nodup_payloadFields s)
  have hstr : ∀ a : String, asStr (Json.str a : Json ν) = some a := fun _ => rfl
  have hexpire : readField asStr (s.expireAt.map fun d => (Json.str d.iso : Json ν)) =
      some (s.expireAt.map DateTime.iso) := by
    cases s.expireAt <;> rfl
  simp [readRow, hlookup, TaskSnapshot.payloadFields, List.lookup_cons, hstr, hexpire,
    readField_map hstr,
    readField_map readPointer_dump, readField_map readCost_dumpCost, TaskSnapshot.map]

theorem distinct_dump (p : TaskPointer ν) : distinct p.dump = true := by
  obtain ⟨backend, key, metadata⟩ := p
  cases metadata with
  | none => rfl
  | some metadata =>
    have hdistinct := metadata.2
    simp [TaskPointer.dump, distinct, distinctFields] at hdistinct ⊢
    exact hdistinct

theorem distinct_dumpCost (cost : Cost ν) : distinct (dumpCost cost) = true := by
  have hvalues : ∀ metrics : List (String × ν),
      distinctFields (metrics.map fun c => (c.1, Json.num c.2)) = true := by
    intro metrics
    induction metrics with
    | nil => rfl
    | cons c metrics ih => simp [distinctFields, distinct, ih]
  have hnodup := cost.2
  simpa [dumpCost, distinct, hvalues, Function.comp_def] using hnodup

theorem distinctFields_of_forall {fields : List (String × Json ν)}
    (h : ∀ f ∈ fields, distinct f.2 = true) : distinctFields fields = true := by
  induction fields with
  | nil => rfl
  | cons f fields ih =>
    obtain ⟨hf, hrest⟩ := List.forall_mem_cons.mp h
    simp [distinctFields, hf, ih hrest]

/-- Each value of a payload is a string, a pointer or the cost. -/
theorem distinct_of_mem_payloadFields (s : TaskSnapshot DateTime ν) :
    ∀ f ∈ s.payloadFields, ∀ v, f.2 = some v → distinct v = true := by
  have hstr : ∀ (text v), some (Json.str text : Json ν) = some v → distinct v = true := by
    rintro text v h
    obtain rfl := Option.some.inj h
    rfl
  have hmap : ∀ {α : Type} (write : α → Json ν), (∀ a, distinct (write a) = true) →
      ∀ (value : Option α) (v), value.map write = some v → distinct v = true := by
    intro α write hwrite value v h
    obtain ⟨a, -, rfl⟩ := Option.map_eq_some_iff.mp h
    exact hwrite a
  simp only [TaskSnapshot.payloadFields, List.forall_mem_cons]
  exact ⟨hstr _, hstr _, hstr _, hmap _ (fun _ => rfl) _, hstr _, hmap _ distinct_dump _,
    hmap _ distinct_dump _, hmap _ (fun _ => rfl) _, hmap _ distinct_dumpCost _,
    hmap _ (fun _ => rfl) _, hstr _, hstr _, hmap _ (fun _ => rfl) _, by simp⟩

theorem distinct_payload (s : TaskSnapshot DateTime ν) : distinct (.obj s.payload) = true := by
  have hvalues : distinctFields s.payload = true := by
    apply distinctFields_of_forall
    intro f hf
    exact distinct_of_mem_payloadFields s _ (mem_compact.mp hf) f.2 rfl
  rw [distinct, hvalues, Bool.and_true, decide_eq_true_eq]
  exact nodup_compact (nodup_payloadFields s)

def TaskSnapshot.toPayload (s : TaskSnapshot DateTime ν) : Dict ν := ⟨s.payload, distinct_payload s⟩

theorem validate_map_iso (s : TaskSnapshot DateTime ν) :
    (s.map DateTime.iso).validate = some s := by
  obtain ⟨_, _, _, _, _, _, _, _, _, _, createdAt, updatedAt, expireAt⟩ := s
  cases expireAt <;> simp [TaskSnapshot.validate, TaskSnapshot.map, DateTime.parse_iso]

end Orditect.Snapshot
