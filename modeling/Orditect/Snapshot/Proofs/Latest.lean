import Mathlib.Data.List.Pairwise
import Orditect.Snapshot.Proofs.Equivalence
/-!
# The latest generation of a node

The local adapter goes by the text of the creation instants.  That is their order in time,
but for two instants in one second of which one has no fraction.
-/

namespace Orditect.Snapshot.Proofs

open Support.Instant Support.JsonText Support.LuaJson

variable {ν : Type}

/-! ## The newest row -/

variable {τ α κ : Type}

theorem newest_concat [LinearOrder τ] (rows : List (TaskSnapshot τ ν)) (row : TaskSnapshot τ ν) :
    (newest (rows ++ [row]) = some row ∧
        ∀ l, newest rows = some l → l.createdAt ≤ row.createdAt) ∨
      ∃ l, newest rows = some l ∧ row.createdAt ≤ l.createdAt ∧
        newest (rows ++ [row]) = some l := by
  rw [newest, List.foldl_append, List.foldl_cons, List.foldl_nil, ← newest]
  cases newest rows with
  | none => exact Or.inl ⟨rfl, by simp⟩
  | some l =>
    by_cases hle : l.createdAt ≤ row.createdAt
    · exact Or.inl ⟨if_pos hle, by simpa using hle⟩
    · exact Or.inr ⟨l, rfl, (not_le.mp hle).le, if_neg hle⟩

theorem newest_pair [LinearOrder τ] {a b : TaskSnapshot τ ν} (h : b.createdAt < a.createdAt) :
    newest [a, b] = some a := by
  simp [newest, not_le.mpr h]

theorem newest_isSome [LinearOrder τ] {rows : List (TaskSnapshot τ ν)} (h : rows ≠ []) :
    (newest rows).isSome = true := by
  rcases List.eq_nil_or_concat rows with rfl | ⟨rows, row, rfl⟩
  · exact absurd rfl h
  · rw [List.concat_eq_append]
    rcases newest_concat rows row with ⟨h, -⟩ | ⟨l, -, -, h⟩ <;> rw [h] <;> rfl

theorem newest_spec [LinearOrder τ] {rows : List (TaskSnapshot τ ν)} {s : TaskSnapshot τ ν}
    (h : newest rows = some s) :
    s ∈ rows ∧ ∀ row ∈ rows, row.createdAt ≤ s.createdAt := by
  induction rows using List.reverseRecOn generalizing s with
  | nil => simp [newest] at h
  | append_singleton rows row ih =>
    rcases newest_concat rows row with ⟨hrow, hlast⟩ | ⟨l, hl, hle, hlast⟩
    · obtain rfl : row = s := Option.some.inj (hrow.symm.trans h)
      refine ⟨by simp, fun r hr => ?_⟩
      rcases List.mem_append.mp hr with hr | hr
      · obtain ⟨l, hl⟩ :=
          Option.isSome_iff_exists.mp (newest_isSome (List.ne_nil_of_mem hr))
        exact ((ih hl).2 r hr).trans (hlast l hl)
      · rw [List.mem_singleton.mp hr]
    · obtain rfl : l = s := Option.some.inj (hlast.symm.trans h)
      refine ⟨List.mem_append_left _ (ih hl).1, fun r hr => ?_⟩
      rcases List.mem_append.mp hr with hr | hr
      · exact (ih hl).2 r hr
      · rwa [List.mem_singleton.mp hr]

/-! ## Generations as values -/

def generationsOf (log : List (Call ν)) (now : DateTime) (taskId step : String) :
    List (TaskSnapshot DateTime ν) :=
  (records (log.map callRow)).filter fun s => s.taskId == taskId && s.step == step && s.alive now

theorem createdAt_map {σ : Type} (f : τ → σ) (s : TaskSnapshot τ ν) :
    (s.map f).createdAt = f s.createdAt := rfl

theorem mapM_validate (rows : List (TaskSnapshot DateTime ν)) :
    (rows.map (TaskSnapshot.map DateTime.iso)).mapM TaskSnapshot.validate = some rows := by
  induction rows with
  | nil => rfl
  | cons row rows ih => simp [List.mapM_cons, validate_map_iso, ih]

theorem sortBy_map {β : Type} [LinearOrder κ] (f : α → β) (key : β → κ)
    (direction : SortDirection) (rows : List α) :
    sortBy key direction (rows.map f) = (sortBy (fun a => key (f a)) direction rows).map f := by
  cases direction with
  | asc | desc => exact (List.map_insertionSort _ _ f rows fun _ _ _ _ => Iff.rfl).symm

theorem perm_sortBy [LinearOrder κ] (key : α → κ) (direction : SortDirection) (rows : List α) :
    (sortBy key direction rows).Perm rows := by
  cases direction <;> exact List.perm_insertionSort _ rows

section

variable [NumberText ν] [LuaNumber ν]

def generations (file : List Char) (now : DateTime) (taskId step : String) :
    List (TaskSnapshot DateTime ν) :=
  (Local.candidates file now taskId step none).filterMap TaskSnapshot.validate

theorem candidates_fileOf (log : List (Call ν)) (now : DateTime) (taskId step : String) :
    Local.candidates (fileOf log) now taskId step none =
      (generationsOf log now taskId step).map (TaskSnapshot.map DateTime.iso) := by
  rw [Local.candidates, rows_fileOf, records_map, generationsOf, List.filter_map]
  congr 2
  funext s
  rw [← alive_map_iso]
  simp only [Function.comp_apply, Bool.and_true]
  rfl

theorem generations_fileOf (log : List (Call ν)) (now : DateTime) (taskId step : String) :
    generations (fileOf log) now taskId step = generationsOf log now taskId step := by
  rw [generations, candidates_fileOf, List.filterMap_map]
  have hvalidate : TaskSnapshot.validate ∘ TaskSnapshot.map DateTime.iso =
      (some : TaskSnapshot DateTime ν → _) := funext validate_map_iso
  rw [hvalidate, List.filterMap_some]

variable {log : List (Call ν)} {now : DateTime} {step taskId : String}
  {rows : List (TaskSnapshot DateTime ν)}

theorem get_fileOf {s : TaskSnapshot DateTime ν}
    (h : Local.get (fileOf log) now taskId step none = some s) :
    s ∈ generationsOf log now taskId step ∧
      ∀ g ∈ generationsOf log now taskId step, g.createdAt.iso ≤ s.createdAt.iso := by
  rw [Local.get, candidates_fileOf] at h
  obtain ⟨row, hrow, hvalidate⟩ := Option.bind_eq_some_iff.mp h
  obtain ⟨hmem, hmax⟩ := newest_spec hrow
  obtain ⟨g, hg, rfl⟩ := List.mem_map.mp hmem
  obtain rfl : g = s := Option.some.inj ((validate_map_iso g).symm.trans hvalidate)
  refine ⟨hg, fun g' hg' => ?_⟩
  have hle := hmax (g'.map DateTime.iso) (List.mem_map_of_mem hg')
  rwa [createdAt_map, createdAt_map] at hle

theorem get_fileOf_isSome (h : generationsOf log now taskId step ≠ []) :
    (Local.get (ν := ν) (fileOf log) now taskId step none).isSome = true := by
  rw [Local.get, candidates_fileOf]
  have hne : (generationsOf log now taskId step).map (TaskSnapshot.map DateTime.iso) ≠ [] := by
    simpa using h
  obtain ⟨row, hrow⟩ := Option.isSome_iff_exists.mp (newest_isSome hne)
  obtain ⟨g, -, rfl⟩ := List.mem_map.mp (newest_spec hrow).1
  rw [hrow, Option.bind_some, validate_map_iso]
  rfl

theorem listVersions_fileOf (log : List (Call ν)) (now : DateTime) (taskId step : String)
    (page : Page) (direction : SortDirection) :
    Local.listVersions (fileOf log) now taskId step page ⟨"created_at", direction⟩ =
      some (((sortBy (fun s => toLex (false, s.createdAt.iso)) direction
        (generationsOf log now taskId step)).drop page.offset).take page.limit) := by
  rw [Local.listVersions, if_pos (show "created_at" ∈ sortFields by decide), candidates_fileOf,
    sortBy_map]
  simp only
  rw [← List.map_drop, ← List.map_take, mapM_validate]
  rfl

/-! ## Chronological order -/

def InOrder : SortDirection → TaskSnapshot DateTime ν → TaskSnapshot DateTime ν → Prop
  | .asc, a, b => a.createdAt ≤ b.createdAt
  | .desc, a, b => b.createdAt ≤ a.createdAt

/-- `get` returns a generation that no other one is later than, and each page of
`list_versions` is in the order of time. -/
structure Chronological (ν : Type) [NumberText ν] [LuaNumber ν] (file : List Char) (now : DateTime)
    (taskId step : String) : Prop where
  get_isSome : generations (ν := ν) file now taskId step ≠ [] →
    (Local.get (ν := ν) file now taskId step none).isSome = true
  get_latest : ∀ s : TaskSnapshot DateTime ν, Local.get file now taskId step none = some s →
    s ∈ generations (ν := ν) file now taskId step ∧
      ∀ g ∈ generations (ν := ν) file now taskId step, g.createdAt ≤ s.createdAt
  versions : ∀ page direction, ∃ rows : List (TaskSnapshot DateTime ν),
    Local.listVersions file now taskId step page ⟨"created_at", direction⟩ = some rows ∧
      rows.Pairwise (InOrder direction) ∧
      (page.offset = 0 → (generations (ν := ν) file now taskId step).length ≤ page.limit →
        rows.Perm (generations file now taskId step))

theorem pairwise_sortBy [LinearOrder κ] (key : α → κ) (direction : SortDirection) (rows : List α) :
    (sortBy key direction rows).Pairwise fun a b =>
      match direction with
      | .asc => key a ≤ key b
      | .desc => key b ≤ key a := by
  cases direction with
  | asc =>
    have : Std.Total fun a b : α => key a ≤ key b := ⟨fun a b => le_total _ _⟩
    have : IsTrans α fun a b => key a ≤ key b := ⟨fun a b c => le_trans⟩
    exact List.pairwise_insertionSort _ rows
  | desc =>
    have : Std.Total fun a b : α => key b ≤ key a := ⟨fun a b => le_total _ _⟩
    have : IsTrans α fun a b => key b ≤ key a := ⟨fun a b c hab hbc => le_trans hbc hab⟩
    exact List.pairwise_insertionSort _ rows

theorem toLex_false_le {a b : String} : toLex (false, a) ≤ toLex (false, b) ↔ a ≤ b := by
  simp [Prod.Lex.toLex_le_toLex]

omit [NumberText ν] [LuaNumber ν] in
theorem pairwise_inOrder (h : ∀ a ∈ rows, ∀ b ∈ rows, ¬a.createdAt.Clash b.createdAt)
    (direction : SortDirection) :
    (sortBy (fun s => toLex (false, s.createdAt.iso)) direction rows).Pairwise
      (InOrder direction) := by
  have hsorted := pairwise_sortBy (fun s : TaskSnapshot DateTime ν =>
    toLex (false, s.createdAt.iso)) direction rows
  have hmem : ∀ s, s ∈ sortBy (fun s : TaskSnapshot DateTime ν =>
      toLex (false, s.createdAt.iso)) direction rows → s ∈ rows := fun s hs =>
    (perm_sortBy _ direction rows).mem_iff.mp hs
  refine hsorted.imp_of_mem fun {a b} ha hb hab => ?_
  have hno := h a (hmem a ha) b (hmem b hb)
  have hno' := h b (hmem b hb) a (hmem a ha)
  cases direction with
  | asc => exact (DateTime.iso_le_iff_le hno hno').mp (toLex_false_le.mp hab)
  | desc => exact (DateTime.iso_le_iff_le hno' hno).mp (toLex_false_le.mp hab)

omit [NumberText ν] [LuaNumber ν] in
theorem not_pairwise_inOrder {a b : TaskSnapshot DateTime ν} (ha : a ∈ rows) (hb : b ∈ rows)
    (hclash : a.createdAt.Clash b.createdAt) :
    ¬(sortBy (fun s => toLex (false, s.createdAt.iso)) .asc rows).Pairwise (InOrder .asc) := by
  intro horder
  have hsorted := pairwise_sortBy (fun s : TaskSnapshot DateTime ν =>
    toLex (false, s.createdAt.iso)) .asc rows
  have hmem : ∀ s, s ∈ rows → s ∈ sortBy (fun s : TaskSnapshot DateTime ν =>
      toLex (false, s.createdAt.iso)) .asc rows := fun s hs =>
    (perm_sortBy _ .asc rows).mem_iff.mpr hs
  have hne : a ≠ b := by
    rintro rfl
    exact lt_irrefl _ hclash.lt
  -- whichever of the two comes first, the texts and the instants are in order
  have hboth := (hsorted.and horder).imp (S := fun x y : TaskSnapshot DateTime ν =>
    (x.createdAt.iso ≤ y.createdAt.iso ∧ x.createdAt ≤ y.createdAt) ∨
      (y.createdAt.iso ≤ x.createdAt.iso ∧ y.createdAt ≤ x.createdAt))
    fun h => Or.inl ⟨toLex_false_le.mp h.1, h.2⟩
  have : Std.Symm fun x y : TaskSnapshot DateTime ν =>
      (x.createdAt.iso ≤ y.createdAt.iso ∧ x.createdAt ≤ y.createdAt) ∨
        (y.createdAt.iso ≤ x.createdAt.iso ∧ y.createdAt ≤ x.createdAt) := ⟨fun x y h => h.symm⟩
  rcases hboth.forall (hmem a ha) (hmem b hb) hne with h | h
  · exact absurd h.1 (not_le.mpr hclash.iso_lt)
  · exact absurd h.2 (not_le.mpr hclash.lt)

/-- The local adapter goes by time if and only if no two live generations of the node lie in one
second with a fraction in one of them only. -/
theorem chronological_iff_no_clash [DecidableEq ν] (calls : List (Call ν)) (now : DateTime)
    (taskId step : String) :
    Chronological ν (after (Local.call (ν := ν)) [] calls) now taskId step ↔
      ∀ a ∈ generations (ν := ν) (after (Local.call (ν := ν)) [] calls) now taskId step,
        ∀ b ∈ generations (ν := ν) (after (Local.call (ν := ν)) [] calls) now taskId step,
          ¬a.createdAt.Clash b.createdAt := by
  rw [after_fileOf]
  generalize after logCall [] calls = log
  constructor
  · intro h a ha b hb hclash
    rw [generations_fileOf] at ha hb
    obtain ⟨rows, hrows, horder, -⟩ :=
      h.versions ⟨(generationsOf log now taskId step).length + 1, 0, by omega⟩ .asc
    rw [listVersions_fileOf] at hrows
    obtain rfl := Option.some.inj hrows
    rw [List.drop_zero, List.take_of_length_le (by
      rw [(perm_sortBy _ _ _).length_eq]; exact Nat.le_succ _)] at horder
    exact not_pairwise_inOrder ha hb hclash horder
  · intro h
    rw [generations_fileOf] at h
    refine ⟨?_, ?_, ?_⟩
    · rw [generations_fileOf]
      exact get_fileOf_isSome
    · intro s hs
      rw [generations_fileOf]
      obtain ⟨hmem, hmax⟩ := get_fileOf hs
      exact ⟨hmem, fun g hg =>
        (DateTime.iso_le_iff_le (h g hg s hmem) (h s hmem g hg)).mp (hmax g hg)⟩
    · intro page direction
      refine ⟨_, listVersions_fileOf log now taskId step page direction, ?_, ?_⟩
      · exact ((pairwise_inOrder h direction).sublist (List.drop_sublist _ _)).sublist
          (List.take_sublist _ _)
      · intro hoffset hlimit
        rw [generations_fileOf] at hlimit ⊢
        rw [hoffset, List.drop_zero, List.take_of_length_le (by
          rwa [(perm_sortBy _ _ _).length_eq])]
        exact perm_sortBy _ _ _

end

def generationAt (executionId : String) (createdAt : DateTime) : Call Int where
  op := .saveTerminal
  snapshot := { taskId := "t", step := "s", executionId := executionId, status := "succeeded",
                createdAt := createdAt, updatedAt := createdAt }
  ts := createdAt

def twoGenerations : List (Call Int) :=
  [generationAt "first" (DateTime.newYear 0),
    generationAt "second" (DateTime.newYear 500000)]

theorem get_returns_first :
    (Local.get (ν := Int) (after Local.call [] twoGenerations) (DateTime.newYear 600000)
        "t" "s" none).map (fun s => s.executionId) = some "first" ∧
      DateTime.newYear 0 < DateTime.newYear 500000 := by
  refine ⟨?_, by decide⟩
  have hlog : after logCall [] twoGenerations = twoGenerations := rfl
  have hgenerations : generationsOf twoGenerations (DateTime.newYear 600000) "t" "s" =
      twoGenerations.map Call.snapshot := rfl
  have hclash : (DateTime.newYear 0).Clash (DateTime.newYear 500000) := by decide
  have hnewest : newest ((twoGenerations.map Call.snapshot).map (TaskSnapshot.map DateTime.iso)) =
      some ((generationAt "first" (DateTime.newYear 0)).snapshot.map DateTime.iso) :=
    newest_pair hclash.iso_lt
  rw [after_fileOf, hlog, Local.get, candidates_fileOf, hgenerations, hnewest, Option.bind_some,
    validate_map_iso]
  rfl

end Orditect.Snapshot.Proofs
