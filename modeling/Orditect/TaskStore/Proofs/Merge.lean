import Orditect.TaskStore.Proofs.Terminal
/-!
# What an update leaves in the record

`task_update.lua` decodes the stored record and the updates into Lua tables, copies the
updated fields over and encodes the whole table again, so every field of the record takes
the way through Lua, whether it was updated or not.
-/

namespace Orditect.TaskStore.Merge.Proofs

open Support.Expiring Support.LuaJson TaskStore.Proofs

variable {ν : Type}

/-- The next read finds the given value under every updated key and the previous one under
every other key. -/
def Framed (t : String) (updates current : Fields ν) (s : Store ν) : Prop :=
  ∃ record, getTask t s = some record ∧
    (∀ k v, updates k = some v → record k = some v) ∧
    ∀ k, updates k = none → record k = current k

def Filled (updates current : Fields ν) : Prop :=
  (∀ k v, updates k = some v → v.filled = true) ∧
    ∀ k v, updates k = none → current k = some v → v.filled = true

section

variable [DecidableEq ν] [LuaNumber ν]

theorem getTask_of_taskUpdate {cfg : Config} {updates current : Fields ν} {expiry : Int}
    {t : String} {s s' : Store ν} (hget : getTask t s = some current)
    (hok : taskUpdate cfg updates expiry t s = (.ok, s')) :
    getTask t s' = some (updates.merge current).recode := by
  have hspec := updates_taskUpdate cfg updates expiry t s
  rw [hok] at hspec
  cases hspec with
  | written _ _ record hrecord _ hw _ _ =>
    obtain rfl : current = record := Option.some.inj (hget.symm.trans hrecord)
    obtain ⟨n, hrec⟩ := hw
    rw [getTask, hrec, Function.update_self, get_setEx]

omit [DecidableEq ν] in
theorem recode_key_iff (hnum : ∀ n : ν, LuaNumber.recode n = n) (f : Fields ν) (k : String) :
    f.recode k = f k ↔ ∀ v, f k = some v → v.filled = true := by
  unfold Fields.recode
  cases hk : f k with
  | none => simp
  | some v => simp [Json.recode_eq_self_iff hnum]

omit [DecidableEq ν] in
theorem framed_recode_iff (hnum : ∀ n : ν, LuaNumber.recode n = n) {t : String}
    {updates current : Fields ν} {s : Store ν}
    (hget : getTask t s = some (updates.merge current).recode) :
    Framed t updates current s ↔ Filled updates current := by
  have hupdated : ∀ {k v}, updates k = some v → (updates.merge current) k = some v := by
    intro k v hk
    simp [Fields.merge, hk]
  have hkept : ∀ {k}, updates k = none → (updates.merge current) k = current k := by
    intro k hk
    simp [Fields.merge, hk]
  constructor
  · rintro ⟨record, hrecord, hgiven, hprevious⟩
    obtain rfl := Option.some.inj (hget.symm.trans hrecord)
    refine ⟨fun k v hk => ?_, fun k v hk hv => ?_⟩
    · have hself := (hgiven k v hk).trans (hupdated hk).symm
      exact (recode_key_iff hnum _ k).mp hself v (hupdated hk)
    · have hself := (hprevious k hk).trans (hkept hk).symm
      exact (recode_key_iff hnum _ k).mp hself v ((hkept hk).trans hv)
  · rintro ⟨hgiven, hprevious⟩
    refine ⟨_, hget, fun k v hk => ?_, fun k hk => ?_⟩
    · rw [(recode_key_iff hnum _ k).mpr, hupdated hk]
      intro w hw
      exact hgiven k w (by rwa [hupdated hk, ← hk] at hw)
    · rw [(recode_key_iff hnum _ k).mpr, hkept hk]
      intro w hw
      exact hprevious k w hk (by rwa [hkept hk] at hw)

/-- An accepted update frames the record exactly when no list among the values it writes is
empty. -/
theorem update_framed_iff (hnum : ∀ n : ν, LuaNumber.recode n = n) (cfg : Config)
    (updates current : Fields ν) (expiry : Option Int) (t : String) (s s' : Store ν)
    (hget : getTask t s = some current)
    (hok : taskUpdate cfg updates (expiry.getD (-1)) t s = (.ok, s')) :
    Framed t updates current s' ↔ Filled updates current :=
  framed_recode_iff hnum (getTask_of_taskUpdate hget hok)

end

def storedRecord (current : Fields Int) : Store Int :=
  ⟨0, fun t => if t = "t" then Cell.setEx 0 100 current else none, fun _ => none, fun _ => none⟩

def running : Fields Int := Fields.set "status" (.str "in_progress") fun _ => none

def updated (updates current : Fields Int) : UpdateReply × Store Int :=
  taskUpdate plainConfig updates (-1) "t" (storedRecord current)

def oneTag : Fields Int :=
  Fields.set "tags" (.arr [.null, .obj [("note", .obj [])], .num 7]) fun _ => none

theorem filled_oneTag : Filled oneTag running := by
  refine ⟨fun k v hk => ?_, fun k v _ hv => ?_⟩
  · simp only [oneTag, Fields.set] at hk
    split at hk
    · obtain rfl := Option.some.inj hk
      decide
    · simp at hk
  · simp only [running, Fields.set] at hv
    split at hv
    · obtain rfl := Option.some.inj hv
      decide
    · simp at hv

theorem update_framed_oneTag :
    Framed "t" oneTag running (updated oneTag running).2 :=
  (update_framed_iff (fun _ => rfl) plainConfig oneTag running none "t" (storedRecord running)
    (updated oneTag running).2 rfl rfl).mpr filled_oneTag

def noTags : Fields Int := Fields.set "tags" (.arr []) fun _ => none

/-- An empty list comes back as an object: the one that was given, and the one that another
update finds in the record. -/
theorem update_turns_empty_list :
    ((updated noTags running).1 = .ok ∧ ¬Framed "t" noTags running (updated noTags running).2) ∧
      (updated running noTags).1 = .ok ∧
        ¬Framed "t" running noTags (updated running noTags).2 := by
  refine ⟨⟨rfl, ?_⟩, rfl, ?_⟩
  · rintro ⟨record, hrecord, hgiven, -⟩
    obtain rfl := Option.some.inj hrecord
    have hlist := hgiven "tags" (.arr []) rfl
    exact absurd hlist (by simp [Fields.recode, Fields.merge, noTags, Json.recode])
  · rintro ⟨record, hrecord, -, hprevious⟩
    obtain rfl := Option.some.inj hrecord
    have hlist := hprevious "tags" rfl
    exact absurd hlist (by simp [Fields.recode, Fields.merge, noTags, running, Fields.set,
      Json.recode])

end Orditect.TaskStore.Merge.Proofs
