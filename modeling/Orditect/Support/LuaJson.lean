import Mathlib.Logic.Basic
/-!
# JSON values on the two sides of a script

A value is written by a Python client, decoded into a Lua table by a script,
encoded again and read back.  The number type is left open: `LuaNumber` says
what a round trip makes of a number and how it reads as text.
-/

namespace Orditect.Support.LuaJson

class LuaNumber (ν : Type) where
  /-- The number after it was encoded and decoded once more. -/
  recode : ν → ν
  /-- The number in a concatenation. -/
  text : ν → String
  ofNat : Nat → ν

/-- Integers of at most fourteen digits, which the encoder prints in full. -/
instance : LuaNumber Int := ⟨id, toString, fun n => n⟩

inductive Json (ν : Type) where
  | null
  | bool (b : Bool)
  | num (n : ν)
  | str (s : String)
  | arr (elems : List (Json ν))
  | obj (fields : List (String × Json ν))

namespace Json

variable {ν : Type}

mutual

/-- A value after one round trip through Lua: an empty array is an empty table and
comes back as an object. -/
def recode [LuaNumber ν] : Json ν → Json ν
  | .null => .null
  | .bool b => .bool b
  | .num n => .num (LuaNumber.recode n)
  | .str s => .str s
  | .arr [] => .obj []
  | .arr (v :: elems) => .arr (recode v :: recodeList elems)
  | .obj fields => .obj (recodeFields fields)

def recodeList [LuaNumber ν] : List (Json ν) → List (Json ν)
  | [] => []
  | v :: elems => recode v :: recodeList elems

def recodeFields [LuaNumber ν] : List (String × Json ν) → List (String × Json ν)
  | [] => []
  | (k, v) :: fields => (k, recode v) :: recodeFields fields

end

@[simp] theorem recode_str [LuaNumber ν] (s : String) : recode (.str s : Json ν) = .str s := by
  simp [recode]

mutual

/-- No array in the value is empty. -/
def filled : Json ν → Bool
  | .arr [] => false
  | .arr (v :: elems) => filled v && filledList elems
  | .obj fields => filledFields fields
  | _ => true

def filledList : List (Json ν) → Bool
  | [] => true
  | v :: elems => filled v && filledList elems

def filledFields : List (String × Json ν) → Bool
  | [] => true
  | (_, v) :: fields => filled v && filledFields fields

end

mutual

/-- The empty array is the only value that a round trip changes. -/
theorem recode_eq_self_iff [LuaNumber ν] (hnum : ∀ n : ν, LuaNumber.recode n = n) (v : Json ν) :
    recode v = v ↔ filled v = true := by
  match v with
  | .null => simp [recode, filled]
  | .bool b => simp [recode, filled]
  | .num n => simp [recode, filled, hnum]
  | .str s => simp [recode, filled]
  | .arr [] => simp [recode, filled]
  | .arr (v :: elems) =>
    simp only [recode, filled, Json.arr.injEq, List.cons.injEq, Bool.and_eq_true]
    rw [recode_eq_self_iff hnum v, recodeList_eq_self_iff hnum elems]
  | .obj fields =>
    simp only [recode, filled, Json.obj.injEq]
    exact recodeFields_eq_self_iff hnum fields

theorem recodeList_eq_self_iff [LuaNumber ν] (hnum : ∀ n : ν, LuaNumber.recode n = n)
    (elems : List (Json ν)) : recodeList elems = elems ↔ filledList elems = true := by
  match elems with
  | [] => simp [recodeList, filledList]
  | v :: elems =>
    simp only [recodeList, filledList, List.cons.injEq, Bool.and_eq_true]
    rw [recode_eq_self_iff hnum v, recodeList_eq_self_iff hnum elems]

theorem recodeFields_eq_self_iff [LuaNumber ν] (hnum : ∀ n : ν, LuaNumber.recode n = n)
    (fields : List (String × Json ν)) : recodeFields fields = fields ↔
      filledFields fields = true := by
  match fields with
  | [] => simp [recodeFields, filledFields]
  | (k, v) :: fields =>
    simp only [recodeFields, filledFields, List.cons.injEq, Prod.mk.injEq, true_and,
      Bool.and_eq_true]
    rw [recode_eq_self_iff hnum v, recodeFields_eq_self_iff hnum fields]

end

/-- Lua's `==` on decoded values: two tables are never the same one. -/
def luaEq [DecidableEq ν] : Json ν → Json ν → Bool
  | .null, .null => true
  | .bool a, .bool b => a == b
  | .num m, .num n => decide (m = n)
  | .str s, .str t => s == t
  | _, _ => false

@[simp] theorem luaEq_str [DecidableEq ν] (s t : String) :
    luaEq (.str s : Json ν) (.str t) = (s == t) := rfl

theorem eq_of_luaEq_str [DecidableEq ν] {s : String} {v : Json ν} (h : luaEq (.str s) v = true) :
    v = .str s := by
  cases v with
  | str t =>
    have hst : s = t := by simpa using h
    rw [hst]
  | null => simp [luaEq] at h
  | bool b => simp [luaEq] at h
  | num n => simp [luaEq] at h
  | arr elems => simp [luaEq] at h
  | obj fields => simp [luaEq] at h

/-- `".." ..` on a decoded value; `none` where Lua raises. -/
def concat [LuaNumber ν] : Json ν → Option String
  | .str s => some s
  | .num n => some (LuaNumber.text n)
  | _ => none

/-- `v or ""` on a field of a decoded table. -/
def orEmpty : Option (Json ν) → Json ν
  | none => .str ""
  | some (.bool false) => .str ""
  | some v => v

theorem eq_of_orEmpty {v : Option (Json ν)} {a : String} (h : orEmpty v = .str a) (ha : a ≠ "") :
    v = some (.str a) := by
  unfold orEmpty at h
  split at h
  · exact absurd (Json.str.inj h).symm ha
  · exact absurd (Json.str.inj h).symm ha
  · rw [h]

mutual

/-- Python's `==` on decoded values, where `True` equals one and `False` zero. -/
def pyEq [DecidableEq ν] [LuaNumber ν] : Json ν → Json ν → Bool
  | .null, .null => true
  | .bool a, .bool b => a == b
  | .bool a, .num n => decide (LuaNumber.ofNat a.toNat = n)
  | .num m, .bool b => decide (m = LuaNumber.ofNat b.toNat)
  | .num m, .num n => decide (m = n)
  | .str s, .str t => s == t
  | .arr xs, .arr ys => pyEqList xs ys
  | .obj fs, .obj gs => fs.length == gs.length && pyEqFields fs gs
  | _, _ => false

def pyEqList [DecidableEq ν] [LuaNumber ν] : List (Json ν) → List (Json ν) → Bool
  | [], [] => true
  | x :: xs, y :: ys => pyEq x y && pyEqList xs ys
  | _, _ => false

def pyEqFields [DecidableEq ν] [LuaNumber ν] :
    List (String × Json ν) → List (String × Json ν) → Bool
  | [], _ => true
  | (k, v) :: fs, gs =>
    (match gs.lookup k with
      | some w => pyEq v w
      | none => false) && pyEqFields fs gs

end

def truthy [DecidableEq ν] [LuaNumber ν] : Json ν → Bool
  | .null => false
  | .bool b => b
  | .num n => decide (n ≠ LuaNumber.ofNat 0)
  | .str s => decide (s ≠ "")
  | .arr elems => !elems.isEmpty
  | .obj fields => !fields.isEmpty

theorem eq_of_pyEq_str [DecidableEq ν] [LuaNumber ν] {a : String} {v : Json ν}
    (h : pyEq (.str a) v = true) : v = .str a := by
  cases v with
  | str b =>
    have hab : a = b := by simpa [pyEq] using h
    rw [hab]
  | null => simp [pyEq] at h
  | bool b => simp [pyEq] at h
  | num n => simp [pyEq] at h
  | arr elems => simp [pyEq] at h
  | obj fields => simp [pyEq] at h

end Json

abbrev Fields (ν : Type) := String → Option (Json ν)

namespace Fields

variable {ν : Type}

def set (k : String) (v : Json ν) (f : Fields ν) : Fields ν :=
  fun x => if x = k then some v else f x

def unset (k : String) (f : Fields ν) : Fields ν := fun x => if x = k then none else f x

/-- `for k, v in pairs(updates) do current[k] = v end`. -/
def merge (updates current : Fields ν) : Fields ν := fun x => (updates x).or (current x)

def recode [LuaNumber ν] (f : Fields ν) : Fields ν := fun x => (f x).map Json.recode

@[simp] theorem set_self (k : String) (v : Json ν) (f : Fields ν) : set k v f k = some v :=
  if_pos rfl

end Fields

end Orditect.Support.LuaJson
