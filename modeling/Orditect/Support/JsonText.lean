import Mathlib.Data.List.Basic
import Orditect.Support.LuaJson
/-!
# JSON as text

The encoder writes a value without blanks and escapes quotes, backslashes and control
characters only; every other character stands for itself.  The decoder reads the text
character by character into tokens and parses these, so that what it makes of a text can
be followed from any place in it.  How a number reads as text is left open.
-/

namespace Orditect.Support.JsonText

open Support.LuaJson

def isNumeric (c : Char) : Bool :=
  c.isDigit || c == '+' || c == '-' || c == '.' || c == 'e' || c == 'E'

class NumberText (ν : Type) where
  text : ν → List Char
  read : List Char → Option ν
  read_text : ∀ n, read (text n) = some n
  text_ne_nil : ∀ n, text n ≠ []
  numeric : ∀ n, ∀ c ∈ text n, isNumeric c = true

def readDigits (ds : List Char) : Option Nat :=
  if Nat.toDigits 10 (Nat.ofDigitChars 10 ds 0) = ds then some (Nat.ofDigitChars 10 ds 0) else none

theorem readDigits_toDigits (n : Nat) : readDigits (Nat.toDigits 10 n) = some n := by
  simp [readDigits, Nat.ofDigitChars_toDigits]

def intText : Int → List Char
  | .ofNat n => Nat.toDigits 10 n
  | .negSucc n => '-' :: Nat.toDigits 10 (n + 1)

def readInt : List Char → Option Int
  | '-' :: ds => (readDigits ds).map fun n => -(n : Int)
  | ds => (readDigits ds).map fun n => (n : Int)

theorem isNumeric_of_mem_toDigits {n : Nat} {c : Char} (h : c ∈ Nat.toDigits 10 n) :
    isNumeric c = true := by
  simp [isNumeric, Nat.isDigit_of_mem_toDigits (by decide) (by decide) h]

theorem readInt_intText (n : Int) : readInt (intText n) = some n := by
  cases n with
  | ofNat n =>
    have hsign : ∀ ds, Nat.toDigits 10 n ≠ '-' :: ds := by
      intro ds h
      have hdigit := Nat.isDigit_of_mem_toDigits (b := 10) (n := n) (c := '-') (by decide)
        (by decide) (by rw [h]; exact List.mem_cons_self)
      exact absurd hdigit (by decide)
    rw [intText, readInt, readDigits_toDigits]
    · rfl
    · exact hsign
  | negSucc n => rw [intText, readInt, readDigits_toDigits]; rfl

instance : NumberText Int where
  text := intText
  read := readInt
  read_text := readInt_intText
  text_ne_nil
    | .ofNat _ => Nat.toDigits_ne_nil
    | .negSucc _ => List.cons_ne_nil _ _
  numeric
    | .ofNat _, _, h => isNumeric_of_mem_toDigits h
    | .negSucc _, _, h => by
        rcases List.mem_cons.mp h with rfl | h
        · decide
        · exact isNumeric_of_mem_toDigits h

/-- `bare` is a number or one of the words `null`, `true` and `false`. -/
inductive Token where
  | lbrace
  | rbrace
  | lbracket
  | rbracket
  | colon
  | comma
  | str (s : String)
  | bare (word : List Char)
  deriving DecidableEq

/-! ## The encoder -/

def escapeChar (c : Char) : List Char :=
  if c = '"' then ['\\', '"']
  else if c = '\\' then ['\\', '\\']
  else if c = '\n' then ['\\', 'n']
  else if c = '\r' then ['\\', 'r']
  else if c = '\t' then ['\\', 't']
  else if c = '\x08' then ['\\', 'b']
  else if c = '\x0c' then ['\\', 'f']
  else if c.toNat < 32 then
    ['\\', 'u', '0', '0', Nat.digitChar (c.toNat / 16), Nat.digitChar (c.toNat % 16)]
  else [c]

def Token.text : Token → List Char
  | .lbrace => ['{']
  | .rbrace => ['}']
  | .lbracket => ['[']
  | .rbracket => [']']
  | .colon => [':']
  | .comma => [',']
  | .str s => '"' :: s.toList.flatMap escapeChar ++ ['"']
  | .bare word => word

section

variable {ν : Type} [NumberText ν]

mutual

def tokens : Json ν → List Token
  | .null => [.bare ['n', 'u', 'l', 'l']]
  | .bool true => [.bare ['t', 'r', 'u', 'e']]
  | .bool false => [.bare ['f', 'a', 'l', 's', 'e']]
  | .num n => [.bare (NumberText.text n)]
  | .str s => [.str s]
  | .arr elems => .lbracket :: elemTokens elems
  | .obj fields => .lbrace :: fieldTokens fields

def elemTokens : List (Json ν) → List Token
  | [] => [.rbracket]
  | [v] => tokens v ++ [.rbracket]
  | v :: w :: elems => tokens v ++ .comma :: elemTokens (w :: elems)

def fieldTokens : List (String × Json ν) → List Token
  | [] => [.rbrace]
  | [(k, v)] => .str k :: .colon :: tokens v ++ [.rbrace]
  | (k, v) :: f :: fields => .str k :: .colon :: tokens v ++ .comma :: fieldTokens (f :: fields)

end

/-- `json.dumps(value, ensure_ascii=False, separators=(",", ":"))`. -/
def dumps (v : Json ν) : List Char := (tokens v).flatMap Token.text

end

/-! ## Reading tokens -/

/-- What may stand outside of a string, besides punctuation and blanks: the characters of a
number and of the words `null`, `true`, `false`, `NaN` and `Infinity`. -/
def isBare (c : Char) : Bool :=
  isNumeric c || c ∈ ['n', 'u', 'l', 't', 'r', 'f', 'a', 's', 'N', 'I', 'i', 'y']

def isBlank (c : Char) : Bool := c == ' ' || c == '\t' || c == '\n' || c == '\r'

def punctuation (c : Char) : Option Token :=
  if c = '{' then some .lbrace
  else if c = '}' then some .rbrace
  else if c = '[' then some .lbracket
  else if c = ']' then some .rbracket
  else if c = ':' then some .colon
  else if c = ',' then some .comma
  else none

def unescape (c : Char) : Option Char :=
  if c = '"' then some '"'
  else if c = '\\' then some '\\'
  else if c = '/' then some '/'
  else if c = 'n' then some '\n'
  else if c = 'r' then some '\r'
  else if c = 't' then some '\t'
  else if c = 'b' then some '\x08'
  else if c = 'f' then some '\x0c'
  else none

def hexValue (c : Char) : Option Nat :=
  if '0' ≤ c ∧ c ≤ '9' then some (c.toNat - 48)
  else if 'a' ≤ c ∧ c ≤ 'f' then some (c.toNat - 87)
  else if 'A' ≤ c ∧ c ≤ 'F' then some (c.toNat - 55)
  else none

/-- Where the decoder stands, with the tokens it has read.  An escape that names no scalar value
is not read: the encoder writes no surrogates. -/
inductive Lexer where
  | outside (done : List Token) (word : List Char)
  | inside (done : List Token) (text : List Char)
  | escape (done : List Token) (text : List Char)
  | code (done : List Token) (text : List Char) (left value : Nat)
  | failed

def flush (done : List Token) (word : List Char) : List Token :=
  if word = [] then done else done ++ [.bare word]

def Lexer.step : Lexer → Char → Lexer
  | .outside done word, c =>
    if c = '"' then .inside (flush done word) []
    else
      match punctuation c with
      | some t => .outside (flush done word ++ [t]) []
      | none =>
        if isBlank c then .outside (flush done word) []
        else if isBare c then .outside done (word ++ [c])
        else .failed
  | .inside done text, c =>
    if c = '"' then .outside (done ++ [.str (String.ofList text)]) []
    else if c = '\\' then .escape done text
    else if c.toNat < 32 then .failed
    else .inside done (text ++ [c])
  | .escape done text, c =>
    if c = 'u' then .code done text 4 0
    else
      match unescape c with
      | some d => .inside done (text ++ [d])
      | none => .failed
  | .code done text left value, c =>
    match hexValue c with
    | none => .failed
    | some d =>
      if 1 < left then .code done text (left - 1) (16 * value + d)
      else if (16 * value + d).isValidChar then
        .inside done (text ++ [Char.ofNat (16 * value + d)])
      else .failed
  | .failed, _ => .failed

def Lexer.read (s : Lexer) (text : List Char) : Lexer := text.foldl Lexer.step s

def Lexer.finish : Lexer → Option (List Token)
  | .outside done word => some (flush done word)
  | _ => none

def lex (text : List Char) : Option (List Token) := ((Lexer.outside [] []).read text).finish

/-! ## Parsing tokens -/

/-- `d[k] = v`: a key that is there keeps its place. -/
def setItem {α : Type} (d : List (String × α)) (f : String × α) : List (String × α) :=
  if d.any fun g => g.1 == f.1 then d.map fun g => if g.1 == f.1 then f else g else d ++ [f]

def dict {α : Type} (pairs : List (String × α)) : List (String × α) := pairs.foldl setItem []

section Lookup

variable {α : Type}

theorem lookup_cons_ne {key k : String} (h : key ≠ k) (v : α) (d : List (String × α)) :
    ((k, v) :: d).lookup key = d.lookup key := by
  rw [List.lookup_cons, beq_false_of_ne h]

theorem lookup_of_mem {fields : List (String × α)} (h : (fields.map Prod.fst).Nodup)
    {f : String × α} (hf : f ∈ fields) : fields.lookup f.1 = some f.2 := by
  induction fields with
  | nil => exact absurd hf List.not_mem_nil
  | cons g fields ih =>
    obtain ⟨hnew, hnodup⟩ := List.nodup_cons.mp h
    rcases List.mem_cons.mp hf with rfl | hf
    · exact List.lookup_cons_self
    · have hne : f.1 ≠ g.1 := fun heq => hnew (heq ▸ List.mem_map_of_mem hf)
      rw [lookup_cons_ne hne]
      exact ih hnodup hf

theorem lookup_replace (d : List (String × α)) (k : String) (v : α) (key : String) :
    (d.map fun g => if g.1 == k then (k, v) else g).lookup key =
      if key = k then (if d.any fun g => g.1 == k then some v else none) else d.lookup key := by
  induction d with
  | nil => simp
  | cons g d ih =>
    obtain ⟨k', v'⟩ := g
    rw [List.map_cons]
    by_cases hg : k' = k
    · subst hg
      by_cases hkey : key = k'
      · simp [hkey]
      · simp only [beq_self_eq_true, if_true, hkey, if_false, lookup_cons_ne hkey] at ih ⊢
        exact ih
    · by_cases hkey : key = k'
      · subst hkey
        simp [hg]
      · simp only [beq_false_of_ne hg, Bool.false_eq_true, if_false, lookup_cons_ne hkey,
          List.any_cons, Bool.false_or]
        exact ih

theorem lookup_setItem (d : List (String × α)) (k : String) (v : α) (key : String) :
    (setItem d (k, v)).lookup key = if key = k then some v else d.lookup key := by
  unfold setItem
  split
  next hany => rw [lookup_replace, if_pos hany]
  next hany =>
    rw [List.lookup_append]
    by_cases hkey : key = k
    · subst hkey
      have hnone : d.lookup key = none := by
        rw [List.lookup_eq_none_iff]
        intro g hg
        have hne : ¬ g.1 = key := by
          simpa using fun heq => hany (List.any_eq_true.mpr ⟨g, hg, by simpa using heq⟩)
        simpa using Ne.symm hne
      simp [hnone]
    · simp [hkey, lookup_cons_ne]

end Lookup

section

variable {ν : Type}

mutual

def strings : Json ν → List String
  | .str s => [s]
  | .arr elems => elemStrings elems
  | .obj fields => fieldStrings fields
  | _ => []

def elemStrings : List (Json ν) → List String
  | [] => []
  | v :: elems => strings v ++ elemStrings elems

def fieldStrings : List (String × Json ν) → List String
  | [] => []
  | (k, v) :: fields => k :: strings v ++ fieldStrings fields

end

mutual

def distinct : Json ν → Bool
  | .arr elems => distinctElems elems
  | .obj fields => decide (fields.map Prod.fst).Nodup && distinctFields fields
  | _ => true

def distinctElems : List (Json ν) → Bool
  | [] => true
  | v :: elems => distinct v && distinctElems elems

def distinctFields : List (String × Json ν) → Bool
  | [] => true
  | (_, v) :: fields => distinct v && distinctFields fields

end

/-- A dictionary of the client: one value for each name, at any depth. -/
def Dict (ν : Type) := { fields : List (String × Json ν) // distinct (.obj fields) = true }

mutual

/-- A value whose dictionaries have one value for each name equals itself. -/
theorem pyEq_self [DecidableEq ν] [LuaNumber ν] :
    ∀ v : Json ν, distinct v = true → v.pyEq v = true
  | .null, _ => rfl
  | .bool b, _ | .num n, _ | .str s, _ => by simp [Json.pyEq]
  | .arr elems, h => by
      rw [Json.pyEq]
      exact pyEqList_self elems h
  | .obj fields, h => by
      rw [distinct, Bool.and_eq_true, decide_eq_true_eq] at h
      rw [Json.pyEq, beq_self_eq_true, Bool.true_and]
      exact pyEqFields_self fields fields (fun f hf => lookup_of_mem h.1 hf) h.2

theorem pyEqList_self [DecidableEq ν] [LuaNumber ν] :
    ∀ elems : List (Json ν), distinctElems elems = true → Json.pyEqList elems elems = true
  | [], _ => rfl
  | v :: elems, h => by
      rw [distinctElems, Bool.and_eq_true] at h
      rw [Json.pyEqList, pyEq_self v h.1, pyEqList_self elems h.2]
      rfl

theorem pyEqFields_self [DecidableEq ν] [LuaNumber ν] :
    ∀ fields all : List (String × Json ν), (∀ f ∈ fields, all.lookup f.1 = some f.2) →
      distinctFields fields = true → Json.pyEqFields fields all = true
  | [], _, _, _ => rfl
  | (k, v) :: fields, all, hall, h => by
      rw [distinctFields, Bool.and_eq_true] at h
      obtain ⟨hfirst, hrest⟩ := List.forall_mem_cons.mp hall
      simp only [Json.pyEqFields, hfirst, pyEqFields_self fields all hrest h.2, pyEq_self v h.1,
        Bool.and_self]

end

variable [NumberText ν]

def readWord (word : List Char) : Option (Json ν) :=
  if word = ['n', 'u', 'l', 'l'] then some .null
  else if word = ['t', 'r', 'u', 'e'] then some (.bool true)
  else if word = ['f', 'a', 'l', 's', 'e'] then some (.bool false)
  else (NumberText.read word).map .num

mutual

def parseValue : Nat → List Token → Option (Json ν × List Token)
  | _ + 1, .str s :: ts => some (.str s, ts)
  | _ + 1, .bare word :: ts => (readWord word).map fun v => (v, ts)
  | _ + 1, .lbracket :: .rbracket :: ts => some (.arr [], ts)
  | fuel + 1, .lbracket :: ts => (parseElems fuel ts).map fun p => (.arr p.1, p.2)
  | _ + 1, .lbrace :: .rbrace :: ts => some (.obj [], ts)
  | fuel + 1, .lbrace :: ts => (parseFields fuel ts).map fun p => (.obj (dict p.1), p.2)
  | _, _ => none

def parseElems : Nat → List Token → Option (List (Json ν) × List Token)
  | 0, _ => none
  | fuel + 1, ts =>
    match parseValue fuel ts with
    | some (v, .rbracket :: ts) => some ([v], ts)
    | some (v, .comma :: ts) => (parseElems fuel ts).map fun p => (v :: p.1, p.2)
    | _ => none

def parseFields : Nat → List Token → Option (List (String × Json ν) × List Token)
  | fuel + 1, .str k :: .colon :: ts =>
    match parseValue fuel ts with
    | some (v, .rbrace :: ts) => some ([(k, v)], ts)
    | some (v, .comma :: ts) => (parseFields fuel ts).map fun p => ((k, v) :: p.1, p.2)
    | _ => none
  | _, _ => none

end

/-- `json.loads`; `none` where it raises. -/
def loads (text : List Char) : Option (Json ν) :=
  match lex text with
  | none => none
  | some ts =>
    match parseValue ts.length ts with
    | some (v, []) => some v
    | _ => none

end

end Orditect.Support.JsonText
