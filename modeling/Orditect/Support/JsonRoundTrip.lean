import Orditect.Support.JsonText
/-!
# The decoder inverts the encoder

Reading goes token by token: what a value is written as reads as its tokens from any place
between two of them, and the parser takes these back to the value.
-/

namespace Orditect.Support.JsonText

open Support.LuaJson

/-! ## Tokens -/

@[simp] theorem Lexer.read_nil (s : Lexer) : s.read [] = s := rfl

@[simp] theorem Lexer.read_cons (s : Lexer) (c : Char) (text : List Char) :
    s.read (c :: text) = (s.step c).read text := rfl

theorem Lexer.read_append (s : Lexer) (a b : List Char) : s.read (a ++ b) = (s.read a).read b :=
  List.foldl_append

@[simp] theorem flush_nil (done : List Token) : flush done [] = done := rfl

variable {word : List Char} {d : Nat} {c : Char}

theorem flush_of_ne_nil {done : List Token} (h : word ≠ []) :
    flush done word = done ++ [.bare word] := if_neg h

theorem hexValue_digitChar (h : d < 16) : hexValue (Nat.digitChar d) = some d := by
  revert d
  decide

theorem Lexer.step_code (h : hexValue c = some d) (done : List Token) (text : List Char)
    (left value : Nat) :
    (Lexer.code done text (left + 2) value).step c =
      .code done text (left + 1) (16 * value + d) := by
  simp [Lexer.step, h]

theorem Lexer.step_code_last {value : Nat} (h : hexValue c = some d)
    (hvalid : (16 * value + d).isValidChar) (done : List Token) (text : List Char) :
    (Lexer.code done text 1 value).step c =
      .inside done (text ++ [Char.ofNat (16 * value + d)]) := by
  simp [Lexer.step, h, hvalid]

theorem read_escapeChar (done : List Token) (text : List Char) (c : Char) :
    (Lexer.inside done text).read (escapeChar c) = .inside done (text ++ [c]) := by
  unfold escapeChar
  split_ifs with h₁ h₂ h₃ h₄ h₅ h₆ h₇ h₈
  · subst h₁; rfl
  · subst h₂; rfl
  · subst h₃; rfl
  · subst h₄; rfl
  · subst h₅; rfl
  · subst h₆; rfl
  · subst h₇; rfl
  · -- the four digits spell the code of the character
    have hcode : 16 * (16 * (16 * (16 * 0 + 0) + 0) + c.toNat / 16) + c.toNat % 16 = c.toNat := by
      omega
    simp only [Lexer.read_cons, Lexer.read_nil]
    rw [show ((Lexer.inside done text).step '\\').step 'u' = .code done text 4 0 from rfl,
      Lexer.step_code (show hexValue '0' = some 0 by decide),
      Lexer.step_code (show hexValue '0' = some 0 by decide),
      Lexer.step_code (hexValue_digitChar (by omega)),
      Lexer.step_code_last (hexValue_digitChar (by omega)) (by rw [hcode]; exact c.valid), hcode,
      Char.ofNat_toNat]
  · simp [Lexer.step, h₁, h₂, h₈]

theorem read_escaped (done : List Token) (text s : List Char) :
    (Lexer.inside done text).read (s.flatMap escapeChar) = .inside done (text ++ s) := by
  induction s generalizing text with
  | nil => simp
  | cons c s ih =>
    rw [List.flatMap_cons, Lexer.read_append, read_escapeChar, ih, List.append_assoc]
    rfl

theorem read_str (done : List Token) (word : List Char) (s : String) :
    (Lexer.outside done word).read (Token.str s).text =
      .outside (flush done word ++ [.str s]) [] := by
  simp only [Token.text, List.cons_append, Lexer.read_cons]
  rw [show (Lexer.outside done word).step '"' = .inside (flush done word) [] from rfl,
    Lexer.read_append, read_escaped]
  simp [Lexer.step]

/-- Punctuation ends the word before it. -/
theorem read_punctuation {t : Token} (h : punctuation c = some t) (hq : c ≠ '"')
    (done : List Token) (word : List Char) :
    (Lexer.outside done word).read [c] = .outside (flush done word ++ [t]) [] := by
  simp [Lexer.step, hq, h]

def inWord (c : Char) : Bool := c != '"' && punctuation c == none && !isBlank c && isBare c

theorem read_word (h : word.all inWord = true) (done : List Token) (before : List Char) :
    (Lexer.outside done before).read word = .outside done (before ++ word) := by
  induction word generalizing before with
  | nil => simp
  | cons c word ih =>
    rw [List.all_cons, Bool.and_eq_true] at h
    obtain ⟨⟨⟨hq, hp⟩, hb⟩, hbare⟩ : ((c ≠ '"' ∧ punctuation c = none) ∧ isBlank c = false) ∧
        isBare c = true := by
      simpa [inWord] using h.1
    rw [Lexer.read_cons,
      show (Lexer.outside done before).step c = .outside done (before ++ [c]) by
        simp [Lexer.step, hq, hp, hb, hbare], ih h.2, List.append_assoc]
    rfl

theorem inWord_of_numeric (hnum : isNumeric c = true) : inWord c = true := by
  have hbare : isBare c = true := by simp [isBare, hnum]
  have hne : ∀ d : Char, isNumeric d = false → c ≠ d := by
    rintro d hd rfl
    rw [hd] at hnum
    exact absurd hnum (by decide)
  simp [inWord, hbare, hne '"' (by decide), punctuation, hne '{' (by decide), hne '}' (by decide),
    hne '[' (by decide), hne ']' (by decide), hne ':' (by decide), hne ',' (by decide), isBlank,
    hne ' ' (by decide), hne '\t' (by decide), hne '\n' (by decide), hne '\r' (by decide)]

theorem all_inWord_text {ν : Type} [NumberText ν] (n : ν) :
    (NumberText.text n).all inWord = true :=
  List.all_eq_true.mpr fun c hc => inWord_of_numeric (NumberText.numeric n c hc)

theorem read_bare (hne : word ≠ []) (h : word.all inWord = true) (done : List Token) :
    ∃ d w, (Lexer.outside done []).read ([Token.bare word].flatMap Token.text) = .outside d w ∧
      flush d w = done ++ [.bare word] := by
  refine ⟨done, word, ?_, flush_of_ne_nil hne⟩
  simpa [Token.text] using read_word h done []

section

variable {ν : Type} [NumberText ν]

mutual

/-- The text of a value reads as its tokens; the last word may be still open. -/
theorem read_dumps (v : Json ν) (done : List Token) :
    ∃ d w, (Lexer.outside done []).read (dumps v) = .outside d w ∧
      flush d w = done ++ tokens v := by
  cases v with
  | null => exact read_bare (by decide) (by decide) done
  | bool b =>
    cases b with
    | true | false => exact read_bare (by decide) (by decide) done
  | num n =>
    exact read_bare (NumberText.text_ne_nil n) (all_inWord_text n) done
  | str s => exact ⟨_, [], by simpa [dumps, tokens] using read_str done [] s, rfl⟩
  | arr elems =>
    refine ⟨done ++ .lbracket :: elemTokens elems, [], ?_, rfl⟩
    have hopen := read_punctuation (c := '[') rfl (by decide) done []
    rw [show dumps (Json.arr elems) = ['['] ++ (elemTokens elems).flatMap Token.text from rfl,
      Lexer.read_append, hopen, read_elemTokens elems]
    simp
  | obj fields =>
    refine ⟨done ++ .lbrace :: fieldTokens fields, [], ?_, rfl⟩
    have hopen := read_punctuation (c := '{') rfl (by decide) done []
    rw [show dumps (Json.obj fields) = ['{'] ++ (fieldTokens fields).flatMap Token.text from rfl,
      Lexer.read_append, hopen, read_fieldTokens fields]
    simp

theorem read_elemTokens (elems : List (Json ν)) (done : List Token) :
    (Lexer.outside done []).read ((elemTokens elems).flatMap Token.text) =
      .outside (done ++ elemTokens elems) [] := by
  match elems with
  | [] => exact read_punctuation (c := ']') rfl (by decide) done []
  | [v] =>
    obtain ⟨d, w, hread, hflush⟩ := read_dumps v done
    have hclose := read_punctuation (c := ']') rfl (by decide) d w
    rw [show (elemTokens [v]).flatMap Token.text = dumps v ++ [']'] by
      simp [elemTokens, dumps, Token.text], Lexer.read_append, hread, hclose, hflush]
    simp [elemTokens]
  | v :: e :: elems =>
    obtain ⟨d, w, hread, hflush⟩ := read_dumps v done
    have hcomma := read_punctuation (c := ',') rfl (by decide) d w
    rw [show (elemTokens (v :: e :: elems)).flatMap Token.text =
        dumps v ++ ([','] ++ (elemTokens (e :: elems)).flatMap Token.text) by
      simp [elemTokens, dumps, Token.text], Lexer.read_append, hread, Lexer.read_append, hcomma,
      hflush, read_elemTokens (e :: elems)]
    simp [elemTokens]

theorem read_fieldTokens (fields : List (String × Json ν)) (done : List Token) :
    (Lexer.outside done []).read ((fieldTokens fields).flatMap Token.text) =
      .outside (done ++ fieldTokens fields) [] := by
  match fields with
  | [] => exact read_punctuation (c := '}') rfl (by decide) done []
  | [(k, v)] =>
    obtain ⟨d, w, hread, hflush⟩ := read_dumps v (done ++ [.str k] ++ [.colon])
    have hcolon := read_punctuation (c := ':') rfl (by decide) (done ++ [.str k]) []
    have hclose := read_punctuation (c := '}') rfl (by decide) d w
    rw [show (fieldTokens [(k, v)]).flatMap Token.text =
        (Token.str k).text ++ ([':'] ++ (dumps v ++ ['}'])) by
      simp [fieldTokens, dumps, Token.text], Lexer.read_append, read_str, Lexer.read_append,
      flush_nil, hcolon, Lexer.read_append, flush_nil, hread, hclose, hflush]
    simp [fieldTokens]
  | (k, v) :: f :: fields =>
    obtain ⟨d, w, hread, hflush⟩ := read_dumps v (done ++ [.str k] ++ [.colon])
    have hcolon := read_punctuation (c := ':') rfl (by decide) (done ++ [.str k]) []
    have hcomma := read_punctuation (c := ',') rfl (by decide) d w
    rw [show (fieldTokens ((k, v) :: f :: fields)).flatMap Token.text =
        (Token.str k).text ++ ([':'] ++
          (dumps v ++ ([','] ++ (fieldTokens (f :: fields)).flatMap Token.text))) by
      simp [fieldTokens, dumps, Token.text], Lexer.read_append, read_str, Lexer.read_append,
      flush_nil, hcolon, Lexer.read_append, flush_nil, hread, Lexer.read_append, hcomma, hflush,
      read_fieldTokens (f :: fields)]
    simp [fieldTokens]

end

theorem lex_dumps (v : Json ν) : lex (dumps v) = some (tokens v) := by
  obtain ⟨d, w, hread, hflush⟩ := read_dumps v []
  rw [lex, hread, Lexer.finish, hflush, List.nil_append]

/-! ## Values -/

theorem readWord_text (n : ν) : readWord (NumberText.text n) = some (Json.num n) := by
  have hne : ∀ c word, isNumeric c = false → NumberText.text n ≠ c :: word := by
    intro c word hc htext
    have hnum := NumberText.numeric n c (by rw [htext]; exact List.mem_cons_self)
    rw [hc] at hnum
    exact absurd hnum (by decide)
  rw [readWord, if_neg (hne _ _ (by decide)), if_neg (hne _ _ (by decide)),
    if_neg (hne _ _ (by decide)), NumberText.read_text, Option.map_some]

theorem foldl_setItem {α : Type} (acc pairs : List (String × α))
    (h : ((acc ++ pairs).map Prod.fst).Nodup) : pairs.foldl setItem acc = acc ++ pairs := by
  induction pairs generalizing acc with
  | nil => simp
  | cons f pairs ih =>
    have hnew : (acc.any fun g => g.1 == f.1) = false := by
      rw [List.any_eq_false]
      intro g hg heq
      rw [List.map_append, List.nodup_append] at h
      exact h.2.2 g.1 (List.mem_map_of_mem hg) f.1 (by simp) (by simpa using heq)
    rw [List.foldl_cons, setItem, hnew, if_neg (by decide), ih (acc ++ [f]) (by simpa using h)]
    simp

theorem dict_of_nodup {α : Type} {pairs : List (String × α)} (h : (pairs.map Prod.fst).Nodup) :
    dict pairs = pairs := foldl_setItem [] pairs h

theorem tokens_ne_nil (v : Json ν) : tokens v ≠ [] := by
  cases v with
  | bool b => cases b <;> simp [tokens]
  | _ => simp [tokens]

theorem tokens_ne_rbracket (v : Json ν) (rest ts : List Token) :
    tokens v ++ rest ≠ .rbracket :: ts := by
  cases v with
  | bool b => cases b <;> simp [tokens]
  | _ => simp [tokens]

theorem parseValue_lbracket (fuel : Nat) {ts : List Token} (h : ∀ rest, ts ≠ .rbracket :: rest) :
    parseValue (ν := ν) (fuel + 1) (.lbracket :: ts) =
      (parseElems fuel ts).map fun p => (.arr p.1, p.2) := by
  rw [parseValue]
  exact h

theorem parseValue_lbrace (fuel : Nat) {ts : List Token} (h : ∀ rest, ts ≠ .rbrace :: rest) :
    parseValue (ν := ν) (fuel + 1) (.lbrace :: ts) =
      (parseFields fuel ts).map fun p => (.obj (dict p.1), p.2) := by
  rw [parseValue]
  exact h

mutual

/-- The parser reads the tokens of a value back, as long as it has a step for each of them. -/
theorem parseValue_tokens (v : Json ν) (rest : List Token) {fuel : Nat} (hv : distinct v = true)
    (hfuel : (tokens v).length ≤ fuel) : parseValue fuel (tokens v ++ rest) = some (v, rest) := by
  have hpos := List.length_pos_of_ne_nil (tokens_ne_nil v)
  obtain ⟨fuel, rfl⟩ : ∃ n, fuel = n + 1 := ⟨fuel - 1, by omega⟩
  cases v with
  | null => rfl
  | bool b => cases b <;> rfl
  | num n => simp [tokens, parseValue, readWord_text]
  | str s => rfl
  | arr elems =>
    match elems with
    | [] => rfl
    | v :: elems =>
      have hopen : ∀ ts, elemTokens (v :: elems) ++ rest ≠ .rbracket :: ts := by
        intro ts
        cases elems with
        | nil | cons w elems => simpa [elemTokens] using tokens_ne_rbracket v _ ts
      simp only [tokens, List.cons_append, List.length_cons] at hfuel ⊢
      rw [parseValue_lbracket fuel hopen, parseElems_tokens (v :: elems) rest
        (by simp) hv (by omega)]
      rfl
  | obj fields =>
    match fields with
    | [] => rfl
    | f :: fields =>
      have hopen : ∀ ts, fieldTokens (f :: fields) ++ rest ≠ .rbrace :: ts := by
        intro ts
        cases fields <;> simp [fieldTokens]
      simp only [distinct, Bool.and_eq_true, decide_eq_true_eq] at hv
      simp only [tokens, List.cons_append, List.length_cons] at hfuel ⊢
      rw [parseValue_lbrace fuel hopen, parseFields_tokens (f :: fields) rest
        (by simp) hv.2 (by omega),
        Option.map_some, dict_of_nodup hv.1]

theorem parseElems_tokens (elems : List (Json ν)) (rest : List Token) {fuel : Nat}
    (hne : elems ≠ []) (hv : distinctElems elems = true)
    (hfuel : (elemTokens elems).length ≤ fuel) :
    parseElems fuel (elemTokens elems ++ rest) = some (elems, rest) := by
  match elems with
  | [v] =>
    simp only [distinctElems, Bool.and_eq_true] at hv
    simp only [elemTokens, List.length_append, List.length_singleton] at hfuel ⊢
    obtain ⟨fuel, rfl⟩ : ∃ n, fuel = n + 1 := ⟨fuel - 1, by omega⟩
    rw [parseElems, List.append_assoc, parseValue_tokens v _ hv.1 (by omega)]
    rfl
  | v :: w :: elems =>
    rw [distinctElems, Bool.and_eq_true] at hv
    simp only [elemTokens, List.length_append, List.length_cons] at hfuel ⊢
    obtain ⟨fuel, rfl⟩ : ∃ n, fuel = n + 1 := ⟨fuel - 1, by omega⟩
    rw [parseElems, List.append_assoc, parseValue_tokens v _ hv.1 (by omega), List.cons_append]
    simp only
    rw [parseElems_tokens (w :: elems) rest (by simp) hv.2 (by omega)]
    rfl

theorem parseFields_tokens (fields : List (String × Json ν)) (rest : List Token) {fuel : Nat}
    (hne : fields ≠ []) (hv : distinctFields fields = true)
    (hfuel : (fieldTokens fields).length ≤ fuel) :
    parseFields fuel (fieldTokens fields ++ rest) = some (fields, rest) := by
  match fields with
  | [(k, v)] =>
    simp only [distinctFields, Bool.and_eq_true] at hv
    simp only [fieldTokens, List.length_append, List.length_cons, List.cons_append] at hfuel ⊢
    obtain ⟨fuel, rfl⟩ : ∃ n, fuel = n + 1 := ⟨fuel - 1, by omega⟩
    rw [parseFields, List.append_assoc, parseValue_tokens v _ hv.1 (by omega)]
    rfl
  | (k, v) :: f :: fields =>
    rw [distinctFields, Bool.and_eq_true] at hv
    simp only [fieldTokens, List.length_append, List.length_cons, List.cons_append] at hfuel ⊢
    obtain ⟨fuel, rfl⟩ : ∃ n, fuel = n + 1 := ⟨fuel - 1, by omega⟩
    rw [parseFields, List.append_assoc, parseValue_tokens v _ hv.1 (by omega), List.cons_append]
    simp only
    rw [parseFields_tokens (f :: fields) rest (by simp) hv.2 (by omega)]
    rfl

end

variable {v : Json ν}

theorem loads_dumps (hv : distinct v = true) : loads (dumps v) = some v := by
  have hparse := parseValue_tokens v [] hv (Nat.le_refl _)
  rw [List.append_nil] at hparse
  simp only [loads, lex_dumps, hparse]

theorem fieldTokens_concat (fields : List (String × Json ν)) :
    ∃ ts, fieldTokens fields = ts ++ [.rbrace] := by
  induction fields with
  | nil => exact ⟨[], rfl⟩
  | cons f fields ih =>
    obtain ⟨k, v⟩ := f
    cases fields with
    | nil => exact ⟨.str k :: .colon :: tokens v, rfl⟩
    | cons g fields =>
      obtain ⟨ts, hts⟩ := ih
      refine ⟨.str k :: .colon :: tokens v ++ .comma :: ts, ?_⟩
      rw [fieldTokens, hts]
      simp

theorem dumps_obj (fields : List (String × Json ν)) :
    ∃ middle, dumps (.obj fields) = '{' :: middle ++ ['}'] := by
  obtain ⟨ts, hts⟩ := fieldTokens_concat fields
  refine ⟨ts.flatMap Token.text, ?_⟩
  simp [dumps, tokens, hts, Token.text]

/-! ## The characters of a text -/

mutual

theorem mem_tokens_str (v : Json ν) (s : String) : .str s ∈ tokens v ↔ s ∈ strings v := by
  cases v with
  | bool b => cases b <;> simp [tokens, strings]
  | null | num n | str t => simp [tokens, strings]
  | arr elems => simpa [tokens, strings] using mem_elemTokens_str elems s
  | obj fields => simpa [tokens, strings] using mem_fieldTokens_str fields s

theorem mem_elemTokens_str (elems : List (Json ν)) (s : String) :
    .str s ∈ elemTokens elems ↔ s ∈ elemStrings elems := by
  match elems with
  | [] => simp [elemTokens, elemStrings]
  | [v] => simp [elemTokens, elemStrings, mem_tokens_str v s]
  | v :: w :: elems =>
    rw [elemTokens, elemStrings]
    simp [mem_tokens_str v s, mem_elemTokens_str (w :: elems) s]

theorem mem_fieldTokens_str (fields : List (String × Json ν)) (s : String) :
    .str s ∈ fieldTokens fields ↔ s ∈ fieldStrings fields := by
  match fields with
  | [] => simp [fieldTokens, fieldStrings]
  | [(k, v)] => simp [fieldTokens, fieldStrings, mem_tokens_str v s]
  | (k, v) :: f :: fields =>
    rw [fieldTokens, fieldStrings]
    simp [mem_tokens_str v s, mem_fieldTokens_str (f :: fields) s]

end

mutual

theorem bare_of_mem_tokens (v : Json ν) {word : List Char} (h : .bare word ∈ tokens v) :
    ∀ c ∈ word, isBare c = true := by
  cases v with
  | null =>
    obtain rfl : word = ['n', 'u', 'l', 'l'] := by simpa [tokens] using h
    exact List.all_eq_true.mp (by decide)
  | bool b =>
    cases b with
    | true =>
      obtain rfl : word = ['t', 'r', 'u', 'e'] := by simpa [tokens] using h
      exact List.all_eq_true.mp (by decide)
    | false =>
      obtain rfl : word = ['f', 'a', 'l', 's', 'e'] := by simpa [tokens] using h
      exact List.all_eq_true.mp (by decide)
  | num n =>
    obtain rfl : word = NumberText.text n := by simpa [tokens] using h
    intro c hc
    simp [isBare, NumberText.numeric n c hc]
  | str t => simp [tokens] at h
  | arr elems => exact bare_of_mem_elemTokens elems (by simpa [tokens] using h)
  | obj fields => exact bare_of_mem_fieldTokens fields (by simpa [tokens] using h)

theorem bare_of_mem_elemTokens (elems : List (Json ν)) {word : List Char}
    (h : .bare word ∈ elemTokens elems) : ∀ c ∈ word, isBare c = true := by
  match elems with
  | [] => simp [elemTokens] at h
  | [v] => exact bare_of_mem_tokens v (by simpa [elemTokens] using h)
  | v :: w :: elems =>
    rw [elemTokens] at h
    obtain h | h : .bare word ∈ tokens v ∨ .bare word ∈ elemTokens (w :: elems) := by
      simpa using h
    · exact bare_of_mem_tokens v h
    · exact bare_of_mem_elemTokens (w :: elems) h

theorem bare_of_mem_fieldTokens (fields : List (String × Json ν)) {word : List Char}
    (h : .bare word ∈ fieldTokens fields) : ∀ c ∈ word, isBare c = true := by
  match fields with
  | [] => simp [fieldTokens] at h
  | [(k, v)] => exact bare_of_mem_tokens v (by simpa [fieldTokens] using h)
  | (k, v) :: f :: fields =>
    rw [fieldTokens] at h
    obtain h | h : .bare word ∈ tokens v ∨ .bare word ∈ fieldTokens (f :: fields) := by
      simpa using h
    · exact bare_of_mem_tokens v h
    · exact bare_of_mem_fieldTokens (f :: fields) h

end

def isPrintable (c : Char) : Bool := decide (32 ≤ c.toNat) && decide (c.toNat < 128)

theorem isPrintable_iff : isPrintable c = true ↔ 32 ≤ c.toNat ∧ c.toNat < 128 := by
  simp [isPrintable]

theorem toNat_of_isBare (h : isBare c = true) : 32 ≤ c.toNat ∧ c.toNat < 128 := by
  by_cases hdigit : c.isDigit = true
  · simp only [Char.isDigit, Bool.and_eq_true, decide_eq_true_eq, ge_iff_le,
      UInt32.le_iff_toNat_le] at hdigit
    have hval : c.val.toNat = c.toNat := rfl
    have hlow := hdigit.1
    have hhigh := hdigit.2
    simp at hlow hhigh
    omega
  · have hother : ['+', '-', '.', 'e', 'E', 'n', 'u', 'l', 't', 'r', 'f', 'a', 's', 'N', 'I', 'i',
        'y'].all isPrintable = true := by decide
    exact isPrintable_iff.mp (List.all_eq_true.mp hother c
      (by simpa [isBare, isNumeric, hdigit, or_assoc] using h))

/-- A character is written as itself or as printable ASCII. -/
theorem escapeChar_cases (d : Char) :
    escapeChar d = [d] ∧ 32 ≤ d.toNat ∨
      d.toNat < 128 ∧ (escapeChar d).all isPrintable = true := by
  have hdigit : ∀ n < 16, isPrintable (Nat.digitChar n) = true := by decide
  unfold escapeChar
  split_ifs with h₁ h₂ h₃ h₄ h₅ h₆ h₇ h₈
  · subst h₁; decide
  · subst h₂; decide
  · subst h₃; decide
  · subst h₄; decide
  · subst h₅; decide
  · subst h₆; decide
  · subst h₇; decide
  · refine Or.inr ⟨by omega, ?_⟩
    simp only [List.all_cons, hdigit _ (show d.toNat / 16 < 16 by omega),
      hdigit _ (show d.toNat % 16 < 16 by omega)]
    decide
  · exact Or.inl ⟨rfl, by omega⟩

theorem mem_text {t : Token} (hbare : ∀ word, t = .bare word → ∀ c ∈ word, isBare c = true)
    (h : c ∈ t.text) :
    (∃ s, t = .str s ∧ c ∈ s.toList ∧ 32 ≤ c.toNat) ∨ 32 ≤ c.toNat ∧ c.toNat < 128 := by
  cases t with
  | str s =>
    obtain rfl | hs | rfl : c = '"' ∨ c ∈ s.toList.flatMap escapeChar ∨ c = '"' := by
      simpa [Token.text] using h
    · exact Or.inr (by decide)
    · obtain ⟨d, hd, hc⟩ := List.mem_flatMap.mp hs
      rcases escapeChar_cases d with ⟨hself, hle⟩ | ⟨-, hascii⟩
      · obtain rfl : c = d := by simpa [hself] using hc
        exact Or.inl ⟨s, rfl, hd, hle⟩
      · exact Or.inr (isPrintable_iff.mp (List.all_eq_true.mp hascii c hc))
    · exact Or.inr (by decide)
  | bare word => exact Or.inr (toNat_of_isBare (hbare word rfl c h))
  | _ =>
    rw [Token.text, List.mem_singleton] at h
    subst h
    exact Or.inr (by decide)

theorem le_of_mem_dumps (h : c ∈ dumps v) : 32 ≤ c.toNat := by
  obtain ⟨t, ht, hc⟩ := List.mem_flatMap.mp h
  rcases mem_text (fun word hw => bare_of_mem_tokens v (hw ▸ ht)) hc with ⟨s, -, -, hle⟩ | hascii
  · exact hle
  · exact hascii.1

/-- A character beyond ASCII stands in the text if and only if it stands in a string. -/
theorem mem_dumps (hc : 128 ≤ c.toNat) :
    c ∈ dumps v ↔ ∃ s ∈ strings v, c ∈ s.toList := by
  constructor
  · intro h
    obtain ⟨t, ht, hmem⟩ := List.mem_flatMap.mp h
    rcases mem_text (fun word hw => bare_of_mem_tokens v (hw ▸ ht)) hmem with
      ⟨s, rfl, hs, -⟩ | hascii
    · exact ⟨s, (mem_tokens_str v s).mp ht, hs⟩
    · omega
  · rintro ⟨s, hs, hmem⟩
    have hself : escapeChar c = [c] := by
      rcases escapeChar_cases c with ⟨hself, -⟩ | ⟨hascii, -⟩
      · exact hself
      · omega
    have hescaped : c ∈ s.toList.flatMap escapeChar :=
      List.mem_flatMap.mpr ⟨c, hmem, by rw [hself]; exact List.mem_singleton_self c⟩
    refine List.mem_flatMap.mpr ⟨.str s, (mem_tokens_str v s).mpr hs, ?_⟩
    exact List.mem_cons_of_mem _ (List.mem_append_left _ hescaped)

end

end Orditect.Support.JsonText
