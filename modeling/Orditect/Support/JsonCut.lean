import Orditect.Support.JsonRoundTrip
/-!
# A text that is cut inside of a string

A reader that starts inside of a string takes for strings what stands between the strings of
the whole text: punctuation, numbers and words.  Whatever it makes of a part of the text, no
field in it has a name with a letter that occurs in strings only.
-/

namespace Orditect.Support.JsonText

open Support.LuaJson

/-- A character that stands in strings only. -/
structure OnlyInside (x : Char) : Prop where
  not_quote : x ≠ '"'
  not_punctuation : punctuation x = none
  not_blank : isBlank x = false
  not_bare : isBare x = false

def Without (x : Char) (ts : List Token) : Prop := ∀ s, .str s ∈ ts → x ∉ s.toList

/-- A reader of the whole text beside one that started inside of a string. -/
def Crossed (x : Char) : Lexer → Lexer → Prop
  | .failed, _ => True
  | _, .failed => True
  | .inside _ _, .outside done _ => Without x done
  | .outside _ _, .inside done text => Without x done ∧ x ∉ text
  | _, _ => False

@[simp] theorem Lexer.read_failed (text : List Char) : Lexer.failed.read text = .failed := by
  induction text with
  | nil => rfl
  | cons c text ih => exact ih

variable {done : List Token} {x c : Char} {t : Lexer} {text : List Char}

theorem without_flush (h : Without x done) (word : List Char) :
    Without x (flush done word) := by
  unfold flush
  split
  · exact h
  · intro s hs
    exact h s (by simpa using hs)

theorem without_concat (h : Without x done) {t : Token} (ht : ∀ s, t = .str s → x ∉ s.toList) :
    Without x (done ++ [t]) := by
  intro s hs
  rcases List.mem_append.mp hs with hs | hs
  · exact h s hs
  · exact ht s (List.mem_singleton.mp hs).symm

theorem crossed_failed (x : Char) (t : Lexer) : Crossed x t .failed := by
  cases t <;> exact trivial

/-- Outside of strings, what is neither a quote nor one of the few characters that may stand
there is an error. -/
theorem step_outside_cases (hc : c ≠ '"') (done : List Token) (word : List Char) :
    (Lexer.outside done word).step c = .failed ∨
      ((punctuation c).isSome = true ∨ isBlank c = true ∨ isBare c = true) ∧
        ∃ d w, (Lexer.outside done word).step c = .outside d w ∧
          ∀ x, Without x done → Without x d := by
  rw [Lexer.step, if_neg hc]
  cases hp : punctuation c with
  | some t =>
    refine Or.inr ⟨Or.inl rfl, _, _, rfl, fun x h => without_concat (without_flush h word) ?_⟩
    rintro s rfl
    exact absurd hp (by unfold punctuation; split_ifs <;> simp)
  | none =>
    by_cases hblank : isBlank c = true
    · exact Or.inr ⟨Or.inr (Or.inl hblank), _, _, by rw [if_pos hblank],
        fun x h => without_flush h word⟩
    · by_cases hbare : isBare c = true
      · exact Or.inr ⟨Or.inr (Or.inr hbare), _, _, by rw [if_neg hblank, if_pos hbare],
          fun x h => h⟩
      · exact Or.inl (by rw [if_neg hblank, if_neg hbare])

theorem Crossed.step (hx : OnlyInside x) {p : Lexer} (h : Crossed x t p) (c : Char) :
    Crossed x (t.step c) (p.step c) := by
  have hescape : ¬((punctuation '\\').isSome = true ∨ isBlank '\\' = true ∨
      isBare '\\' = true) := by decide
  cases p with
  | failed => exact crossed_failed x _
  | outside done word =>
    cases t with
    | failed => trivial
    | inside d text =>
      by_cases hq : c = '"'
      · subst hq
        exact ⟨without_flush h word, by simp⟩
      · rcases step_outside_cases hq done word with hfail | ⟨hmay, d', w', hstep, hwithout⟩
        · rw [hfail]
          exact crossed_failed x _
        · have hesc : c ≠ '\\' := by
            rintro rfl
            exact hescape hmay
          rw [hstep, Lexer.step, if_neg hq, if_neg hesc]
          split
          · trivial
          · exact hwithout x h
    | _ => exact h.elim
  | inside done text =>
    cases t with
    | failed => trivial
    | outside d word =>
      by_cases hq : c = '"'
      · subst hq
        refine without_concat h.1 ?_
        intro s hs
        rw [← Token.str.inj hs, String.toList_ofList]
        exact h.2
      · rcases step_outside_cases hq d word with hfail | ⟨hmay, d', w', hstep, -⟩
        · rw [hfail]
          trivial
        · have hesc : c ≠ '\\' := by
            rintro rfl
            exact hescape hmay
          have hne : x ≠ c := by
            rintro rfl
            simp [hx.not_punctuation, hx.not_blank, hx.not_bare] at hmay
          rw [hstep, Lexer.step, if_neg hq, if_neg hesc]
          split
          · exact crossed_failed x _
          · exact ⟨h.1, by simp [h.2, hne]⟩
    | _ => exact h.elim
  | escape done text | code done text left value =>
    cases t with
    | failed => trivial
    | _ => exact h.elim

theorem Crossed.read (hx : OnlyInside x) {p : Lexer} (h : Crossed x t p) (text : List Char) :
    Crossed x (t.read text) (p.read text) := by
  induction text generalizing t p with
  | nil => exact h
  | cons c text ih => exact ih (h.step hx c)

/-- The tokens that are read from within a string have no string with the character. -/
theorem without_of_lex (hx : OnlyInside x) {part : List Char} {ts : List Token}
    (hgo : (Lexer.inside done text).read part ≠ .failed) (h : lex part = some ts) :
    Without x ts := by
  have hstart : Crossed x (.inside done text) (.outside [] []) := by
    intro s hs
    simp at hs
  have hend := hstart.read hx part
  rw [lex] at h
  generalize (Lexer.inside done text).read part = t at hend hgo
  generalize (Lexer.outside [] []).read part = p at hend h
  cases p with
  | outside d w =>
    cases t with
    | inside d' text' =>
      obtain rfl := Option.some.inj h
      exact without_flush hend w
    | failed => exact absurd rfl hgo
    | _ => exact hend.elim
  | _ => simp [Lexer.finish] at h

/-! ## Where a character beyond ASCII may stand -/

def Lexer.isInside : Lexer → Bool
  | .inside _ _ => true
  | _ => false

theorem isInside_iff : t.isInside = true ↔ ∃ done text, t = .inside done text := by
  cases t <;> simp [Lexer.isInside]

section

variable (h : c = ' ' ∨ 128 ≤ c.toNat)
include h

theorem hexValue_eq_none : hexValue c = none := by
  rcases h with rfl | h
  · decide
  · have hgt : ∀ d : Char, d.toNat < 128 → ¬c ≤ d := by
      intro d hd hle
      have : c.toNat ≤ d.toNat := hle
      omega
    simp [hexValue, hgt '9' (by decide), hgt 'f' (by decide), hgt 'F' (by decide)]

theorem ne_of_beyond {d : Char} (hd : d.toNat < 128) (hspace : d ≠ ' ') : c ≠ d := by
  rintro rfl
  rcases h with h | h
  · exact hspace h
  · omega

theorem unescape_eq_none :
    c ≠ 'u' ∧ unescape c = none := by
  have hne : ∀ d : Char, d.toNat < 128 → d ≠ ' ' → c ≠ d := fun d => ne_of_beyond h
  refine ⟨hne 'u' (by decide) (by decide), ?_⟩
  simp [unescape, hne '"' (by decide) (by decide), hne '\\' (by decide) (by decide),
    hne '/' (by decide) (by decide), hne 'n' (by decide) (by decide),
    hne 'r' (by decide) (by decide), hne 't' (by decide) (by decide),
    hne 'b' (by decide) (by decide), hne 'f' (by decide) (by decide)]

/-- A blank or a character beyond ASCII does not lead into a string. -/
theorem isInside_of_step (hstep : (t.step c).isInside = true) :
    t.isInside = true := by
  have hquote : c ≠ '"' := by
    rintro rfl
    revert h
    decide
  cases t with
  | inside done text => rfl
  | outside done word =>
    rcases step_outside_cases hquote done word with hfail | ⟨-, d, w, hout, -⟩
    · rw [hfail] at hstep
      exact hstep
    · rw [hout] at hstep
      exact hstep
  | escape done text =>
    obtain ⟨hu, hnone⟩ := unescape_eq_none h
    simp [Lexer.step, hu, hnone, Lexer.isInside] at hstep
  | code done text left value => simp [Lexer.step, hexValue_eq_none h, Lexer.isInside] at hstep
  | failed => exact hstep

end

/-- Nor does it stand outside of a string without an error, if it is beyond ASCII. -/
theorem isInside_step (hc : 128 ≤ c.toNat) (h : t.step c ≠ .failed) :
    (t.step c).isInside = true := by
  have hne : ∀ d : Char, d.toNat < 128 → c ≠ d := by
    rintro d hd rfl
    omega
  cases t with
  | inside done text =>
    rw [Lexer.step, if_neg (hne '"' (by decide)), if_neg (hne '\\' (by decide)),
      if_neg (show ¬c.toNat < 32 by omega)]
    rfl
  | outside done word =>
    rcases step_outside_cases (hne '"' (by decide)) done word with hfail | ⟨hmay, -⟩
    · exact absurd hfail h
    · have hbare : isBare c = false := by
        rw [← Bool.not_eq_true]
        intro hb
        have := toNat_of_isBare hb
        omega
      simp [hbare, isBlank, punctuation, hne '{' (by decide), hne '}' (by decide),
        hne '[' (by decide), hne ']' (by decide), hne ':' (by decide), hne ',' (by decide),
        hne ' ' (by decide), hne '\t' (by decide), hne '\n' (by decide),
        hne '\r' (by decide)] at hmay
  | escape done text =>
    obtain ⟨hu, hnone⟩ := unescape_eq_none (Or.inr hc)
    simp [Lexer.step, hu, hnone] at h
  | code done text left value => simp [Lexer.step, hexValue_eq_none (Or.inr hc)] at h
  | failed => exact absurd rfl h

/-- Blanks and characters beyond ASCII keep a reader inside of a string. -/
theorem isInside_read (h : ∀ c ∈ text, c = ' ' ∨ 128 ≤ c.toNat) (ht : t.isInside = true) :
    (t.read text).isInside = true := by
  induction text generalizing t with
  | nil => exact ht
  | cons c text ih =>
    obtain ⟨done, before, rfl⟩ := isInside_iff.mp ht
    have hc := h c List.mem_cons_self
    have hle : ¬c.toNat < 32 := by
      rcases hc with rfl | hc
      · decide
      · omega
    refine ih (fun d hd => h d (List.mem_cons_of_mem _ hd)) ?_
    rw [Lexer.step, if_neg (ne_of_beyond hc (by decide) (by decide)),
      if_neg (ne_of_beyond hc (by decide) (by decide)), if_neg hle]
    rfl

theorem isInside_of_read (h : ∀ c ∈ text, c = ' ' ∨ 128 ≤ c.toNat)
    (ht : (t.read text).isInside = true) : t.isInside = true := by
  induction text generalizing t with
  | nil => exact ht
  | cons c text ih =>
    have hrest := ih (fun d hd => h d (List.mem_cons_of_mem _ hd)) ht
    exact isInside_of_step (h c List.mem_cons_self) hrest

/-! ## The fields of what is parsed -/

section

variable {ν : Type} [NumberText ν]

/-- The parser goes from left to right, and takes the names of fields from the tokens. -/
theorem parse_suffix (fuel : Nat) :
    (∀ ts (v : Json ν) rest, parseValue fuel ts = some (v, rest) → rest <:+ ts) ∧
    (∀ ts (vs : List (Json ν)) rest, parseElems fuel ts = some (vs, rest) → rest <:+ ts) ∧
    (∀ ts (fs : List (String × Json ν)) rest, parseFields fuel ts = some (fs, rest) →
      rest <:+ ts ∧ ∀ f ∈ fs, .str f.1 ∈ ts) := by
  induction fuel with
  | zero => simp [parseValue, parseElems, parseFields]
  | succ fuel ih =>
    obtain ⟨hvalue, helems, hfields⟩ := ih
    refine ⟨?_, ?_, ?_⟩
    · intro ts v rest h
      rw [parseValue.eq_def] at h
      split at h
      next => exact (Prod.mk.inj (Option.some.inj h)).2 ▸ List.suffix_cons _ _
      next =>
        obtain ⟨w, -, hw⟩ := Option.map_eq_some_iff.mp h
        exact (Prod.mk.inj hw).2 ▸ List.suffix_cons _ _
      next =>
        obtain ⟨-, rfl⟩ := Prod.mk.inj (Option.some.inj h)
        exact (List.suffix_cons _ _).trans (List.suffix_cons _ _)
      next heq =>
        obtain rfl := Nat.succ.inj heq
        obtain ⟨⟨vs, r⟩, hp, hr⟩ := Option.map_eq_some_iff.mp h
        exact (Prod.mk.inj hr).2 ▸ (helems _ _ _ hp).trans (List.suffix_cons _ _)
      next =>
        obtain ⟨-, rfl⟩ := Prod.mk.inj (Option.some.inj h)
        exact (List.suffix_cons _ _).trans (List.suffix_cons _ _)
      next heq =>
        obtain rfl := Nat.succ.inj heq
        obtain ⟨⟨fs, r⟩, hp, hr⟩ := Option.map_eq_some_iff.mp h
        exact (Prod.mk.inj hr).2 ▸ (hfields _ _ _ hp).1.trans (List.suffix_cons _ _)
      next => simp at h
    · intro ts vs rest h
      rw [parseElems] at h
      split at h
      next v r hv =>
        obtain ⟨-, rfl⟩ := Prod.mk.inj (Option.some.inj h)
        exact (List.suffix_cons _ _).trans (hvalue _ _ _ hv)
      next v r hv =>
        obtain ⟨⟨ws, r'⟩, hp, hr⟩ := Option.map_eq_some_iff.mp h
        obtain ⟨-, rfl⟩ := Prod.mk.inj hr
        exact ((helems _ _ _ hp).trans (List.suffix_cons _ _)).trans (hvalue _ _ _ hv)
      next => simp at h
    · intro ts fs rest h
      rw [parseFields.eq_def] at h
      split at h
      next k ts heq =>
        obtain rfl := Nat.succ.inj heq
        have htail : ts <:+ .str k :: .colon :: ts :=
          (List.suffix_cons _ _).trans (List.suffix_cons _ _)
        split at h
        next v r hv =>
          obtain ⟨rfl, rfl⟩ := Prod.mk.inj (Option.some.inj h)
          exact ⟨((List.suffix_cons _ _).trans (hvalue _ _ _ hv)).trans htail, by simp⟩
        next v r hv =>
          obtain ⟨⟨gs, r'⟩, hp, hr⟩ := Option.map_eq_some_iff.mp h
          obtain ⟨rfl, rfl⟩ := Prod.mk.inj hr
          have hmore : r <:+ .str k :: .colon :: ts :=
            ((List.suffix_cons _ _).trans (hvalue _ _ _ hv)).trans htail
          refine ⟨(hfields _ _ _ hp).1.trans hmore, List.forall_mem_cons.mpr ⟨by simp, ?_⟩⟩
          exact fun g hg => hmore.subset ((hfields _ _ _ hp).2 g hg)
        next => simp at h
      next => simp at h

theorem mem_setItem {α : Type} {d : List (String × α)} {f g : String × α} (h : g ∈ setItem d f) :
    g ∈ d ∨ g = f := by
  unfold setItem at h
  split at h
  · obtain ⟨g', hg', rfl⟩ := List.mem_map.mp h
    split
    · exact Or.inr rfl
    · exact Or.inl hg'
  · simpa using h

theorem mem_of_mem_dict {α : Type} {pairs : List (String × α)} {g : String × α}
    (h : g ∈ dict pairs) : g ∈ pairs := by
  have hfold : ∀ acc : List (String × α), g ∈ pairs.foldl setItem acc → g ∈ acc ∨ g ∈ pairs := by
    clear h
    induction pairs with
    | nil => exact fun acc hg => Or.inl hg
    | cons f pairs ih =>
      intro acc hg
      rcases ih _ hg with hg | hg
      · rcases mem_setItem hg with hg | rfl
        · exact Or.inl hg
        · exact Or.inr List.mem_cons_self
      · exact Or.inr (List.mem_cons_of_mem _ hg)
  simpa using hfold [] h

theorem readWord_ne_obj (word : List Char) (fields : List (String × Json ν)) :
    readWord word ≠ some (.obj fields) := by
  unfold readWord
  split_ifs
  · simp
  · simp
  · simp
  · simp

variable {fields : List (String × Json ν)}

theorem mem_of_parseValue {fuel : Nat} {ts rest : List Token}
    (h : parseValue fuel ts = some (.obj fields, rest)) : ∀ f ∈ fields, .str f.1 ∈ ts := by
  rw [parseValue.eq_def] at h
  split at h
  next => simp at h
  next =>
    obtain ⟨v, hv, heq⟩ := Option.map_eq_some_iff.mp h
    exact absurd ((Prod.mk.inj heq).1 ▸ hv) (readWord_ne_obj _ _)
  next => simp at h
  next => simp at h
  next =>
    obtain ⟨hnil, -⟩ := Prod.mk.inj (Option.some.inj h)
    simp [← Json.obj.inj hnil]
  next =>
    obtain ⟨⟨fs, r⟩, hp, heq⟩ := Option.map_eq_some_iff.mp h
    obtain ⟨hobj, -⟩ := Prod.mk.inj heq
    obtain rfl := Json.obj.inj hobj
    intro f hf
    exact List.mem_cons_of_mem _ (((parse_suffix _).2.2 _ _ _ hp).2 f (mem_of_mem_dict hf))
  next => simp at h

/-- The name of a field of a decoded object is a string of the text. -/
theorem mem_tokens_of_loads (h : loads text = some (.obj fields)) :
    ∃ ts, lex text = some ts ∧ ∀ f ∈ fields, .str f.1 ∈ ts := by
  unfold loads at h
  split at h
  next => simp at h
  next ts hlex =>
    split at h
    next v hv =>
      obtain rfl := Option.some.inj h
      exact ⟨ts, hlex, mem_of_parseValue hv⟩
    next => simp at h

/-- No part of a text that starts inside of a string is an object with a field of a name that
has the character. -/
theorem not_mem_of_loads (hx : OnlyInside x) {part : List Char}
    (hgo : (Lexer.inside done text).read part ≠ .failed) (h : loads part = some (.obj fields)) :
    ∀ f ∈ fields, x ∉ f.1.toList := by
  intro f hf
  obtain ⟨ts, hlex, hmem⟩ := mem_tokens_of_loads h
  exact without_of_lex hx hgo hlex f.1 (hmem f hf)

end

end Orditect.Support.JsonText
