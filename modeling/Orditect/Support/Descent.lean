import Mathlib.Data.Set.Insert
/-!
# Settling everything below a node

A bounded depth-first descent that settles the nodes it meets and does not go below a node
that was settled before.  It leaves nothing open below its start if whatever was settled
before had nothing open right below it, and the bound covers the height; a node whose only
parent was settled before is left as it was.
-/

namespace Orditect.Support.Descent

variable {α σ : Type}

/-- Below `a`, visit each child, and go on below those for which the visit says so. -/
def descend (children : α → σ → List α × σ) (visit : α → σ → σ × Bool) : Nat → α → σ → σ
  | 0, _, s => s
  | n + 1, a, s =>
    let (bs, s) := children a s
    bs.foldl (fun s b =>
      let (s, go) := visit b s
      if go then descend children visit n b s else s) s

/-- A path of `n` edges. -/
inductive Descends (edge : α → α → Prop) : Nat → α → α → Prop
  | refl (a : α) : Descends edge 0 a a
  | head {n : Nat} {a b c : α} (hab : edge a b) (hbc : Descends edge n b c) :
      Descends edge (n + 1) a c

variable {a b c : α} {n : Nat}

theorem Descends.snoc {edge : α → α → Prop} (h : Descends edge n a b) (hbc : edge b c) :
    Descends edge (n + 1) a c := by
  induction h with
  | refl a => exact .head hbc (.refl c)
  | head hab _ ih => exact .head hab (ih hbc)

theorem Descends.trans {edge : α → α → Prop} {m : Nat} (h : Descends edge m a b)
    (h' : Descends edge n b c) : Descends edge (n + m) a c := by
  induction h with
  | refl a => exact h'
  | head hab _ ih => exact .head hab (ih h')

/-- Where the paths from a node are bounded, none of them comes back to it. -/
theorem Descends.ne_of_bounded {edge : α → α → Prop} {bound : Nat}
    (hbound : ∀ k c, Descends edge k a c → k ≤ bound) (h : Descends edge (n + 1) a b) : b ≠ a := by
  rintro rfl
  have hround : ∀ k, Descends edge (k * (n + 1)) b b := by
    intro k
    induction k with
    | zero =>
      rw [Nat.zero_mul]
      exact .refl b
    | succ k ih =>
      rw [Nat.succ_mul, Nat.add_comm]
      exact ih.trans h
  have hle := hbound _ b (hround (bound + 1))
  have hlt : bound + 1 ≤ (bound + 1) * (n + 1) := Nat.le_mul_of_pos_right _ (Nat.succ_pos n)
  omega

/-- What is settled, outside `busy`, has only settled nodes right below it. -/
def Closed (edge : α → α → Prop) (settled : σ → α → Prop) (domain : α → Prop) (busy : Set α)
    (s : σ) : Prop :=
  ∀ a, domain a → a ∉ busy → settled s a → ∀ b, edge a b → settled s b

/-- What a descent needs to know of the operations: `I` holds all along, the children are
those of `edge`, nothing gets unsettled, and a visit settles its node and only that, and says
to go on exactly if the node was open. -/
structure Settling (children : α → σ → List α × σ) (visit : α → σ → σ × Bool)
    (edge : α → α → Prop) (settled : σ → α → Prop) (domain : α → Prop) (I : σ → Prop) : Prop where
  below : ∀ {a b}, domain a → edge a b → domain b
  children_mem : ∀ {a b s}, I s → (b ∈ (children a s).1 ↔ edge a b)
  children_inv : ∀ {a s}, I s → I (children a s).2
  children_settled : ∀ {a c s}, I s → (settled (children a s).2 c ↔ settled s c)
  visit_inv : ∀ {b s}, I s → domain b → I (visit b s).1
  visit_settles : ∀ {b s}, I s → domain b → settled (visit b s).1 b
  visit_keeps : ∀ {b c s}, I s → domain b → settled s c → settled (visit b s).1 c
  visit_only : ∀ {b c s}, I s → domain b → c ≠ b → settled (visit b s).1 c → settled s c
  visit_go : ∀ {b s}, I s → domain b → ((visit b s).2 = true ↔ ¬settled s b)

section

variable {children : α → σ → List α × σ} {visit : α → σ → σ × Bool} {edge : α → α → Prop}
  {settled : σ → α → Prop} {domain : α → Prop} {I : σ → Prop}

/-- From `s` to `s'` nothing gets unsettled, and `s'` is closed outside `busy`. -/
structure Grows (edge : α → α → Prop) (settled : σ → α → Prop) (domain : α → Prop) (I : σ → Prop)
    (busy : Set α) (s s' : σ) : Prop where
  inv : I s'
  keeps : ∀ c, settled s c → settled s' c
  closed : Closed edge settled domain busy s'

variable {busy : Set α} {s : σ}

theorem Grows.trans {s' s'' : σ} (h : Grows edge settled domain I busy s s')
    (h' : Grows edge settled domain I busy s' s'') :
    Grows edge settled domain I busy s s'' :=
  ⟨h'.inv, fun c hc => h'.keeps c (h.keeps c hc), h'.closed⟩

section

variable (hops : Settling children visit edge settled domain I)
include hops

/-- One child: it is settled afterwards, and whatever the descent below it has to settle is. -/
theorem visit_closed
    (ih : ∀ {a : α} {s : σ} {busy : Set α}, I s → domain a →
      (∀ c, ¬Descends edge (n + 1) a c) → (∀ x ∈ insert a busy, settled s x) →
      Closed edge settled domain (insert a busy) s →
      Grows edge settled domain I busy s (descend children visit n a s)) (hI : I s)
    (hb : domain b) (hheight : ∀ c, ¬Descends edge (n + 1) b c) (hbusy : ∀ x ∈ busy, settled s x)
    (hclosed : Closed edge settled domain busy s) :
    Grows edge settled domain I busy s
        (if (visit b s).2 then descend children visit n b (visit b s).1 else (visit b s).1) ∧
      settled (if (visit b s).2 then descend children visit n b (visit b s).1
        else (visit b s).1) b := by
  have hkeeps : ∀ c, settled s c → settled (visit b s).1 c := fun c => hops.visit_keeps hI hb
  have hsettled := hops.visit_settles hI hb
  -- what was closed without `b` still is
  have hclosed' : Closed edge settled domain (insert b busy) (visit b s).1 := by
    intro x hx hnot hxs y hy
    rw [Set.mem_insert_iff, not_or] at hnot
    exact hkeeps y (hclosed x hx hnot.2 (hops.visit_only hI hb hnot.1 hxs) y hy)
  cases hgo : (visit b s).2 with
  | true =>
    have hbusy' : ∀ x ∈ insert b busy, settled (visit b s).1 x := by
      intro x hx
      rcases Set.mem_insert_iff.mp hx with rfl | hx
      · exact hsettled
      · exact hkeeps x (hbusy x hx)
    have hgrows := ih (hops.visit_inv hI hb) hb hheight hbusy' hclosed'
    exact ⟨⟨hgrows.inv, fun c hc => hgrows.keeps c (hkeeps c hc), hgrows.closed⟩,
      hgrows.keeps b hsettled⟩
  | false =>
    have hbefore : settled s b := by
      by_contra hopen
      simp [(hops.visit_go hI hb).mpr hopen] at hgo
    refine ⟨⟨hops.visit_inv hI hb, hkeeps, ?_⟩, hsettled⟩
    intro x hx hnot hxs y hy
    by_cases hxb : x = b
    · subst hxb
      exact hkeeps y (hclosed x hx hnot hbefore y hy)
    · exact hclosed' x hx (by simp [hxb, hnot]) hxs y hy

/-- What a descent leaves below its start is settled. -/
theorem descend_closed (n : Nat) (hI : I s) (ha : domain a)
    (hheight : ∀ c, ¬Descends edge (n + 1) a c) (hbusy : ∀ x ∈ insert a busy, settled s x)
    (hclosed : Closed edge settled domain (insert a busy) s) :
    Grows edge settled domain I busy s (descend children visit n a s) := by
  induction n generalizing a s busy with
  | zero =>
    refine ⟨hI, fun c hc => hc, fun x hx hnot hsettled b hb => ?_⟩
    by_cases hxa : x = a
    · subst hxa
      exact absurd (.head hb (.refl b)) (hheight b)
    · exact hclosed x hx (by simp [hxa, hnot]) hsettled b hb
  | succ n ih =>
    -- all children are settled, and nothing but `a` and what is above it is still busy
    have hchildren : ∀ (bs : List α) (t : σ), (∀ b ∈ bs, edge a b) → I t →
        (∀ x ∈ insert a busy, settled t x) → Closed edge settled domain (insert a busy) t →
        Grows edge settled domain I (insert a busy) t (bs.foldl (fun s b =>
          if (visit b s).2 then descend children visit n b (visit b s).1 else (visit b s).1) t) ∧
        ∀ b ∈ bs, settled (bs.foldl (fun s b =>
          if (visit b s).2 then descend children visit n b (visit b s).1 else (visit b s).1) t)
          b := by
      intro bs
      induction bs with
      | nil => exact fun t _ hI _ hclosed => ⟨⟨hI, fun c hc => hc, hclosed⟩, by simp⟩
      | cons b bs ihbs =>
        intro t hedges hI hbusy hclosed
        have hab : edge a b := hedges b List.mem_cons_self
        obtain ⟨hgrows, hsettled⟩ := visit_closed hops ih hI (hops.below ha hab)
          (fun c hc => hheight c (.head hab hc)) hbusy hclosed
        obtain ⟨hrest, hall⟩ := ihbs _ (fun c hc => hedges c (List.mem_cons_of_mem _ hc))
          hgrows.inv (fun x hx => hgrows.keeps x (hbusy x hx)) hgrows.closed
        refine ⟨hgrows.trans hrest, fun c hc => ?_⟩
        rcases List.mem_cons.mp hc with rfl | hc
        · exact hrest.keeps c hsettled
        · exact hall c hc
    obtain ⟨hgrows, hall⟩ := hchildren (children a s).1 (children a s).2
      (fun b hb => (hops.children_mem hI).mp hb) (hops.children_inv hI)
      (fun x hx => (hops.children_settled hI).mpr (hbusy x hx))
      (fun x hx hnot hxs y hy => (hops.children_settled hI).mpr
        (hclosed x hx hnot ((hops.children_settled hI).mp hxs) y hy))
    refine ⟨hgrows.inv, fun c hc => hgrows.keeps c ((hops.children_settled hI).mpr hc), ?_⟩
    intro x hx hnot hxs b hb
    by_cases hxa : x = a
    · subst hxa
      exact hall b ((hops.children_mem hI).mpr hb)
    · exact hgrows.closed x hx (by simp [hxa, hnot]) hxs b hb

/-- From a settled start, with the bound covering the height and nothing open right below
what was settled before, everything below is settled in the end. -/
theorem descend_complete (hI : I s) (ha : domain a) (hheight : ∀ c, ¬Descends edge (n + 1) a c)
    (hsettled : settled s a)
    (hclosed : ∀ x, domain x → x ≠ a → settled s x → ∀ b, edge x b → settled s b) {k : Nat}
    (hc : Descends edge k a c) : settled (descend children visit n a s) c := by
  have hgrows : Grows edge settled domain I ∅ s (descend children visit n a s) :=
    descend_closed hops n hI ha hheight (by simpa using hsettled)
      (fun x hx hnot => hclosed x hx (by simpa using hnot))
  have hstart : settled (descend children visit n a s) a := hgrows.keeps a hsettled
  clear hheight hsettled hclosed
  -- from here on the outcome is a fixed state closed under `edge`
  generalize descend children visit n a s = t at hgrows hstart ⊢
  induction hc with
  | refl a => exact hstart
  | head hab hbc ih =>
    exact ih (hops.below ha hab) (hgrows.closed _ ha (by simp) hstart _ hab)

/-- A descent from elsewhere does not reach a node whose only parent was settled before. -/
theorem descend_leaves (n : Nat) {d : α} (hparent : ∀ x, domain x → edge x c → x = d) (hI : I s)
    (ha : domain a) (had : a ≠ d) (hd : settled s d) (hc : ¬settled s c) :
    I (descend children visit n a s) ∧ settled (descend children visit n a s) d ∧
      ¬settled (descend children visit n a s) c := by
  induction n generalizing a s with
  | zero => exact ⟨hI, hd, hc⟩
  | succ n ih =>
    apply List.foldlRecOn (motive := fun t => I t ∧ settled t d ∧ ¬settled t c)
    · exact ⟨hops.children_inv hI, (hops.children_settled hI).mpr hd,
        fun h => hc ((hops.children_settled hI).mp h)⟩
    · rintro t ⟨hIt, hdt, hct⟩ b hb
      have hab : edge a b := (hops.children_mem hI).mp hb
      have hbdom : domain b := hops.below ha hab
      have hcb : c ≠ b := by
        rintro rfl
        exact had (hparent a ha hab)
      have hvisit : I (visit b t).1 ∧ settled (visit b t).1 d ∧ ¬settled (visit b t).1 c :=
        ⟨hops.visit_inv hIt hbdom, hops.visit_keeps hIt hbdom hdt,
          fun h => hct (hops.visit_only hIt hbdom hcb h)⟩
      dsimp only
      split
      · -- the visit goes on, so `b` was open, and is not `d`
        have hbd : b ≠ d := by
          rintro rfl
          exact (hops.visit_go hIt hbdom).mp ‹_› hdt
        exact ih hvisit.1 hbdom hbd hvisit.2.1 hvisit.2.2
      · exact hvisit

end

end

end Orditect.Support.Descent
