import Orditect.TaskStore.Proofs.Terminal
/-!
# The status index against the records

A member of the index of a status word carries the expiry instant of its record as
score.  Completeness is unconditional: the index key lives at least as long as each
record it lists, up to the half second a rounded TTL may hide.  Soundness rests on every
script taking the task out of the index of the status it had; `task_init.lua` does not
do that when it overwrites a live record.
-/

namespace Orditect.TaskStore.Proofs

open Support.Expiring Support.SortedSet Support.LuaJson Support.Transition

variable {ν : Type}

def Labelled (s : Store ν) (t status : String) (e : Nat) : Prop :=
  ∃ record : Fields ν, s.records t = some ⟨record, some e⟩ ∧ record "status" = some (.str status)

def Listed (c : Cell (ZSet String)) (t : String) (e : Nat) : Prop :=
  find t c = some e ∧ ∃ d, c.deadline = some d ∧ e ≤ d + 500

/-- Every record has a string status and a live expiry, and every record with a status
is listed, or about to expire. -/
structure Indexed (s : Store ν) : Prop where
  labelled : ∀ t, s.records t ≠ none → ∃ status e, Labelled s t status e ∧ s.now < e
  listed : ∀ t status e, Labelled s t status e → status ≠ "" →
    e ≤ s.now + 500 ∨ Listed (s.statusIndex status) t e
  blank : ∀ t, find t (s.statusIndex "") = none

def NoStray (s : Store ν) : Prop :=
  ∀ t status score, find t (s.statusIndex status) = some score → s.now < score →
    Labelled s t status score

variable {e : Nat} {s : Store ν} {status t : String}

theorem Labelled.unique {status' : String} {e' : Nat} (h : Labelled s t status e)
    (h' : Labelled s t status' e') : status = status' ∧ e = e' := by
  obtain ⟨record, hrec, hstatus⟩ := h
  obtain ⟨record', hrec', hstatus'⟩ := h'
  have heq : (⟨record, some e⟩ : Entry (Fields ν)) = ⟨record', some e'⟩ :=
    Option.some.inj (hrec.symm.trans hrec')
  obtain ⟨rfl, he⟩ := Entry.mk.inj heq
  have hstr : (Json.str status : Json ν) = .str status' :=
    Option.some.inj (hstatus.symm.trans hstatus')
  exact ⟨Json.str.inj hstr, Option.some.inj he⟩

theorem status_of_get (h : Indexed s) {current : Fields ν}
    (hcur : (s.records t).get = some current) :
    ∃ old e, Labelled s t old e ∧ current "status" = some (.str old) := by
  have hlive : s.records t ≠ none := by
    intro hnone
    simp [hnone] at hcur
  obtain ⟨old, e, ⟨record, hrec, hstatus⟩, -⟩ := h.labelled t hlive
  rw [hrec] at hcur
  obtain rfl : record = current := Option.some.inj hcur
  exact ⟨old, e, ⟨record, hrec, hstatus⟩, hstatus⟩

theorem labelled_of_field (h : Indexed s) (hstatus : field s t "status" = some (.str status)) :
    ∃ e, Labelled s t status e ∧ s.now < e := by
  have hlive : s.records t ≠ none := by
    intro hnone
    simp [field, getTask, hnone] at hstatus
  obtain ⟨other, e, hlabel, hlt⟩ := h.labelled t hlive
  obtain ⟨record, hrec, hother⟩ := hlabel
  have heq : some (Json.str other : Json ν) = some (.str status) := by
    rw [← hother, ← hstatus]
    simp [field, getTask, hrec]
  refine ⟨e, ⟨record, hrec, ?_⟩, hlt⟩
  rw [hother, heq]

theorem Labelled.field (h : Labelled s t status e) :
    field s t "status" = some (.str status) := by
  obtain ⟨record, hrec, hstatus⟩ := h
  simpa [TaskStore.field, getTask, hrec] using hstatus

/-! ## One entry of one index -/

variable {nowMs : Nat} {word : String} {cfg : Config}

section Index

variable {c : Cell (ZSet String)} {x : String} {now n : Nat}

theorem find_lease (hn : 0 < n) :
    find x (lease now n t c) = if x = t then some (now + n * 1000) else find x c := by
  unfold lease
  rw [find_congr (get_bump hn _), find_put]

theorem listed_lease_self (hn : 0 < n) : Listed (lease now n t c) t (now + n * 1000) := by
  constructor
  · rw [find_lease hn, if_pos rfl]
  · exact le_deadline_bump hn (by simp)

theorem listed_lease (hn : 0 < n) (hx : x ≠ t) (h : Listed c x e) :
    Listed (lease now n t c) x e := by
  obtain ⟨hfind, d, hd, hle⟩ := h
  constructor
  · rw [find_lease hn, if_neg hx]
    exact hfind
  · have hbump : ∃ d', (lease now n t c).deadline = some d' ∧ d ≤ d' :=
      deadline_le_bump hn ((deadline_put t (now + n * 1000) c).trans hd)
    obtain ⟨d', hd', hdd⟩ := hbump
    exact ⟨d', hd', by omega⟩

theorem listed_del (hx : x ≠ t) (h : Listed c x e) : Listed (del t c) x e := by
  obtain ⟨hfind, d, hd, hle⟩ := h
  have hstill : find x (del t c) = some e := by
    rw [find_del, if_neg hx]
    exact hfind
  exact ⟨hstill, d, (deadline_store_of_find hstill).trans hd, hle⟩

theorem listed_cleanUp (hlt : nowMs < e) (h : Listed c x e) :
    Listed (remRangeByScore nowMs c) x e := by
  obtain ⟨hfind, d, hd, hle⟩ := h
  have hstill : find x (remRangeByScore nowMs c) = some e :=
    find_remRangeByScore.mpr ⟨hfind, by omega⟩
  exact ⟨hstill, d, (deadline_store_of_find hstill).trans hd, hle⟩

end Index

/-! ## Rewriting a record -/

/-- The record of `t` was rewritten with `status` for `n` seconds: it is leased in the
index of its new status, and from the others at most taken out. -/
structure Relabels (s s' : Store ν) (t status : String) (n : Nat) : Prop where
  pos : 0 < n
  now_eq : s'.now = s.now
  record : ∃ f : Fields ν, f "status" = some (.str status) ∧
    s'.records = Function.update s.records t (Cell.setEx s.now n f)
  index : ∀ word, ∃ c, (c = s.statusIndex word ∨ c = del t (s.statusIndex word)) ∧
    s'.statusIndex word = if word = status ∧ status ≠ "" then lease s.now n t c else c

def Cleared (s s' : Store ν) (t status : String) : Prop :=
  ∀ old e, Labelled s t old e → old ≠ status → old ≠ "" → find t (s'.statusIndex old) = none

section Relabels

variable {s' : Store ν} {n : Nat}

theorem Relabels.labelled_self (h : Relabels s s' t status n) :
    Labelled s' t status (s.now + n * 1000) := by
  obtain ⟨f, hf, hrec⟩ := h.record
  refine ⟨f, ?_, hf⟩
  rw [hrec, Function.update_self]
  rfl

variable {x : String}

section

variable (h : Relabels s s' t status n)
include h

theorem Relabels.labelled_ne (hx : x ≠ t) :
    Labelled s' x word e ↔ Labelled s x word e := by
  obtain ⟨f, -, hrec⟩ := h.record
  unfold Labelled
  rw [hrec, Function.update_of_ne hx]

theorem Relabels.find_ne (hx : x ≠ t) :
    find x (s'.statusIndex word) = find x (s.statusIndex word) := by
  obtain ⟨c, hc, hindex⟩ := h.index word
  have hbase : find x c = find x (s.statusIndex word) := by
    rcases hc with rfl | rfl
    · rfl
    · rw [find_del, if_neg hx]
  rw [hindex]
  split
  · rw [find_lease h.pos, if_neg hx, hbase]
  · exact hbase

theorem Relabels.listed_ne (hx : x ≠ t) (hl : Listed (s.statusIndex word) x e) :
    Listed (s'.statusIndex word) x e := by
  obtain ⟨c, hc, hindex⟩ := h.index word
  have hbase : Listed c x e := by
    rcases hc with rfl | rfl
    · exact hl
    · exact listed_del hx hl
  rw [hindex]
  split
  · exact listed_lease h.pos hx hbase
  · exact hbase

theorem Relabels.listed_self (hne : status ≠ "") :
    Listed (s'.statusIndex status) t (s.now + n * 1000) := by
  obtain ⟨c, -, hindex⟩ := h.index status
  rw [hindex, if_pos ⟨rfl, hne⟩]
  exact listed_lease_self h.pos

end

theorem indexed_relabel (hs : Indexed s) (h : Relabels s s' t status n) : Indexed s' := by
  have hnow := h.now_eq
  have hpos := h.pos
  refine ⟨?_, ?_, ?_⟩
  · intro x hx
    by_cases hxt : x = t
    · subst hxt
      exact ⟨status, _, h.labelled_self, by omega⟩
    · obtain ⟨f, -, hrec⟩ := h.record
      rw [hrec, Function.update_of_ne hxt] at hx
      obtain ⟨word, e, hlabel, hlt⟩ := hs.labelled x hx
      exact ⟨word, e, (h.labelled_ne hxt).mpr hlabel, by omega⟩
  · intro x word e hlabel hne
    by_cases hxt : x = t
    · subst hxt
      obtain ⟨rfl, rfl⟩ := hlabel.unique h.labelled_self
      exact Or.inr (h.listed_self hne)
    · rcases hs.listed x word e ((h.labelled_ne hxt).mp hlabel) hne with hsoon | hl
      · exact Or.inl (by omega)
      · exact Or.inr (h.listed_ne hxt hl)
  · intro x
    obtain ⟨c, hc, hindex⟩ := h.index ""
    have hnot : ¬ ("" = status ∧ status ≠ "") := fun hboth => hboth.2 hboth.1.symm
    rw [hindex, if_neg hnot]
    rcases hc with rfl | rfl
    · exact hs.blank x
    · rw [find_del]
      split
      · rfl
      · exact hs.blank x

theorem noStray_relabel (hs : Indexed s) (hno : NoStray s) (h : Relabels s s' t status n)
    (hclear : Cleared s s' t status) : NoStray s' := by
  intro x word score hfind hlt
  rw [h.now_eq] at hlt
  by_cases hxt : x = t
  · subst hxt
    by_cases hword : word = status
    · subst hword
      by_cases hne : word = ""
      · -- nothing is ever listed under the empty status
        have hblank := (indexed_relabel hs h).blank x
        rw [← hne, hfind] at hblank
        simp at hblank
      · have hscore := (h.listed_self hne).1
        obtain rfl : score = s.now + n * 1000 := Option.some.inj (hfind.symm.trans hscore)
        exact h.labelled_self
    · -- a live entry of another index would be the old status of the task
      obtain ⟨c, hc, hindex⟩ := h.index word
      have hnot : ¬ (word = status ∧ status ≠ "") := fun hboth => hword hboth.1
      rw [hindex, if_neg hnot] at hfind
      have hold : find x (s.statusIndex word) = some score := by
        rcases hc with rfl | rfl
        · exact hfind
        · rw [find_del, if_pos rfl] at hfind
          simp at hfind
      have hne : word ≠ "" := by
        rintro rfl
        rw [hs.blank x] at hold
        simp at hold
      have hgone := hclear word score (hno x word score hold hlt) hword hne
      rw [hindex, if_neg hnot, hfind] at hgone
      simp at hgone
  · rw [h.find_ne hxt] at hfind
    exact (h.labelled_ne hxt).mpr (hno x word score hfind hlt)

end Relabels

def CallStrings : Call ν → Prop
  | .validateTransfer _ updates _ => ∀ v, updates "status" = some v → ∃ word, v = .str word
  | .updateTask _ updates _ => ∀ v, updates "status" = some v → ∃ word, v = .str word
  | _ => True

/-! ## The scripts -/

variable {call : Call ν} {client : Nat} {es : List (Event ν)} {now : Nat}

section Scripts

variable [LuaNumber ν] {n : Nat} {f : Fields ν}

omit [LuaNumber ν] in
theorem statusIndex_leased (t status word : String) (n : Nat) (s : Store ν) :
    (if status ≠ "" then leaseStatus status t n s else s).statusIndex word =
      if word = status ∧ status ≠ "" then lease s.now n t (s.statusIndex word)
      else s.statusIndex word := by
  by_cases hne : status = ""
  · simp [hne]
  · by_cases hword : word = status
    · subst hword
      simp [hne, leaseStatus]
    · simp [hne, hword, leaseStatus]

theorem statusIndex_relabel (s : Store ν) (t : String) (f : Fields ν) (n : Nat)
    (old : Option String) (status word : String) :
    ∃ c, (c = s.statusIndex word ∨ c = del t (s.statusIndex word)) ∧
      (old = some word → c = del t (s.statusIndex word)) ∧
      (relabel t f n old status s).statusIndex word =
        if word = status ∧ status ≠ "" then lease s.now n t c else c := by
  cases old with
  | none => exact ⟨_, Or.inl rfl, nofun, statusIndex_leased t status word n (setRecord t f n s)⟩
  | some w =>
    have hindex := statusIndex_leased t status word n (dropStatus w t (setRecord t f n s))
    by_cases hw : word = w
    · subst hw
      have hdrop : (dropStatus word t (setRecord t f n s)).statusIndex word =
          del t (s.statusIndex word) := Function.update_self _ _ _
      rw [hdrop] at hindex
      exact ⟨_, Or.inr rfl, fun _ => rfl, hindex⟩
    · have hkeep : (dropStatus w t (setRecord t f n s)).statusIndex word = s.statusIndex word :=
        Function.update_of_ne hw _ _
      rw [hkeep] at hindex
      exact ⟨_, Or.inl rfl, fun heq => absurd (Option.some.inj heq).symm hw, hindex⟩

theorem relabels_relabel (hn : 0 < n) (hf : f.recode "status" = some (.str status))
    (old : Option String) : Relabels s (relabel t f n old status s) t status n := by
  obtain ⟨hnow, hrecords, -⟩ := relabel_frame t f n old status s
  refine ⟨hn, hnow, ⟨f.recode, hf, hrecords⟩, fun word => ?_⟩
  obtain ⟨c, hc, -, hindex⟩ := statusIndex_relabel s t f n old status word
  exact ⟨c, hc, hindex⟩

theorem cleared_relabel {old : Option String}
    (hold : ∀ word e, Labelled s t word e → word ≠ status → word ≠ "" → old = some word) :
    Cleared s (relabel t f n old status s) t status := by
  intro word e hlabel hne hblank
  obtain ⟨c, -, hc, hindex⟩ := statusIndex_relabel s t f n old status word
  rw [hindex, if_neg (fun hboth => hne hboth.1), hc (hold word e hlabel hne hblank), find_del,
    if_pos rfl]

variable [DecidableEq ν]

/-- What one step of a call can do to the records and their index.  Only an
initialisation without `if_not_exists` may leave an entry behind. -/
inductive IndexEffect (s : Store ν) (call : Call ν) (s' : Store ν) : Prop
  | same (h : s' = s)
  | rewritten (t status : String) (n : Nat) (h : Relabels s s' t status n)
      (hclear : Cleared s s' t status ∨ ∃ expiry parent timestamp eid,
        call = .initializeTask t expiry status false parent timestamp eid)

theorem migrateStatus_str (old new t : String) (f : Fields ν) (n : Nat) (s : Store ν) :
    (migrateStatus (.str old) (.str new) t n (setRecord t f n s)).2 =
      relabel t f n (if old ≠ new ∧ old ≠ "" then some old else none) new s := by
  unfold migrateStatus relabel
  by_cases heq : old = new <;> by_cases hold : old = "" <;> by_cases hnew : new = "" <;>
    simp_all [Json.concat]

theorem Performs.indexEffect {s' : Store ν} (hs : Indexed s) (hstr : CallStrings call)
    (h : Performs cfg s call s') : IndexEffect s call s' := by
  cases h with
  | still => exact .same rfl
  | initializes t expiry status ifNotExists parent timestamp eid hnew hn =>
    have hf : (Fields.set "execution_id" (.str eid)
        (initialData timestamp status parent : Fields ν)).recode "status" =
        some (.str status) := by
      cases parent <;> simp [Fields.recode, Fields.set, initialData]
    have hrel := relabels_relabel (s := s) (t := t) hn hf none
    apply IndexEffect.rewritten t status (expiry.getD cfg.defaultExpireTime).toNat
    · rw [enlist]
      split
      · exact ⟨hrel.pos, hrel.now_eq, hrel.record, hrel.index⟩
      · exact hrel
    · rcases hnew with rfl | hnone
      · exact Or.inr ⟨expiry, parent, timestamp, eid, rfl⟩
      · -- the script has checked that there was no record
        apply Or.inl
        intro old e hlabel
        obtain ⟨record, hrec, -⟩ := hlabel
        simp [hrec] at hnone
  | updates t updates expiry current hcur hkeep hn =>
    obtain ⟨old, e, hlabel, hold⟩ := status_of_get hs hcur
    obtain ⟨new, hnew⟩ : ∃ new, (updates "status").getD (.str old) = .str new := by
      cases hup : updates "status" with
      | none => exact ⟨old, rfl⟩
      | some v => exact hstr v hup
    have hf : (updates.merge current).recode "status" = some (.str new) := by
      simp only [Fields.recode, Fields.merge, hold]
      cases hup : updates "status" with
      | none =>
        rw [hup] at hnew
        simpa using hnew
      | some v =>
        rw [hup] at hnew
        obtain rfl : v = .str new := hnew
        simp
    have horEmpty : Json.orEmpty (current "status") = .str old := by
      rw [hold]
      rfl
    rw [horEmpty, hnew, migrateStatus_str]
    refine .rewritten t new _ (relabels_relabel hn hf _) (Or.inl (cleared_relabel ?_))
    intro word e' hword hne hblank
    obtain ⟨rfl, -⟩ := hword.unique hlabel
    rw [if_pos ⟨hne, hblank⟩]
  | reopens t status expiry eid current hcur hterm hn =>
    obtain ⟨old, e, hlabel, hold⟩ := status_of_get hs hcur
    have hf : (reopened current (Json.orEmpty (current "status")) eid status s.now).recode
        "status" = some (.str status) := by
      simp [Fields.recode, reopened, Fields.set, Fields.unset]
    refine .rewritten t status _ (relabels_relabel hn hf _) (Or.inl (cleared_relabel ?_))
    intro word e' hword hne hblank
    obtain ⟨rfl, -⟩ := hword.unique hlabel
    simp [hold, Json.orEmpty, Json.concat, hblank]

end Scripts

/-! ## The clock and the cleanup -/

section Clock

theorem labelled_tick {ms : Nat} :
    Labelled (tick ms s) t status e ↔ Labelled s t status e ∧ s.now + ms < e := by
  unfold Labelled
  show (∃ record, (s.records t).purge (s.now + ms) = _ ∧ _) ↔ _
  constructor
  · rintro ⟨record, hrec, hstatus⟩
    rcases purge_eq_or (s.now + ms) (s.records t) with ⟨hkeep, hlive⟩ | ⟨hdrop, -⟩
    · rw [hkeep] at hrec
      refine ⟨⟨record, hrec, hstatus⟩, hlive e ?_⟩
      rw [hrec]
      rfl
    · rw [hdrop] at hrec
      simp at hrec
  · rintro ⟨⟨record, hrec, hstatus⟩, hlt⟩
    refine ⟨record, ?_, hstatus⟩
    rw [hrec]
    simp [Cell.purge, hlt]

theorem indexed_tick (hs : Indexed s) (ms : Nat) : Indexed (tick ms s) := by
  refine ⟨?_, ?_, ?_⟩
  · intro t hlive
    rcases shrinks_tick ms s t with hsame | hgone
    · rw [hsame] at hlive
      obtain ⟨status, e, ⟨record, hrec, hstatus⟩, -⟩ := hs.labelled t hlive
      have hlabel : Labelled (tick ms s) t status e := ⟨record, hsame.trans hrec, hstatus⟩
      exact ⟨status, e, hlabel, (labelled_tick.mp hlabel).2⟩
    · exact absurd hgone hlive
  · intro t status e hlabel hne
    show e ≤ s.now + ms + 500 ∨ Listed ((s.statusIndex status).purge (s.now + ms)) t e
    rcases hs.listed t status e (labelled_tick.mp hlabel).1 hne with hsoon | hlisted
    · exact Or.inl (by omega)
    · rcases purge_eq_or (s.now + ms) (s.statusIndex status) with ⟨hkeep, -⟩ | ⟨-, d, hd, hle⟩
      · rw [hkeep]
        exact Or.inr hlisted
      · -- the key went first: the record has at most half a second left
        obtain ⟨-, d', hd', hed⟩ := hlisted
        obtain rfl : d = d' := Option.some.inj (hd.symm.trans hd')
        exact Or.inl (by omega)
  · intro t
    show find t ((s.statusIndex "").purge (s.now + ms)) = none
    rcases purge_eq_or (s.now + ms) (s.statusIndex "") with ⟨hkeep, -⟩ | ⟨hdrop, -⟩
    · rw [hkeep]
      exact hs.blank t
    · rw [hdrop]
      rfl

theorem noStray_tick (hno : NoStray s) (ms : Nat) : NoStray (tick ms s) := by
  intro t status score hfind hlt
  have hnow : s.now + ms < score := hlt
  have hold : find t (s.statusIndex status) = some score := by
    rcases purge_eq_or (s.now + ms) (s.statusIndex status) with ⟨hkeep, -⟩ | ⟨hdrop, -⟩
    · rw [← hkeep]
      exact hfind
    · have hnone : find t ((s.statusIndex status).purge (s.now + ms)) = some score := hfind
      rw [hdrop] at hnone
      simp at hnone
  exact labelled_tick.mpr ⟨hno t status score hold (by omega), hnow⟩

theorem statusIndex_cleanUp_self (status : String) (nowMs : Nat) :
    (cleanUpStatus status nowMs s).statusIndex status =
      remRangeByScore nowMs (s.statusIndex status) :=
  Function.update_self _ _ _

theorem statusIndex_cleanUp_ne (hword : word ≠ status) (nowMs : Nat) :
    (cleanUpStatus status nowMs s).statusIndex word = s.statusIndex word :=
  Function.update_of_ne hword _ _

theorem find_cleanUp {score : Nat} :
    find t ((cleanUpStatus status nowMs s).statusIndex word) = some score ↔
      find t (s.statusIndex word) = some score ∧ (word = status → nowMs < score) := by
  by_cases hword : word = status
  · subst hword
    rw [statusIndex_cleanUp_self, find_remRangeByScore]
    simp
  · rw [statusIndex_cleanUp_ne hword]
    simp [hword]

theorem indexed_cleanUp (hs : Indexed s) (hle : nowMs ≤ s.now) (status : String) :
    Indexed (cleanUpStatus status nowMs s) := by
  refine ⟨hs.labelled, ?_, ?_⟩
  · intro t word e hlabel hne
    have hlive : s.now < e := by
      obtain ⟨word', e', hlabel', hlt⟩ := hs.labelled t (by
        obtain ⟨record, hrec, -⟩ := hlabel
        intro hnone
        exact absurd (hrec.symm.trans hnone) (by simp))
      rw [(Labelled.unique hlabel hlabel').2]
      exact hlt
    rcases hs.listed t word e hlabel hne with hsoon | hlisted
    · exact Or.inl hsoon
    · apply Or.inr
      by_cases hword : word = status
      · subst hword
        rw [statusIndex_cleanUp_self]
        exact listed_cleanUp (by omega) hlisted
      · rw [statusIndex_cleanUp_ne hword]
        exact hlisted
  · intro t
    apply Option.eq_none_iff_forall_ne_some.mpr
    intro score hscore
    have hold := (find_cleanUp.mp hscore).1
    rw [hs.blank t] at hold
    simp at hold

theorem noStray_cleanUp (hno : NoStray s) (nowMs : Nat) (status : String) :
    NoStray (cleanUpStatus status nowMs s) := by
  intro t word score hfind hlt
  exact hno t word score (find_cleanUp.mp hfind).1 hlt

end Clock

/-! ## Runs -/

def StringStatuses : Event ν → Prop
  | .updateTask _ _ updates _ _ => ∀ v, updates "status" = some v → ∃ word, v = .str word
  | .evict _ => False
  | _ => True

/-- The event is an initialisation without `if_not_exists` reaching a live record with
another, non-empty status. -/
def overwrites (s : State ν) : Event ν → Bool
  | .proceed client =>
    match s.calls client with
    | some (.initializeTask t _ status false _ _ _) =>
      match field s.store t "status" with
      | some (.str old) => old != "" && old != status
      | _ => false
    | _ => false
  | _ => false

structure IndexInv (s : State ν) : Prop where
  indexed : Indexed s.store
  strings : ∀ c call, s.calls c = some call → CallStrings call

theorem indexInv_begin {s s' : State ν} (hinv : IndexInv s) (hstr : CallStrings call)
    (h : begin client call s = some s') :
    IndexInv s' ∧ (NoStray s.store → NoStray s'.store) := by
  have hstore := (begin_spec h).1
  refine ⟨⟨hstore ▸ hinv.indexed, ?_⟩, fun hno => hstore ▸ hno⟩
  intro c other hc
  rcases calls_begin h hc with ⟨-, rfl⟩ | ⟨-, hold⟩
  · exact hstr
  · exact hinv.strings c other hold

theorem indexInv_start (now : Nat) :
    IndexInv (start now : State ν) ∧ NoStray (start now : State ν).store := by
  refine ⟨⟨⟨?_, ?_, ?_⟩, ?_⟩, ?_⟩
  · intro t hlive
    exact absurd rfl hlive
  · rintro t status e ⟨record, hrec, -⟩
    simp [start] at hrec
  · intro t
    rfl
  · intro c call hc
    simp [start] at hc
  · intro t status score hfind
    simp [start] at hfind

theorem mem_listTaskIdsByStatus :
    t ∈ (listTaskIdsByStatus status none s).1 ↔
      ∃ score, find t (s.statusIndex status) = some score ∧ s.now < score := by
  show t ∈ range ((cleanUpStatus status s.now s).statusIndex status) ↔ _
  rw [mem_range]
  simp only [find_cleanUp, true_imp_iff]

variable [DecidableEq ν] [LuaNumber ν]

theorem indexInv_proceed {s s' : State ν} (hinv : IndexInv s)
    (h : step cfg s (.proceed client) = some s') :
    IndexInv s' ∧ (overwrites s (.proceed client) = false → NoStray s.store →
      NoStray s'.store) := by
  obtain ⟨call, hcall, rfl⟩ := step_proceed h
  have hstr := hinv.strings client call hcall
  have hstrings : ∀ c other, Function.update s.calls client (perform cfg s.store call).1 c =
      some other → CallStrings other := by
    intro c other hc
    rcases calls_proceed hc with ⟨-, hold⟩ | ⟨-, t, updates, expiry, heq, rfl⟩
    · exact hinv.strings c other hold
    · rw [heq] at hstr
      exact hstr
  cases (performs cfg s.store call).indexEffect hinv.indexed hstr with
  | same heq =>
    refine ⟨⟨?_, hstrings⟩, fun _ hno => ?_⟩
    · show Indexed (perform cfg s.store call).2
      rw [heq]
      exact hinv.indexed
    · show NoStray (perform cfg s.store call).2
      rw [heq]
      exact hno
  | rewritten t status n hrel hclear =>
    refine ⟨⟨indexed_relabel hinv.indexed hrel, hstrings⟩, ?_⟩
    intro hover hno
    apply noStray_relabel hinv.indexed hno hrel
    rcases hclear with hclear | ⟨expiry, parent, timestamp, eid, rfl⟩
    · exact hclear
    · intro old e hlabel hne hblank
      simp [overwrites, hcall, hlabel.field, hne, hblank] at hover

theorem indexInv_step {s s' : State ν} {e : Event ν} (hinv : IndexInv s) (hstr : StringStatuses e)
    (h : step cfg s e = some s') :
    IndexInv s' ∧ (overwrites s e = false → NoStray s.store → NoStray s'.store) := by
  cases e with
  | initializeTask client t expiry status ifNotExists parent timestamp eid =>
    obtain ⟨hinv', hno⟩ := indexInv_begin hinv (by trivial) h
    exact ⟨hinv', fun _ => hno⟩
  | updateTask client t updates expiry validate =>
    have hcall : CallStrings (if validate && (updates "status").isSome
        then .validateTransfer t updates expiry else .updateTask t updates expiry) := by
      split <;> exact hstr
    obtain ⟨hinv', hno⟩ := indexInv_begin hinv hcall h
    exact ⟨hinv', fun _ => hno⟩
  | reopenTask client t status expiry eid =>
    obtain ⟨hinv', hno⟩ := indexInv_begin hinv (by trivial) h
    exact ⟨hinv', fun _ => hno⟩
  | proceed client => exact indexInv_proceed hinv h
  | listTaskIdsByStatus status nowMs =>
    simp only [step] at h
    split at h
    · rename_i hle
      obtain rfl := Option.some.inj h
      exact ⟨⟨indexed_cleanUp hinv.indexed hle status, hinv.strings⟩,
        fun _ hno => noStray_cleanUp hno nowMs status⟩
    · simp at h
  | advance ms =>
    obtain rfl := Option.some.inj h
    exact ⟨⟨indexed_tick hinv.indexed ms, hinv.strings⟩, fun _ hno => noStray_tick hno ms⟩
  | evict t => exact absurd hstr id

theorem indexInv_run {s : State ν} (hstr : ∀ e ∈ es, StringStatuses e)
    (hover : Along (step cfg) (fun s e => overwrites s e = false) (start now) es)
    (hrun : run (step cfg) (start now) es = some s) : IndexInv s ∧ NoStray s.store := by
  have hG := (along_of_forall_mem (fun e he _ => hstr e he) (start now)).and hover
  apply run_invariant_along (I := fun s => IndexInv s ∧ NoStray s.store) _ (indexInv_start now) hG
    hrun
  intro u e u' hu hguard hstep
  obtain ⟨hinv, hno⟩ := indexInv_step hu.1 hguard.1 hstep
  exact ⟨hinv, hno hguard.2 hu.2⟩

/-- Every record with a non-empty status and more than a second to live is listed under
that status; this holds in every run, also after overwriting. -/
theorem listed_of_status {s : State ν} (hstr : ∀ e ∈ es, StringStatuses e)
    (hrun : run (step cfg) (start now) es = some s) (hne : status ≠ "")
    (hstatus : field s.store t "status" = some (.str status))
    (he : (s.store.records t).deadline = some e) (hlong : s.store.now + 1000 < e) :
    t ∈ (listTaskIdsByStatus status none s.store).1 := by
  have hinv : IndexInv s := by
    apply run_invariant_mem _ (indexInv_start now).1 hstr hrun
    intro u f u' hu hG hstep
    exact (indexInv_step hu hG hstep).1
  obtain ⟨e', hlabel, -⟩ := labelled_of_field hinv.indexed hstatus
  have heq : e' = e := by
    obtain ⟨record, hrec, -⟩ := hlabel
    rw [hrec] at he
    exact Option.some.inj he
  subst heq
  apply mem_listTaskIdsByStatus.mpr
  rcases hinv.indexed.listed t status e' hlabel hne with hsoon | hlisted
  · omega
  · exact ⟨e', hlisted.1, by omega⟩

/-- The status index is exact in every run in which no initialisation overwrites a live
record that has another, non-empty status. -/
theorem status_index_exact (cfg : Config) (now : Nat) (es : List (Event ν)) (s : State ν)
    (status : String) (hstr : ∀ e ∈ es, StringStatuses e)
    (hover : Along (step cfg) (fun s e => overwrites s e = false) (start now) es)
    (hrun : run (step cfg) (start now) es = some s) :
    (∀ t ∈ (listTaskIdsByStatus status none s.store).1,
        field s.store t "status" = some (.str status)) ∧
      (status ≠ "" → ∀ t e, field s.store t "status" = some (.str status) →
        (s.store.records t).deadline = some e → s.store.now + 1000 < e →
        t ∈ (listTaskIdsByStatus status none s.store).1) := by
  constructor
  · intro t ht
    obtain ⟨score, hfind, hlt⟩ := mem_listTaskIdsByStatus.mp ht
    exact ((indexInv_run hstr hover hrun).2 t status score hfind hlt).field
  · intro hne t e hstatus he hlong
    exact listed_of_status hstr hrun hne hstatus he hlong

def restarted : List (Event Int) :=
  [.initializeTask 0 "t" (some 60) "pending" false none "2026-01-01T00:00:00+00:00" "exec-1",
    .proceed 0,
    .initializeTask 1 "t" (some 60) "in_progress" false none "2026-01-01T00:00:00+00:00" "exec-2",
    .proceed 1]

/-- The record is running, and the index still lists it as pending. -/
theorem stray_after_overwrite :
    run (step standard) (start 0) restarted =
        some (replay (step standard) (start 0) restarted) ∧
      (listTaskIdsByStatus "pending" none (replay (step standard) (start 0) restarted).store).1 =
        ["t"] ∧
      field (replay (step standard) (start 0) restarted).store "t" "status" =
        some (.str "in_progress") :=
  ⟨run_eq_replay (by decide), by decide, rfl⟩

def lifetime : List (Event Int) :=
  [.initializeTask 0 "t" (some 60) "pending" false none "2026-01-01T00:00:00+00:00" "exec-1",
    .proceed 0, .advance 700, .updateTask 0 "t" (setStatus "in_progress") none true, .proceed 0,
    .proceed 0, .updateTask 0 "t" (setStatus "completed") (some 30) true, .proceed 0, .proceed 0,
    .listTaskIdsByStatus "in_progress" 700, .reopenTask 1 "t" "pending" none "exec-2",
    .proceed 1]

theorem status_index_exact_lifetime :
    (listTaskIdsByStatus "pending" none (replay (step standard) (start 0) lifetime).store).1 =
        ["t"] ∧
      field (replay (step standard) (start 0) lifetime).store "t" "status" =
        some (.str "pending") := by
  have hmem : "t" ∈ (listTaskIdsByStatus "pending" none
      (replay (step standard) (start 0) lifetime).store).1 := by decide
  have hstr : ∀ e ∈ lifetime, StringStatuses e := by
    simp [lifetime, StringStatuses, setStatus, Fields.set]
  refine ⟨by decide, ?_⟩
  exact (status_index_exact standard 0 lifetime _ "pending" hstr (by decide)
    (run_eq_replay (by decide))).1 "t" hmem

end Orditect.TaskStore.Proofs
