import Orditect.Governance.Governor
/-!
# What no step of the governor undoes

Whatever the coroutines do, a terminal status stays, the child stays in the sets of
active children it was added to, its votes stay cast and its recorded dependencies stay
recorded.  Everything a registration has learnt about the store is stable for this
reason, however its storage calls interleave with the other coroutines.
-/

namespace Orditect.Governance.Proofs

open Support.PlainSet Support.SortedSet

variable {cfg : Config} {s s' s'' : Store}

@[simp] theorem mem_distinctParents {p : String} :
    p ∈ cfg.distinctParents ↔ p ∈ cfg.parents := by
  simp [Config.distinctParents]

theorem nodup_distinctParents (cfg : Config) : cfg.distinctParents.Nodup :=
  nodup_eraseDups cfg.parents

def Recorded (cfg : Config) (s : Store) : Prop :=
  ∃ record ∈ s.records cfg.child, record.dependsOn = cfg.distinctParents

def Known (s : Store) (t : String) : Prop := ∃ record, s.records t = some record

/-- `s'` has everything of `s` that is there to stay. -/
structure Grows (cfg : Config) (s s' : Store) : Prop where
  kept : ∀ {t record}, s.records t = some record → ∃ record', s'.records t = some record' ∧
    (cfg.isTerminal record.status = true → record'.status = record.status)
  recorded : Recorded cfg s → Recorded cfg s'
  listed : ∀ {p}, cfg.child ∈ s.activeChildren p → cfg.child ∈ s'.activeChildren p
  voted : s.cancelVotes cfg.child ⊆ s'.cancelVotes cfg.child

theorem Grows.refl (cfg : Config) (s : Store) : Grows cfg s s :=
  ⟨fun h => ⟨_, h, fun _ => rfl⟩, id, id, Finset.Subset.refl _⟩

variable {t : String} {record : Record}

theorem Grows.known (h : Grows cfg s s') (ht : Known s t) : Known s' t := by
  obtain ⟨record, hrecord⟩ := ht
  obtain ⟨record', hrecord', -⟩ := h.kept hrecord
  exact ⟨record', hrecord'⟩

theorem Grows.ended (h : Grows cfg s s') (hrecord : s.records t = some record)
    (hterm : cfg.isTerminal record.status = true) :
    ∃ record', s'.records t = some record' ∧ record'.status = record.status := by
  obtain ⟨record', hrecord', hstatus⟩ := h.kept hrecord
  exact ⟨record', hrecord', hstatus hterm⟩

theorem not_ended_of_open (hrecord : s.records t = some record)
    (hopen : cfg.isTerminal record.status = false) : ¬ Ended cfg s t := by
  rintro ⟨record', hrecord', hterm⟩
  obtain rfl : record = record' := Option.some_injective _ (hrecord.symm.trans hrecord')
  simp [hopen] at hterm

theorem ended_of_abnormal (h : Abnormal cfg s t) : Ended cfg s t := by
  obtain ⟨record, hrecord, hterm, -⟩ := h
  exact ⟨record, hrecord, hterm⟩

theorem Grows.isEnded (h : Grows cfg s s') (ht : Ended cfg s t) : Ended cfg s' t := by
  obtain ⟨record, hrecord, hterm⟩ := ht
  obtain ⟨record', hrecord', hstatus⟩ := h.ended hrecord hterm
  exact ⟨record', hrecord', hstatus ▸ hterm⟩

theorem Grows.isAbnormal (h : Grows cfg s s') (ht : Abnormal cfg s t) :
    Abnormal cfg s' t := by
  obtain ⟨record, hrecord, hterm, hfail⟩ := ht
  obtain ⟨record', hrecord', hstatus⟩ := h.ended hrecord hterm
  exact ⟨record', hrecord', hstatus ▸ hterm, hstatus ▸ hfail⟩

theorem Grows.abnormal_of_ended (h : Grows cfg s s') (ht : Ended cfg s t)
    (hab : Abnormal cfg s' t) : Abnormal cfg s t := by
  obtain ⟨record, hrecord, hterm⟩ := ht
  obtain ⟨record', hrecord', hstatus⟩ := h.ended hrecord hterm
  obtain ⟨record'', hrecord'', -, hfail⟩ := hab
  obtain rfl : record' = record'' := Option.some_injective _ (hrecord'.symm.trans hrecord'')
  exact ⟨record, hrecord, hterm, hstatus ▸ hfail⟩

/-! ## The storage calls -/

theorem grows_of_records_eq (hrecords : s'.records = s.records)
    (hlisted : ∀ p, cfg.child ∈ s.activeChildren p → cfg.child ∈ s'.activeChildren p)
    (hvoted : s.cancelVotes cfg.child ⊆ s'.cancelVotes cfg.child) : Grows cfg s s' where
  kept hrecord := ⟨_, hrecords ▸ hrecord, fun _ => rfl⟩
  recorded h := by simpa only [Recorded, hrecords] using h
  listed := hlisted _
  voted := hvoted

theorem grows_saddActiveChild (p c : String) : Grows cfg s (s.saddActiveChild p c) := by
  apply grows_of_records_eq
  · rfl
  · intro q hq
    by_cases hqp : q = p
    · subst hqp
      simp [Store.saddActiveChild, hq]
    · simpa [Store.saddActiveChild, Function.update_of_ne hqp] using hq
  · exact Finset.Subset.refl _

theorem grows_sremActiveChild (p : String) (ht : t ≠ cfg.child) :
    Grows cfg s (s.sremActiveChild p t) := by
  apply grows_of_records_eq
  · rfl
  · intro q hq
    by_cases hqp : q = p
    · subst hqp
      simp [Store.sremActiveChild, hq, ht.symm]
    · simpa [Store.sremActiveChild, Function.update_of_ne hqp] using hq
  · exact Finset.Subset.refl _

theorem grows_setRemainingDeps (t : String) (n : Nat) : Grows cfg s (s.setRemainingDeps t n) :=
  grows_of_records_eq rfl (fun _ => id) (Finset.Subset.refl _)

theorem grows_decrRemainingDeps (t : String) : Grows cfg s (s.decrRemainingDeps t) :=
  grows_of_records_eq rfl (fun _ => id) (Finset.Subset.refl _)

theorem cancelVotes_vote (p c : String) (n : Nat) :
    (s.voteAndCheckThreshold c p n).2.cancelVotes c = insert p (s.cancelVotes c) := by
  simp [Store.voteAndCheckThreshold]

theorem cancelVotes_vote_of_ne {c d : String} (hcd : d ≠ c) (p : String) (n : Nat) :
    (s.voteAndCheckThreshold c p n).2.cancelVotes d = s.cancelVotes d := by
  simp [Store.voteAndCheckThreshold, Function.update_of_ne hcd]

theorem grows_vote (c p : String) (n : Nat) :
    Grows cfg s (s.voteAndCheckThreshold c p n).2 := by
  apply grows_of_records_eq
  · rfl
  · exact fun _ => id
  · by_cases hc : cfg.child = c
    · rw [hc, cancelVotes_vote]
      exact Finset.subset_insert _ _
    · rw [cancelVotes_vote_of_ne hc]

theorem grows_clearCancelVotes (ht : t ≠ cfg.child) :
    Grows cfg s (s.clearCancelVotes t) := by
  apply grows_of_records_eq
  · rfl
  · exact fun _ => id
  · simp [Store.clearCancelVotes, Function.update_of_ne ht.symm]

theorem records_updateTask (t : String) (f : Record → Record) (u : String) :
    (s.updateTask t f).records u = if u = t then (s.records u).map f else s.records u := by
  by_cases hut : u = t
  · subst hut
    simp [Store.updateTask]
  · simp [Store.updateTask, hut]

theorem grows_writeRecord {f : Record → Record}
    (hstatus : ∀ record, (f record).status = record.status)
    (hdeps : ∀ record, (f record).dependsOn = cfg.distinctParents) :
    Grows cfg s (s.updateTask cfg.child f) where
  kept {t record} hrecord := by
    rw [records_updateTask]
    split
    · exact ⟨f record, by simp [hrecord], fun _ => hstatus record⟩
    · exact ⟨record, hrecord, fun _ => rfl⟩
  recorded := by
    rintro ⟨record, hrecord, -⟩
    refine ⟨f record, ?_, hdeps record⟩
    simp [records_updateTask, Option.mem_def.mp hrecord]
  listed := id
  voted := Finset.Subset.refl _

theorem grows_writeStatus (hrecord : s.records t = some record)
    (hopen : cfg.isTerminal record.status = false) (w : String) :
    Grows cfg s (s.updateTask t fun record => { record with status := w }) where
  kept {u record'} hu := by
    rw [records_updateTask]
    split
    · rename_i hut
      obtain rfl : record = record' := by
        rw [hut, hrecord] at hu
        exact Option.some_injective _ hu
      exact ⟨{ record with status := w }, by simp [hu], by simp [hopen]⟩
    · exact ⟨record', hu, fun _ => rfl⟩
  recorded := by
    rintro ⟨record', hrecord', hdeps⟩
    rw [Option.mem_def] at hrecord'
    by_cases hct : cfg.child = t
    · subst hct
      exact ⟨{ record' with status := w }, by simp [records_updateTask, hrecord'], hdeps⟩
    · exact ⟨record', by simp [records_updateTask, hct, hrecord'], hdeps⟩
  listed := id
  voted := Finset.Subset.refl _

end Orditect.Governance.Proofs
