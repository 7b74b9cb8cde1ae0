import Orditect.Stream.Proofs.Placeholders
/-!
# Announcements of placeholders

Two tasks announce a placeholder: the one that resolved it, if the configuration is eager, and
the settle window, if it finds the placeholder resolved.  They know of each other by a note that
is made behind the put, and the window looks only at what was pending when it opened.  Each
placeholder is announced once, and before every manifest that has it with a url, as long as
neither falls between the two.
-/

namespace Orditect.Stream.Enrich.Proofs

open Support Support.Transition Stream.Runner.Proofs

/-! ## What enters the queue -/

def entered (s : Runner) : List (Option Item) := s.taken ++ items s

def isAnnouncement (pid : PlaceholderId) : Option Item → Bool
  | some ⟨_, .enrichResolved pid' _⟩ => pid' == pid
  | _ => false

abbrev announcements (pid : PlaceholderId) (l : List (Option Item)) :
    Nat := l.countP (isAnnouncement pid)

def reports (p : ManifestPlaceholder) : Bool := decide (p.state = .resolved) && hasUrl p.url

def Preceded (l : List (Option Item)) : Prop :=
  ∀ before after sid placeholders, l = before ++ some ⟨sid, .streamManifest placeholders⟩ :: after →
    ∀ p ∈ placeholders, reports p = true → announcements p.placeholderId before = 1

structure Announced (s : Runner) : Prop where
  once : ∀ pid, announcements pid (entered s) ≤ 1
  before : Preceded (entered s)

theorem Preceded.append {l : List (Option Item)} {a : Option Item} (h : Preceded l)
    (ha : ∀ sid placeholders, a = some ⟨sid, .streamManifest placeholders⟩ →
      ∀ p ∈ placeholders, reports p = true → announcements p.placeholderId l = 1) :
    Preceded (l ++ [a]) := by
  intro before after sid placeholders heq
  rcases List.eq_nil_or_concat after with rfl | ⟨middle, last, rfl⟩
  · obtain ⟨rfl, hlast⟩ := List.append_inj' heq rfl
    exact ha sid placeholders (List.cons.inj hlast).1
  · rw [List.concat_eq_append, ← List.cons_append, ← List.append_assoc] at heq
    obtain ⟨rfl, -⟩ := List.append_inj' heq rfl
    exact h before middle sid placeholders rfl

/-! ## The steps that are left out -/

def early : ProducerPhase → Bool
  | .absent | .spawning | .gathering | .reporting _ | .settling .. | .waiting ..
  | .announcing .. => true
  | _ => false

theorem isClosing_of_early {phase : ProducerPhase} (h : early phase = true) :
    isClosing phase = false := by
  cases phase <;> first | rfl | exact Bool.noConfusion h

def settleList : ProducerPhase → List PlaceholderId
  | .settling _ rest => rest
  | .waiting _ pid rest => pid :: rest
  | .announcing _ pid _ _ rest => pid :: rest
  | _ => []

/-- The steps by which no announcement gets lost or doubled. -/
def heeded (cfg : StreamConfig) (s : Runner) : Runner.Step → Prop
  | .enriched pid (some url) => url ≠ "" → early s.producer = true →
      (cfg.enrichEager = true ∧ roomy s) ∨ pid ∈ settleList s.producer
  | .producer =>
    match s.producer with
    | .waiting _ pid _ => s.announceable pid ≠ none → announcing s pid = false
    | .settling deadline rest => deadline ≤ s.now →
        ∀ pid ∈ rest, s.announceable pid = none ∨ announcing s pid = true
    | .manifest placeholders _ => put? cfg s .producer ≠ none →
        ∀ p ∈ placeholders, reports p = true → announcing s p.placeholderId = false
    | _ => True
  | _ => True

/-! ## The invariant -/

/-- The announcements are as the notes say, and what was not announced will be.  The placeholder
`x` is the one that is being changed. -/
structure Sound (x : Option PlaceholderId) (s : Runner) : Prop where
  staged : Staged s
  counted : ∀ pid, announcements pid (entered s) = if pid ∈ s.emitted then 1 else 0
  recorded : ∀ pid, (phase? s pid).isSome = (s.record? pid).isSome
  known : ∀ pid ∈ s.emitted, phase? s pid = some .over
  saying : ∀ deadline pid sid url rest, s.producer = .announcing deadline pid sid url rest →
    pid ∉ s.emitted ∧ phase? s pid = some .over
  waits : ∀ pid url, phase? s pid = some (.announcing url) →
    s.mux.queue.suspended (.enrich pid) = true
  opened : isClosing s.producer = false → s.mux.closed = false
  owed : early s.producer = true → ∀ entry ∈ s.registry, owes entry = true →
    x ≠ some entry.placeholderId → entry.placeholderId ∈ s.emitted ∨
      announcing s entry.placeholderId = true ∨ entry.placeholderId ∈ settleList s.producer
  first : early s.producer = true → ∀ entry ∈ s.registry, owes entry = true →
    ∃ found, s.record? entry.placeholderId = some found ∧ owes found = true
  fresh : early s.producer = true → ∀ pid, x ≠ some pid → phase? s pid = some .resolving →
    ∃ entry, s.record? pid = some entry ∧ entry.state = .pending
  reported : ∀ placeholders next, s.producer = .manifest placeholders next →
    ∀ p ∈ placeholders, reports p = true →
      p.placeholderId ∈ s.emitted ∨ announcing s p.placeholderId = true
  preceded : Preceded (entered s)

variable {s s' : Runner} {sid : StreamId} {cfg : StreamConfig}

theorem Sound.announced (h : Sound none s) : Announced s := by
  refine ⟨fun pid => ?_, h.preceded⟩
  rw [h.counted]
  split <;> decide

theorem fresh_sound (cfg : StreamConfig) : Sound none (Runner.fresh cfg) where
  staged := fresh_staged cfg
  counted _ := rfl
  recorded _ := rfl
  known _ h := nomatch h
  saying _ _ _ _ _ h := nomatch h
  waits _ _ h := nomatch h
  opened _ := rfl
  owed _ _ h := nomatch h
  first _ _ h := nomatch h
  fresh _ _ _ h := nomatch h
  reported _ _ h := nomatch h
  preceded before after sid placeholders h := by simp [entered, items, Runner.fresh] at h

theorem Sound.weaken (h : Sound none s) (pid : PlaceholderId) : Sound (some pid) s :=
  { h with
    owed := fun he entry hmem howes _ => h.owed he entry hmem howes (by simp)
    fresh := fun he pid _ => h.fresh he pid (by simp) }

/-! ## Steps that leave the placeholders alone -/

structure Bystander (s s' : Runner) : Prop where
  registry : s'.registry = s.registry
  enrichTasks : s'.enrichTasks = s.enrichTasks
  emitted : s'.emitted = s.emitted
  suspended : ∀ pid, s'.mux.queue.suspended (.enrich pid) = s.mux.queue.suspended (.enrich pid)

theorem Bystander.refl (s : Runner) : Bystander s s := ⟨rfl, rfl, rfl, fun _ => rfl⟩

variable {item : Item} {next : ProducerPhase} {x : Option PlaceholderId}
  {entry : PlaceholderRecord}

variable {o : Owner} {t : Runner} {index : Nat} {task : StageTask}
  {put : Option Item} {event : EventData} {pid : PlaceholderId}

theorem Bystander.of_emitted {turn : Turn} (h : Emitted s o item (t, turn))
    (ho : ∀ pid, .enrich pid ≠ o) :
    Bystander s t := by
  cases h with
  | returned mux hmux hitems hothers
  | waiting mux hmux hitems hothers => exact ⟨rfl, rfl, rfl, fun pid => hothers _ (ho pid)⟩
  | raised => exact .refl s

structure Acceptable (s : Runner) (a : Option Item) : Prop where
  silent : ∀ pid, isAnnouncement pid a = false
  manifest : ∀ sid placeholders, a = some ⟨sid, .streamManifest placeholders⟩ →
    ∀ p ∈ placeholders, reports p = true → p.placeholderId ∈ s.emitted

structure Moved (x : Option PlaceholderId) (s : Runner) (next : ProducerPhase) : Prop where
  saying : ∀ deadline pid sid url rest, next = .announcing deadline pid sid url rest →
    pid ∉ s.emitted ∧ phase? s pid = some .over
  early : early next = true → early s.producer = true
  owed : Proofs.early next = true → ∀ entry ∈ s.registry, owes entry = true →
    x ≠ some entry.placeholderId → entry.placeholderId ∈ settleList s.producer →
      entry.placeholderId ∈ s.emitted ∨ announcing s entry.placeholderId = true ∨
        entry.placeholderId ∈ settleList next
  reported : ∀ placeholders next', next = .manifest placeholders next' →
    ∀ p ∈ placeholders, reports p = true →
      p.placeholderId ∈ s.emitted ∨ announcing s p.placeholderId = true

theorem Sound.moved (h : Sound none s) : Moved none s s.producer where
  saying := h.saying
  early := id
  owed _ _ _ _ _ hmem := Or.inr (Or.inr hmem)
  reported := h.reported

theorem Moved.onward (hearly : Proofs.early s.producer = true)
    (hsaying : ∀ deadline pid sid url rest, next ≠ .announcing deadline pid sid url rest)
    (hmanifest : ∀ placeholders sid, next ≠ .manifest placeholders sid)
    (hlist : ∀ pid ∈ settleList s.producer, pid ∈ settleList next) : Moved none s next where
  saying _ _ _ _ _ hnext := absurd hnext (hsaying _ _ _ _ _)
  early _ := hearly
  owed _ _ _ _ _ hmem := Or.inr (Or.inr (hlist _ hmem))
  reported _ _ hnext := absurd hnext (hmanifest _ _)

theorem Moved.late (hlate : Proofs.early next = false)
    (hmanifest : ∀ placeholders sid, next ≠ .manifest placeholders sid) : Moved none s next where
  saying _ _ _ _ _ hnext := Bool.noConfusion ((congrArg Proofs.early hnext).symm.trans hlate)
  early hearly := Bool.noConfusion (hlate.symm.trans hearly)
  owed hearly := Bool.noConfusion (hlate.symm.trans hearly)
  reported _ _ hnext := absurd hnext (hmanifest _ _)

theorem Sound.pass (h : Sound none s) (hstaged : Staged s') (hby : Bystander s s')
    (hmoved : Moved x s s'.producer)
    (hopened : isClosing s'.producer = false → s'.mux.closed = false) (put : Option (Option Item))
    (hentered : entered s' = entered s ++ put.toList) (hput : ∀ a ∈ put, Acceptable s a) :
    Sound x s' := by
  have hphase := phase?_congr hby.enrichTasks
  have hannouncing : ∀ pid, announcing s' pid = announcing s pid := fun pid =>
    announcing_congr (hphase pid)
  have hrecord := record?_congr hby.registry
  have hcount : ∀ pid, announcements pid (entered s') = announcements pid (entered s) := by
    intro pid
    rw [hentered]
    cases put with
    | none => rw [Option.toList, List.append_nil]
    | some a => simp [announcements, (hput a rfl).silent pid]
  refine
    { staged := hstaged
      counted := fun pid => ?_
      recorded := fun pid => ?_
      known := fun pid hpid => ?_
      saying := fun deadline pid sid url rest hphase' => ?_
      waits := fun pid url hpid => ?_
      opened := hopened
      owed := fun he entry hmem howes hx => ?_
      first := fun he entry hmem howes => ?_
      fresh := fun he pid _ hpid => ?_
      reported := fun placeholders next hnext p hp hreports => ?_
      preceded := ?_ }
  · rw [hcount, hby.emitted]
    exact h.counted pid
  · rw [hphase, hrecord]
    exact h.recorded pid
  · rw [hby.emitted] at hpid
    rw [hphase]
    exact h.known pid hpid
  · rw [hby.emitted, hphase]
    exact hmoved.saying _ _ _ _ _ hphase'
  · rw [hphase] at hpid
    rw [hby.suspended]
    exact h.waits pid url hpid
  · rw [hby.registry] at hmem
    rw [hby.emitted, hannouncing]
    rcases h.owed (hmoved.early he) entry hmem howes (by simp) with
      hemitted | hwaits | hlist
    · exact Or.inl hemitted
    · exact Or.inr (Or.inl hwaits)
    · exact hmoved.owed he entry hmem howes hx hlist
  · rw [hby.registry] at hmem
    rw [hrecord]
    exact h.first (hmoved.early he) entry hmem howes
  · rw [hphase] at hpid
    rw [hrecord]
    exact h.fresh (hmoved.early he) pid (by simp) hpid
  · rw [hby.emitted, hannouncing]
    exact hmoved.reported placeholders next hnext p hp hreports
  · rw [hentered]
    cases put with
    | none =>
      rw [Option.toList, List.append_nil]
      exact h.preceded
    | some a =>
      refine h.preceded.append fun sid placeholders ha p hp hreports => ?_
      rw [h.counted, if_pos ((hput a rfl).manifest sid placeholders ha p hp hreports)]

theorem Sound.keep (h : Sound none s) (hstaged : Staged s') (hby : Bystander s s')
    (hproducer : s'.producer = s.producer) (hclosed : s'.mux.closed = s.mux.closed)
    (put : Option (Option Item))
    (hentered : entered s' = entered s ++ put.toList) (hput : ∀ a ∈ put, Acceptable s a) :
    Sound none s' := by
  refine h.pass hstaged hby (hproducer ▸ h.moved) ?_ put hentered hput
  rw [hproducer, hclosed]
  exact h.opened

theorem Sound.quiet (h : Sound none s) (hstaged : Staged s') (hby : Bystander s s')
    (hproducer : s'.producer = s.producer) (hclosed : s'.mux.closed = s.mux.closed)
    (hentered : entered s' = entered s) : Sound none s' :=
  h.keep hstaged hby hproducer hclosed none (hentered.trans (List.append_nil _).symm)
    fun _ ha => nomatch ha

section Register

variable {pid pid' : PlaceholderId}

variable {phase : EnrichPhase}

theorem phase?_register_of_some (h : phase? s pid' = some phase) :
    phase? (s.register pid sid) pid' = some phase := by
  rw [phase?_register, h]
  rfl

theorem phase?_of_register (h : phase? (s.register pid sid) pid' = some phase)
    (hne : phase ≠ .resolving) :
    phase? s pid' = some phase := by
  rw [phase?_register] at h
  cases hfound : phase? s pid' with
  | some found =>
    rw [hfound] at h
    exact h
  | none =>
    rw [hfound, Option.none_or] at h
    split at h
    · exact absurd (Option.some.inj h).symm hne
    · simp at h

theorem record?_register_of_some (h : s.record? pid' = some entry) :
    (s.register pid sid).record? pid' = some entry := by
  rw [record?_register, h]
  rfl

theorem announcing_register (h : announcing s pid' = true) :
    announcing (s.register pid sid) pid' = true := by
  obtain ⟨url, hurl⟩ := announcing_iff.mp h
  exact announcing_iff.mpr ⟨url, phase?_register_of_some hurl⟩

theorem mem_registry_of_owes (hmem : entry ∈ (s.register pid sid).registry)
    (howes : owes entry = true) :
    entry ∈ s.registry := by
  rcases List.mem_append.mp hmem with hmem | hmem
  · exact hmem
  · rw [List.mem_singleton.mp hmem] at howes
    exact Bool.noConfusion howes

end Register

theorem Sound.register (h : Sound none s) (pid : PlaceholderId) (sid : StreamId) :
    Sound none (s.register pid sid) := by
  refine
    { staged := h.staged
      counted := h.counted
      recorded := fun pid' => ?_
      known := fun pid' hpid => phase?_register_of_some (h.known pid' hpid)
      saying := fun deadline pid' sid' url rest hphase => ?_
      waits := fun pid' url hpid =>
        h.waits pid' url (phase?_of_register hpid EnrichPhase.noConfusion)
      opened := h.opened
      owed := fun he entry hmem howes hx => ?_
      first := fun he entry hmem howes => ?_
      fresh := fun he pid' _ hpid => ?_
      reported := fun placeholders next hnext p hp hreports => ?_
      preceded := h.preceded }
  · have hrecorded := h.recorded pid'
    rw [phase?_register, record?_register, Option.isSome_or, Option.isSome_or, hrecorded]
    split <;> rfl
  · obtain ⟨hemitted, hover⟩ := h.saying deadline pid' sid' url rest hphase
    exact ⟨hemitted, phase?_register_of_some hover⟩
  · rcases h.owed he entry (mem_registry_of_owes hmem howes) howes hx with
      hemitted | hwaits | hlist
    · exact Or.inl hemitted
    · exact Or.inr (Or.inl (announcing_register hwaits))
    · exact Or.inr (Or.inr hlist)
  · obtain ⟨found, hfound, howes'⟩ := h.first he entry (mem_registry_of_owes hmem howes) howes
    exact ⟨found, record?_register_of_some hfound, howes'⟩
  · cases hfound : phase? s pid' with
    | some phase =>
      obtain rfl : phase = .resolving :=
        Option.some.inj ((phase?_register_of_some hfound).symm.trans hpid)
      obtain ⟨entry, hentry, hpending⟩ := h.fresh he pid' (by simp) hfound
      exact ⟨entry, record?_register_of_some hentry, hpending⟩
    | none =>
      have hnone : s.record? pid' = none := by
        have hrecorded := h.recorded pid'
        rw [hfound] at hrecorded
        exact Option.not_isSome_iff_eq_none.mp (by rw [← hrecorded]; decide)
      rw [phase?_register, hfound, Option.none_or] at hpid
      rw [record?_register, hnone, Option.none_or]
      split at hpid
      next heq => exact ⟨_, if_pos heq, rfl⟩
      next => simp at hpid
  · exact (h.reported placeholders next hnext p hp hreports).imp_right announcing_register

def Registers (s s' : Runner) : Prop :=
  Bystander s s' ∨ ∃ pid sid, Bystander (s.register pid sid) s'

theorem stage_registers (h : StageMove s sid index task s') :
    Registers s s' := by
  cases h with
  | abandoned =>
    refine Or.inl ⟨rfl, rfl, rfl, fun pid => ?_⟩
    exact AsyncQueue.suspended_abandon_of_ne _ Owner.noConfusion
  | emit event rest hrequested htodo hemitted =>
    exact Or.inl { Bystander.of_emitted hemitted fun _ => Owner.noConfusion with }
  | wait event hemitted => exact Or.inl (.of_emitted hemitted fun _ => Owner.noConfusion)
  | raise => exact Or.inl { Bystander.refl s with }
  | register pid rest => exact Or.inr ⟨pid, sid, { Bystander.refl (s.register pid sid) with }⟩
  | leave => exact Or.inl { Bystander.refl s with }

theorem source_registers (htask : s.task? sid index = some task)
    (h : SourceMove s sid index task s') :
    Registers s s' := by
  cases h with
  | pass => exact Or.inl (.refl s)
  | leave => exact Or.inl { Bystander.refl s with }
  | handle todo phase hits hcancelled htodo hmove =>
    rcases hmove with hturn | rfl
    · rcases stage_registers (stageTurn_laden htask hturn) with hby | ⟨pid, sid', hby⟩
      · exact Or.inl { hby with }
      · exact Or.inr ⟨pid, sid', { hby with }⟩
    · exact Or.inl { Bystander.refl s with }

theorem Aside.entered (h : Aside s s' put) :
    entered s' = Proofs.entered s ++ (put.map some).toList := by
  rw [Proofs.entered, h.taken, h.items, ← List.append_assoc]
  rfl

def plain : EventData → Bool
  | .enrichResolved .. | .streamManifest _ => false
  | _ => true

theorem acceptable_of_plain (h : plain item.event = true) :
    Acceptable s (some item) := by
  obtain ⟨sid, event⟩ := item
  refine ⟨fun pid => ?_, fun sid' placeholders ha => ?_⟩
  · cases event <;> first | rfl | exact Bool.noConfusion h
  · rw [(QueuedItem.mk.inj (Option.some.inj ha)).2] at h
    exact Bool.noConfusion h

theorem plain_of_stageEvent (h : stageEvent event = true) :
    plain event = true := by
  cases event <;> first | rfl | exact Bool.noConfusion h

theorem Sound.stage (h : Sound none s) (hstaged : Staged s') (hregisters : Registers s s')
    (haside : Aside s s' put) (hput : ∀ item ∈ put, stageEvent item.event = true) :
    Sound none s' := by
  have hpass : ∀ {t : Runner}, Sound none t → Bystander t s' → Aside t s' put → Sound none s' := by
    intro t ht hby haside
    refine ht.keep hstaged hby haside.producer haside.closed (put.map some) (Aside.entered haside)
      fun a ha => ?_
    obtain ⟨item, hitem, rfl⟩ := Option.map_eq_some_iff.mp ha
    exact acceptable_of_plain (plain_of_stageEvent (hput item hitem))
  rcases hregisters with hby | ⟨pid, sid, hby⟩
  · exact hpass h hby haside
  · exact hpass (h.register pid sid) hby { haside with }

theorem Sound.run (h : Sound none s) (hbegun : Begun s) (hstep : Runner.step cfg s .run = some s') :
    Sound none s' := by
  have hstaged := h.staged.step hstep
  have hquiet := h.quiet hstaged
  cases runTurn_move hstep with
  | register | registered => exact hquiet { Bystander.refl s with } rfl rfl rfl
  | @start t count hphase hcount hemitted =>
    have haside := hemitted.aside
    have hby := Bystander.of_emitted hemitted fun _ => Owner.noConfusion
    refine h.keep hstaged { hby with } haside.producer haside.closed
      (some (some ⟨count, .streamStart⟩)) (Aside.entered haside) fun a ha => ?_
    obtain rfl := Option.some.inj ha
    exact acceptable_of_plain rfl
  | startWait hphase hcount hemitted =>
    have haside := hemitted.aside
    exact hquiet (.of_emitted hemitted fun _ => Owner.noConfusion) haside.producer haside.closed
      ((Aside.entered haside).trans (List.append_nil _))
  | startRaise => exact hquiet { Bystander.refl s with } rfl rfl rfl
  | started hphase hcount =>
    have habsent := hbegun.absent hphase fun _ => RunPhase.noConfusion
    refine h.pass hstaged { Bystander.refl s with } ?_ (fun _ => ?_) none
      (List.append_nil _).symm fun a ha => nomatch ha
    · refine .onward ?_ (fun _ _ _ _ _ => ProducerPhase.noConfusion)
        (fun _ _ => ProducerPhase.noConfusion) ?_
      · rw [habsent]
        rfl
      · rw [habsent]
        exact fun pid hmem => absurd hmem List.not_mem_nil
    · exact h.opened (by rw [habsent]; rfl)
  | stop | starve => exact hquiet { Bystander.refl s with } rfl rfl rfl
  | sentinel hphase hrunning hmux hitems hsuspended =>
    refine hquiet ⟨rfl, rfl, rfl, fun pid => hsuspended _⟩ rfl (by rw [hmux]) ?_
    rw [entered, entered, hitems, List.append_assoc]
    rfl
  | @take _ _ mux e hphase hrunning hmux hitems hdelivered hsuspended =>
    have hclosed : mux.closed = s.mux.closed := by rw [hmux]
    have hentered : (s.taken ++ [some e.toQueuedItem]) ++ mux.queue.items = entered s := by
      rw [entered, hitems, List.append_assoc]
      rfl
    cases hdelivered <;>
      exact hquiet ⟨rfl, rfl, rfl, fun pid => hsuspended _⟩ rfl hclosed hentered

theorem Sound.cancel {force : Bool} (h : Sound none s)
    (hstep : Runner.step cfg s (.cancel sid force) = some s') :
    Sound none s' := by
  have hstaged := h.staged.step hstep
  cases cancel_move hstep with
  | unknown => exact h
  | @known mux executors hsid hmux hitems hexecutors hsuspended =>
    have hclosed : mux.closed = s.mux.closed := by rw [hmux]
    generalize hafter : mux.queue.items = after at hitems
    cases hitems with
    | dropped =>
      refine h.quiet hstaged ⟨rfl, rfl, rfl, hsuspended⟩ rfl hclosed ?_
      show s.taken ++ mux.queue.items = _
      rw [hafter]
      rfl
    | put =>
      refine h.keep hstaged ⟨rfl, rfl, rfl, hsuspended⟩ rfl hclosed
        (some (some ⟨sid, .streamCancelled (s.partials sid)⟩)) ?_ fun a ha => ?_
      · show s.taken ++ mux.queue.items = _
        rw [hafter, ← List.append_assoc]
        rfl
      · obtain rfl := Option.some.inj ha
        exact acceptable_of_plain rfl

/-! ## Steps of the enrich tasks -/

theorem Sound.markFailed (h : Sound (some pid) s) :
    Sound (some pid) (s.markFailed (· == pid)) := by
  -- A record of the registry comes from one with the same id that owes the same.
  have hentry : ∀ entry ∈ (s.markFailed (· == pid)).registry, ∃ old ∈ s.registry,
      entry.placeholderId = old.placeholderId ∧ owes entry = owes old := by
    intro entry hmem
    rw [registry_markFailed] at hmem
    obtain ⟨old, hold, rfl⟩ := List.mem_map.mp hmem
    exact ⟨old, hold, failedIf_placeholderId _ old, owes_failedIf _ old⟩
  refine
    { h with
      recorded := fun pid' => ?_
      owed := fun he entry hmem howes hx => ?_
      first := fun he entry hmem howes => ?_
      fresh := fun he pid' hx hpid => ?_ }
  · rw [record?_markFailed, Option.isSome_map]
    exact h.recorded pid'
  · obtain ⟨old, hold, hid, howes'⟩ := hentry entry hmem
    rw [hid] at hx ⊢
    exact h.owed he old hold (howes'.symm.trans howes) hx
  · obtain ⟨old, hold, hid, howes'⟩ := hentry entry hmem
    obtain ⟨found, hfound, hfoundOwes⟩ := h.first he old hold (howes'.symm.trans howes)
    refine ⟨failedIf (· == pid) found, ?_, (owes_failedIf _ found).trans hfoundOwes⟩
    rw [hid, record?_markFailed, hfound]
    rfl
  · obtain ⟨entry, hentry, hpending⟩ := h.fresh he pid' hx hpid
    have hsame : failedIf (· == pid) entry = entry := by
      refine if_neg fun hwho => hx ?_
      rw [record?_placeholderId hentry] at hwho
      exact congrArg some (beq_iff_eq.mp hwho.1).symm
    refine ⟨entry, ?_, hpending⟩
    rw [record?_markFailed, hentry, Option.map_some, hsame]

theorem Sound.markResolved (h : Sound none s) (hphase : phase? s pid = some .resolving)
    (url : String) :
    Sound (some pid) (s.markResolved pid url) := by
  have hother : ∀ entry : PlaceholderRecord, entry.placeholderId ≠ pid →
      resolvedAs pid url entry = entry := fun entry hne => if_neg fun hall => hne hall.1
  refine
    { h with
      recorded := fun pid' => ?_
      owed := fun he entry hmem howes hx => ?_
      first := fun he entry hmem howes => ?_
      fresh := fun he pid' hx hpid => ?_ }
  · rw [record?_markResolved, Option.isSome_map]
    exact h.recorded pid'
  · rw [registry_markResolved] at hmem
    obtain ⟨old, hold, rfl⟩ := List.mem_map.mp hmem
    have hne : old.placeholderId ≠ pid := fun heq =>
      hx (congrArg some ((resolvedAs_placeholderId pid url old).trans heq).symm)
    rw [hother old hne] at howes ⊢
    exact h.owed he old hold howes (by simp)
  · rw [registry_markResolved] at hmem
    obtain ⟨old, hold, rfl⟩ := List.mem_map.mp hmem
    rw [resolvedAs_placeholderId, record?_markResolved]
    by_cases hold' : owes old = true
    · -- What was owed before stays with the record that is found.
      obtain ⟨found, hfound, hfoundOwes⟩ := h.first he old hold hold'
      refine ⟨found, ?_, hfoundOwes⟩
      rw [hfound, Option.map_some, resolvedAs_of_owes hfoundOwes]
    · -- What is owed now is the placeholder itself, and its record is still pending.
      have hchanged : old.placeholderId = pid ∧ old.state = .pending := by
        by_contra hnot
        rw [resolvedAs, if_neg hnot] at howes
        exact hold' howes
      obtain ⟨entry, hentry, hpending⟩ := h.fresh he pid (by simp) hphase
      rw [hchanged.1, hentry]
      refine ⟨_, rfl, ?_⟩
      rw [resolvedAs, if_pos ⟨record?_placeholderId hentry, hpending⟩]
      rw [resolvedAs, if_pos hchanged] at howes
      exact howes
  · have hne : pid' ≠ pid := fun heq => hx (congrArg some heq.symm)
    obtain ⟨entry, hentry, hpending⟩ := h.fresh he pid' (by simp) hpid
    refine ⟨entry, ?_, hpending⟩
    rw [record?_markResolved, hentry, Option.map_some,
      hother entry (record?_placeholderId hentry ▸ hne)]

/-- The task of `pid` has gone over to `phase`, and may have noted an announcement. -/
structure Retasked (pid : PlaceholderId) (phase : EnrichPhase) (s s' : Runner) : Prop where
  registry : s'.registry = s.registry
  producer : s'.producer = s.producer
  closed : s'.mux.closed = s.mux.closed
  phases : ∀ pid', phase? s' pid' = if pid' = pid then some phase else phase? s pid'
  emitted : ∀ pid', pid' ≠ pid → (pid' ∈ s'.emitted ↔ pid' ∈ s.emitted)
  suspended : ∀ pid', pid' ≠ pid →
    s'.mux.queue.suspended (.enrich pid') = s.mux.queue.suspended (.enrich pid')

section Task

variable {pid : PlaceholderId} {before phase : EnrichPhase}

theorem Retasked.phase_self (h : Retasked pid phase s s') : phase? s' pid = some phase :=
  (h.phases pid).trans (if_pos rfl)

variable {pid' : PlaceholderId}

theorem Retasked.phase_other (h : Retasked pid phase s s') (hne : pid' ≠ pid) :
    phase? s' pid' = phase? s pid' :=
  (h.phases pid').trans (if_neg hne)

theorem Retasked.still_announcing (h : Retasked pid phase s s')
    (hstill : announcing s pid = true → pid ∈ s'.emitted ∨ ∃ url, phase = .announcing url)
    (hwaits : announcing s pid' = true) :
    pid' ∈ s'.emitted ∨ announcing s' pid' = true := by
  by_cases heq : pid' = pid
  · subst heq
    exact (hstill hwaits).imp_right fun ⟨url, hurl⟩ =>
      announcing_iff.mpr ⟨url, hurl ▸ h.phase_self⟩
  · rw [announcing_congr (h.phase_other heq)]
    exact Or.inr hwaits

theorem Sound.not_noted (h : Sound x s) (hbefore : phase? s pid = some before)
    (hover : before ≠ .over) :
    pid ∉ s.emitted ∧ ∀ deadline pid' sid url rest,
      s.producer = .announcing deadline pid' sid url rest → pid' ≠ pid := by
  refine ⟨fun hmem => hover ?_, ?_⟩
  · exact Option.some.inj (hbefore.symm.trans (h.known pid hmem))
  · rintro deadline pid' sid url rest hphase rfl
    exact hover (Option.some.inj (hbefore.symm.trans (h.saying _ _ _ _ _ hphase).2))

theorem Sound.retask (h : Sound (some pid) s) (hbefore : phase? s pid = some before)
    (hover : before ≠ .over) (ht : Retasked pid phase s s') (hstaged : Staged s')
    (hresolving : phase ≠ .resolving)
    (hself : ∀ url, phase = .announcing url → s'.mux.queue.suspended (.enrich pid) = true)
    (hnoted : pid ∈ s'.emitted → phase = .over)
    (howed : early s.producer = true → ∀ entry ∈ s.registry, owes entry = true →
      entry.placeholderId = pid →
        pid ∈ s'.emitted ∨ (∃ url, phase = .announcing url) ∨ pid ∈ settleList s.producer)
    (hstill : announcing s pid = true → pid ∈ s'.emitted ∨ ∃ url, phase = .announcing url)
    (hcounted : ∀ pid, announcements pid (entered s') = if pid ∈ s'.emitted then 1 else 0)
    (hpreceded : Preceded (entered s')) : Sound none s' := by
  obtain ⟨-, hsaying⟩ := h.not_noted hbefore hover
  have hemitted : ∀ pid' ∈ s.emitted, pid' ∈ s'.emitted := by
    intro pid' hmem
    refine (ht.emitted pid' fun heq => ?_).mpr hmem
    exact (h.not_noted hbefore hover).1 (heq ▸ hmem)
  have hrecord : ∀ pid', s'.record? pid' = s.record? pid' := record?_congr ht.registry
  refine
    { staged := hstaged
      counted := hcounted
      recorded := fun pid' => ?_
      known := fun pid' hmem => ?_
      saying := fun deadline pid' sid url rest hproducer => ?_
      waits := fun pid' url hpid => ?_
      opened := by rw [ht.producer, ht.closed]; exact h.opened
      owed := fun he entry hmem howes _ => ?_
      first := fun he entry hmem howes => ?_
      fresh := fun he pid' _ hpid => ?_
      reported := fun placeholders next hnext p hp hreports => ?_
      preceded := hpreceded }
  · rw [hrecord, ← h.recorded, ht.phases]
    split
    next heq =>
      rw [heq, hbefore]
      rfl
    next => rfl
  · by_cases heq : pid' = pid
    · subst heq
      rw [ht.phase_self, hnoted hmem]
    · rw [ht.phase_other heq]
      exact h.known pid' ((ht.emitted pid' heq).mp hmem)
  · rw [ht.producer] at hproducer
    have hne := hsaying _ _ _ _ _ hproducer
    rw [ht.emitted pid' hne, ht.phase_other hne]
    exact h.saying _ _ _ _ _ hproducer
  · by_cases heq : pid' = pid
    · subst heq
      exact hself url (Option.some.inj (ht.phase_self.symm.trans hpid))
    · rw [ht.phase_other heq] at hpid
      rw [ht.suspended pid' heq]
      exact h.waits pid' url hpid
  · rw [ht.producer] at he ⊢
    rw [ht.registry] at hmem
    by_cases heq : entry.placeholderId = pid
    · rw [heq]
      rcases howed he entry hmem howes heq with hsaid | ⟨url, hurl⟩ | hlist
      · exact Or.inl hsaid
      · exact Or.inr (Or.inl (announcing_iff.mpr ⟨url, hurl ▸ ht.phase_self⟩))
      · exact Or.inr (Or.inr hlist)
    · rcases h.owed he entry hmem howes fun hx => heq (Option.some.inj hx).symm with
        hsaid | hwaits | hlist
      · exact Or.inl (hemitted _ hsaid)
      · exact (ht.still_announcing hstill hwaits).imp_right Or.inl
      · exact Or.inr (Or.inr hlist)
  · rw [ht.producer] at he
    rw [ht.registry] at hmem
    rw [hrecord]
    exact h.first he entry hmem howes
  · rw [ht.producer] at he
    by_cases heq : pid' = pid
    · subst heq
      exact absurd (Option.some.inj (ht.phase_self.symm.trans hpid)) hresolving
    · rw [ht.phase_other heq] at hpid
      rw [hrecord]
      exact h.fresh he pid' (fun hx => heq (Option.some.inj hx).symm) hpid
  · rw [ht.producer] at hnext
    rcases h.reported placeholders next hnext p hp hreports with hsaid | hwaits
    · exact Or.inl (hemitted _ hsaid)
    · exact ht.still_announcing hstill hwaits

theorem phase?_retask (ht : t.enrichTasks = s.enrichTasks) (hbefore : phase? s pid = some before)
    (phase : EnrichPhase) (pid' : PlaceholderId) :
    phase? (t.setEnrichTask pid phase) pid' = if pid' = pid then some phase else phase? s pid' := by
  rw [phase?_setEnrichTask, phase?_congr ht]
  split
  next heq => rw [heq, hbefore, Option.map_some]
  next => rfl

theorem Sound.retire (h : Sound (some pid) s) (hbefore : phase? s pid = some .resolving)
    (hstaged : Staged (s.setEnrichTask pid .over))
    (howed : early s.producer = true → ∀ entry ∈ s.registry, owes entry = true →
      entry.placeholderId = pid → pid ∈ settleList s.producer) :
    Sound none (s.setEnrichTask pid .over) := by
  refine h.retask hbefore EnrichPhase.noConfusion
    ⟨rfl, rfl, rfl, phase?_retask rfl hbefore .over, fun _ _ => Iff.rfl, fun _ _ => rfl⟩ hstaged
    EnrichPhase.noConfusion (fun _ hphase => EnrichPhase.noConfusion hphase) (fun _ => rfl) ?_ ?_
    h.counted h.preceded
  · exact fun he entry hmem howes heq => Or.inr (Or.inr (howed he entry hmem howes heq))
  · intro hwaits
    obtain ⟨url, hurl⟩ := announcing_iff.mp hwaits
    rw [hbefore] at hurl
    exact EnrichPhase.noConfusion (Option.some.inj hurl)

theorem Sound.counted_note (h : Sound x s) (hpid : pid ∉ s.emitted) (sid : StreamId)
    (url : String) (pid' : PlaceholderId) :
    announcements pid' (entered s ++ [some ⟨sid, .enrichResolved pid url⟩]) =
      if pid' ∈ s.emitted ++ [pid] then 1 else 0 := by
  have hcount : (entered s).countP (isAnnouncement pid') = _ := h.counted pid'
  rw [announcements, List.countP_append, List.countP_singleton, hcount]
  by_cases heq : pid' = pid
  · subst heq
    simp [isAnnouncement, hpid]
  · simp [isAnnouncement, heq, Ne.symm heq]

theorem Sound.preceded_note (h : Sound x s) (pid : PlaceholderId) (sid : StreamId) (url : String) :
    Preceded (entered s ++ [some ⟨sid, .enrichResolved pid url⟩]) :=
  h.preceded.append fun _ _ ha => EventData.noConfusion (QueuedItem.mk.inj (Option.some.inj ha)).2

/-- A task that found space has announced its placeholder; one that waits still will, and one
that raises leaves it to the settle window. -/
theorem Sound.announce {url : String} (h : Sound (some pid) s)
    (hbefore : phase? s pid = some before) (hover : before ≠ .over)
    (hmove : AnnounceMove s pid sid url s') (hstaged : Staged s')
    (hroom : before = .resolving → early s.producer = true →
      roomy s ∨ pid ∈ settleList s.producer) : Sound none s' := by
  obtain ⟨hpid, -⟩ := h.not_noted hbefore hover
  cases hmove with
  | emit hemitted =>
    have hentered := Aside.entered hemitted.aside
    cases hemitted with
    | returned mux hmux hitems hothers =>
      refine h.retask hbefore hover ⟨rfl, rfl, ?_, ?_, ?_, ?_⟩ hstaged
        EnrichPhase.noConfusion (fun _ hphase => EnrichPhase.noConfusion hphase)
        (fun _ => rfl) ?_ ?_ ?_ ?_
      · show mux.closed = s.mux.closed
        rw [hmux]
      · exact phase?_retask rfl hbefore .over
      · intro pid' hne
        simp [Runner.setEnrichTask, hne]
      · exact fun pid' hne => hothers _ fun heq => hne (Owner.enrich.inj heq)
      · exact fun _ _ _ _ _ => Or.inl (List.mem_append_right _ (List.mem_singleton_self pid))
      · exact fun _ => Or.inl (List.mem_append_right _ (List.mem_singleton_self pid))
      · exact fun pid' => (congrArg (announcements pid') hentered).trans
          (h.counted_note hpid sid url pid')
      · exact hentered ▸ h.preceded_note pid sid url
  | wait hemitted =>
    have hentered := (Aside.entered hemitted.aside).trans (List.append_nil _)
    cases hemitted with
    | waiting mux hmux hitems hothers hself =>
      have ht : Retasked pid (.announcing url) s
          ({ s with mux := mux }.setEnrichTask pid (.announcing url)) := by
        refine ⟨rfl, rfl, ?_, phase?_retask rfl hbefore (.announcing url), fun _ _ => Iff.rfl,
          fun pid' hne => hothers _ fun heq => hne (Owner.enrich.inj heq)⟩
        show mux.closed = s.mux.closed
        rw [hmux]
      refine h.retask hbefore hover ht hstaged EnrichPhase.noConfusion (fun _ _ => hself)
        (fun hmem => absurd hmem hpid) ?_ ?_ ?_ ?_
      · exact fun _ _ _ _ _ => Or.inr (Or.inl ⟨url, rfl⟩)
      · exact fun _ => Or.inr ⟨url, rfl⟩
      · exact fun pid' => (congrArg (announcements pid') hentered).trans (h.counted pid')
      · exact hentered ▸ h.preceded
  | raise hemitted =>
    obtain ⟨hraised, hfresh⟩ := hemitted.cause
    -- A task that waits does not raise any more.
    obtain rfl : before = .resolving := by
      cases before with
      | resolving => rfl
      | announcing url =>
        have hwaits := h.waits pid url hbefore
        rw [hfresh] at hwaits
        exact Bool.noConfusion hwaits
      | _ => exact absurd rfl hover
    refine h.markFailed.retire hbefore hstaged fun he _ _ _ _ => ?_
    refine (hroom rfl he).resolve_left fun hroomy => ?_
    rcases hraised with hclosed | ⟨hfail, hfull⟩
    · have hopen := h.opened (isClosing_of_early he)
      rw [hclosed] at hopen
      exact Bool.noConfusion hopen
    · have hspace := hroomy hfail
      rw [hfull] at hspace
      exact Bool.noConfusion hspace

theorem Sound.enrich (h : Sound none s) (hstep : Runner.step cfg s (.enrich pid) = some s') :
    Sound none s' := by
  obtain ⟨task, url, htask, hphase, hmove⟩ := enrichTurn_move hstep
  have hbefore : phase? s pid = some (.announcing url) := hphase ▸ phase?_of_task htask
  exact (h.weaken pid).announce hbefore EnrichPhase.noConfusion hmove (h.staged.step hstep)
    fun hresolving => EnrichPhase.noConfusion hresolving

theorem Sound.not_owed (h : Sound none s) (hphase : phase? s pid = some .resolving)
    (he : early s.producer = true) (hmem : entry ∈ s.registry) (hid : entry.placeholderId = pid) :
    owes entry = false := by
  by_contra howes
  obtain ⟨found, hfound, hfoundOwes⟩ := h.first he entry hmem (by simpa using howes)
  obtain ⟨entry', hentry', hpending⟩ := h.fresh he pid (by simp) hphase
  rw [hid, hentry'] at hfound
  rw [← Option.some.inj hfound, owes, hpending] at hfoundOwes
  exact Bool.noConfusion hfoundOwes

theorem Sound.enriched {answer : Option String} (h : Sound none s)
    (hheeded : heeded cfg s (.enriched pid answer))
    (hstep : Runner.step cfg s (.enriched pid answer) = some s') : Sound none s' := by
  have hstaged := h.staged.step hstep
  obtain ⟨task, htask, hphase, hmove⟩ := enriched_move hstep
  have hbefore : phase? s pid = some .resolving := hphase ▸ phase?_of_task htask
  cases hmove with
  | failed hanswer =>
    refine (h.weaken pid).markFailed.retire hbefore hstaged fun he entry hmem howes heq => ?_
    rw [registry_markFailed] at hmem
    obtain ⟨old, hold, rfl⟩ := List.mem_map.mp hmem
    rw [failedIf_placeholderId] at heq
    rw [owes_failedIf, h.not_owed hbefore he hold heq] at howes
    exact Bool.noConfusion howes
  | resolved url hanswer hlazy =>
    subst hanswer
    refine (h.markResolved hbefore url).retire hbefore hstaged fun he entry hmem howes heq => ?_
    rw [registry_markResolved] at hmem
    obtain ⟨old, hold, rfl⟩ := List.mem_map.mp hmem
    rw [resolvedAs_placeholderId] at heq
    have hurl : url ≠ "" := owes_resolvedAs howes (h.not_owed hbefore he hold heq)
    exact (hheeded hurl he).resolve_left fun heager => hlazy ⟨heager.1, hurl⟩
  | announce url hanswer heager hurl hmove =>
    subst hanswer
    refine (h.markResolved hbefore url).announce hbefore EnrichPhase.noConfusion hmove hstaged ?_
    exact fun _ he => (hheeded hurl he).imp_left And.right

end Task

/-! ## Steps of `_produce` -/

section Window

variable {t : Runner} {deadline : Nat} {pid : PlaceholderId} {url : String}
  {rest : List PlaceholderId}

theorem settleList_of_announces (h : Announces s deadline pid sid url rest) :
    settleList s.producer = pid :: rest ∧ early s.producer = true := by
  rcases h with hproducer | ⟨hproducer, -⟩ <;> simp [hproducer, settleList, early]

theorem Sound.announces (h : Sound none s) (hheeded : heeded cfg s .producer)
    (hannounces : Announces s deadline pid sid url rest) :
    pid ∉ s.emitted ∧ phase? s pid = some .over := by
  rcases hannounces with hproducer | ⟨hproducer, hannounceable⟩
  · exact h.saying _ _ _ _ _ hproducer
  · obtain ⟨hemitted, entry, hentry, hresolved⟩ := announceable_eq_some hannounceable
    refine ⟨hemitted, ?_⟩
    rw [heeded, hproducer] at hheeded
    have hquiet := hheeded (by rw [hannounceable]; exact Option.some_ne_none _)
    have hrecorded := h.recorded pid
    rw [hentry, Option.isSome_some, Option.isSome_iff_exists] at hrecorded
    obtain ⟨phase, hphase⟩ := hrecorded
    cases phase with
    | resolving =>
      obtain ⟨entry', hentry', hpending⟩ :=
        h.fresh (by rw [hproducer]; rfl) pid (by simp) hphase
      rw [hentry] at hentry'
      rw [← Option.some.inj hentry', hresolved] at hpending
      exact PlaceholderState.noConfusion hpending
    | announcing url' =>
      rw [announcing_iff.mpr ⟨url', hphase⟩] at hquiet
      exact Bool.noConfusion hquiet
    | _ => exact hphase

theorem Sound.settled (h : Sound none s) (he : early s.producer = true)
    (hmem : entry ∈ s.registry) (howes : owes entry = true)
    (hnone : s.announceable entry.placeholderId = none) : entry.placeholderId ∈ s.emitted := by
  obtain ⟨found, hfound, hfoundOwes⟩ := h.first he entry hmem howes
  by_contra hpid
  exact announceable_ne_none hfound hfoundOwes hpid hnone

theorem Sound.note (h : Sound (some pid) s) (hpid : pid ∉ s.emitted)
    (hphase : phase? s pid = some .over)
    (hsaying : ∀ deadline pid sid url rest,
      s.producer ≠ .announcing deadline pid sid url rest)
    (hemitted : Emitted s .producer ⟨sid, .enrichResolved pid url⟩ (t, .returned))
    (hstaged : Staged { t with emitted := t.emitted ++ [pid] }) :
    Sound none { t with emitted := t.emitted ++ [pid] } := by
  have hentered := Aside.entered hemitted.aside
  cases hemitted with
  | returned mux hmux hitems hothers =>
    refine
      { staged := hstaged
        counted := fun pid' => ?_
        recorded := h.recorded
        known := fun pid' hmem => ?_
        saying := fun _ _ _ _ _ hproducer => absurd hproducer (hsaying _ _ _ _ _)
        waits := fun pid' url' hpid' => ?_
        opened := ?_
        owed := fun he entry hmem howes _ => ?_
        first := h.first
        fresh := fun he pid' _ hpid' => ?_
        reported := fun placeholders next hnext p hp hreports => ?_
        preceded := ?_ }
    · exact (congrArg (announcements pid') hentered).trans (h.counted_note hpid sid url pid')
    · rcases List.mem_append.mp hmem with hmem | hmem
      · exact h.known pid' hmem
      · rw [List.mem_singleton.mp hmem]
        exact hphase
    · exact (hothers _ Owner.noConfusion).trans (h.waits pid' url' hpid')
    · show isClosing s.producer = false → mux.closed = false
      rw [hmux]
      exact h.opened
    · by_cases heq : entry.placeholderId = pid
      · exact Or.inl (List.mem_append_right _ (List.mem_singleton.mpr heq))
      · exact (h.owed he entry hmem howes fun hx => heq (Option.some.inj hx).symm).imp_left
          (List.mem_append_left _)
    · refine h.fresh he pid' (fun hx => ?_) hpid'
      rw [← Option.some.inj hx] at hpid'
      exact EnrichPhase.noConfusion (Option.some.inj (hphase.symm.trans hpid'))
    · exact (h.reported placeholders next hnext p hp hreports).imp_left (List.mem_append_left _)
    · exact hentered ▸ h.preceded_note pid sid url

theorem Sound.markAll (h : Sound none s) (hlate : early s.producer = false) :
    Sound none (s.markFailed fun _ => true) where
  __ := h
  recorded pid := by
    rw [record?_markFailed, Option.isSome_map]
    exact h.recorded pid
  owed he := Bool.noConfusion (hlate.symm.trans he)
  first he := Bool.noConfusion (hlate.symm.trans he)
  fresh he := Bool.noConfusion (hlate.symm.trans he)

theorem Sound.go (h : Sound none s) (hmoved : Moved x s next)
    (hopened : isClosing next = false → isClosing s.producer = false) :
    Sound x { s with producer := next } :=
  h.pass h.staged { Bystander.refl s with } hmoved (fun hnext => h.opened (hopened hnext)) none
    (List.append_nil _).symm fun _ ha => nomatch ha

theorem Sound.onward (h : Sound none s) (hearly : early s.producer = true)
    (hsaying : ∀ deadline pid sid url rest, next ≠ .announcing deadline pid sid url rest)
    (hmanifest : ∀ placeholders sid, next ≠ .manifest placeholders sid)
    (hlist : ∀ pid ∈ settleList s.producer, pid ∈ settleList next) :
    Sound none { s with producer := next } :=
  h.go (.onward hearly hsaying hmanifest hlist) fun _ => isClosing_of_early hearly

theorem Sound.advance (h : Sound none s) (hadvances : Advances cfg s next) :
    Sound none { s with producer := next } := by
  cases hadvances with
  | gathered hproducer | report hproducer | await hproducer =>
    exact h.onward (by simp [hproducer, early]) (by simp) (by simp)
      (by simp [hproducer, settleList])
  | skip hproducer hready hnone =>
    have hearly : early s.producer = true := by simp [hproducer, early]
    refine h.go ⟨by simp, fun _ => hearly, ?_, by simp⟩ fun _ => isClosing_of_early hearly
    intro _ entry hmem howes _ hlist
    rw [hproducer] at hlist
    rcases List.mem_cons.mp hlist with heq | hrest
    · exact Or.inl (h.settled hearly hmem howes (heq ▸ hnone))
    · exact Or.inr (Or.inr hrest)
  | manifested hproducer => exact h.go (.late rfl (by simp)) (by simp [hproducer, isClosing])
  | finished | failed | closed => exact h.go (.late rfl (by simp)) (by simp [isClosing])

theorem reports_snapshot {p : ManifestPlaceholder} (hp : p ∈ s.snapshot)
    (hreports : reports p = true) :
    ∃ entry ∈ s.registry, entry.placeholderId = p.placeholderId ∧ owes entry = true := by
  obtain ⟨entry, hmem, rfl⟩ := List.mem_map.mp hp
  refine ⟨entry, hmem, rfl, ?_⟩
  rw [reports, Bool.and_eq_true, decide_eq_true_eq] at hreports
  rw [owes, Bool.and_eq_true, decide_eq_true_eq]
  refine ⟨hreports.1, ?_⟩
  rw [if_pos hreports.1] at hreports
  exact hreports.2

section

variable (h : Sound none s)
include h

theorem Sound.endSettle (hheeded : heeded cfg s .producer)
    (hproducer : s.producer = .settling deadline rest) (hrest : rest = [] ∨ deadline ≤ s.now) :
    Sound none (s.endSettle cfg) := by
  have hearly : early s.producer = true := by simp [hproducer, early]
  rw [heeded, hproducer] at hheeded
  have hentry : ∀ entry ∈ s.registry, owes entry = true → entry.placeholderId ∈ s.emitted ∨
      announcing s entry.placeholderId = true := by
    intro entry hmem howes
    rcases h.owed hearly entry hmem howes (by simp) with hsaid | hwaits | hlist
    · exact Or.inl hsaid
    · exact Or.inr hwaits
    · rw [hproducer] at hlist
      rcases hrest with rfl | hnow
      · exact absurd hlist List.not_mem_nil
      · exact (hheeded hnow _ hlist).imp_left (h.settled hearly hmem howes)
  have hbuild (placeholders : List ManifestPlaceholder)
      (hreported : ∀ p ∈ placeholders, reports p = true →
        ∃ entry ∈ s.registry, entry.placeholderId = p.placeholderId ∧ owes entry = true) :
      Sound none { s with producer := .manifest placeholders 0 } := by
    refine h.go ⟨by simp, by simp [early], by simp [early], ?_⟩ fun _ => isClosing_of_early hearly
    rintro _ _ ⟨⟩ p hp hreports
    obtain ⟨entry, hmem, hid, howes⟩ := hreported p hp hreports
    exact hid ▸ hentry entry hmem howes
  rw [Runner.endSettle]
  split
  · exact hbuild _ fun p => reports_snapshot
  · refine (hbuild _ fun p hp hreports => ?_).markAll rfl
    obtain ⟨entry, hmem, hid, howes⟩ := reports_snapshot hp hreports
    rw [registry_markFailed] at hmem
    obtain ⟨old, hold, rfl⟩ := List.mem_map.mp hmem
    rw [failedIf_placeholderId] at hid
    rw [owes_failedIf] at howes
    exact ⟨old, hold, hid, howes⟩

theorem Sound.produce {raised : ProducerPhase} (hheeded : heeded cfg s .producer)
    (hproduces : Produces cfg s sid event next raised)
    (hemitted : Emitted s .producer ⟨sid, event⟩ (t, .returned))
    (hstep : Runner.step cfg s .producer = some { t with producer := next }) :
    Sound none { t with producer := next } := by
  have hby := Bystander.of_emitted hemitted fun _ => Owner.noConfusion
  have haside := hemitted.aside
  have hput (hmoved : Moved none s next) (hopened : isClosing s.producer = false)
      (hacceptable : Acceptable s (some ⟨sid, event⟩)) :
        Sound none { t with producer := next } := by
    refine h.pass (h.staged.step hstep) { hby with } hmoved (fun _ => ?_) (some (some ⟨sid, event⟩))
      (Aside.entered haside) fun a ha => ?_
    · show t.mux.closed = false
      rw [haside.closed]
      exact h.opened hopened
    · obtain rfl := Option.some.inj ha
      exact hacceptable
  cases hproduces with
  | report hproducer =>
    refine hput (.onward ?_ (by simp) (by simp) ?_) (by simp [hproducer, isClosing])
      (acceptable_of_plain rfl)
    · simp [hproducer, early]
    · simp [hproducer, settleList]
  | @manifest placeholders _ hproducer =>
    rw [heeded, hproducer] at hheeded
    have hquiet := hheeded (by rw [put?_eq hstep haside.items]; exact Option.some_ne_none _)
    refine hput ⟨by simp, by simp [early], by simp [early], ?_⟩ (by simp [hproducer, isClosing])
      ⟨fun _ => rfl, ?_⟩
    · rintro _ _ ⟨⟩
      exact h.reported placeholders _ hproducer
    · rintro _ _ ⟨⟩ p hp hreports
      refine (h.reported placeholders _ hproducer p hp hreports).resolve_right fun hwaits => ?_
      rw [hquiet p hp hreports] at hwaits
      exact Bool.noConfusion hwaits
  | finish hproducer | fail hproducer =>
    exact hput (.late rfl (by simp)) (by simp [hproducer, isClosing]) (acceptable_of_plain rfl)

theorem Sound.stay (hemitted : Emitted s o item (t, .waiting)) (ho : ∀ pid, .enrich pid ≠ o)
    (hstaged : Staged t) :
    Sound none t := by
  have haside := hemitted.aside
  exact h.quiet hstaged (.of_emitted hemitted ho) haside.producer haside.closed
    ((Aside.entered haside).trans (List.append_nil _))

theorem Sound.windowPut (hheeded : heeded cfg s .producer)
    (hannounces : Announces s deadline pid sid url rest)
    (hemitted : Emitted s .producer ⟨sid, .enrichResolved pid url⟩ (t, .returned))
    (hstaged : Staged
      { t with emitted := t.emitted ++ [pid], producer := .settling deadline rest }) :
    Sound none { t with emitted := t.emitted ++ [pid], producer := .settling deadline rest } := by
  obtain ⟨hlist, hearly⟩ := settleList_of_announces hannounces
  obtain ⟨hpid, hphase⟩ := h.announces hheeded hannounces
  have hmoved : Moved (some pid) s (.settling deadline rest) := by
    refine ⟨by simp, fun _ => hearly, fun _ entry _ _ hx hmem => ?_, by simp⟩
    rw [hlist] at hmem
    have hne : entry.placeholderId ≠ pid := fun heq => hx (congrArg some heq.symm)
    exact Or.inr (Or.inr ((List.mem_cons.mp hmem).resolve_left hne))
  have hsettling := h.go hmoved fun _ => isClosing_of_early hearly
  cases hemitted with
  | returned mux hmux hitems hothers =>
    exact hsettling.note hpid hphase (by simp) (.returned mux hmux hitems hothers) hstaged

theorem Sound.windowWait (hheeded : heeded cfg s .producer)
    (hannounces : Announces s deadline pid sid url rest)
    (hemitted : Emitted s .producer ⟨sid, .enrichResolved pid url⟩ (t, .waiting))
    (hstaged : Staged { t with producer := .announcing deadline pid sid url rest }) :
    Sound none { t with producer := .announcing deadline pid sid url rest } := by
  obtain ⟨hlist, hearly⟩ := settleList_of_announces hannounces
  have hmoved : Moved none s (.announcing deadline pid sid url rest) := by
    refine ⟨?_, fun _ => hearly, fun _ entry _ _ _ hmem => ?_, by simp⟩
    · rintro _ _ _ _ _ ⟨⟩
      exact h.announces hheeded hannounces
    · rw [hlist] at hmem
      exact Or.inr (Or.inr hmem)
  have hannouncing := h.go hmoved fun _ => isClosing_of_early hearly
  cases hemitted with
  | waiting mux hmux hitems hothers hself =>
    have hwaiting : Emitted { s with producer := .announcing deadline pid sid url rest } .producer
        ⟨sid, .enrichResolved pid url⟩ _ := .waiting mux hmux hitems hothers hself
    exact hannouncing.stay hwaiting (fun _ => Owner.noConfusion) hstaged

theorem Sound.close {mux : RunMux}
    (hmux : mux = (s.mux.closeStream .producer sid).1) (hnext : isClosing next = true)
    (hstaged : Staged { s with mux := mux, producer := next }) :
    Sound none { s with mux := mux, producer := next } := by
  have hlate : early next = false := by
    by_contra hearly
    rw [isClosing_of_early (by simpa using hearly)] at hnext
    exact Bool.noConfusion hnext
  have hmoved : Moved none s next := by
    refine .late hlate fun _ _ hmanifest => ?_
    rw [hmanifest] at hnext
    exact Bool.noConfusion hnext
  have hby : Bystander s { s with mux := mux, producer := next } :=
    ⟨rfl, rfl, rfl, fun _ => hmux ▸ closeStream_suspended s.mux Owner.noConfusion sid⟩
  have hpass := h.pass hstaged hby hmoved fun hopen => Bool.noConfusion (hopen.symm.trans hnext)
  rcases closeStream_items s.mux .producer sid with hitems | hitems
  · refine hpass none ?_ fun a ha => nomatch ha
    show s.taken ++ mux.queue.items = _
    rw [hmux, hitems, Option.toList, List.append_nil]
    rfl
  · refine hpass (some none) ?_ fun a ha => ?_
    · show s.taken ++ mux.queue.items = _
      rw [hmux, hitems, ← List.append_assoc]
      rfl
    · obtain rfl := Option.some.inj ha
      exact ⟨fun _ => rfl, fun _ _ hitem => absurd hitem (by simp)⟩

theorem Sound.producer (htimeout : 0 < cfg.enrichSettleTimeout) (hheeded : heeded cfg s .producer)
    (hstep : Runner.step cfg s .producer = some s') :
    Sound none s' := by
  have hstaged := h.staged.step hstep
  cases producerTurn_move hstep with
  | spawn hproducer =>
    refine h.pass hstaged { Bystander.refl s with } (.onward ?_ (by simp) (by simp) ?_)
      (fun _ => h.opened ?_) none (List.append_nil _).symm fun _ ha => nomatch ha
    · simp [hproducer, early]
    · simp [hproducer, settleList]
    · simp [hproducer, isClosing]
  | advance next hadvances => exact h.advance hadvances
  | beginSettle hproducer hsid =>
    rw [Runner.beginSettle, if_neg (Nat.pos_iff_ne_zero.mp htimeout)]
    exact h.onward (by simp [hproducer, early]) (by simp) (by simp)
      (by simp [hproducer, settleList])
  | endSettle hproducer hrest => exact h.endSettle hheeded hproducer hrest
  | announce hannounces hemitted => exact h.windowPut hheeded hannounces hemitted hstaged
  | announceWait hannounces hemitted => exact h.windowWait hheeded hannounces hemitted hstaged
  | announceRaise hannounces =>
    exact h.go (.late rfl (by simp)) fun _ =>
      isClosing_of_early (settleList_of_announces hannounces).2
  | produce hproduces hemitted => exact h.produce hheeded hproduces hemitted hstep
  | produceWait hproduces hemitted =>
    exact h.stay hemitted (fun _ => Owner.noConfusion) hstaged
  | produceRaise hproduces =>
    cases hproduces with
    | report hproducer =>
      exact h.onward (by simp [hproducer, early]) (by simp) (by simp)
        (by simp [hproducer, settleList])
    | manifest hproducer | finish hproducer
    | fail hproducer => exact h.go (.late rfl (by simp)) (by simp [hproducer, isClosing])
  | close => exact h.close rfl rfl hstaged
  | closeWait hproducer =>
    exact h.close rfl (congrArg isClosing hproducer) hstaged

end

end Window

/-! ## Runs -/

theorem Sound.step {e : Runner.Step} (h : Sound none s) (hbegun : Begun s)
    (htimeout : 0 < cfg.enrichSettleTimeout) (hheeded : heeded cfg s e)
    (hstep : Runner.step cfg s e = some s') : Sound none s' := by
  have hstaged := h.staged.step hstep
  cases e with
  | run => exact h.run hbegun hstep
  | producer => exact h.producer htimeout hheeded hstep
  | executor sid =>
    obtain ⟨_, _, _, -, rfl, -⟩ := executorTurn_move hstep
    exact h.quiet hstaged { Bystander.refl s with } rfl rfl rfl
  | stage sid index =>
    obtain ⟨task, htask, hmove⟩ := stageTurn_move hstep
    have hregisters := stage_registers hmove
    rcases hmove.aside with haside | ⟨event, rest, -, htodo, haside⟩
    · exact h.stage hstaged hregisters haside fun _ hitem => nomatch hitem
    · refine h.stage hstaged hregisters haside fun item hitem => ?_
      obtain rfl := Option.some.inj hitem
      exact h.staged sid index task htask event (htodo ▸ List.mem_cons_self ..)
  | source sid index chunk =>
    obtain ⟨task, htask, -, -, hmove⟩ := source_move hstep
    have hregisters := source_registers htask hmove
    rcases hmove.aside htask with haside | ⟨-, event, todo, hits, hchunk, haside⟩
    · exact h.stage hstaged hregisters haside fun _ hitem => nomatch hitem
    · refine h.stage hstaged hregisters haside fun item hitem => ?_
      obtain rfl := Option.some.inj hitem
      exact hchunk.stageEvent (List.mem_cons_self ..)
  | enrich pid => exact h.enrich hstep
  | enriched pid answer => exact h.enriched hheeded hstep
  | cancel sid force => exact h.cancel hstep
  | tick ms | disconnect | reconnect =>
    obtain rfl := Option.some.inj hstep
    exact { h with }

/-- In every run with a settle window in which no answer falls between the two announcers, each
placeholder is announced once, and before every manifest that has it with a url. -/
theorem announced_once (cfg : StreamConfig) (htimeout : 0 < cfg.enrichSettleTimeout)
    (steps : List Runner.Step) (s : Runner)
    (hheeded : Along (Runner.step cfg) (heeded cfg) (Runner.fresh cfg) steps)
    (hrun : run (Runner.step cfg) (Runner.fresh cfg) steps = some s) : Announced s := by
  have hinvariant : Begun s ∧ Sound none s :=
    run_invariant_along (I := fun s => Begun s ∧ Sound none s)
      (fun s e s' h hheeded hstep => ⟨h.1.step hstep, h.2.step h.1 htimeout hheeded hstep⟩)
      ⟨fresh_begun cfg, fresh_sound cfg⟩ hheeded hrun
  exact hinvariant.2.announced

instance (cfg : StreamConfig) (s : Runner) (e : Runner.Step) : Decidable (heeded cfg s e) := by
  unfold heeded roomy
  split
  · infer_instance
  · split <;> infer_instance
  · infer_instance

def single (eager : Bool) : StreamConfig := { stages := [.serial], enrichEager := eager }

def marked : List Runner.Step :=
  [.run, .run, .run, .run, .producer, .executor 0, .source 0 0 (.marked [] 1 false), .stage 0 0,
    .stage 0 0, .enriched 0 (some "u"), .source 0 0 .exhausted, .stage 0 0, .stage 0 0, .stage 0 0,
    .executor 0] ++ List.replicate 5 .producer

def withUrl : EventData := .streamManifest [⟨0, .resolved, some "u"⟩]

theorem announced_once_eager :
    Along (Runner.step (single true)) (heeded (single true)) (Runner.fresh (single true)) marked ∧
      (run (Runner.step (single true)) (Runner.fresh (single true)) marked).map
        (fun s => ((entered s).contains (some ⟨0, withUrl⟩), announcements 0 (entered s))) =
          some (true, 1) ∧
      Announced (replay (Runner.step (single true)) (Runner.fresh (single true)) marked) := by
  have hheeded : Along (Runner.step (single true)) (heeded (single true))
      (Runner.fresh (single true)) marked := by decide +kernel
  have hreported : (run (Runner.step (single true)) (Runner.fresh (single true)) marked).map
      (fun s => ((entered s).contains (some ⟨0, withUrl⟩), announcements 0 (entered s))) =
        some (true, 1) := by decide +kernel
  refine ⟨hheeded, hreported, announced_once (single true) (by decide) marked _ hheeded
    (run_eq_replay ?_)⟩
  exact Option.isSome_map.symm.trans (congrArg Option.isSome hreported)

/-- Without `enrich_eager` the same answer comes before the settle window opens, and the window
does not look at what is resolved by then. -/
theorem announcement_missing :
    (run (Runner.step (single false)) (Runner.fresh (single false)) marked).map
        (fun s => ((entered s).contains (some ⟨0, withUrl⟩), announcements 0 (entered s))) =
      some (true, 0) := by
  decide +kernel

end Orditect.Stream.Enrich.Proofs
