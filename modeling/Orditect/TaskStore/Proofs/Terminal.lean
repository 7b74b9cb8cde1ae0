import Orditect.TaskStore.System
/-!
# Terminal statuses are final within a generation

Every write of a record either keeps its execution id, and then the update script has
compared the two statuses itself, or installs the id generated for that very call.
An id is generated once, so it never comes back after a later one replaced it.
-/

namespace Orditect.TaskStore.Proofs

open Support.Expiring Support.LuaJson Support.Transition

variable {ν : Type}

def Rewrites (s s' : Store ν) (t : String) (f : Fields ν) : Prop :=
  ∃ n, s'.records = Function.update s.records t (Cell.setEx s.now n f)

variable {x : String} {f : Fields ν} {t : String} {c : Nat} {other : Call ν} {e status : String}

theorem field_congr {s s' : Store ν} (h : s'.records x = s.records x) (k : String) :
    field s' x k = field s x k := by
  unfold field getTask
  rw [h]

theorem Rewrites.field_self {s s' : Store ν} (h : Rewrites s s' t f) (k : String) :
    field s' t k = f k := by
  obtain ⟨n, hrec⟩ := h
  unfold field getTask
  rw [hrec, Function.update_self]
  rfl

theorem Rewrites.records_ne {s s' : Store ν} (h : Rewrites s s' t f) (hx : x ≠ t) :
    s'.records x = s.records x := by
  obtain ⟨n, hrec⟩ := h
  rw [hrec, Function.update_of_ne hx]

theorem Rewrites.field_ne {s s' : Store ν} (h : Rewrites s s' t f) (hx : x ≠ t) (k : String) :
    field s' x k = field s x k :=
  field_congr (h.records_ne hx) k

/-! ## What the scripts do to the records -/

variable {call : Call ν} {cfg : Config} {client : Nat} {s s' : State ν} {current updates : Fields ν}

section Scripts

variable [DecidableEq ν] [LuaNumber ν]

theorem migrateStatus_frame (old new : Json ν) (t : String) (n : Nat) (s : Store ν) :
    (migrateStatus old new t n s).2.now = s.now ∧
      (migrateStatus old new t n s).2.records = s.records ∧
      (migrateStatus old new t n s).2.childrenIndex = s.childrenIndex := by
  unfold migrateStatus
  dsimp only
  split
  · exact ⟨rfl, rfl, rfl⟩
  · split
    · split <;> exact ⟨rfl, rfl, rfl⟩
    · split <;> split <;> exact ⟨rfl, rfl, rfl⟩

/-- The writes the scripts share: the record, out of the index of `old`, into that of
`status`. -/
def relabel (t : String) (f : Fields ν) (n : Nat) (old : Option String) (status : String)
    (s : Store ν) : Store ν :=
  let s := setRecord t f n s
  let s := match old with
    | some word => dropStatus word t s
    | none => s
  if status ≠ "" then leaseStatus status t n s else s

omit [DecidableEq ν] in
theorem relabel_frame (t : String) (f : Fields ν) (n : Nat) (old : Option String)
    (status : String) (s : Store ν) :
    (relabel t f n old status s).now = s.now ∧
      (relabel t f n old status s).records =
        Function.update s.records t (Cell.setEx s.now n f.recode) ∧
      (relabel t f n old status s).childrenIndex = s.childrenIndex := by
  unfold relabel
  cases old <;> dsimp only <;> split <;> exact ⟨rfl, rfl, rfl⟩

omit [DecidableEq ν] in
theorem relabel_drop (old status t : String) (f : Fields ν) (n : Nat) (s : Store ν) :
    (if status ≠ "" then
        leaseStatus status t n
          (if old ≠ "" then dropStatus old t (setRecord t f n s) else setRecord t f n s)
      else if old ≠ "" then dropStatus old t (setRecord t f n s) else setRecord t f n s) =
      relabel t f n (if old ≠ "" then some old else none) status s := by
  unfold relabel
  by_cases hold : old = "" <;> simp [hold]

def enlist (parentId t : String) (n : Nat) (s : Store ν) : Store ν :=
  if parentId ≠ "" then leaseChild parentId t n s else s

omit [DecidableEq ν] [LuaNumber ν] in
theorem enlist_frame (parentId t : String) (n : Nat) (s : Store ν) :
    (enlist parentId t n s).now = s.now ∧ (enlist parentId t n s).records = s.records := by
  unfold enlist
  split <;> exact ⟨rfl, rfl⟩

def rewrittenFor (cfg : Config) (s : Store ν) (t : String) (expiry : Option Int) : Nat :=
  (effectiveExpiry cfg (expiry.getD (-1)) ((s.records t).ttl s.now)).toNat

inductive Performs (cfg : Config) (s : Store ν) : Call ν → Store ν → Prop
  | still (call : Call ν) : Performs cfg s call s
  | initializes (t : String) (expiry : Option Int) (status : String) (ifNotExists : Bool)
      (parent : Option String) (timestamp eid : String)
      (hnew : ifNotExists = false ∨ s.records t = none)
      (hn : 0 < (expiry.getD cfg.defaultExpireTime).toNat) :
      Performs cfg s (.initializeTask t expiry status ifNotExists parent timestamp eid)
        (enlist (parent.getD "") t (expiry.getD cfg.defaultExpireTime).toNat
          (relabel t (Fields.set "execution_id" (.str eid) (initialData timestamp status parent))
            (expiry.getD cfg.defaultExpireTime).toNat none status s))
  | updates (t : String) (updates : Fields ν) (expiry : Option Int) (current : Fields ν)
      (hcur : getTask t s = some current)
      (hkeep : (Json.orEmpty (current "status")).luaEq
          ((updates "status").getD (Json.orEmpty (current "status"))) = true ∨
        isTerminal cfg (Json.orEmpty (current "status")) = false)
      (hn : 0 < rewrittenFor cfg s t expiry) :
      Performs cfg s (.updateTask t updates expiry)
        (migrateStatus (Json.orEmpty (current "status"))
          ((updates "status").getD (Json.orEmpty (current "status"))) t
          (rewrittenFor cfg s t expiry)
          (setRecord t (updates.merge current) (rewrittenFor cfg s t expiry) s)).2
  | reopens (t status : String) (expiry : Option Int) (eid : String) (current : Fields ν)
      (hcur : getTask t s = some current)
      (hterm : isTerminal cfg (Json.orEmpty (current "status")) = true)
      (hn : 0 < rewrittenFor cfg s t expiry) :
      Performs cfg s (.reopenTask t status expiry eid)
        (relabel t (reopened current (Json.orEmpty (current "status")) eid status s.now)
          (rewrittenFor cfg s t expiry)
          (if (Json.orEmpty (current "status")).concat.getD "" ≠ "" then
            some ((Json.orEmpty (current "status")).concat.getD "") else none) status s)

theorem performs (cfg : Config) (s : Store ν) (call : Call ν) :
    Performs cfg s call (perform cfg s call).2 := by
  cases call with
  | initializeTask t expiry status ifNotExists parent timestamp eid =>
    dsimp only [perform]
    unfold taskInit
    split
    · exact .still _
    · rename_i hnew
      split
      · exact .still _
      · refine .initializes t expiry status ifNotExists parent timestamp eid ?_ (by omega)
        simpa [or_iff_not_imp_left] using hnew
  | validateTransfer t updates expiry =>
    dsimp only [perform]
    split
    · exact .still _
    · split <;> exact .still _
  | updateTask t updates expiry =>
    dsimp only [perform]
    unfold taskUpdate
    split
    · exact .still _
    · rename_i current hcur
      dsimp only
      split
      · exact .still _
      · rename_i hlegal
        split
        · exact .still _
        · refine .updates t updates expiry current hcur ?_ (by unfold rewrittenFor; omega)
          simpa [or_iff_not_imp_left] using hlegal
  | reopenTask t status expiry eid =>
    dsimp only [perform]
    unfold taskReopen
    split
    · exact .still _
    · rename_i current hcur
      dsimp only
      split
      · exact .still _
      · rename_i hterm
        split
        · exact .still _
        · dsimp only
          rw [relabel_drop]
          exact .reopens t status expiry eid current hcur (by simpa using hterm)
            (by unfold rewrittenFor; omega)

inductive Effect (cfg : Config) (s : Store ν) (call : Call ν) (s' : Store ν) : Prop
  | same (h : s'.records = s.records)
  | generation (t : String) (f : Fields ν) (eid : String) (hcall : call.executionId = some eid)
      (hw : Rewrites s s' t f) (hid : f "execution_id" = some (.str eid))
  | update (t : String) (updates current : Fields ν) (expiry : Option Int)
      (hcall : call = .updateTask t updates expiry) (hcur : getTask t s = some current)
      (hw : Rewrites s s' t (updates.merge current).recode)
      (hkeep : (Json.orEmpty (current "status")).luaEq
          ((updates "status").getD (Json.orEmpty (current "status"))) = true ∨
        isTerminal cfg (Json.orEmpty (current "status")) = false)

theorem Performs.effect {s s' : Store ν} (h : Performs cfg s call s') : Effect cfg s call s' := by
  cases h with
  | still => exact .same rfl
  | initializes t expiry status ifNotExists parent timestamp eid =>
    refine .generation t _ eid rfl ⟨_, (enlist_frame ..).2.trans (relabel_frame ..).2.1⟩ ?_
    simp [Fields.recode]
  | updates t updates expiry current hcur hkeep =>
    exact .update t updates current expiry rfl hcur ⟨_, (migrateStatus_frame ..).2.1⟩ hkeep
  | reopens t status expiry eid current =>
    refine .generation t _ eid rfl ⟨_, (relabel_frame ..).2.1⟩ ?_
    simp [Fields.recode, reopened, Fields.set, Fields.unset]

theorem effect_perform (cfg : Config) (s : Store ν) (call : Call ν) :
    Effect cfg s call (perform cfg s call).2 :=
  (performs cfg s call).effect

theorem Performs.now_eq {s s' : Store ν} (h : Performs cfg s call s') : s'.now = s.now := by
  cases h with
  | still => rfl
  | initializes => exact (enlist_frame ..).1.trans (relabel_frame ..).1
  | updates => exact (migrateStatus_frame ..).1
  | reopens => exact (relabel_frame ..).1

theorem now_perform (cfg : Config) (s : Store ν) (call : Call ν) :
    (perform cfg s call).2.now = s.now :=
  (performs cfg s call).now_eq

theorem migrateStatus_strs (a b t : String) (n : Nat) (s : Store ν) :
    (migrateStatus (.str a) (.str b) t n s).1 = .ok := by
  unfold migrateStatus
  simp only [Json.luaEq_str, Json.concat]
  split
  · rename_i hnone
    exact absurd hnone (by simp)
  · by_cases hb : (b == "") = true <;> simp [hb]

inductive Updates (cfg : Config) (updates : Fields ν) (expiry : Int) (t : String) (s : Store ν) :
    UpdateReply → Store ν → Prop
  | notFound (h : getTask t s = none) : Updates cfg updates expiry t s .notFound s
  | refused (current : Fields ν) (hcur : getTask t s = some current)
      (hdiff : (Json.orEmpty (current "status")).luaEq
        ((updates "status").getD (Json.orEmpty (current "status"))) = false)
      (hterm : isTerminal cfg (Json.orEmpty (current "status")) = true) :
      Updates cfg updates expiry t s .invalidTransfer s
  | unexpiring (h : effectiveExpiry cfg expiry ((s.records t).ttl s.now) ≤ 0) :
      Updates cfg updates expiry t s .raised s
  | written (reply : UpdateReply) (s' : Store ν) (current : Fields ν)
      (hcur : getTask t s = some current)
      (hkeep : (Json.orEmpty (current "status")).luaEq
          ((updates "status").getD (Json.orEmpty (current "status"))) = true ∨
        isTerminal cfg (Json.orEmpty (current "status")) = false)
      (hw : Rewrites s s' t (updates.merge current).recode)
      (hreply : reply = .ok ∨ reply = .raised)
      (hok : ∀ a b, Json.orEmpty (current "status") = .str a →
        (updates "status").getD (Json.orEmpty (current "status")) = .str b → reply = .ok) :
      Updates cfg updates expiry t s reply s'

theorem reply_migrateStatus (old new : Json ν) (t : String) (n : Nat) (s : Store ν) :
    (migrateStatus old new t n s).1 = .ok ∨ (migrateStatus old new t n s).1 = .raised := by
  unfold migrateStatus
  dsimp only
  split
  · exact Or.inr rfl
  · split
    · exact Or.inl rfl
    · split
      · exact Or.inr rfl
      · exact Or.inl rfl

theorem updates_taskUpdate (cfg : Config) (updates : Fields ν) (expiry : Int) (t : String)
    (s : Store ν) :
    Updates cfg updates expiry t s (taskUpdate cfg updates expiry t s).1
      (taskUpdate cfg updates expiry t s).2 := by
  unfold taskUpdate
  dsimp only
  split
  · rename_i hnone
    exact .notFound hnone
  · rename_i current hcur
    split
    · rename_i hrefused
      rw [Bool.and_eq_true, Bool.not_eq_true'] at hrefused
      exact .refused current hcur hrefused.1 hrefused.2
    · rename_i hlegal
      split
      · rename_i hexpiry
        exact .unexpiring hexpiry
      · apply Updates.written _ _ current hcur _ _ (reply_migrateStatus _ _ _ _ _)
        · intro a b ha hb
          rw [ha] at hb ⊢
          rw [hb]
          exact migrateStatus_strs a b t _ _
        · simpa [or_iff_not_imp_left] using hlegal
        · exact ⟨(effectiveExpiry cfg expiry ((s.records t).ttl s.now)).toNat,
            (migrateStatus_frame ..).2.1⟩

theorem next_perform (cfg : Config) (s : Store ν) {next : Call ν}
    (h : (perform cfg s call).1 = some next) :
    ∃ t updates expiry, call = .validateTransfer t updates expiry ∧
      next = .updateTask t updates expiry := by
  cases call with
  | validateTransfer t updates expiry =>
    dsimp only [perform] at h
    split at h
    · simp at h
    · split at h
      · exact ⟨t, updates, expiry, rfl, (Option.some.inj h).symm⟩
      · simp at h
  | initializeTask | updateTask | reopenTask => simp [perform] at h

end Scripts

/-! ## Execution ids along a run -/

def CallKeepsId : Call ν → Prop
  | .validateTransfer _ updates _ => updates "execution_id" = none
  | .updateTask _ updates _ => updates "execution_id" = none
  | _ => True

def KeepsId : Event ν → Prop
  | .updateTask _ _ updates _ _ => updates "execution_id" = none
  | _ => True

/-- Every stored id was generated, and an id on its way is neither stored nor on its way
twice. -/
structure Inv (s : State ν) : Prop where
  stored : ∀ t v, field s.store t "execution_id" = some v → ∃ eid ∈ s.issued, v = .str eid
  pending : ∀ c call eid, s.calls c = some call → call.executionId = some eid → eid ∈ s.issued
  fresh : ∀ c call eid t, s.calls c = some call → call.executionId = some eid →
    field s.store t "execution_id" ≠ some (.str eid)
  distinct : ∀ c d call other eid, s.calls c = some call → s.calls d = some other →
    call.executionId = some eid → other.executionId = some eid → c = d
  clean : ∀ c call, s.calls c = some call → CallKeepsId call

/-- While the record of `t` has the execution id `e`, its status is `status`; `e` itself
is not on its way. -/
structure Settled (t e status : String) (s : State ν) : Prop where
  issued : e ∈ s.issued
  unpending : ∀ c call, s.calls c = some call → call.executionId ≠ some e
  final : field s.store t "execution_id" = some (.str e) →
    field s.store t "status" = some (.str status)

theorem begin_spec (h : begin client call s = some s') :
    s'.store = s.store ∧ s'.calls = Function.update s.calls client (some call) ∧
      (∀ eid, call.executionId = some eid → eid ∉ s.issued ∧ eid ∈ s'.issued) ∧
      ∀ eid ∈ s.issued, eid ∈ s'.issued := by
  unfold begin at h
  cases hidle : s.calls client with
  | some other => simp [hidle] at h
  | none =>
    cases hid : call.executionId with
    | none =>
      simp only [hidle, hid, Option.some.injEq] at h
      subst h
      exact ⟨rfl, rfl, by simp, fun _ h => h⟩
    | some eid =>
      simp only [hidle, hid] at h
      split at h
      · simp at h
      · rename_i hnew
        obtain rfl := Option.some.inj h
        refine ⟨rfl, rfl, ?_, fun x hx => List.mem_cons_of_mem _ hx⟩
        intro x hx
        obtain rfl := Option.some.inj hx
        exact ⟨hnew, List.mem_cons_self⟩

section Begin

variable {client : Nat} {call : Call ν} {s s' : State ν}

theorem calls_begin (h : begin client call s = some s') (hc : s'.calls c = some other) :
    (c = client ∧ other = call) ∨ (c ≠ client ∧ s.calls c = some other) := by
  obtain ⟨-, hcalls, -, -⟩ := begin_spec h
  rw [hcalls] at hc
  by_cases hclient : c = client
  · subst hclient
    rw [Function.update_self] at hc
    exact Or.inl ⟨rfl, (Option.some.inj hc).symm⟩
  · rw [Function.update_of_ne hclient] at hc
    exact Or.inr ⟨hclient, hc⟩

theorem inv_begin (hinv : Inv s) (hclean : CallKeepsId call)
    (h : begin client call s = some s') : Inv s' := by
  obtain ⟨hstore, -, hnew, hold⟩ := begin_spec h
  refine ⟨?_, ?_, ?_, ?_, ?_⟩
  · intro t v hv
    rw [hstore] at hv
    obtain ⟨eid, heid, rfl⟩ := hinv.stored t v hv
    exact ⟨eid, hold eid heid, rfl⟩
  · intro c other eid hc hid
    rcases calls_begin h hc with ⟨-, rfl⟩ | ⟨-, hc⟩
    · exact (hnew eid hid).2
    · exact hold eid (hinv.pending c other eid hc hid)
  · intro c other eid t hc hid
    rw [hstore]
    rcases calls_begin h hc with ⟨-, rfl⟩ | ⟨-, hc⟩
    · -- the new id is not among the issued ones, and stored ids are
      intro hstored
      obtain ⟨x, hx, heq⟩ := hinv.stored t _ hstored
      have hxe : eid = x := by simpa using heq
      exact (hnew eid hid).1 (hxe ▸ hx)
    · exact hinv.fresh c other eid t hc hid
  · intro c d other another eid hc hd hid hid'
    rcases calls_begin h hc with ⟨rfl, rfl⟩ | ⟨-, hc⟩ <;>
      rcases calls_begin h hd with ⟨rfl, rfl⟩ | ⟨-, hd⟩
    · rfl
    · exact absurd (hinv.pending d another eid hd hid') (hnew eid hid).1
    · exact absurd (hinv.pending c other eid hc hid) (hnew eid hid').1
    · exact hinv.distinct c d other another eid hc hd hid hid'
  · intro c other hc
    rcases calls_begin h hc with ⟨-, rfl⟩ | ⟨-, hc⟩
    · exact hclean
    · exact hinv.clean c other hc

theorem settled_begin (hset : Settled t e status s) (h : begin client call s = some s') :
    Settled t e status s' := by
  obtain ⟨hstore, -, hnew, hold⟩ := begin_spec h
  refine ⟨hold e hset.issued, ?_, ?_⟩
  · intro c other hc hid
    rcases calls_begin h hc with ⟨-, rfl⟩ | ⟨-, hc⟩
    · exact (hnew e hid).1 hset.issued
    · exact hset.unpending c other hc hid
  · rw [hstore]
    exact hset.final

end Begin

section Shrink

variable {s s' : State ν}

def Shrinks (s s' : Store ν) : Prop := ∀ t, s'.records t = s.records t ∨ s'.records t = none

theorem Shrinks.field {s s' : Store ν} (h : Shrinks s s') {k : String} {v : Json ν}
    (hv : field s' t k = some v) : ∀ k', TaskStore.field s' t k' = TaskStore.field s t k' := by
  intro k'
  rcases h t with hsame | hgone
  · exact field_congr hsame k'
  · simp [TaskStore.field, getTask, hgone] at hv

theorem inv_shrink (hinv : Inv s) (hstore : Shrinks s.store s'.store) (hcalls : s'.calls = s.calls)
    (hissued : s'.issued = s.issued) : Inv s' := by
  refine ⟨?_, ?_, ?_, ?_, ?_⟩
  · intro t v hv
    rw [hstore.field hv] at hv
    rw [hissued]
    exact hinv.stored t v hv
  · rw [hcalls, hissued]
    exact hinv.pending
  · intro c call eid t hc hid hv
    rw [hcalls] at hc
    rw [hstore.field hv] at hv
    exact hinv.fresh c call eid t hc hid hv
  · rw [hcalls]
    exact hinv.distinct
  · rw [hcalls]
    exact hinv.clean

theorem settled_shrink (hset : Settled t e status s) (hstore : Shrinks s.store s'.store)
    (hcalls : s'.calls = s.calls) (hissued : s'.issued = s.issued) : Settled t e status s' := by
  refine ⟨hissued ▸ hset.issued, hcalls ▸ hset.unpending, ?_⟩
  intro hid
  have hsame := hstore.field hid
  rw [hsame] at hid ⊢
  exact hset.final hid

theorem shrinks_tick (ms : Nat) (s : Store ν) : Shrinks s (tick ms s) := by
  intro t
  rcases purge_eq_or (s.now + ms) (s.records t) with ⟨hkeep, -⟩ | ⟨hdrop, -⟩
  · exact Or.inl hkeep
  · exact Or.inr hdrop

theorem shrinks_evict (s : Store ν) (t : String) :
    Shrinks s { s with records := Function.update s.records t none } := by
  intro x
  by_cases hx : x = t
  · subst hx
    exact Or.inr (Function.update_self _ _ _)
  · exact Or.inl (Function.update_of_ne hx _ _)

end Shrink

theorem field_id_merge [LuaNumber ν] (hinv : Inv s) (hcur : getTask t s.store = some current)
    (hclean : updates "execution_id" = none) :
    (updates.merge current).recode "execution_id" = field s.store t "execution_id" := by
  have hfield : field s.store t "execution_id" = current "execution_id" := by
    simp [field, hcur]
  rw [hfield]
  simp only [Fields.recode, Fields.merge, hclean, Option.none_or]
  cases hid : current "execution_id" with
  | none => rfl
  | some v =>
    obtain ⟨eid, -, rfl⟩ := hinv.stored t v (hfield.trans hid)
    simp

section Proceed

variable [DecidableEq ν] [LuaNumber ν] {cfg : Config} {s : State ν} {client : Nat} {call : Call ν}

theorem calls_proceed
    (hc : Function.update s.calls client (perform cfg s.store call).1 c = some other) :
    (c ≠ client ∧ s.calls c = some other) ∨
      (c = client ∧ ∃ t updates expiry, call = .validateTransfer t updates expiry ∧
        other = .updateTask t updates expiry) := by
  by_cases hclient : c = client
  · subst hclient
    rw [Function.update_self] at hc
    exact Or.inr ⟨rfl, next_perform cfg s.store hc⟩
  · rw [Function.update_of_ne hclient] at hc
    exact Or.inl ⟨hclient, hc⟩

theorem calls_proceed_of_id {eid : String}
    (hc : Function.update s.calls client (perform cfg s.store call).1 c = some other)
    (hid : other.executionId = some eid) : c ≠ client ∧ s.calls c = some other := by
  rcases calls_proceed hc with hold | ⟨-, t, updates, expiry, -, rfl⟩
  · exact hold
  · simp [Call.executionId] at hid

theorem field_id_perform (cfg : Config) (hinv : Inv s) (hcall : s.calls client = some call)
    (t : String) :
    (∃ eid, call.executionId = some eid ∧
        field (perform cfg s.store call).2 t "execution_id" = some (.str eid)) ∨
      field (perform cfg s.store call).2 t "execution_id" = field s.store t "execution_id" := by
  cases effect_perform cfg s.store call with
  | same h => exact Or.inr (field_congr (congrFun h t) _)
  | generation x f eid hid hw hf =>
    by_cases hx : t = x
    · subst hx
      exact Or.inl ⟨eid, hid, (hw.field_self _).trans hf⟩
    · exact Or.inr (hw.field_ne hx _)
  | update x updates current expiry heq hcur hw hkeep =>
    apply Or.inr
    by_cases hx : t = x
    · subst hx
      rw [hw.field_self]
      apply field_id_merge hinv hcur
      have hclean := hinv.clean client call hcall
      rw [heq] at hclean
      exact hclean
    · exact hw.field_ne hx _

theorem inv_proceed (hinv : Inv s) (hcall : s.calls client = some call) :
    Inv { s with
      store := (perform cfg s.store call).2
      calls := Function.update s.calls client (perform cfg s.store call).1 } := by
  refine ⟨?_, ?_, ?_, ?_, ?_⟩
  · intro t v hv
    rcases field_id_perform cfg hinv hcall t with ⟨eid, hid, hfield⟩ | hfield
    · refine ⟨eid, hinv.pending client call eid hcall hid, ?_⟩
      exact (Option.some.inj (hfield.symm.trans hv)).symm
    · exact hinv.stored t v (hfield.symm.trans hv)
  · intro c other eid hc hid
    exact hinv.pending c other eid (calls_proceed_of_id hc hid).2 hid
  · intro c other eid t hc hid hv
    obtain ⟨hne, hold⟩ := calls_proceed_of_id hc hid
    rcases field_id_perform cfg hinv hcall t with ⟨x, hx, hfield⟩ | hfield
    · have heq : x = eid := by simpa using hfield.symm.trans hv
      exact hne (hinv.distinct c client other call eid hold hcall hid (heq ▸ hx))
    · exact hinv.fresh c other eid t hold hid (hfield.symm.trans hv)
  · intro c d other another eid hc hd hid hid'
    exact hinv.distinct c d other another eid (calls_proceed_of_id hc hid).2
      (calls_proceed_of_id hd hid').2 hid hid'
  · intro c other hc
    rcases calls_proceed hc with ⟨-, hold⟩ | ⟨-, t, updates, expiry, heq, rfl⟩
    · exact hinv.clean c other hold
    · have hclean := hinv.clean client call hcall
      rw [heq] at hclean
      exact hclean

theorem status_merge (hterm : status ∈ cfg.terminalStatuses)
    (hstatus : current "status" = some (.str status))
    (hkeep : (Json.orEmpty (current "status")).luaEq
        ((updates "status").getD (Json.orEmpty (current "status"))) = true ∨
      isTerminal cfg (Json.orEmpty (current "status")) = false) :
    (updates.merge current).recode "status" = some (.str status) := by
  have hold : Json.orEmpty (current "status") = .str status := by
    rw [hstatus]
    rfl
  have hnew : (updates "status").getD (.str status) = .str status := by
    rw [hold] at hkeep
    rcases hkeep with heq | hnot
    · exact Json.eq_of_luaEq_str heq
    · simp [isTerminal, hterm] at hnot
  have hmerged : updates.merge current "status" = some (.str status) := by
    unfold Fields.merge
    cases hup : updates "status" with
    | none => simpa using hstatus
    | some v =>
      rw [hup] at hnew
      simpa using hnew
  simp [Fields.recode, hmerged]

theorem settled_proceed (hterm : status ∈ cfg.terminalStatuses) (hinv : Inv s)
    (hset : Settled t e status s) (hcall : s.calls client = some call) :
    Settled t e status { s with
      store := (perform cfg s.store call).2
      calls := Function.update s.calls client (perform cfg s.store call).1 } := by
  refine ⟨hset.issued, ?_, ?_⟩
  · intro c other hc
    rcases calls_proceed hc with ⟨-, hold⟩ | ⟨-, x, updates, expiry, -, rfl⟩
    · exact hset.unpending c other hold
    · simp [Call.executionId]
  · intro hid
    show field (perform cfg s.store call).2 t "status" = some (.str status)
    have hsame : field s.store t "execution_id" = some (.str e) := by
      rcases field_id_perform cfg hinv hcall t with ⟨x, hx, hfield⟩ | hfield
      · have heq : x = e := by simpa using hfield.symm.trans hid
        exact absurd (heq ▸ hx) (hset.unpending client call hcall)
      · exact hfield.symm.trans hid
    cases effect_perform cfg s.store call with
    | same h =>
      rw [field_congr (congrFun h t)]
      exact hset.final hsame
    | generation x f eid hx hw hf =>
      by_cases hxt : t = x
      · subst hxt
        have heq : eid = e := by
          have hcontra := hf.symm.trans ((hw.field_self _).symm.trans hid)
          simpa using hcontra
        exact absurd (heq ▸ hx) (hset.unpending client call hcall)
      · rw [hw.field_ne hxt]
        exact hset.final hsame
    | update x updates current expiry heq hcur hw hkeep =>
      by_cases hxt : t = x
      · subst hxt
        rw [hw.field_self]
        apply status_merge hterm _ hkeep
        simpa [field, hcur] using hset.final hsame
      · rw [hw.field_ne hxt]
        exact hset.final hsame

end Proceed

theorem inv_start (now : Nat) : Inv (start now : State ν) := by
  refine ⟨?_, ?_, ?_, ?_, ?_⟩ <;> simp [start, field, getTask]

variable [DecidableEq ν] [LuaNumber ν]

theorem step_proceed (h : step cfg s (.proceed client) = some s') :
    ∃ call, s.calls client = some call ∧ s' = { s with
      store := (perform cfg s.store call).2
      calls := Function.update s.calls client (perform cfg s.store call).1 } := by
  cases hcall : s.calls client with
  | none => simp [step, hcall] at h
  | some call =>
    simp only [step, hcall, Option.some.injEq] at h
    exact ⟨call, rfl, h.symm⟩

theorem inv_step (cfg : Config) {e : Event ν} (hinv : Inv s) (hkeep : KeepsId e)
    (hstep : step cfg s e = some s') :
    Inv s' ∧ ∀ t eid status, status ∈ cfg.terminalStatuses → Settled t eid status s →
      Settled t eid status s' := by
  cases e with
  | initializeTask client t expiry status ifNotExists parent timestamp eid =>
    refine ⟨inv_begin hinv ?_ hstep, fun _ _ _ _ hset => settled_begin hset hstep⟩
    trivial
  | updateTask client t updates expiry validate =>
    refine ⟨inv_begin hinv ?_ hstep, fun _ _ _ _ hset => settled_begin hset hstep⟩
    split <;> exact hkeep
  | reopenTask client t status expiry eid =>
    refine ⟨inv_begin hinv ?_ hstep, fun _ _ _ _ hset => settled_begin hset hstep⟩
    trivial
  | proceed client =>
    obtain ⟨call, hcall, rfl⟩ := step_proceed hstep
    exact ⟨inv_proceed hinv hcall,
      fun _ _ _ hterm hset => settled_proceed hterm hinv hset hcall⟩
  | listTaskIdsByStatus status nowMs =>
    simp only [step] at hstep
    split at hstep
    · obtain rfl := Option.some.inj hstep
      have hshrink : Shrinks s.store (cleanUpStatus status nowMs s.store) :=
        fun _ => Or.inl rfl
      exact ⟨inv_shrink hinv hshrink rfl rfl,
        fun _ _ _ _ hset => settled_shrink hset hshrink rfl rfl⟩
    · simp at hstep
  | advance ms =>
    obtain rfl := Option.some.inj hstep
    exact ⟨inv_shrink hinv (shrinks_tick ms s.store) rfl rfl,
      fun _ _ _ _ hset => settled_shrink hset (shrinks_tick ms s.store) rfl rfl⟩
  | evict t =>
    obtain rfl := Option.some.inj hstep
    exact ⟨inv_shrink hinv (shrinks_evict s.store t) rfl rfl,
      fun _ _ _ _ hset => settled_shrink hset (shrinks_evict s.store t) rfl rfl⟩

/-- Terminal irreversibility: once the record of `t` has the execution id `eid` and a
terminal status, it has that status in every later state in which it has that id. -/
theorem terminal_status_final (cfg : Config) (now : Nat) (es fs : List (Event ν))
    (s s' : State ν) (t eid status : String) (hkeep : ∀ e ∈ es ++ fs, KeepsId e)
    (hrun : run (step cfg) (start now) es = some s)
    (hid : field s.store t "execution_id" = some (.str eid))
    (hstatus : field s.store t "status" = some (.str status))
    (hterm : status ∈ cfg.terminalStatuses)
    (hrest : run (step cfg) s fs = some s')
    (hid' : field s'.store t "execution_id" = some (.str eid)) :
    field s'.store t "status" = some (.str status) := by
  have hinv : Inv s := by
    apply run_invariant_mem _ (inv_start now) (fun e he => hkeep e (List.mem_append_left _ he)) hrun
    intro u e u' hu hG hstep
    exact (inv_step cfg hu hG hstep).1
  have hset : Settled t eid status s := by
    refine ⟨?_, ?_, fun _ => hstatus⟩
    · obtain ⟨x, hx, heq⟩ := hinv.stored t _ hid
      have hxe : eid = x := by simpa using heq
      exact hxe ▸ hx
    · intro c call hc hcall
      exact hinv.fresh c call eid t hc hcall hid
  have hend : Inv s' ∧ Settled t eid status s' := by
    apply run_invariant_mem _ ⟨hinv, hset⟩ (fun e he => hkeep e (List.mem_append_right _ he)) hrest
    intro u e u' hu hG hstep
    obtain ⟨hinv', hset'⟩ := inv_step cfg hu.1 hG hstep
    exact ⟨hinv', hset' t eid status hterm hu.2⟩
  exact hend.2.final hid'

def standard : Config := ⟨["completed", "failed", "cancelled"], allowedTransitions, 604800⟩

def plainConfig : Config := { standard with defaultExpireTime := 3600 }

def setStatus (word : String) : Fields Int := Fields.set "status" (.str word) fun _ => none

def racing : List (Event Int) :=
  [.initializeTask 0 "t" none "in_progress" true none "2026-01-01T00:00:00+00:00" "exec-1",
    .proceed 0, .updateTask 1 "t" (setStatus "completed") none true,
    .updateTask 2 "t" (setStatus "failed") (some 60) true, .proceed 1, .proceed 2, .proceed 1]

def latecomers : List (Event Int) :=
  [.proceed 2, .updateTask 3 "t" (setStatus "cancelled") none false, .proceed 3]

theorem terminal_status_final_racing :
    field (replay (step standard) (replay (step standard) (start 0) racing) latecomers).store
      "t" "status" = some (.str "completed") := by
  refine terminal_status_final standard 0 racing latecomers
    (replay (step standard) (start 0) racing) _ "t" "exec-1" "completed" ?_
    (run_eq_replay (by decide)) rfl rfl (by decide) (run_eq_replay (by decide)) rfl
  simp [racing, latecomers, KeepsId, setStatus, Fields.set]

end Orditect.TaskStore.Proofs
