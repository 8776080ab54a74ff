import Webfang.Lib.Execution
import Webfang.Network.SessionPool

/-!
# Invariants of the session pool

The pool over a run of calls from an empty map, with the readings of a clock that does not go
back.  Every slot that is handed out is ready, none is missed, and the map stays within its cap by
losing the domain that was seen least recently; with equal readings that can be the one just seen.
-/

namespace Webfang

namespace SessionPool

open KeyedRows StableSort StepSystem

variable {cfg : SessionPoolConfig} {anchor now : Nat} {rank : List Char → Nat}
  {domain : List Char} {sessions : Sessions}

/-! ## The slots of a domain -/

/-- The slots of a domain as a call finds them; those of a new domain are all healthy. -/
def slotsOf (cfg : SessionPoolConfig) (domain : List Char) (sessions : Sessions) :
    List SessionState :=
  ((rowAt DomainEntry.domain sessions domain).map (·.states)).getD
    (List.replicate cfg.poolSize .fresh)

/-- A slot may be handed out: it is healthy, its ban is past its deadline, or its last failure is
further back than the TTL. -/
def SessionState.Ready (cfg : SessionPoolConfig) (now : Nat) (state : SessionState) : Prop :=
  state.status = .healthy ∨
    (state.status = .banned ∧ ∃ deadline, state.nextRetryTime = some deadline ∧ deadline ≤ now) ∨
    ∃ lastFailure, state.lastFailureTime = some lastFailure ∧ cfg.ttlDuration < now - lastFailure

/-- The slot of a domain that `acquire` may answer. -/
def Offered (cfg : SessionPoolConfig) (domain : List Char) (now : Nat) (sessions : Sessions)
    (id : Nat) : Prop :=
  ∃ state, (slotsOf cfg domain sessions)[id]? = some state ∧ state.Ready cfg now

theorem bannedSessionReady_iff {state : SessionState} :
    bannedSessionReady state now = true ↔
      ∃ deadline, state.nextRetryTime = some deadline ∧ deadline ≤ now := by
  simp [bannedSessionReady, Option.any_eq_true]

/-- After the reset, the slots that the scan stops at are those that were ready. -/
theorem available_resetExpired {state : SessionState} :
    (resetExpired cfg now state).available now = true ↔ state.Ready cfg now := by
  unfold resetExpired SessionState.Ready
  cases failed : state.lastFailureTime with
  | none =>
      cases status : state.status <;>
        simp [SessionState.available, status, bannedSessionReady_iff]
  | some lastFailure =>
      cases status : state.status <;> by_cases late : cfg.ttlDuration < now - lastFailure <;>
        simp [SessionState.available, status, late, bannedSessionReady_iff, SessionState.fresh]

/-! ## The map under `acquire` -/

theorem rowAt_modifyDomain {f : DomainEntry → DomainEntry} (keeps : ∀ e, (f e).domain = e.domain) :
    rowAt DomainEntry.domain (modifyDomain domain f sessions) domain =
      (rowAt DomainEntry.domain sessions domain).map f := by
  rw [modifyDomain, rowAt_map]
  · cases found : rowAt DomainEntry.domain sessions domain with
    | none => rfl
    | some e => exact congrArg some (if_pos (rowAt_some found).2)
  · intro e
    split
    · exact keeps e
    · rfl

theorem map_domain_modifyDomain {f : DomainEntry → DomainEntry}
    (keeps : ∀ e, (f e).domain = e.domain) :
    (modifyDomain domain f sessions).map (·.domain) = sessions.map (·.domain) := by
  rw [modifyDomain, List.map_map]
  refine List.map_congr_left fun e _ => ?_
  rw [Function.comp_apply]
  split
  · exact keeps e
  · rfl

theorem orInsert_of_tracked (tracked : domain ∈ sessions.map (·.domain)) :
    orInsert cfg domain now sessions = sessions := by
  cases found : rowAt DomainEntry.domain sessions domain with
  | none => exact absurd tracked (rowAt_eq_none.mp found)
  | some e => rw [orInsert, found, Option.isSome_some, if_pos rfl]

theorem orInsert_of_new (new : domain ∉ sessions.map (·.domain)) :
    orInsert cfg domain now sessions =
      sessions ++ [⟨domain, List.replicate cfg.poolSize .fresh, now⟩] := by
  rw [orInsert, rowAt_eq_none.mpr new]
  rfl

theorem rowAt_orInsert :
    rowAt DomainEntry.domain (orInsert cfg domain now sessions) domain =
      some ((rowAt DomainEntry.domain sessions domain).getD
        ⟨domain, List.replicate cfg.poolSize .fresh, now⟩) := by
  cases found : rowAt DomainEntry.domain sessions domain with
  | some e => rw [orInsert, found, Option.isSome_some, if_pos rfl, found, Option.getD_some]
  | none => rw [orInsert_of_new (rowAt_eq_none.mp found), rowAt_append found, if_pos rfl, Option.getD_none]

/-- The row of the domain that was asked for. -/
theorem rowAt_touched :
    rowAt DomainEntry.domain (touched cfg domain now sessions) domain =
      some ⟨domain, (slotsOf cfg domain sessions).map (resetExpired cfg now), now⟩ := by
  rw [touched, rowAt_modifyDomain (f := DomainEntry.refresh cfg now) (fun _ => rfl), rowAt_orInsert,
    Option.map_some, slotsOf]
  cases found : rowAt DomainEntry.domain sessions domain with
  | none => rfl
  | some e =>
      rw [Option.getD_some, DomainEntry.refresh, (rowAt_some found).2, Option.map_some, Option.getD_some]

theorem touched_of_new (new : domain ∉ sessions.map (·.domain)) :
    touched cfg domain now sessions =
      sessions ++ [⟨domain, List.replicate cfg.poolSize .fresh, now⟩] := by
  have others : modifyDomain domain (·.refresh cfg now) sessions = sessions := by
    refine (List.map_congr_left fun e member => ?_).trans (List.map_id' sessions)
    exact if_neg fun same : e.domain = domain => new (same ▸ List.mem_map_of_mem member)
  rw [modifyDomain] at others
  rw [touched, orInsert_of_new new, modifyDomain, List.map_append, others, List.map_singleton,
    if_pos rfl, DomainEntry.refresh, List.map_replicate]
  rfl

theorem scanned_eq :
    scanned cfg domain now sessions = (slotsOf cfg domain sessions).map (resetExpired cfg now) := by
  rw [scanned, rowAt_touched, Option.map_some, Option.getD_some]

theorem map_domain_touched :
    (touched cfg domain now sessions).map (·.domain) =
      (orInsert cfg domain now sessions).map (·.domain) :=
  map_domain_modifyDomain (f := DomainEntry.refresh cfg now) fun _ => rfl

/-- The rows of the other domains stay as they are. -/
theorem mem_touched_of_ne {e : DomainEntry} (other : e.domain ≠ domain) :
    e ∈ touched cfg domain now sessions ↔ e ∈ sessions := by
  have within : e ∈ touched cfg domain now sessions ↔ e ∈ orInsert cfg domain now sessions := by
    simp only [touched, modifyDomain, List.mem_map]
    constructor
    · intro ⟨e', member, same⟩
      split at same
      · rename_i here
        exact absurd (same ▸ here) other
      · exact same ▸ member
    · intro member
      exact ⟨e, member, if_neg other⟩
  rw [within]
  by_cases tracked : domain ∈ sessions.map (·.domain)
  · rw [orInsert_of_tracked tracked]
  · rw [orInsert_of_new tracked, List.mem_append, List.mem_singleton]
    refine or_iff_left ?_
    intro same
    exact other (congrArg DomainEntry.domain same)

/-! ## Eviction -/

variable (rank sessions) in
/-- The entries in the order in which the cap takes them: by their stamp, then as the map is
iterated, then as they stand. -/
theorem byAge_perm : (byAge rank sessions).Perm sessions :=
  (List.perm_insertionSort _ _).trans (List.perm_insertionSort _ _)

variable (rank sessions) in
theorem byAge_sorted :
    (byAge rank sessions).Pairwise fun a b => a.lastSeen ≤ b.lastSeen :=
  List.pairwise_insertionSort (ByKey DomainEntry.lastSeen) _

variable (rank) in
theorem byAge_lex {tie : DomainEntry → DomainEntry → Prop} (distinct : sessions.Nodup)
    (placed : sessions.Pairwise tie) :
    (byAge rank sessions).Pairwise fun a b => a.lastSeen ≤ b.lastSeen ∧
      (b.lastSeen ≤ a.lastSeen → rank a.domain ≤ rank b.domain ∧
        (rank b.domain ≤ rank a.domain → tie a b)) := by
  have distinct' : (iterated rank sessions).Nodup :=
    (List.perm_insertionSort _ sessions).nodup_iff.mpr distinct
  exact pairwise_insertionSort_lex distinct' (pairwise_insertionSort_lex distinct placed)

variable (rank) in
/-- The cap keeps all but the first entries by age. -/
theorem enforceDomainCap_perm (distinct : (sessions.map (·.domain)).Nodup) :
    (enforceDomainCap rank sessions).Perm
      ((byAge rank sessions).drop (sessions.length - maxTrackedDomains)) := by
  unfold enforceDomainCap
  split
  · rename_i within
    rw [Nat.sub_eq_zero_of_le within, List.drop_zero]
    exact (byAge_perm rank sessions).symm
  · set excess := sessions.length - maxTrackedDomains
    have distinct' : ((byAge rank sessions).map (·.domain)).Nodup :=
      ((byAge_perm rank sessions).map _).nodup_iff.mpr distinct
    rw [← List.take_append_drop excess (byAge rank sessions), List.map_append,
      List.nodup_append'] at distinct'
    refine ((byAge_perm rank sessions).symm.filter _).trans (.of_eq ?_)
    conv_lhs => rw [← List.take_append_drop excess (byAge rank sessions), List.filter_append]
    rw [List.filter_eq_nil_iff.mpr, List.nil_append, List.filter_eq_self.mpr]
    · intro e member
      have fresh : e.domain ∉ ((byAge rank sessions).take excess).map (·.domain) :=
        fun early => distinct'.2.2 early (List.mem_map_of_mem member)
      simpa [List.contains_iff_mem] using fresh
    · intro e member
      have gone : e.domain ∈ ((byAge rank sessions).take excess).map (·.domain) :=
        List.mem_map_of_mem member
      simpa [List.contains_iff_mem] using gone

theorem length_enforceDomainCap (distinct : (sessions.map (·.domain)).Nodup) :
    (enforceDomainCap rank sessions).length ≤ maxTrackedDomains := by
  rw [(enforceDomainCap_perm rank distinct).length_eq, List.length_drop, (byAge_perm ..).length_eq]
  omega

theorem enforceDomainCap_sublist : (enforceDomainCap rank sessions).Sublist sessions := by
  unfold enforceDomainCap
  split
  · exact List.Sublist.refl _
  · exact List.filter_sublist

/-- What the cap removes was seen no later than anything it keeps. -/
theorem lastSeen_le_of_evicted (distinct : (sessions.map (·.domain)).Nodup) {e kept : DomainEntry}
    (member : e ∈ sessions) (evicted : e ∉ enforceDomainCap rank sessions)
    (stays : kept ∈ enforceDomainCap rank sessions) : e.lastSeen ≤ kept.lastSeen := by
  have perm := enforceDomainCap_perm rank distinct
  have sorted := byAge_sorted rank sessions
  rw [← List.take_append_drop (sessions.length - maxTrackedDomains) (byAge rank sessions),
    List.pairwise_append] at sorted
  have there : e ∈ byAge rank sessions := (byAge_perm rank sessions).mem_iff.mpr member
  rw [← List.take_append_drop (sessions.length - maxTrackedDomains) (byAge rank sessions),
    List.mem_append] at there
  have early := there.resolve_right fun late => evicted (perm.mem_iff.mpr late)
  exact sorted.2.2 e early kept (perm.mem_iff.mp stays)

/-- One entry too many, put at the end of the map: the cap takes it exactly where all the others
were seen no earlier and come later as the map is iterated. -/
theorem last_kept_iff {new : DomainEntry}
    (distinct : ((sessions ++ [new]).map (·.domain)).Nodup)
    (full : sessions.length = maxTrackedDomains) (seen : ∀ e ∈ sessions, e.lastSeen ≤ new.lastSeen) :
    new ∈ enforceDomainCap rank (sessions ++ [new]) ↔
      ∃ e ∈ sessions, e.lastSeen < new.lastSeen ∨ rank e.domain ≤ rank new.domain := by
  have nodup : (sessions ++ [new]).Nodup := distinct.of_map _
  have placed : (sessions ++ [new]).Pairwise fun a _ => a ≠ new := by
    rw [List.pairwise_append]
    have apart : ∀ e ∈ sessions, e ≠ new := by
      intro e member same
      exact (List.nodup_append.mp nodup).2.2 e member new (List.mem_singleton_self _) same
    exact ⟨(List.pairwise_of_forall_mem_list fun a member _ _ => apart a member),
      List.pairwise_singleton _ _, fun a member _ _ => apart a member⟩
  have sorted := byAge_lex rank nodup placed
  have perm := byAge_perm rank (sessions ++ [new])
  rw [(enforceDomainCap_perm rank distinct).mem_iff, List.length_append, List.length_singleton, full,
    Nat.add_sub_cancel_left]
  cases aged : byAge rank (sessions ++ [new]) with
  | nil =>
      rw [aged] at perm
      exact absurd perm.nil_eq.symm (by simp)
  | cons first rest =>
      rw [aged] at perm sorted
      obtain ⟨fresh, -⟩ := List.nodup_cons.mp (perm.nodup_iff.mpr nodup)
      rw [List.pairwise_cons] at sorted
      have split_ : ∀ e, e = first ∨ e ∈ rest ↔ e ∈ sessions ∨ e = new := by
        intro e
        rw [← List.mem_cons, perm.mem_iff, List.mem_append, List.mem_singleton]
      simp only [List.drop_one, List.tail_cons]
      constructor
      · intro later
        have other : first ≠ new := fun same => fresh (same ▸ later)
        have member := ((split_ first).mp (.inl rfl)).resolve_right other
        obtain ⟨-, ties⟩ := sorted.1 new later
        refine ⟨first, member, ?_⟩
        by_cases level : new.lastSeen ≤ first.lastSeen
        · exact .inr (ties level).1
        · exact .inl (Nat.lt_of_not_le level)
      · intro ⟨e, member, before⟩
        rcases (split_ new).mpr (.inr rfl) with rfl | later
        · have apart : e ≠ new := by
            intro same
            exact (List.nodup_append.mp nodup).2.2 e member new (List.mem_singleton_self _) same
          have behind := ((split_ e).mpr (.inl member)).resolve_left apart
          obtain ⟨sooner, ties⟩ := sorted.1 e behind
          rcases before with less | first_
          · omega
          · exact absurd rfl ((ties (seen e member)).2 first_)
        · exact later

/-! ## The pool and its calls -/

/-- What holds of the map of sessions between two calls, at a reading of the clock. -/
structure Lawful (cfg : SessionPoolConfig) (clock : Nat) (sessions : Sessions) : Prop where
  distinct : (sessions.map (·.domain)).Nodup
  slots : ∀ e ∈ sessions, e.states.length = cfg.poolSize
  seen : ∀ e ∈ sessions, e.lastSeen ≤ clock
  bounded : sessions.length ≤ maxTrackedDomains

/-- The pool and the last reading of its clock. -/
structure Pool (cfg : SessionPoolConfig) where
  sessions : Sessions
  clock : Nat
  lawful : Lawful cfg clock sessions

/-- `DomainSessionPool::new` -/
def Pool.new (cfg : SessionPoolConfig) (clock : Nat) : Pool cfg :=
  ⟨[], clock, List.nodup_nil, by simp, by simp, Nat.zero_le _⟩

/-- A call, with what it draws and how long after its first reading a second one is. -/
inductive Call
  | acquire (domain : List Char) (rank : List Char → Nat)
  | reportSuccess (domain : List Char) (sessionId : Nat)
  | reportFailure (domain : List Char) (sessionId statusCode : Nat) (jitter : Nat → Nat)
      (later : Nat)
  | evictStale

/-- A call that reads the clock `elapsed` after the last one. -/
structure TimedCall where
  elapsed : Nat
  call : Call

def TimedCall.later (c : TimedCall) : Nat :=
  match c.call with
  | .reportFailure _ _ _ _ later => later
  | _ => 0

/-- The map after a call that reads the clock at `now`. -/
def Call.apply (cfg : SessionPoolConfig) (anchor now : Nat) (sessions : Sessions) : Call → Sessions
  | .acquire domain rank => (SessionPool.acquire cfg anchor rank domain now sessions).2
  | .reportSuccess domain sessionId => SessionPool.reportSuccess domain sessionId now sessions
  | .reportFailure domain sessionId statusCode jitter later =>
      SessionPool.reportFailure cfg jitter domain sessionId statusCode now (now + later) sessions
  | .evictStale => SessionPool.evictStale cfg now sessions

theorem slotsOf_length {clock : Nat} (lawful : Lawful cfg clock sessions) :
    (slotsOf cfg domain sessions).length = cfg.poolSize := by
  unfold slotsOf
  cases found : rowAt DomainEntry.domain sessions domain with
  | none => exact List.length_replicate
  | some e => exact lawful.slots e (rowAt_some found).1

variable (now domain) in
theorem map_domain_touched_nodup {clock : Nat} (lawful : Lawful cfg clock sessions) :
    ((touched cfg domain now sessions).map (·.domain)).Nodup := by
  rw [map_domain_touched]
  by_cases tracked : domain ∈ sessions.map (·.domain)
  · rw [orInsert_of_tracked tracked]
    exact lawful.distinct
  · rw [orInsert_of_new tracked, List.map_append, List.map_singleton]
    exact List.nodup_append'.mpr ⟨lawful.distinct, List.nodup_singleton _,
      List.disjoint_singleton.mpr tracked⟩

/-- A row of the map that the cap is given: one of another domain, or the one that was asked for. -/
theorem mem_touched {clock : Nat} (lawful : Lawful cfg clock sessions) {e : DomainEntry}
    (member : e ∈ touched cfg domain now sessions) :
    e ∈ sessions ∨ e = ⟨domain, (slotsOf cfg domain sessions).map (resetExpired cfg now), now⟩ := by
  by_cases here : e.domain = domain
  · right
    have found := (rowAt_eq_some (map_domain_touched_nodup now domain lawful)).mpr ⟨member, here⟩
    rw [rowAt_touched] at found
    exact (Option.some.inj found).symm
  · exact .inl ((mem_touched_of_ne here).mp member)

/-- Rows that change their slots and their stamp within the bounds. -/
theorem Lawful.map {clock clock' : Nat} (lawful : Lawful cfg clock sessions)
    {f : DomainEntry → DomainEntry} (keeps : ∀ e, (f e).domain = e.domain)
    (slots : ∀ e ∈ sessions, (f e).states.length = cfg.poolSize)
    (seen : ∀ e ∈ sessions, (f e).lastSeen ≤ clock') : Lawful cfg clock' (sessions.map f) where
  distinct := by
    have same : sessions.map ((·.domain) ∘ f) = sessions.map (·.domain) :=
      List.map_congr_left fun e _ => keeps e
    rw [List.map_map, same]
    exact lawful.distinct
  slots := List.forall_mem_map.mpr slots
  seen := List.forall_mem_map.mpr seen
  bounded := by rw [List.length_map]; exact lawful.bounded

theorem Lawful.sublist {clock : Nat} (lawful : Lawful cfg clock sessions) {kept : Sessions}
    (sub : kept.Sublist sessions) : Lawful cfg clock kept where
  distinct := lawful.distinct.sublist (sub.map _)
  slots := fun e member => lawful.slots e (sub.subset member)
  seen := fun e member => lawful.seen e (sub.subset member)
  bounded := sub.length_le.trans lawful.bounded

theorem Lawful.modifyDomain {clock clock' : Nat} (lawful : Lawful cfg clock sessions)
    (forward : clock ≤ clock') {f : DomainEntry → DomainEntry}
    (keeps : ∀ e, (f e).domain = e.domain)
    (slots : ∀ e, (f e).states.length = e.states.length) (seen : ∀ e, (f e).lastSeen ≤ clock') :
    Lawful cfg clock' (modifyDomain domain f sessions) := by
  refine lawful.map (fun e => ?_) (fun e member => ?_) (fun e member => ?_)
  · split
    · exact keeps e
    · rfl
  · split
    · exact (slots e).trans (lawful.slots e member)
    · exact lawful.slots e member
  · split
    · exact seen e
    · exact (lawful.seen e member).trans forward

theorem Lawful.acquire {clock : Nat} (lawful : Lawful cfg clock sessions) (forward : clock ≤ now) :
    Lawful cfg now (enforceDomainCap rank (touched cfg domain now sessions)) where
  distinct := (map_domain_touched_nodup now domain lawful).sublist (enforceDomainCap_sublist.map _)
  slots := by
    intro e member
    rcases mem_touched lawful (enforceDomainCap_sublist.subset member) with old | rfl
    · exact lawful.slots e old
    · rw [List.length_map, slotsOf_length lawful]
  seen := by
    intro e member
    rcases mem_touched lawful (enforceDomainCap_sublist.subset member) with old | rfl
    · exact (lawful.seen e old).trans forward
    · exact Nat.le_refl _
  bounded := length_enforceDomainCap (map_domain_touched_nodup now domain lawful)

theorem Lawful.apply {clock : Nat} (lawful : Lawful cfg clock sessions) (c : TimedCall) :
    Lawful cfg (clock + c.elapsed + c.later)
      (c.call.apply cfg anchor (clock + c.elapsed) sessions) := by
  unfold TimedCall.later
  cases c.call with
  | acquire domain rank => exact lawful.acquire (Nat.le_add_right ..)
  | reportSuccess domain sessionId =>
      refine lawful.modifyDomain (Nat.le_add_right ..) (fun _ => rfl) (fun e => ?_)
        (fun _ => Nat.le_refl _)
      exact List.length_modify ..
  | reportFailure domain sessionId statusCode jitter later =>
      refine lawful.modifyDomain (by omega) (fun _ => rfl) (fun e => ?_)
        (fun _ => Nat.le_add_right ..)
      exact List.length_modify ..
  | evictStale =>
      have reset : Lawful cfg (clock + c.elapsed) (sessions.map fun e =>
          { e with states := e.states.map (resetExpired cfg (clock + c.elapsed)) }) := by
        refine lawful.map (fun _ => rfl) (fun e member => ?_) (fun e member => ?_)
        · exact (List.length_map _).trans (lawful.slots e member)
        · exact (lawful.seen e member).trans (Nat.le_add_right ..)
      exact reset.sublist List.filter_sublist

/-- One call of the pool. -/
def Pool.call (anchor : Nat) (p : Pool cfg) (c : TimedCall) : Pool cfg :=
  ⟨c.call.apply cfg anchor (p.clock + c.elapsed) p.sessions, p.clock + c.elapsed + c.later,
    p.lawful.apply c⟩

def Pool.step (anchor : Nat) (p : Pool cfg) (c : TimedCall) : Option (Pool cfg) :=
  some (p.call anchor c)

/-- What an acquire at the reading `now` promises of its answer and of the map it leaves. -/
structure AcquireKeeps (cfg : SessionPoolConfig) (anchor : Nat) (rank : List Char → Nat)
    (domain : List Char) (now : Nat) (sessions : Sessions) : Prop where
  /-- a slot that is answered is in range and ready -/
  ready : ∀ id, (acquire cfg anchor rank domain now sessions).1 = some id →
    id < cfg.poolSize ∧ Offered cfg domain now sessions id
  none_iff : (acquire cfg anchor rank domain now sessions).1 = none ↔
    ¬ ∃ id, Offered cfg domain now sessions id
  bounded : (acquire cfg anchor rank domain now sessions).2.length ≤ maxTrackedDomains
  /-- what is evicted was not seen more recently than anything that stays -/
  oldest : ∀ e ∈ sessions, e.domain ∉ (acquire cfg anchor rank domain now sessions).2.map (·.domain) →
    ∀ kept ∈ (acquire cfg anchor rank domain now sessions).2, e.lastSeen ≤ kept.lastSeen
  /-- the domain that was asked for stays -/
  stays : domain ∈ (acquire cfg anchor rank domain now sessions).2.map (·.domain)
  /-- what stays keeps its slots, those of the domain that was asked for being reset -/
  unchanged : ∀ kept ∈ (acquire cfg anchor rank domain now sessions).2,
    if kept.domain = domain then
      kept.states = (slotsOf cfg domain sessions).map (resetExpired cfg now)
    else kept ∈ sessions

def Pool.Keeps (anchor : Nat) (p : Pool cfg) (c : TimedCall) : Prop :=
  match c.call with
  | .acquire domain rank => AcquireKeeps cfg anchor rank domain (p.clock + c.elapsed) p.sessions
  | _ => True

/-- Where an acquire tracks one domain more than the cap allows, one of the others was last seen
before this reading of the clock, or comes first as the map is iterated. -/
def Pool.TieBroken (p : Pool cfg) (c : TimedCall) : Prop :=
  match c.call with
  | .acquire domain rank =>
      domain ∉ p.sessions.map (·.domain) → p.sessions.length = maxTrackedDomains →
        ∃ e ∈ p.sessions, e.lastSeen < p.clock + c.elapsed ∨ rank e.domain ≤ rank domain
  | _ => True

theorem acquire_some {clock id : Nat} (lawful : Lawful cfg clock sessions)
    (answer : (acquire cfg anchor rank domain now sessions).1 = some id) :
    id < cfg.poolSize ∧ Offered cfg domain now sessions id := by
  obtain ⟨state, at_, available⟩ := findAvailable_some answer
  rw [scanned_eq, List.getElem?_map, Option.map_eq_some_iff] at at_
  obtain ⟨before, at_, rfl⟩ := at_
  have bound := (List.getElem?_eq_some_iff.mp at_).1
  rw [slotsOf_length lawful] at bound
  exact ⟨bound, before, at_, available_resetExpired.mp available⟩

theorem acquire_none :
    (acquire cfg anchor rank domain now sessions).1 = none ↔
      ¬ ∃ id, Offered cfg domain now sessions id := by
  have scan : (acquire cfg anchor rank domain now sessions).1 = none ↔
      ∀ state ∈ scanned cfg domain now sessions, state.available now = false :=
    findAvailable_eq_none
  rw [scan, scanned_eq, List.forall_mem_map]
  constructor
  · intro passed ⟨id, state, at_, ready⟩
    exact Bool.eq_false_iff.mp (passed state (List.mem_of_getElem? at_))
      (available_resetExpired.mpr ready)
  · intro unoffered state member
    refine Bool.eq_false_iff.mpr fun available => ?_
    obtain ⟨id, at_⟩ := List.mem_iff_getElem?.mp member
    exact unoffered ⟨id, state, at_, available_resetExpired.mp available⟩

variable (anchor) in
/-- Whether the domain that was asked for is still tracked. -/
theorem acquire_stays_iff {clock : Nat} (lawful : Lawful cfg clock sessions)
    (forward : clock ≤ now) :
    domain ∈ (acquire cfg anchor rank domain now sessions).2.map (·.domain) ↔
      (domain ∉ sessions.map (·.domain) → sessions.length = maxTrackedDomains →
        ∃ e ∈ sessions, e.lastSeen < now ∨ rank e.domain ≤ rank domain) := by
  have bounded := lawful.bounded
  have named : domain ∈ (touched cfg domain now sessions).map (·.domain) := by
    have found : (rowAt DomainEntry.domain (touched cfg domain now sessions) domain) ≠ none := by
      rw [rowAt_touched]
      exact Option.some_ne_none _
    exact not_not.mp (mt rowAt_eq_none.mpr found)
  have within (short : (touched cfg domain now sessions).length ≤ maxTrackedDomains) :
      domain ∈ (acquire cfg anchor rank domain now sessions).2.map (·.domain) := by
    rw [acquire, enforceDomainCap, if_pos short]
    exact named
  have size : (touched cfg domain now sessions).length = (orInsert cfg domain now sessions).length :=
    List.length_map _
  by_cases tracked : domain ∈ sessions.map (·.domain)
  · refine iff_of_true (within ?_) (fun new => absurd tracked new)
    rw [size, orInsert_of_tracked tracked]
    exact bounded
  by_cases full : sessions.length = maxTrackedDomains
  · simp only [tracked, full, not_false_eq_true, forall_const]
    have distinct := map_domain_touched_nodup now domain lawful
    rw [touched_of_new tracked] at distinct
    rw [acquire, touched_of_new tracked,
      ← last_kept_iff distinct full fun e member => (lawful.seen e member).trans forward]
    constructor
    · intro named
      obtain ⟨e, kept, same⟩ := List.mem_map.mp named
      have member := enforceDomainCap_sublist.subset kept
      rcases List.mem_append.mp member with old | last
      · exact absurd (same ▸ List.mem_map_of_mem old) tracked
      · exact List.mem_singleton.mp last ▸ kept
    · intro kept
      exact List.mem_map.mpr ⟨_, kept, rfl⟩
  · refine iff_of_true (within ?_) (fun _ full' => absurd full' full)
    rw [size, orInsert_of_new tracked, List.length_append, List.length_singleton]
    omega

/-- Between lawful calls everything but `stays` holds of every acquire. -/
theorem acquireKeeps_iff {clock : Nat} (lawful : Lawful cfg clock sessions)
    (forward : clock ≤ now) :
    AcquireKeeps cfg anchor rank domain now sessions ↔
      (domain ∉ sessions.map (·.domain) → sessions.length = maxTrackedDomains →
        ∃ e ∈ sessions, e.lastSeen < now ∨ rank e.domain ≤ rank domain) := by
  rw [← acquire_stays_iff anchor lawful forward]
  refine ⟨fun keeps => keeps.stays, fun stays => ?_⟩
  have distinct := map_domain_touched_nodup now domain lawful
  exact {
    ready := fun id answer => acquire_some lawful answer
    none_iff := acquire_none
    bounded := length_enforceDomainCap distinct
    oldest := by
      intro e member evicted kept kept_
      by_cases here : e.domain = domain
      · exact absurd (here ▸ stays) evicted
      refine lastSeen_le_of_evicted distinct ((mem_touched_of_ne here).mpr member) ?_ kept_
      exact fun retained => evicted (List.mem_map_of_mem retained)
    stays := stays
    unchanged := by
      intro kept kept_
      have member := enforceDomainCap_sublist.subset kept_
      split
      · rename_i here
        have found := (rowAt_eq_some distinct).mpr ⟨member, here⟩
        rw [rowAt_touched, Option.some.injEq] at found
        exact found ▸ rfl
      · rename_i other
        exact (mem_touched_of_ne other).mp member }

theorem Pool.keeps_iff_tieBroken (anchor : Nat) (p : Pool cfg) (c : TimedCall) :
    p.Keeps anchor c ↔ p.TieBroken c := by
  unfold Pool.Keeps Pool.TieBroken
  cases c.call with
  | acquire domain rank => exact acquireKeeps_iff p.lawful (Nat.le_add_right ..)
  | reportSuccess domain sessionId => exact Iff.rfl
  | reportFailure domain sessionId statusCode jitter later => exact Iff.rfl
  | evictStale => exact Iff.rfl

/-- Over any run of calls from an empty pool, every acquire keeps what it promises exactly where
none of them has all its ties against it. -/
theorem Pool.run_keeps_iff (cfg : SessionPoolConfig) (anchor clock : Nat) (calls : List TimedCall) :
    Along (Pool.step anchor) (Pool.Keeps anchor) (Pool.new cfg clock) calls ↔
      Along (Pool.step anchor) Pool.TieBroken (Pool.new cfg clock) calls := by
  constructor
  · exact Along.mono fun p c => (p.keeps_iff_tieBroken anchor c).mp
  · exact Along.mono fun p c => (p.keeps_iff_tieBroken anchor c).mpr

/-! ## A tie against the domain just seen -/

/-- New domains, one after the other at one reading of the clock. -/
def together (rank : List Char → Nat) (domains : List (List Char)) : List TimedCall :=
  domains.map fun d => ⟨0, .acquire d rank⟩

variable (anchor rank) in
theorem execute_together (domains : List (List Char)) (p : Pool cfg)
    (new : (p.sessions.map (·.domain) ++ domains).Nodup)
    (room : p.sessions.length + domains.length ≤ maxTrackedDomains) :
    ∃ q, execute (Pool.step anchor) p (together rank domains) = some q ∧ q.clock = p.clock ∧
      q.sessions = p.sessions ++
        domains.map fun d => ⟨d, List.replicate cfg.poolSize .fresh, p.clock⟩ := by
  induction domains generalizing p with
  | nil => exact ⟨p, rfl, rfl, (List.append_nil _).symm⟩
  | cons d domains ih =>
      have fresh : d ∉ p.sessions.map (·.domain) := by
        intro tracked
        exact List.disjoint_of_nodup_append new tracked (List.mem_cons_self ..)
      rw [List.length_cons] at room
      have next : (p.call anchor ⟨0, .acquire d rank⟩).sessions =
          p.sessions ++ [⟨d, List.replicate cfg.poolSize .fresh, p.clock⟩] := by
        have within : (touched cfg d p.clock p.sessions).length ≤ maxTrackedDomains := by
          rw [touched_of_new fresh, List.length_append, List.length_singleton]
          omega
        exact (if_pos within).trans (touched_of_new fresh)
      obtain ⟨q, run, clock, rows⟩ := ih (p.call anchor ⟨0, .acquire d rank⟩)
        (by rw [next, List.map_append, List.map_singleton, List.append_assoc]; exact new)
        (by rw [next, List.length_append, List.length_singleton]; omega)
      refine ⟨q, run, clock, ?_⟩
      rw [rows, next, List.append_assoc]
      rfl

/-- At one reading of the clock, one domain more than the cap allows, which comes first as the map
is iterated: it is the one that is evicted. -/
theorem not_keeps_of_tied {domains : List (List Char)} (distinct : domains.Nodup)
    (full : domains.length = maxTrackedDomains) {last : List Char} (new : last ∉ domains) :
    ¬ Along (Pool.step anchor) (Pool.Keeps anchor) (Pool.new cfg 0)
      (together (fun _ => 0) domains ++
        [⟨0, .acquire last fun d => if d = last then 0 else 1⟩]) := by
  intro along
  obtain ⟨q, run, clock, rows⟩ := execute_together anchor (fun _ => 0) domains
    (Pool.new cfg 0) distinct ((Nat.zero_add _).trans_le full.le)
  have kept : q.Keeps anchor ⟨0, .acquire last fun d => if d = last then 0 else 1⟩ :=
    ((along_append.mp along).2 q run).1
  rw [Pool.keeps_iff_tieBroken, Pool.TieBroken, rows, clock] at kept
  have untracked : last ∉ ((Pool.new cfg 0).sessions ++ domains.map fun d =>
      (⟨d, List.replicate cfg.poolSize .fresh, 0⟩ : DomainEntry)).map (·.domain) := by
    intro tracked
    obtain ⟨e, member, same⟩ := List.mem_map.mp tracked
    obtain ⟨d, there, rfl⟩ := List.mem_map.mp member
    exact new (same ▸ there)
  obtain ⟨e, member, early⟩ := kept untracked ((List.length_map _).trans full)
  obtain ⟨d, there, rfl⟩ := List.mem_map.mp member
  have apart : d ≠ last := fun same => new (same ▸ there)
  rcases early with less | first
  · exact absurd less (Nat.lt_irrefl 0)
  · dsimp only at first
    rw [if_neg apart, if_pos rfl] at first
    exact absurd first (by decide)

/-- The domains `""`, `"a"`, `"aa"` and so on, as many as the cap allows. -/
def manyDomains : List (List Char) := (List.range maxTrackedDomains).map fun n => List.replicate n 'a'

/-- The domain `b` is asked for right after as many others as the cap allows, and evicted by the
acquire that answers one of its slots. -/
theorem new_domain_evicted :
    ¬ Along (Pool.step 0) (Pool.Keeps 0) (Pool.new .default 0)
      (together (fun _ => 0) manyDomains ++
        [⟨0, .acquire ['b'] fun d => if d = ['b'] then 0 else 1⟩]) := by
  refine not_keeps_of_tied ?_ ((List.length_map _).trans List.length_range) ?_
  · refine List.nodup_range.map fun m n same => ?_
    simpa using congrArg List.length same
  · intro member
    obtain ⟨n, -, same⟩ := List.mem_map.mp member
    have letter : 'b' ∈ List.replicate n 'a' := same ▸ List.mem_singleton_self _
    exact absurd (List.eq_of_mem_replicate letter) (by decide)

end SessionPool

end Webfang
