import Mathlib.Data.List.Induction
import Webfang.Lib.ValueSum

/-!
# The scrape metrics

`webfang_mcp/src/mcp_server/metrics.rs`: what the server counts of the scrapes it has done, in all,
by tool and by domain.  The map of domains is capped; what is recorded beyond the cap is counted
under one common key, which may be the name of a domain as well.
-/

namespace Webfang

namespace ScrapeMetrics

open Std ValueSum

inductive Outcome
  | success
  | error
  | partialSuccess
  deriving DecidableEq, Repr

/-- `duration` is in nanoseconds. -/
structure ScrapeEvent where
  tool : String
  domain : String
  outcome : Outcome
  count : Nat
  duration : Nat
  deriving DecidableEq, Repr

def maxTrackedDomains : Nat := 500

def overflowDomainKey : String := "otros"

structure DomainStats where
  events : Nat := 0
  pages : Nat := 0
  errors : Nat := 0
  deriving DecidableEq, Repr

end ScrapeMetrics

open ScrapeMetrics ValueSum

structure ScrapeMetrics where
  totalEvents : Nat := 0
  successCount : Nat := 0
  errorCount : Nat := 0
  partialCount : Nat := 0
  domains : Std.ExtTreeMap String DomainStats := ∅
  tools : Std.ExtTreeMap String Nat := ∅
  durationSum : Nat := 0

namespace ScrapeMetrics

open Std

/-- The key under which `record` counts a domain. -/
def keyOf (m : ScrapeMetrics) (domain : String) : String :=
  if domain ∈ m.domains ∨ m.domains.size < maxTrackedDomains then domain else overflowDomainKey

/-- One more event in a domain's entry. -/
def DomainStats.record (s : DomainStats) (e : ScrapeEvent) : DomainStats where
  events := s.events + 1
  pages := s.pages + e.count
  errors := if e.outcome = .error ∨ e.outcome = .partialSuccess then s.errors + 1 else s.errors

def record (m : ScrapeMetrics) (e : ScrapeEvent) : ScrapeMetrics where
  totalEvents := m.totalEvents + 1
  successCount := if e.outcome = .success then m.successCount + 1 else m.successCount
  errorCount := if e.outcome = .error then m.errorCount + 1 else m.errorCount
  partialCount := if e.outcome = .partialSuccess then m.partialCount + 1 else m.partialCount
  domains := m.domains.insert (m.keyOf e.domain) ((m.domains[m.keyOf e.domain]?.getD {}).record e)
  tools := m.tools.insert e.tool (m.tools[e.tool]?.getD 0 + 1)
  durationSum := m.durationSum + e.duration

/-- `average_duration_ms` is the quotient of two numbers, of which the second is not zero. -/
structure MetricsSnapshot where
  totalEvents : Nat
  successCount : Nat
  errorCount : Nat
  partialCount : Nat
  domains : Std.ExtTreeMap String DomainStats
  tools : Std.ExtTreeMap String Nat
  averageDurationMs : Nat × Nat

def snapshot (m : ScrapeMetrics) : MetricsSnapshot where
  totalEvents := m.totalEvents
  successCount := m.successCount
  errorCount := m.errorCount
  partialCount := m.partialCount
  domains := m.domains
  tools := m.tools
  averageDurationMs :=
    if m.totalEvents = 0 then (0, 1) else (m.durationSum / 1000000, m.totalEvents)

/-- The metrics after some events. -/
def recorded (events : List ScrapeEvent) : ScrapeMetrics := events.foldl record {}

theorem recorded_concat (events : List ScrapeEvent) (e : ScrapeEvent) :
    recorded (events ++ [e]) = (recorded events).record e := by
  rw [recorded, List.foldl_append]
  rfl

/-! ## What the events themselves say -/

/-- The distinct domains, in the order in which they are first recorded. -/
def firstDomains (events : List ScrapeEvent) : List String :=
  events.foldl (fun seen e => if e.domain ∈ seen then seen else seen ++ [e.domain]) []

/-- What a domain's own events add up to. -/
def ownStats (events : List ScrapeEvent) (domain : String) : DomainStats :=
  let own := events.filter fun e => e.domain = domain
  { events := own.length
    pages := (own.map (·.count)).sum
    errors := own.countP fun e => e.outcome ≠ .success }

theorem firstDomains_concat (events : List ScrapeEvent) (e : ScrapeEvent) :
    firstDomains (events ++ [e]) =
      if e.domain ∈ firstDomains events then firstDomains events
      else firstDomains events ++ [e.domain] := by
  rw [firstDomains, List.foldl_append]
  rfl

theorem ownStats_concat_self (events : List ScrapeEvent) (e : ScrapeEvent) :
    ownStats (events ++ [e]) e.domain = (ownStats events e.domain).record e := by
  cases outcome : e.outcome with
  | success => simp [ownStats, DomainStats.record, List.filter_append, outcome]
  | error => simp [ownStats, DomainStats.record, List.filter_append, outcome]
  | partialSuccess => simp [ownStats, DomainStats.record, List.filter_append, outcome]

theorem ownStats_concat_of_ne (events : List ScrapeEvent) {e : ScrapeEvent} {domain : String}
    (other : e.domain ≠ domain) : ownStats (events ++ [e]) domain = ownStats events domain := by
  rw [ownStats, List.filter_append, List.filter_cons_of_neg (by simpa using other),
    List.filter_nil, List.append_nil]
  rfl

/-- A domain without an event of its own. -/
theorem ownStats_of_new {events : List ScrapeEvent} {domain : String}
    (new : domain ∉ firstDomains events) : ownStats events domain = {} := by
  induction events using List.reverseRecOn with
  | nil => rfl
  | append_singleton events e ih =>
      rw [firstDomains_concat] at new
      split at new
      · rename_i seen
        have other : e.domain ≠ domain := by
          intro same
          rw [same] at seen
          exact new seen
        rw [ownStats_concat_of_ne events other, ih new]
      · rw [List.mem_append, List.mem_singleton, not_or] at new
        rw [ownStats_concat_of_ne events (Ne.symm new.2), ih new.1]

/-- The first `n` of the domains after one more event. -/
theorem mem_take_firstDomains_concat {events : List ScrapeEvent} {e : ScrapeEvent} {n : Nat}
    {domain : String} :
    domain ∈ (firstDomains (events ++ [e])).take n ↔
      domain ∈ (firstDomains events).take n ∨
        domain = e.domain ∧ e.domain ∉ firstDomains events ∧ (firstDomains events).length < n := by
  rw [firstDomains_concat]
  split
  · rename_i seen
    simp [seen]
  · rename_i new
    rw [List.take_append, List.mem_append]
    by_cases room : (firstDomains events).length < n
    · rw [List.take_of_length_le (l := [e.domain]) (by rw [List.length_singleton]; omega),
        List.mem_singleton]
      simp [new, room]
    · rw [Nat.sub_eq_zero_of_le (by omega), List.take_zero]
      simp [room]

/-! ## What is kept -/

/-- What holds after any events: the totals, and where the domains stand in the map. -/
structure Kept (events : List ScrapeEvent) (m : ScrapeMetrics) : Prop where
  total : m.totalEvents = events.length
  outcomes : m.successCount + m.errorCount + m.partialCount = m.totalEvents
  domainEvents : sumValues (·.events) m.domains = m.totalEvents
  domainPages : sumValues (·.pages) m.domains = (events.map (·.count)).sum
  domainErrors : sumValues (·.errors) m.domains = m.errorCount + m.partialCount
  toolEvents : sumValues id m.tools = m.totalEvents
  size : m.domains.size ≤ maxTrackedDomains ∨
    overflowDomainKey ∈ m.domains ∧ m.domains.size ≤ maxTrackedDomains + 1
  room : m.domains.size ≤ (firstDomains events).length ∨
    maxTrackedDomains ≤ (firstDomains events).length
  known : ∀ domain ∈ m.domains, domain ∈ firstDomains events ∨ domain = overflowDomainKey
  early : ∀ domain ∈ (firstDomains events).take maxTrackedDomains, domain ∈ m.domains
  exact : ∀ domain ∈ (firstDomains events).take maxTrackedDomains, domain ≠ overflowDomainKey →
    m.domains[domain]? = some (ownStats events domain)

theorem Kept.start : Kept [] {} where
  total := rfl
  outcomes := rfl
  domainEvents := rfl
  domainPages := rfl
  domainErrors := rfl
  toolEvents := rfl
  size := .inl (Nat.zero_le _)
  room := .inl (Nat.zero_le _)
  known := fun _ inside => absurd inside ExtTreeMap.not_mem_empty
  early := fun _ inside => absurd inside List.not_mem_nil
  exact := fun _ inside => absurd inside List.not_mem_nil

/-! ## One event -/

/-- Whether an event counts as an error of its domain. -/
def ScrapeEvent.failures (e : ScrapeEvent) : Nat := if e.outcome = .success then 0 else 1

theorem DomainStats.pages_record (s : DomainStats) (e : ScrapeEvent) :
    (s.record e).pages = s.pages + e.count := rfl

theorem DomainStats.errors_record (s : DomainStats) (e : ScrapeEvent) :
    (s.record e).errors = s.errors + e.failures := by
  cases outcome : e.outcome with
  | success => simp [DomainStats.record, ScrapeEvent.failures, outcome]
  | error => simp [DomainStats.record, ScrapeEvent.failures, outcome]
  | partialSuccess => simp [DomainStats.record, ScrapeEvent.failures, outcome]

theorem errors_record (m : ScrapeMetrics) (e : ScrapeEvent) :
    (m.record e).errorCount + (m.record e).partialCount =
      m.errorCount + m.partialCount + e.failures := by
  cases outcome : e.outcome with
  | success => simp [record, ScrapeEvent.failures, outcome]
  | error => simp [record, ScrapeEvent.failures, outcome, Nat.add_right_comm]
  | partialSuccess => simp [record, ScrapeEvent.failures, outcome, Nat.add_assoc]

theorem outcomes_record (m : ScrapeMetrics) (e : ScrapeEvent) :
    (m.record e).successCount + (m.record e).errorCount + (m.record e).partialCount =
      m.successCount + m.errorCount + m.partialCount + 1 := by
  cases outcome : e.outcome with
  | success => simp [record, outcome]; omega
  | error => simp [record, outcome]; omega
  | partialSuccess => simp [record, outcome]; omega

/-- The two ways in which a key is chosen. -/
theorem keyOf_cases (m : ScrapeMetrics) (domain : String) :
    m.keyOf domain = domain ∧ (domain ∈ m.domains ∨ m.domains.size < maxTrackedDomains) ∨
      m.keyOf domain = overflowDomainKey ∧ domain ∉ m.domains ∧
        maxTrackedDomains ≤ m.domains.size := by
  rw [keyOf]
  split
  · rename_i own
    exact .inl ⟨rfl, own⟩
  · rename_i full
    rw [not_or, Nat.not_lt] at full
    exact .inr ⟨rfl, full⟩

section Step

variable {events : List ScrapeEvent} {m : ScrapeMetrics} (e : ScrapeEvent)

theorem mem_domains_record {domain : String} :
    domain ∈ (m.record e).domains ↔ domain = m.keyOf e.domain ∨ domain ∈ m.domains := by
  have inserted := ExtTreeMap.mem_insert (t := m.domains) (a := domain) (k := m.keyOf e.domain)
    (v := (m.domains[m.keyOf e.domain]?.getD {}).record e)
  rwa [LawfulEqCmp.compare_eq_iff_eq, eq_comm (a := m.keyOf e.domain)] at inserted

theorem getElem?_domains_record_of_ne {domain : String} (other : domain ≠ m.keyOf e.domain) :
    (m.record e).domains[domain]? = m.domains[domain]? := by
  have kept := ExtTreeMap.getElem?_insert (t := m.domains) (a := domain) (k := m.keyOf e.domain)
    (v := (m.domains[m.keyOf e.domain]?.getD {}).record e)
  rwa [if_neg fun same => other (LawfulEqCmp.compare_eq_iff_eq.mp same).symm] at kept

theorem size_domains_record : (m.record e).domains.size =
    if m.keyOf e.domain ∈ m.domains then m.domains.size else m.domains.size + 1 :=
  ExtTreeMap.size_insert

/-- An early domain is counted under its own key. -/
theorem Kept.keyOf_of_early (kept : Kept events m)
    (inside : e.domain ∈ (firstDomains (events ++ [e])).take maxTrackedDomains) :
    m.keyOf e.domain = e.domain := by
  rw [keyOf, if_pos]
  rcases mem_take_firstDomains_concat.mp inside with before | ⟨-, -, open_⟩
  · exact .inl (kept.early e.domain before)
  · rcases kept.room with small | full
    · exact .inr (by omega)
    · omega

theorem Kept.sizeRecord (kept : Kept events m) :
    (m.record e).domains.size ≤ maxTrackedDomains ∨
      overflowDomainKey ∈ (m.record e).domains ∧
        (m.record e).domains.size ≤ maxTrackedDomains + 1 := by
  rw [size_domains_record]
  rcases keyOf_cases m e.domain with ⟨own, old | small⟩ | ⟨other, -, full⟩
  · rw [own, if_pos old]
    exact kept.size.imp id fun ⟨inside, few⟩ => ⟨(mem_domains_record e).mpr (.inr inside), few⟩
  · refine .inl ?_
    split
    · omega
    · omega
  · refine .inr ⟨(mem_domains_record e).mpr (.inl other.symm), ?_⟩
    rw [other]
    split
    · rcases kept.size with small | ⟨-, few⟩
      · omega
      · exact few
    · rename_i absent
      have small := kept.size.resolve_right fun there => absent there.1
      omega

theorem Kept.roomRecord (kept : Kept events m) :
    (m.record e).domains.size ≤ (firstDomains (events ++ [e])).length ∨
      maxTrackedDomains ≤ (firstDomains (events ++ [e])).length := by
  have grows : (firstDomains events).length ≤ (firstDomains (events ++ [e])).length := by
    rw [firstDomains_concat]
    split
    · exact Nat.le_refl _
    · rw [List.length_append]
      exact Nat.le_add_right _ _
  by_cases room : (firstDomains events).length < maxTrackedDomains
  · have small := kept.room.resolve_right (Nat.not_le.mpr room)
    left
    by_cases seen : e.domain ∈ firstDomains events
    · have old := kept.early e.domain (by rwa [List.take_of_length_le (Nat.le_of_lt room)])
      have own : m.keyOf e.domain = e.domain := if_pos (.inl old)
      rw [size_domains_record, own, if_pos old]
      exact Nat.le_trans small grows
    · rw [size_domains_record, firstDomains_concat, if_neg seen, List.length_append,
        List.length_singleton]
      split
      · exact Nat.le_succ_of_le small
      · exact Nat.succ_le_succ small
  · exact .inr (Nat.le_trans (Nat.not_lt.mp room) grows)

theorem Kept.earlyRecord (kept : Kept events m) {domain : String}
    (inside : domain ∈ (firstDomains (events ++ [e])).take maxTrackedDomains) :
    domain ∈ (m.record e).domains := by
  rw [mem_domains_record]
  rcases mem_take_firstDomains_concat.mp inside with before | ⟨rfl, -, -⟩
  · exact .inr (kept.early domain before)
  · exact .inl (kept.keyOf_of_early e inside).symm

theorem Kept.exactRecord (kept : Kept events m) {domain : String}
    (inside : domain ∈ (firstDomains (events ++ [e])).take maxTrackedDomains)
    (real : domain ≠ overflowDomainKey) :
    (m.record e).domains[domain]? = some (ownStats (events ++ [e]) domain) := by
  by_cases here : e.domain = domain
  · subst here
    have own := kept.keyOf_of_early e inside
    have before : m.domains[e.domain]?.getD {} = ownStats events e.domain := by
      rcases mem_take_firstDomains_concat.mp inside with old | ⟨-, new, -⟩
      · rw [kept.exact e.domain old real, Option.getD_some]
      · have absent : e.domain ∉ m.domains := by
          intro there
          rcases kept.known e.domain there with seen | overflow
          · exact new seen
          · exact real overflow
        rw [ExtTreeMap.getElem?_eq_none absent, ownStats_of_new new, Option.getD_none]
    rw [ownStats_concat_self, ← before]
    have inserted : (m.record e).domains[m.keyOf e.domain]? =
        some ((m.domains[m.keyOf e.domain]?.getD {}).record e) := ExtTreeMap.getElem?_insert_self
    rwa [own] at inserted
  · have apart : domain ≠ m.keyOf e.domain := by
      rcases keyOf_cases m e.domain with ⟨own, -⟩ | ⟨overflow, -⟩
      · rw [own]
        exact Ne.symm here
      · rw [overflow]
        exact real
    have before := (mem_take_firstDomains_concat.mp inside).resolve_right
      fun new => here new.1.symm
    rw [getElem?_domains_record_of_ne e apart, ownStats_concat_of_ne events here,
      kept.exact domain before real]

theorem Kept.record (kept : Kept events m) : Kept (events ++ [e]) (m.record e) where
  total := by
    rw [List.length_append, List.length_singleton, ← kept.total]
    rfl
  outcomes := by
    rw [outcomes_record, kept.outcomes]
    rfl
  domainEvents := (sumValues_insert_getD (·.events) m.domains _ {} rfl rfl).trans
    (congrArg (· + 1) kept.domainEvents)
  domainPages := by
    rw [List.map_append, List.sum_append, ← kept.domainPages, List.map_singleton,
      List.sum_singleton]
    exact sumValues_insert_getD (·.pages) m.domains _ {} rfl
      (DomainStats.pages_record _ e)
  domainErrors := by
    rw [errors_record, ← kept.domainErrors]
    exact sumValues_insert_getD (·.errors) m.domains _ {} rfl
      (DomainStats.errors_record _ e)
  toolEvents := (sumValues_insert_getD id m.tools _ 0 rfl rfl).trans
    (congrArg (· + 1) kept.toolEvents)
  size := kept.sizeRecord e
  room := kept.roomRecord e
  known := by
    intro domain inside
    rw [firstDomains_concat]
    rcases (mem_domains_record e).mp inside with rfl | old
    · rcases keyOf_cases m e.domain with ⟨own, -⟩ | ⟨overflow, -⟩
      · rw [own]
        left
        split
        · assumption
        · exact List.mem_concat_self
      · exact .inr overflow
    · refine (kept.known domain old).imp_left fun seen => ?_
      split
      · exact seen
      · exact List.mem_append_left _ seen
  early := fun _ inside => kept.earlyRecord e inside
  exact := fun _ inside real => kept.exactRecord e inside real

end Step

theorem kept_recorded (events : List ScrapeEvent) : Kept events (recorded events) := by
  induction events using List.reverseRecOn with
  | nil => exact Kept.start
  | append_singleton events e ih =>
      rw [recorded_concat]
      exact ih.record e

/-! ## The snapshot -/

/-- What a snapshot of the metrics says of the events recorded so far. -/
structure Conserves (events : List ScrapeEvent) (s : MetricsSnapshot) : Prop where
  total : s.totalEvents = events.length
  outcomes : s.successCount + s.errorCount + s.partialCount = s.totalEvents
  domainEvents : sumValues (·.events) s.domains = s.totalEvents
  toolEvents : sumValues id s.tools = s.totalEvents
  pages : sumValues (·.pages) s.domains = (events.map (·.count)).sum
  errors : sumValues (·.errors) s.domains = s.errorCount + s.partialCount
  capped : s.domains.size ≤ maxTrackedDomains + 1
  exact : ∀ domain ∈ (firstDomains events).take maxTrackedDomains, domain ≠ overflowDomainKey →
    s.domains[domain]? = some (ownStats events domain)

/-- The metrics conserve the events, whatever the domains are called and however many there are. -/
theorem snapshot_conserves (events : List ScrapeEvent) :
    Conserves events (recorded events).snapshot where
  total := (kept_recorded events).total
  outcomes := (kept_recorded events).outcomes
  domainEvents := (kept_recorded events).domainEvents
  toolEvents := (kept_recorded events).toolEvents
  pages := (kept_recorded events).domainPages
  errors := (kept_recorded events).domainErrors
  capped := (kept_recorded events).size.elim Nat.le_succ_of_le And.right
  exact := (kept_recorded events).exact

end ScrapeMetrics

end Webfang
