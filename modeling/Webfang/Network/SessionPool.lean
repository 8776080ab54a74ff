import Mathlib.Algebra.Group.Nat.Defs
import Webfang.Lib.KeyedRows
import Webfang.Lib.StableSort
import Webfang.Lib.Utf8

/-!
# The session pool

`infrastructure/network/session_pool.rs`: a fixed number of session slots for each domain, with
the health of each.  Readings of the clock are nanoseconds and arguments of the calls, as are the
jitter that a back-off draws and the order in which the map of domains is iterated.
-/

namespace Webfang

namespace SessionPool

open KeyedRows StableSort

inductive SessionStatus
  | healthy
  | banned
  | retiring
  deriving DecidableEq, Repr

structure SessionState where
  status : SessionStatus
  consecutiveFailures : UInt32
  lastFailureTime : Option Nat
  nextRetryTime : Option Nat
  deriving DecidableEq, Repr

/-- `SessionState::healthy` -/
def SessionState.fresh : SessionState := ⟨.healthy, 0, none, none⟩

/-- One row of the map `sessions`. -/
structure DomainEntry where
  domain : List Char
  states : List SessionState
  lastSeen : Nat
  deriving DecidableEq, Repr

structure SessionPoolConfig where
  poolSize : Nat
  /-- `DomainSlots` is not zero -/
  slots_pos : 0 < poolSize
  baseDelay : Nat
  maxDelay : Nat
  maxExp : UInt32
  ttlDuration : Nat

/-- `SessionPoolConfig::default`, with `DOMAIN_SLOTS_DEFAULT` slots. -/
def SessionPoolConfig.default : SessionPoolConfig where
  poolSize := 8
  slots_pos := by decide
  baseDelay := 1000000000
  maxDelay := 60000000000
  maxExp := 6
  ttlDuration := 300000000000

def maxTrackedDomains : Nat := 500

def nanosPerMilli : Nat := 1000000

/-! ## The scan for a slot -/

/-- The start of the scan; `anchor` is `PICK_ANCHOR`. -/
def pickStart (anchor : Nat) (domain : List Char) (now len : Nat) : Nat :=
  let seed := (Utf8.encode domain).foldl
    (fun seed byte => (seed ^^^ byte.toUInt64) * 0x00000100000001b3) (0xcbf29ce484222325 : UInt64)
  let tick := if anchor ≤ now then now - anchor else anchor - now
  let z := seed ^^^ (if tick < UInt64.size then UInt64.ofNat tick else 0xffffffffffffffff)
  let z := (z ^^^ (z >>> 30)) * 0xbf58476d1ce4e5b9
  let z := (z ^^^ (z >>> 27)) * 0x94d049bb133111eb
  let z := z ^^^ (z >>> 31)
  z.toNat % max len 1

def bannedSessionReady (state : SessionState) (now : Nat) : Bool :=
  state.nextRetryTime.any fun deadline => decide (deadline ≤ now)

/-- Whether the scan stops at the slot. -/
def SessionState.available (now : Nat) (state : SessionState) : Bool :=
  match state.status with
  | .healthy => true
  | .banned => bannedSessionReady state now
  | .retiring => false

def findAvailable (anchor : Nat) (domain : List Char) (sessions : List SessionState) (now : Nat) :
    Option Nat :=
  let start := pickStart anchor domain now sessions.length
  ((List.range sessions.length).map fun k => (start + k) % sessions.length).find? fun idx =>
    sessions[idx]?.any (·.available now)

theorem pickStart_lt (anchor : Nat) (domain : List Char) (now : Nat) {len : Nat} (some_ : 0 < len) :
    pickStart anchor domain now len < len := by
  have bound : pickStart anchor domain now len < max len 1 := Nat.mod_lt _ (by omega)
  omega

/-- The scan passes every slot. -/
theorem exists_scan_index {start idx len : Nat} (begin_ : start < len) (bound : idx < len) :
    ∃ k < len, (start + k) % len = idx := by
  by_cases later : start ≤ idx
  · refine ⟨idx - start, by omega, ?_⟩
    rw [Nat.add_sub_cancel' later, Nat.mod_eq_of_lt bound]
  · refine ⟨idx + len - start, by omega, ?_⟩
    rw [Nat.add_sub_cancel' (by omega), Nat.add_mod_right, Nat.mod_eq_of_lt bound]

theorem findAvailable_some {anchor : Nat} {domain : List Char} {sessions : List SessionState}
    {now id : Nat} (found : findAvailable anchor domain sessions now = some id) :
    ∃ state, sessions[id]? = some state ∧ state.available now = true := by
  have stop := List.find?_some found
  rw [Option.any_eq_true] at stop
  exact stop

theorem findAvailable_eq_none {anchor : Nat} {domain : List Char} {sessions : List SessionState}
    {now : Nat} :
    findAvailable anchor domain sessions now = none ↔
      ∀ state ∈ sessions, state.available now = false := by
  rw [findAvailable, List.find?_eq_none]
  simp only [List.mem_map, List.mem_range, forall_exists_index, and_imp, Bool.not_eq_true,
    Option.any_eq_false]
  constructor
  · intro passed state member
    obtain ⟨idx, at_⟩ := List.mem_iff_getElem?.mp member
    have bound : idx < sessions.length := (List.getElem?_eq_some_iff.mp at_).1
    obtain ⟨k, early, here⟩ :=
      exists_scan_index (pickStart_lt anchor domain now (Nat.zero_lt_of_lt bound)) bound
    exact passed idx k early here state at_
  · intro all idx k early here state at_
    exact all state (List.mem_of_getElem? at_)

/-! ## Reset, failure and back-off -/

/-- The reset of `evict_expired` and of `evict_stale`: a slot that is not healthy, once its last
failure is further back than the TTL. -/
def resetExpired (cfg : SessionPoolConfig) (now : Nat) (state : SessionState) : SessionState :=
  match state.lastFailureTime with
  | some lastFailure =>
      if cfg.ttlDuration < now - lastFailure ∧ state.status ≠ .healthy then .fresh else state
  | none => state

/-- `backoff_delay` in milliseconds; `jitter` multiplies by the factor that is drawn and rounds. -/
def backoffDelay (cfg : SessionPoolConfig) (jitter : Nat → Nat) (consecutiveFailures : UInt32) :
    Nat :=
  let exponent := min consecutiveFailures.toNat cfg.maxExp.toNat
  let delayMs := cfg.baseDelay / nanosPerMilli * 2 ^ exponent
  let capped := max (min delayMs (cfg.maxDelay / nanosPerMilli)) 1
  max (jitter capped) 1

def applyFailure (cfg : SessionPoolConfig) (jitter : Nat → Nat) (sessionId : Nat) (shouldBan : Bool)
    (now : Nat) (state : SessionState) : SessionState :=
  let failures := state.consecutiveFailures + 1
  if shouldBan then
    let delay := backoffDelay cfg jitter failures
    let staggerWindowMs := max (delay / 5) 1
    let staggerMs := (UInt64.ofNat sessionId * 37).toNat % staggerWindowMs
    ⟨.banned, failures, some now, some (now + (delay + staggerMs) * nanosPerMilli)⟩
  else
    ⟨if 3 ≤ failures then .retiring else state.status, failures, some now, state.nextRetryTime⟩

/-! ## The map of domains -/

abbrev Sessions := List DomainEntry

/-- `sessions.iter()`: the entries by their rank in the map. -/
def iterated (rank : List Char → Nat) (sessions : Sessions) : Sessions :=
  sessions.insertionSort (ByKey fun e => rank e.domain)

def byAge (rank : List Char → Nat) (sessions : Sessions) : Sessions :=
  (iterated rank sessions).insertionSort (ByKey (·.lastSeen))

def enforceDomainCap (rank : List Char → Nat) (sessions : Sessions) : Sessions :=
  if sessions.length ≤ maxTrackedDomains then sessions
  else
    let excess := sessions.length - maxTrackedDomains
    let evicted := ((byAge rank sessions).take excess).map (·.domain)
    sessions.filter fun e => !evicted.contains e.domain

/-- `sessions.get_mut(domain)` -/
def modifyDomain (domain : List Char) (f : DomainEntry → DomainEntry) (sessions : Sessions) :
    Sessions :=
  sessions.map fun e => if e.domain = domain then f e else e

/-- `sessions.entry(domain).or_insert_with(..)`, new slots being healthy. -/
def orInsert (cfg : SessionPoolConfig) (domain : List Char) (now : Nat) (sessions : Sessions) :
    Sessions :=
  if (rowAt DomainEntry.domain sessions domain).isSome then sessions
  else sessions ++ [⟨domain, List.replicate cfg.poolSize .fresh, now⟩]

/-- `evict_expired` on the entry of an acquire, and its activity stamp. -/
def DomainEntry.refresh (cfg : SessionPoolConfig) (now : Nat) (e : DomainEntry) : DomainEntry :=
  { e with states := e.states.map (resetExpired cfg now), lastSeen := now }

/-- The map as `acquire` leaves it to the cap. -/
def touched (cfg : SessionPoolConfig) (domain : List Char) (now : Nat) (sessions : Sessions) :
    Sessions :=
  modifyDomain domain (·.refresh cfg now) (orInsert cfg domain now sessions)

/-- The slots that `acquire` scans. -/
def scanned (cfg : SessionPoolConfig) (domain : List Char) (now : Nat) (sessions : Sessions) :
    List SessionState :=
  ((rowAt DomainEntry.domain (touched cfg domain now sessions) domain).map (·.states)).getD []

def acquire (cfg : SessionPoolConfig) (anchor : Nat) (rank : List Char → Nat) (domain : List Char)
    (now : Nat) (sessions : Sessions) : Option Nat × Sessions :=
  (findAvailable anchor domain (scanned cfg domain now sessions) now,
    enforceDomainCap rank (touched cfg domain now sessions))

def reportSuccess (domain : List Char) (sessionId now : Nat) (sessions : Sessions) : Sessions :=
  modifyDomain domain
    (fun e => { e with states := e.states.modify sessionId fun _ => .fresh, lastSeen := now }) sessions

/-- The clock is read twice: `now` for the entry, `failed` for the slot. -/
def reportFailure (cfg : SessionPoolConfig) (jitter : Nat → Nat) (domain : List Char)
    (sessionId statusCode now failed : Nat) (sessions : Sessions) : Sessions :=
  let shouldBan := statusCode == 429 || statusCode == 503 || statusCode == 403
  modifyDomain domain
    (fun e => { e with
      states := e.states.modify sessionId (applyFailure cfg jitter sessionId shouldBan failed)
      lastSeen := now }) sessions

def evictStale (cfg : SessionPoolConfig) (now : Nat) (sessions : Sessions) : Sessions :=
  (sessions.map fun e => { e with states := e.states.map (resetExpired cfg now) }).filter fun e =>
    !decide (cfg.ttlDuration < now - e.lastSeen)

end SessionPool

end Webfang
