import Webfang.Lib.Execution
import Webfang.Lib.Parties

/-!
# Renderings in the browser

`infrastructure/downloader`: the strategies `Full` and `Hybrid` render pages in Chrome.  A
`ResourceGovernor` counts permits and reads the memory that is in use.  Under `Full` a fetch holds
a permit for its rendering; under `Hybrid` it only asks the governor before the rendering.
-/

namespace Webfang.Downloader

open StepSystem Parties

/-! ## The governor -/

def warningThreshold : Nat := 80

def criticalThreshold : Nat := 90

inductive ResourceError
  | ramTooHigh (usage : Nat)
  deriving DecidableEq, Repr

/-- `ResourceGovernor`, by the permits of its semaphore. -/
structure ResourceGovernor where
  available : Nat
  deriving DecidableEq, Repr

namespace ResourceGovernor

/-- The permits of a new governor. -/
def maxPermits (maxInstances : Nat) : Nat := max maxInstances 1

def withMaxInstances (maxInstances : Nat) : ResourceGovernor := ⟨maxPermits maxInstances⟩

/-- `check_resources`, at this reading of the memory in use. -/
def checkResources (governor : ResourceGovernor) (usage : Nat) : Except ResourceError Nat :=
  if criticalThreshold ≤ usage then .error (.ramTooHigh usage)
  else if warningThreshold ≤ usage then .ok (governor.available / 2)
  else .ok governor.available

/-- `acquire`, once a permit is there. -/
def acquire (governor : ResourceGovernor) : Option ResourceGovernor :=
  if 0 < governor.available then some ⟨governor.available - 1⟩ else none

/-- A permit is dropped. -/
def release (governor : ResourceGovernor) : ResourceGovernor := ⟨governor.available + 1⟩

end ResourceGovernor

/-! ## Fetches -/

inductive JsStrategy
  | static
  | hybrid
  | full
  deriving DecidableEq, Repr

/-- What `detect_spa` finds in a page. -/
inductive SpaSignal
  | staticContent
  | wafBlocked
  | spaDetected
  deriving DecidableEq, Repr

inductive ObscuraAnswer
  | page
  | empty
  | wafChallenge
  | failed
  deriving DecidableEq, Repr

/-- Where a fetch waits; a rendering knows the reading that was taken for it. -/
inductive FetchPhase
  | layer1
  | layer2
  | acquiring (usage : Nat)
  | rendering (usage : Nat) (permit : Bool)
  | ended
  deriving DecidableEq, Repr

namespace FetchPhase

def isRendering : FetchPhase → Bool
  | rendering _ _ => true
  | _ => false

def holdsPermit : FetchPhase → Bool
  | rendering _ permit => permit
  | _ => false

/-- The reading that was taken for a rendering. -/
def usage : FetchPhase → Option Nat
  | acquiring usage | rendering usage _ => some usage
  | _ => none

end FetchPhase

/-- A router with its governor and all fetches so far. -/
structure RouterState where
  strategy : JsStrategy
  maxPermits : Nat
  governor : ResourceGovernor
  fetches : List FetchPhase
  deriving DecidableEq, Repr

/-- The moves of the fetches; a reading of the memory comes with the moves that ask for one. -/
inductive RouterAction
  /-- a fetch starts, of a URL that may be forbidden -/
  | fetch (forbidden : Bool) (usage : Nat)
  /-- `none` where the fetch of layer 1 fails -/
  | layer1 (i : Nat) (signal : Option SpaSignal) (usage : Nat)
  | layer2 (i : Nat) (answer : ObscuraAnswer) (usage : Nat)
  | grant (i : Nat)
  /-- the cancellation token fires for a fetch that waits for its permit -/
  | cancel (i : Nat)
  | rendered (i : Nat)
  /-- a fetch is dropped at an await -/
  | drop (i : Nat)
  deriving DecidableEq, Repr

namespace RouterState

def init (strategy : JsStrategy) (maxInstances : Nat) : RouterState where
  strategy := strategy
  maxPermits := ResourceGovernor.maxPermits maxInstances
  governor := .withMaxInstances maxInstances
  fetches := []

def move (s : RouterState) (i : Nat) (phase : FetchPhase) : RouterState :=
  { s with fetches := s.fetches.set i phase }

/-- The fetch is ended, and its permit is dropped with it. -/
def finish (s : RouterState) (i : Nat) (phase : FetchPhase) : RouterState :=
  { s.move i .ended with
    governor := if phase.holdsPermit then s.governor.release else s.governor }

/-- `FetchRouter::fetch`, up to its first await. -/
def firstPhase (s : RouterState) (forbidden : Bool) (usage : Nat) : FetchPhase :=
  if forbidden then .ended
  else
    match s.strategy with
    | .static | .hybrid => .layer1
    | .full =>
        match s.governor.checkResources usage with
        | .ok _ => .acquiring usage
        | .error _ => .ended

/-- Behind layer 1: the page is looked at, and under `Hybrid` layer 2 is asked. -/
def behindLayer1 (s : RouterState) (signal : Option SpaSignal) (usage : Nat) : FetchPhase :=
  match s.strategy, signal with
  | .hybrid, some .spaDetected =>
      match s.governor.checkResources usage with
      | .ok _ => .layer2
      | .error _ => .ended
  | _, _ => .ended

/-- Behind layer 2: without content, the page is rendered. -/
def behindLayer2 (s : RouterState) (answer : ObscuraAnswer) (usage : Nat) : FetchPhase :=
  match answer with
  | .page | .wafChallenge => .ended
  | .empty | .failed =>
      match s.governor.checkResources usage with
      | .ok _ => .rendering usage false
      | .error _ => .ended

end RouterState

/-- One move of a fetch. -/
def routerStep (s : RouterState) : RouterAction → Option RouterState
  | .fetch forbidden usage =>
      some { s with fetches := s.fetches ++ [s.firstPhase forbidden usage] }
  | .layer1 i signal usage =>
      match s.fetches[i]? with
      | some .layer1 => some (s.move i (s.behindLayer1 signal usage))
      | _ => none
  | .layer2 i answer usage =>
      match s.fetches[i]? with
      | some .layer2 => some (s.move i (s.behindLayer2 answer usage))
      | _ => none
  | .grant i =>
      match s.fetches[i]? with
      | some (.acquiring usage) => s.governor.acquire.map fun governor =>
          { s.move i (.rendering usage true) with governor := governor }
      | _ => none
  | .cancel i =>
      match s.fetches[i]? with
      | some (.acquiring usage) => some (s.finish i (.acquiring usage))
      | _ => none
  | .rendered i =>
      match s.fetches[i]? with
      | some (.rendering usage permit) => some (s.finish i (.rendering usage permit))
      | _ => none
  | .drop i =>
      match s.fetches[i]? with
      | some .ended | none => none
      | some phase => some (s.finish i phase)

namespace RouterState

def renderings (s : RouterState) : Nat :=
  (s.fetches.map fun phase => phase.isRendering.toNat).sum

/-- The permits that renderings hold. -/
def held (s : RouterState) : Nat := (s.fetches.map fun phase => phase.holdsPermit.toNat).sum

/-- The renderings are within the permits, of which there is at least one; none was started at a
critical reading; and when all fetches are ended all permits are back. -/
def Bounded (s : RouterState) : Prop :=
  s.renderings ≤ s.maxPermits ∧ 1 ≤ s.maxPermits ∧
    (∀ usage permit, .rendering usage permit ∈ s.fetches → usage < criticalThreshold) ∧
    ((∀ phase ∈ s.fetches, phase = .ended) → s.governor.available = s.maxPermits)

/-- A fetch that goes on from layer 2 to a rendering meets fewer renderings than permits. -/
def RoomForLayer3 (s : RouterState) : RouterAction → Prop
  | .layer2 i answer usage => s.fetches[i]? = some .layer2 → answer = .empty ∨ answer = .failed →
      usage < criticalThreshold → s.renderings < s.maxPermits
  | _ => True

/-! ## What a move does -/

/-- What a fetch can be in, under a strategy. -/
def Fits (strategy : JsStrategy) : FetchPhase → Prop
  | .layer1 | .ended => True
  | .layer2 => strategy = .hybrid
  | .acquiring usage => strategy = .full ∧ usage < criticalThreshold
  | .rendering usage permit => usage < criticalThreshold ∧ (strategy = .full ↔ permit = true)

/-- The move leads from one phase without a rendering to another, or to a rendering behind layer 2,
or to a rendering with a permit, or it ends the fetch. -/
inductive Moves (s : RouterState) : RouterAction → RouterState → Prop
  | start {forbidden usage phase} : Fits s.strategy phase → phase.isRendering = false →
      Moves s (.fetch forbidden usage) { s with fetches := s.fetches ++ [phase] }
  | quiet {a i before behind} : s.fetches[i]? = some before → before.isRendering = false →
      Fits s.strategy behind → behind.isRendering = false → s.RoomForLayer3 a →
      Moves s a (s.move i behind)
  | layer3 {i answer usage} : s.fetches[i]? = some .layer2 → answer = .empty ∨ answer = .failed →
      usage < criticalThreshold →
      Moves s (.layer2 i answer usage) (s.move i (.rendering usage false))
  | grant {i usage} : s.fetches[i]? = some (.acquiring usage) → 0 < s.governor.available →
      Moves s (.grant i)
        { s.move i (.rendering usage true) with governor := ⟨s.governor.available - 1⟩ }
  | finish {a i phase} : s.fetches[i]? = some phase → s.RoomForLayer3 a →
      Moves s a (s.finish i phase)

theorem checkResources_ok {governor : ResourceGovernor} {usage permits : Nat}
    (granted : governor.checkResources usage = .ok permits) : usage < criticalThreshold := by
  rw [ResourceGovernor.checkResources] at granted
  split at granted
  next => cases granted
  next low => exact Nat.lt_of_not_le low

theorem checkResources_error {governor : ResourceGovernor} {usage : Nat} {e : ResourceError}
    (refused : governor.checkResources usage = .error e) : criticalThreshold ≤ usage := by
  rw [ResourceGovernor.checkResources] at refused
  split at refused
  next high => exact high
  next =>
      split at refused
      · cases refused
      · cases refused

theorem firstPhase_fits (s : RouterState) (forbidden : Bool) (usage : Nat) :
    Fits s.strategy (s.firstPhase forbidden usage) ∧
      (s.firstPhase forbidden usage).isRendering = false := by
  unfold firstPhase
  split
  · exact ⟨True.intro, rfl⟩
  · cases strategy : s.strategy with
    | static => exact ⟨True.intro, rfl⟩
    | hybrid => exact ⟨True.intro, rfl⟩
    | full =>
        cases checked : s.governor.checkResources usage with
        | ok permits => exact ⟨⟨rfl, checkResources_ok checked⟩, rfl⟩
        | error e => exact ⟨True.intro, rfl⟩

theorem behindLayer1_fits (s : RouterState) (signal : Option SpaSignal) (usage : Nat) :
    Fits s.strategy (s.behindLayer1 signal usage) ∧
      (s.behindLayer1 signal usage).isRendering = false := by
  unfold behindLayer1
  split
  next hybrid =>
      cases s.governor.checkResources usage with
      | ok permits => exact ⟨hybrid, rfl⟩
      | error e => exact ⟨True.intro, rfl⟩
  next => exact ⟨True.intro, rfl⟩

/-- What an enabled action does. -/
theorem moves_of_step {s t : RouterState} {a : RouterAction} (step : routerStep s a = some t) :
    s.Moves a t := by
  cases a with
  | fetch forbidden usage =>
      cases step
      exact .start (s.firstPhase_fits forbidden usage).1 (s.firstPhase_fits forbidden usage).2
  | layer1 i signal usage =>
      simp only [routerStep] at step
      split at step
      next found =>
          cases step
          have fits := s.behindLayer1_fits signal usage
          exact .quiet found rfl fits.1 fits.2 True.intro
      next => cases step
  | layer2 i answer usage =>
      simp only [routerStep] at step
      split at step
      next found =>
          cases step
          have ended (stops : answer ≠ .empty ∧ answer ≠ .failed ∨ criticalThreshold ≤ usage) :
              s.Moves (.layer2 i answer usage) (s.move i .ended) := by
            refine .quiet found rfl True.intro rfl fun _ escalates low => ?_
            rcases stops with ⟨content, passed⟩ | high
            · exact (escalates.elim content passed).elim
            · exact absurd low (Nat.not_lt_of_le high)
          unfold behindLayer2
          cases answer with
          | page => exact ended (.inl ⟨nofun, nofun⟩)
          | wafChallenge => exact ended (.inl ⟨nofun, nofun⟩)
          | empty =>
              cases checked : s.governor.checkResources usage with
              | ok permits => exact .layer3 found (.inl rfl) (checkResources_ok checked)
              | error e => exact ended (.inr (checkResources_error checked))
          | failed =>
              cases checked : s.governor.checkResources usage with
              | ok permits => exact .layer3 found (.inr rfl) (checkResources_ok checked)
              | error e => exact ended (.inr (checkResources_error checked))
      next => cases step
  | grant i =>
      simp only [routerStep] at step
      split at step
      next usage found =>
          rw [ResourceGovernor.acquire] at step
          split at step
          next available =>
              cases step
              exact .grant found available
          next => cases step
      next => cases step
  | cancel i =>
      simp only [routerStep] at step
      split at step
      next usage found =>
          cases step
          exact .finish found True.intro
      next => cases step
  | rendered i =>
      simp only [routerStep] at step
      split at step
      next usage permit found =>
          cases step
          exact .finish found True.intro
      next => cases step
  | drop i =>
      simp only [routerStep] at step
      split at step
      next => cases step
      next => cases step
      next phase _ found =>
          cases step
          exact .finish found True.intro

/-! ## Permits and renderings -/

/-- The permits add up, and every fetch is where its strategy puts it. -/
structure Accounted (s : RouterState) : Prop where
  permits : s.governor.available + s.held = s.maxPermits
  positive : 1 ≤ s.maxPermits
  fits : ∀ phase ∈ s.fetches, Fits s.strategy phase

theorem accounted_init (strategy : JsStrategy) (maxInstances : Nat) :
    (init strategy maxInstances).Accounted where
  permits := rfl
  positive := le_max_right _ _
  fits := fun _ member => absurd member List.not_mem_nil

variable {s t : RouterState} {a : RouterAction}

theorem holdsPermit_of_isRendering {phase : FetchPhase} (idle : phase.isRendering = false) :
    phase.holdsPermit = false := by
  cases phase <;> first | rfl | cases idle

/-- What a move does to the permits that are held. -/
theorem held_move {i : Nat} {before behind : FetchPhase} (found : s.fetches[i]? = some before) :
    (s.move i behind).held + before.holdsPermit.toNat = s.held + behind.holdsPermit.toNat :=
  sum_set (fun phase => phase.holdsPermit.toNat) found behind

theorem renderings_move {i : Nat} {before behind : FetchPhase}
    (found : s.fetches[i]? = some before) :
    (s.move i behind).renderings + before.isRendering.toNat =
      s.renderings + behind.isRendering.toNat :=
  sum_set (fun phase => phase.isRendering.toNat) found behind

/-- A fetch that ends gives back what it holds. -/
theorem available_finish (i : Nat) (phase : FetchPhase) :
    (s.finish i phase).governor.available =
      s.governor.available + phase.holdsPermit.toNat := by
  rw [finish]
  cases phase.holdsPermit <;> rfl

/-- A move keeps the account. -/
theorem Accounted.step (acc : s.Accounted) (step : routerStep s a = some t) : t.Accounted := by
  have permits := acc.permits
  cases moves_of_step step with
  | start fits idle =>
      refine ⟨?_, acc.positive, forall_mem_concat acc.fits fits⟩
      rw [held, sum_concat, holdsPermit_of_isRendering idle]
      exact permits
  | @quiet a i before behind found idle fits idle' room =>
      refine ⟨?_, acc.positive, forall_mem_set acc.fits fits⟩
      have moved : (s.move i behind).held + before.holdsPermit.toNat =
        s.held + behind.holdsPermit.toNat := held_move found
      rw [holdsPermit_of_isRendering idle, holdsPermit_of_isRendering idle'] at moved
      exact (congrArg _ moved).trans permits
  | layer3 found escalates low =>
      have hybrid : s.strategy = .hybrid := acc.fits _ (List.mem_of_getElem? found)
      have fits : Fits s.strategy (.rendering _ false) :=
        ⟨low, iff_of_false (by rw [hybrid]; exact nofun) Bool.false_ne_true⟩
      refine ⟨?_, acc.positive, forall_mem_set acc.fits fits⟩
      exact (congrArg _ (held_move found)).trans permits
  | @grant i usage found available =>
      obtain ⟨full, low⟩ : Fits s.strategy (.acquiring usage) :=
        acc.fits _ (List.mem_of_getElem? found)
      have fits : Fits s.strategy (.rendering usage true) := ⟨low, iff_of_true full rfl⟩
      refine ⟨?_, acc.positive, forall_mem_set acc.fits fits⟩
      have moved : (s.move i (.rendering usage true)).held + 0 = s.held + 1 := held_move found
      change s.governor.available - 1 + (s.move i (.rendering usage true)).held = s.maxPermits
      omega
  | @finish a i phase found room =>
      refine ⟨?_, acc.positive, forall_mem_set acc.fits True.intro⟩
      have moved : (s.finish i phase).held + phase.holdsPermit.toNat = s.held + 0 :=
        held_move found
      have back := s.available_finish i phase
      change (s.finish i phase).governor.available + (s.finish i phase).held = s.maxPermits
      omega

/-- Under `Full` every rendering holds a permit. -/
theorem Accounted.renderings_le (acc : s.Accounted) (full : s.strategy = .full) :
    s.renderings ≤ s.maxPermits := by
  have each : s.renderings ≤ s.held := by
    apply sum_le_sum
    intro phase member
    cases phase with
    | rendering usage permit =>
        have fits : Fits s.strategy (.rendering usage permit) := acc.fits _ member
        rw [show permit = true from fits.2.mp full]
        exact le_refl _
    | _ => exact le_refl _
  have permits := acc.permits
  omega

theorem Accounted.bounded (acc : s.Accounted) (within : s.renderings ≤ s.maxPermits) :
    s.Bounded := by
  refine ⟨within, acc.positive, fun usage permit member => (acc.fits _ member).1, fun ended => ?_⟩
  have none : s.held = 0 := by
    have idle : s.held ≤ (s.fetches.map fun _ => 0).sum := by
      apply sum_le_sum
      intro phase member
      rw [ended phase member]
      exact le_refl _
    simpa using idle
  have permits := acc.permits
  omega

/-- The renderings stay within the permits exactly when there is room for those behind layer 2. -/
theorem Accounted.bounded_iff (acc : s.Accounted) (bounded : s.Bounded)
    (step : routerStep s a = some t) : t.Bounded ↔ s.RoomForLayer3 a := by
  have acc' := acc.step step
  have within := bounded.1
  cases moves_of_step step with
  | start fits idle =>
      refine iff_of_true (acc'.bounded ?_) True.intro
      rw [renderings, sum_concat, idle]
      exact within
  | @quiet a i before behind found idle fits idle' room =>
      refine iff_of_true (acc'.bounded ?_) room
      have moved : (s.move i behind).renderings + before.isRendering.toNat =
        s.renderings + behind.isRendering.toNat := renderings_move found
      rw [idle, idle'] at moved
      exact (show (s.move i behind).renderings = s.renderings from moved).trans_le within
  | @layer3 i answer usage found escalates low =>
      have moved : (s.move i (.rendering usage false)).renderings + 0 = s.renderings + 1 :=
        renderings_move found
      constructor
      · intro good _ _ _
        have more : (s.move i (.rendering usage false)).renderings ≤ s.maxPermits := good.1
        omega
      · intro room
        have less := room found escalates low
        apply acc'.bounded
        change (s.move i (.rendering usage false)).renderings ≤ s.maxPermits
        omega
  | grant found available =>
      have full : s.strategy = .full := (acc.fits _ (List.mem_of_getElem? found)).1
      exact iff_of_true (acc'.bounded (acc'.renderings_le full)) True.intro
  | @finish a i phase found room =>
      refine iff_of_true (acc'.bounded ?_) room
      have moved : (s.finish i phase).renderings + phase.isRendering.toNat = s.renderings + 0 :=
        renderings_move found
      change (s.finish i phase).renderings ≤ s.maxPermits
      omega

theorem roomForLayer3_of_refused (refused : routerStep s a = none) : s.RoomForLayer3 a := by
  cases a with
  | layer2 i answer usage =>
      intro found
      simp only [routerStep, found] at refused
      cases refused
  | _ => trivial

/-- In every run, whatever the strategy, browser concurrency is bounded in all states exactly when
no fetch goes on to layer 3 while there are as many renderings as permits. -/
theorem bounded_reached_iff (strategy : JsStrategy) (maxInstances : Nat) (as : List RouterAction) :
    (∀ t, Reached routerStep (init strategy maxInstances) as t → t.Bounded) ↔
      Along routerStep RoomForLayer3 (init strategy maxInstances) as := by
  have start := accounted_init strategy maxInstances
  exact reached_good_iff (I := Accounted) (fun _ _ _ acc step => acc.step step)
    (fun _ _ _ acc bounded step => acc.bounded_iff bounded step)
    (fun _ _ refused => roomForLayer3_of_refused refused) start
    (start.bounded (Nat.zero_le _)) as

/-- Under `Full` there is no layer 3 behind a layer 2, and concurrency is bounded in every run. -/
theorem full_bounded (maxInstances : Nat) (as : List RouterAction) {t : RouterState}
    (reached : Reached routerStep (init .full maxInstances) as t) : t.Bounded := by
  obtain ⟨bs, -, run⟩ := reached
  have kept : t.Accounted ∧ t.strategy = .full := by
    refine execute_invariant (I := fun s => s.Accounted ∧ s.strategy = .full) ?_ run
      ⟨accounted_init .full maxInstances, rfl⟩
    intro s a s' ⟨acc, full⟩ step
    refine ⟨acc.step step, ?_⟩
    cases moves_of_step step <;> exact full
  exact kept.1.bounded (kept.1.renderings_le kept.2)

/-- Two SPA pages that layer 2 has no content for. -/
def twoSpaPages : List RouterAction :=
  [.fetch false 0, .fetch false 0, .layer1 0 (some .spaDetected) 50, .layer1 1 (some .spaDetected) 50,
    .layer2 0 .empty 50, .layer2 1 .empty 50]

/-- With one permit, two pages are rendered at once. -/
theorem two_renderings_one_permit :
    ¬ ∀ (strategy : JsStrategy) (maxInstances : Nat) (as : List RouterAction) (t : RouterState),
      Reached routerStep (init strategy maxInstances) as t → t.Bounded := by
  intro claim
  have reached : Reached routerStep (init .hybrid 1) twoSpaPages
      ⟨.hybrid, 1, ⟨1⟩, [.rendering 50 false, .rendering 50 false]⟩ :=
    ⟨twoSpaPages, List.prefix_rfl, rfl⟩
  have two : 2 ≤ 1 := (claim .hybrid 1 twoSpaPages _ reached).1
  omega

end RouterState

end Webfang.Downloader
