import Webfang.Assets.AssetRegistry
import Webfang.Lib.Parties

/-!
# One download for each URL

As long as an eviction finds the mark of every URL that is busy, and no call comes to a cell that
was evicted, the calls that share a URL share its cell, and a cell runs one download at a time.
-/

namespace Webfang.Assets

open KeyedRows StepSystem Parties

variable {υ α : Type} [DecidableEq υ]

namespace DownloadCall

omit [DecidableEq υ] in
/-- A call that downloads is busy. -/
theorem busyOn_of_runs {call : DownloadCall υ α} {cell : Nat} (runs : call.runs = some cell) :
    call.busyOn = some cell := by
  obtain ⟨url, phase⟩ := call
  cases phase <;> cases runs
  rfl

omit [DecidableEq υ] in
/-- A call that evicts is not busy. -/
theorem busyOn_of_removes {call : DownloadCall υ α} {candidate : υ}
    (removes : call.removes = some candidate) : call.busyOn = none := by
  obtain ⟨url, phase⟩ := call
  cases phase with
  | evicting cell scan => rfl
  | _ => cases removes

/-- The call neither downloads nor waits nor is about to evict. -/
def Idle (call : DownloadCall υ α) : Prop :=
  call.runs = none ∧ call.busyOn = none ∧ call.removes = none

end DownloadCall

namespace AssetDownloader

variable {s t : AssetDownloader υ α} {i : Nat} {call : DownloadCall υ α}

/-- What the calls keep as long as the cells are protected. -/
structure Sound (s : AssetDownloader υ α) : Prop where
  /-- a cell runs one download at a time -/
  single : ∀ (i j : Nat) (call other : DownloadCall υ α), s.calls[i]? = some call →
    s.calls[j]? = some other → ∀ cell, call.runs = some cell → other.runs = some cell → i = j
  unset : ∀ call ∈ s.calls, ∀ cell, call.runs = some cell → s.asset cell = none
  /-- a cell without an asset that is busy is registered -/
  registered : ∀ call ∈ s.calls, ∀ cell ∈ call.busyOn, s.asset cell = none →
    s.registered call.url = some cell
  /-- no URL that is busy is about to be evicted -/
  clear : ∀ evictor ∈ s.calls, ∀ candidate ∈ evictor.removes, ¬ s.IsBusy candidate

theorem sound_new (capacity : Option Nat) : (AssetDownloader.new capacity :
    AssetDownloader υ α).Sound where
  single i j call other found := by simp [AssetDownloader.new] at found
  unset call inside := by cases inside
  registered call inside := by cases inside
  clear call inside := by cases inside

theorem Sound.singleFlight (sound : s.Sound) : s.SingleFlight where
  once i j call other found foundOther runs runsOther same := by
    obtain ⟨cell, runs⟩ := Option.isSome_iff_exists.mp runs
    obtain ⟨cell', runsOther⟩ := Option.isSome_iff_exists.mp runsOther
    have inside := List.mem_of_getElem? found
    have insideOther := List.mem_of_getElem? foundOther
    have here := sound.registered call inside cell (DownloadCall.busyOn_of_runs runs)
      (sound.unset call inside cell runs)
    have there := sound.registered other insideOther cell'
      (DownloadCall.busyOn_of_runs runsOther) (sound.unset other insideOther cell' runsOther)
    rw [same, there] at here
    exact sound.single i j call other found foundOther cell runs
      (runsOther.trans here)
  kept := sound.registered
  missing call inside runs := by
    obtain ⟨cell, runs⟩ := Option.isSome_iff_exists.mp runs
    have free := sound.unset call inside cell runs
    rw [sound.registered call inside cell (DownloadCall.busyOn_of_runs runs) free]
    exact free

/-! ## The step of one call -/

/-- One call moves on; no cell loses its asset, and what is registered for a busy cell stays. -/
theorem Sound.moved (sound : s.Sound) {phase : CallPhase υ α}
    (calls : t.calls = s.calls.set i { call with phase })
    (assets : ∀ cell, t.asset cell = none → s.asset cell = none)
    (kept : ∀ other ∈ s.calls, ∀ cell ∈ other.busyOn, s.asset cell = none →
      t.registered other.url = s.registered other.url)
    (unset : ∀ (j : Nat) (other : DownloadCall υ α), j ≠ i → s.calls[j]? = some other →
      ∀ cell, other.runs = some cell → t.asset cell = none)
    (runs : ∀ cell, (DownloadCall.mk call.url phase).runs = some cell →
      t.asset cell = none ∧ ∀ other ∈ s.calls, other.runs ≠ some cell)
    (busy : ∀ cell ∈ (DownloadCall.mk call.url phase).busyOn, t.asset cell = none →
      t.registered call.url = some cell ∧ ∀ other ∈ s.calls, other.removes ≠ some call.url)
    (removes : ∀ candidate ∈ (DownloadCall.mk call.url phase).removes, ¬ s.IsBusy candidate) :
    t.Sound := by
  have busyBefore {other : DownloadCall υ α} (inside : other ∈ s.calls) {cell : Nat}
      (on : cell ∈ other.busyOn) (free : t.asset cell = none) : s.IsBusy other.url :=
    ⟨other, inside, rfl, cell, on, assets cell free⟩
  refine ⟨fun j k other another found' found'' cell here there => ?_, fun other inside cell on => ?_,
    fun other inside cell on free => ?_, fun evictor inside candidate gone busyNow => ?_⟩
  · rw [calls, List.getElem?_set] at found' found''
    split at found' <;> split at found''
    next first second => exact first.symm.trans second
    next first second =>
        split at found'
        · cases found'
          exact absurd there ((runs cell here).2 another (List.mem_of_getElem? found''))
        · cases found'
    next first second =>
        split at found''
        · cases found''
          exact absurd here ((runs cell there).2 other (List.mem_of_getElem? found'))
        · cases found''
    next => exact sound.single j k other another found' found'' cell here there
  · rw [calls] at inside
    obtain ⟨j, there⟩ := List.mem_iff_getElem?.mp inside
    rw [List.getElem?_set] at there
    split at there
    · split at there
      · cases there
        exact (runs cell on).1
      · cases there
    next ne => exact unset j other (Ne.symm ne) there cell on
  · rw [calls] at inside
    rcases List.mem_or_eq_of_mem_set inside with before | rfl
    · rw [kept other before cell on (assets cell free)]
      exact sound.registered other before cell on (assets cell free)
    · exact (busy cell on free).1
  · rw [calls] at inside
    obtain ⟨other, insideOther, same, cell, on, free⟩ := busyNow
    rw [calls] at insideOther
    rcases List.mem_or_eq_of_mem_set inside with before | rfl
    · rcases List.mem_or_eq_of_mem_set insideOther with beforeOther | rfl
      · exact sound.clear evictor before candidate gone (same ▸ busyBefore beforeOther on free)
      · exact (busy cell on free).2 evictor before (gone.trans (congrArg some same.symm))
    · rcases List.mem_or_eq_of_mem_set insideOther with beforeOther | rfl
      · exact removes candidate gone (same ▸ busyBefore beforeOther on free)
      · rw [DownloadCall.busyOn_of_removes gone] at on
        cases on

/-- One call moves on to where it is idle. -/
theorem Sound.quiet (sound : s.Sound) {phase : CallPhase υ α}
    (idle : (DownloadCall.mk call.url phase).Idle)
    (calls : t.calls = s.calls.set i { call with phase })
    (assets : ∀ cell, t.asset cell = s.asset cell)
    (kept : ∀ other ∈ s.calls, ∀ cell ∈ other.busyOn, s.asset cell = none →
      t.registered other.url = s.registered other.url) : t.Sound := by
  obtain ⟨notRuns, notBusy, notRemoves⟩ := idle
  refine sound.moved calls (fun cell free => (assets cell).symm.trans free) kept
    (fun j other _ there cell runs => ?_) (fun cell runs => ?_) (fun cell on => ?_)
    fun candidate gone => ?_
  · rw [assets]
    exact sound.unset other (List.mem_of_getElem? there) cell runs
  · cases notRuns.symm.trans runs
  · cases notBusy.symm.trans on
  · cases notRemoves.symm.trans gone

/-- One call moves on to where it is idle, and neither the registry nor a cell changes. -/
theorem Sound.idle (sound : s.Sound) {phase : CallPhase υ α}
    (idle : (DownloadCall.mk call.url phase).Idle)
    (calls : t.calls = s.calls.set i { call with phase })
    (registry : t.downloadedUrls = s.downloadedUrls) (cells : t.cells = s.cells) : t.Sound := by
  refine sound.quiet idle calls (fun cell => ?_) fun other _ _ _ _ => ?_
  · rw [asset, asset, cells]
  · rw [AssetDownloader.registered, AssetDownloader.registered, registry]

/-! ## The phases -/

theorem Sound.download (sound : s.Sound) (url : υ) :
    ({ s with calls := s.calls ++ [⟨url, s.fastPath url⟩] } : AssetDownloader υ α).Sound := by
  have idle : (DownloadCall.mk url (s.fastPath url)).Idle := by
    unfold fastPath
    split <;> exact ⟨rfl, rfl, rfl⟩
  obtain ⟨notRuns, notBusy, notRemoves⟩ := idle
  have old {j : Nat} {other : DownloadCall υ α} {cell : Nat}
      (there : (s.calls ++ [⟨url, s.fastPath url⟩])[j]? = some other)
      (runs : other.runs = some cell) : s.calls[j]? = some other := by
    rw [List.getElem?_append] at there
    split at there
    · exact there
    · rw [List.getElem?_singleton] at there
      split at there
      · cases there
        cases notRuns.symm.trans runs
      · cases there
  refine ⟨fun j k other another found found' cell here there =>
      sound.single j k other another (old found here) (old found' there) cell here there,
    forall_mem_concat sound.unset fun cell runs => ?_,
    forall_mem_concat sound.registered fun cell on => ?_,
    forall_mem_concat (fun evictor inside candidate gone busy => ?_) fun candidate gone => ?_⟩
  · cases notRuns.symm.trans runs
  · cases notBusy.symm.trans on
  · refine sound.clear evictor inside candidate gone ?_
    obtain ⟨other, there, same, cell, on, free⟩ := busy
    rcases List.mem_append.mp there with before | last
    · exact ⟨other, before, same, cell, on, free⟩
    · cases List.mem_singleton.mp last
      cases notBusy.symm.trans on
  · cases notRemoves.symm.trans gone

theorem Sound.publish (sound : s.Sound) :
    ((s.publish call.url).1.move i call (.recording (s.publish call.url).2)).Sound := by
  have idle : (DownloadCall.mk call.url
      (CallPhase.recording (s.publish call.url).2 : CallPhase υ α)).Idle := ⟨rfl, rfl, rfl⟩
  unfold AssetDownloader.publish at idle ⊢
  cases here : s.registered call.url with
  | some cell => exact sound.idle ⟨rfl, rfl, rfl⟩ rfl rfl rfl
  | none =>
      refine sound.quiet ⟨rfl, rfl, rfl⟩ rfl (fun cell => ?_) fun other inside cell on free => ?_
      · change (s.cells ++ [none])[cell]?.join = s.cells[cell]?.join
        rw [List.getElem?_append]
        split
        · rfl
        next beyond =>
            rw [List.getElem?_eq_none (Nat.not_lt.mp beyond), List.getElem?_singleton]
            split <;> rfl
      · have there := sound.registered other inside cell on free
        have ne : call.url ≠ other.url := by
          intro same
          rw [← same, here] at there
          cases there
        have absent : rowAt RegistryEntry.url s.downloadedUrls call.url = none :=
          Option.map_eq_none_iff.mp here
        change (rowAt RegistryEntry.url (s.downloadedUrls ++ [⟨call.url, s.cells.length⟩])
          other.url).map _ = _
        rw [rowAt_append absent, if_neg ne]
        rfl

/-- A URL that is evicted without asking for its mark has an asset, or is not registered. -/
theorem Sound.classify_cases (sound : s.Sound) (candidate : υ) :
    s.classify candidate = .asking candidate ∨
      s.classify candidate = .removing candidate ∧ ¬ s.IsBusy candidate := by
  unfold AssetDownloader.classify
  cases there : s.registered candidate with
  | none =>
      refine .inr ⟨rfl, fun ⟨busy, inside, same, cell, on, free⟩ => ?_⟩
      have registered := sound.registered busy inside cell on free
      rw [same, there] at registered
      cases registered
  | some other =>
      dsimp only
      split
      next done =>
          refine .inr ⟨rfl, fun ⟨busy, inside, same, cell, on, free⟩ => ?_⟩
          have registered := sound.registered busy inside cell on free
          rw [same, there] at registered
          cases registered
          rw [free] at done
          cases done
      next => exact .inl rfl

/-- A call that evicts goes on to a candidate that is not busy, or asks for its mark. -/
theorem Sound.evicting (sound : s.Sound) {cell : Nat} {scan : Scan υ}
    (calls : t.calls = s.calls.set i { call with phase := .evicting cell scan })
    (registry : t.downloadedUrls = s.downloadedUrls) (cells : t.cells = s.cells)
    (free : ∀ candidate, scan.step = .removing candidate → ¬ s.IsBusy candidate) : t.Sound := by
  have assets : ∀ cell, t.asset cell = s.asset cell := fun cell => by rw [asset, asset, cells]
  refine sound.moved calls (fun cell free => (assets cell).symm.trans free)
    (fun other _ _ _ _ => by rw [AssetDownloader.registered, AssetDownloader.registered, registry])
    (fun j other _ there cell runs => ?_) (fun _ runs => by cases runs) (fun _ on => by cases on)
    fun candidate gone => free candidate ?_
  · rw [assets]
    exact sound.unset other (List.mem_of_getElem? there) cell runs
  · unfold DownloadCall.removes at gone
    dsimp only at gone
    split at gone
    next step =>
        cases gone
        exact step
    next => cases gone

theorem Sound.popCandidate (sound : s.Sound) (cell : Nat) (scan : Scan υ) :
    (s.popCandidate i call cell scan).Sound := by
  unfold AssetDownloader.popCandidate
  split
  · split
    · exact sound.idle ⟨rfl, rfl, rfl⟩ rfl rfl rfl
    next candidate queue _ =>
        refine sound.evicting rfl rfl rfl fun removed step => ?_
        rcases sound.classify_cases candidate with asks | ⟨removes, free⟩
        · cases asks.symm.trans step
        · cases removes.symm.trans step
          exact free
  · exact sound.idle ⟨rfl, rfl, rfl⟩ rfl rfl rfl

/-- A turn of an eviction that finds the mark of a URL that is busy. -/
theorem Sound.evict (sound : s.Sound) (found : s.calls[i]? = some call) {cell : Nat}
    {scan : Scan υ} (phase : call.phase = .evicting cell scan)
    (marked : ∀ candidate, scan.step = .asking candidate → s.IsBusy candidate →
      candidate ∈ s.inFlight) : (s.evict i call cell scan).Sound := by
  unfold AssetDownloader.evict
  split
  next => exact sound.popCandidate cell scan
  next candidate step =>
      split
      · exact sound.evicting rfl rfl rfl fun _ step => by cases step
      next unmarked =>
          refine sound.evicting rfl rfl rfl fun removed step' => ?_
          cases step'
          exact fun busy => unmarked (marked candidate step busy)
  next candidate step =>
      have free : ¬ s.IsBusy candidate := by
        refine sound.clear call (List.mem_of_getElem? found) candidate ?_
        unfold DownloadCall.removes
        rw [phase]
        dsimp only
        rw [step]
        rfl
      refine sound.quiet ⟨rfl, rfl, rfl⟩ rfl (fun _ => rfl) fun other inside on isOn unset => ?_
      have ne : other.url ≠ candidate := fun same => free ⟨other, inside, same, on, isOn, unset⟩
      change (rowAt RegistryEntry.url (s.downloadedUrls.filter fun entry =>
        entry.url ≠ candidate) other.url).map _ = _
      rw [rowAt_filter_ne, if_neg ne]
      rfl

/-- A call comes to a cell that is registered still. -/
theorem Sound.enter (sound : s.Sound) {cell : Nat}
    (protects : s.asset cell = none → s.registered call.url = some cell ∧
      ∀ other ∈ s.calls, other.removes ≠ some call.url) :
    (s.move i call (.waiting cell)).Sound := by
  refine sound.moved rfl (fun _ free => free) (fun _ _ _ _ _ => rfl)
    (fun j other _ there on runs => sound.unset other (List.mem_of_getElem? there) on runs)
    (fun _ runs => by cases runs) (fun on isOn free => ?_) (fun _ gone => by cases gone)
  cases isOn
  exact protects free

/-- A call that waits starts the download. -/
theorem Sound.acquire (sound : s.Sound) (found : s.calls[i]? = some call) {cell : Nat}
    (phase : call.phase = .waiting cell) (free : s.asset cell = none)
    (idle : s.isRunning cell = false) : (s.move i call (.downloading cell)).Sound := by
  have inside := List.mem_of_getElem? found
  have on : cell ∈ call.busyOn := by
    unfold DownloadCall.busyOn
    rw [phase]
    rfl
  refine sound.moved rfl (fun _ free => free) (fun _ _ _ _ _ => rfl)
    (fun j other _ there on runs => sound.unset other (List.mem_of_getElem? there) on runs)
    (fun other runs => ?_) (fun other isOn unset => ?_) (fun _ gone => by cases gone)
  · cases runs
    refine ⟨free, fun another there running => ?_⟩
    have none := List.any_eq_false.mp idle another there
    exact none (decide_eq_true running)
  · cases isOn
    refine ⟨sound.registered call inside cell on free, fun evictor there gone => ?_⟩
    exact sound.clear evictor there call.url gone ⟨call, inside, rfl, cell, on, free⟩

theorem Sound.finish (sound : s.Sound) (found : s.calls[i]? = some call) {cell : Nat}
    (runs : call.runs = some cell) (result : Except String α) :
    (s.finish i call cell result).Sound := by
  cases result with
  | error e => exact sound.idle ⟨rfl, rfl, rfl⟩ rfl rfl rfl
  | ok a =>
      have set (other : Nat) (ne : other ≠ cell) :
          (s.cells.set cell (some a))[other]?.join = s.asset other := by
        rw [List.getElem?_set_ne (Ne.symm ne), asset]
      refine sound.moved rfl (fun other free => ?_) (fun _ _ _ _ _ => rfl)
        (fun j other ne there on isOn => ?_) (fun _ runs => by cases runs)
        (fun _ on => by cases on) (fun _ gone => by cases gone)
      · change (s.cells.set cell (some a))[other]?.join = none at free
        by_cases same : other = cell
        · subst same
          exact sound.unset call (List.mem_of_getElem? found) other runs
        · exact (set other same).symm.trans free
      · change (s.cells.set cell (some a))[on]?.join = none
        have apart : on ≠ cell := fun same =>
          ne (sound.single j i other call there found on isOn (same ▸ runs))
        rw [set on apart]
        exact sound.unset other (List.mem_of_getElem? there) on isOn

theorem Sound.advance (sound : s.Sound) (found : s.calls[i]? = some call)
    (protects : s.ProtectsCells (.advance i)) (step : s.advance i call = some t) : t.Sound := by
  have here := protects call found
  unfold AssetDownloader.advance at step
  split at step
  next =>
      cases step
      exact sound.publish
  next cell _ =>
      split at step
      · cases step
        exact sound.idle ⟨rfl, rfl, rfl⟩ rfl rfl rfl
      · split at step
        · cases step
        · cases step
          exact sound.idle ⟨rfl, rfl, rfl⟩ rfl rfl rfl
  next cell _ =>
      split at step <;> cases step <;> exact sound.idle ⟨rfl, rfl, rfl⟩ rfl rfl rfl
  next cell _ =>
      split at step
      · cases step
      · cases step
        exact sound.evicting rfl rfl rfl fun _ step => by cases step
  next cell scan phase =>
      cases step
      rw [phase] at here
      exact sound.evict found phase here
  next =>
      cases step
      exact sound.idle ⟨rfl, rfl, rfl⟩ rfl rfl rfl
  next cell phase =>
      split at step
      · cases step
        exact sound.idle ⟨rfl, rfl, rfl⟩ rfl rfl rfl
      · cases step
        rw [phase] at here
        exact sound.enter here
  next cell phase =>
      split at step
      · cases step
        exact sound.idle ⟨rfl, rfl, rfl⟩ rfl rfl rfl
      next free =>
          split at step
          · cases step
          next idle =>
              cases step
              exact sound.acquire found phase free (Bool.eq_false_of_not_eq_true idle)
  next => cases step
  next =>
      cases step
      exact sound.idle ⟨rfl, rfl, rfl⟩ rfl rfl rfl
  next => cases step

theorem Sound.step (sound : s.Sound) {a : AssetAction υ α} (protects : s.ProtectsCells a)
    (step : assetStep s a = some t) : t.Sound := by
  cases a with
  | download url =>
      cases step
      exact sound.download url
  | advance i =>
      obtain ⟨call, found, next⟩ := Option.bind_eq_some_iff.mp step
      exact sound.advance found protects next
  | finish i result =>
      simp only [assetStep] at step
      split at step
      next found =>
          cases step
          exact sound.finish found rfl result
      next => cases step
  | cancel i =>
      simp only [assetStep] at step
      split at step
      · cases step
        exact sound.idle ⟨rfl, rfl, rfl⟩ rfl rfl rfl
      · cases step
        exact sound.idle ⟨rfl, rfl, rfl⟩ rfl rfl rfl
      · cases step

/-- In every run whose steps all protect the cells, each URL is in single flight in every state
reached. -/
theorem singleFlight_of_protected (capacity : Option Nat) {as : List (AssetAction υ α)}
    (protects : Along assetStep ProtectsCells (AssetDownloader.new capacity) as)
    {t : AssetDownloader υ α} (run : execute assetStep (AssetDownloader.new capacity) as = some t) :
    t.SingleFlight :=
  (execute_invariant_along (fun _ _ _ sound protects step => sound.step protects step) run protects
    (sound_new capacity)).singleFlight

/-! ## The unbounded registry -/

/-- The call finds its cell registered, and evicts nothing. -/
def Settled (s : AssetDownloader υ α) (call : DownloadCall υ α) : Prop :=
  match call.phase with
  | .recording cell | .checking cell | .marking cell | .entering cell | .waiting cell
  | .downloading cell => s.registered call.url = some cell
  | .locking _ | .evicting _ _ => False
  | .publishing | .leaving _ | .returned _ => True

/-- What the calls keep where the registry is unbounded. -/
structure Unbounded (s : AssetDownloader υ α) : Prop where
  capacity : s.capacity = none
  settled : ∀ call ∈ s.calls, s.Settled call

theorem Settled.mono {call : DownloadCall υ α} (settled : s.Settled call)
    (kept : ∀ url cell, s.registered url = some cell → t.registered url = some cell) :
    t.Settled call := by
  unfold Settled at settled ⊢
  split at settled <;> first | exact kept _ _ settled | exact settled

theorem Unbounded.moved (unbounded : s.Unbounded) (phase : CallPhase υ α)
    (kept : ∀ url cell, s.registered url = some cell → t.registered url = some cell)
    (capacity : t.capacity = s.capacity)
    (calls : t.calls = s.calls.set i { call with phase })
    (settled : t.Settled ⟨call.url, phase⟩) : t.Unbounded where
  capacity := capacity.trans unbounded.capacity
  settled := by
    rw [calls]
    exact forall_mem_set (fun other inside => (unbounded.settled other inside).mono kept) settled

theorem Unbounded.advance (unbounded : s.Unbounded) (found : s.calls[i]? = some call)
    (step : s.advance i call = some t) : t.Unbounded := by
  have settled := unbounded.settled call (List.mem_of_getElem? found)
  have same : ∀ url cell, s.registered url = some cell → s.registered url = some cell :=
    fun _ _ there => there
  unfold Settled at settled
  unfold AssetDownloader.advance at step
  split at step
  next phase =>
      cases step
      cases here : s.registered call.url with
      | some cell => exact unbounded.moved (.recording cell) same rfl rfl here
      | none =>
          have absent : rowAt RegistryEntry.url s.downloadedUrls call.url = none :=
            Option.map_eq_none_iff.mp here
          have rows (url : υ) : (rowAt RegistryEntry.url
              (s.downloadedUrls ++ [⟨call.url, s.cells.length⟩]) url).map RegistryEntry.cell =
                if call.url = url then some s.cells.length else s.registered url := by
            rw [rowAt_append absent]
            split <;> rfl
          refine unbounded.moved (.recording s.cells.length) (fun url cell there => ?_) rfl rfl
            ((rows call.url).trans (if_pos rfl))
          refine (rows url).trans ?_
          rw [if_neg, there]
          rintro rfl
          cases here.symm.trans there
  next cell phase =>
      rw [phase] at settled
      rw [unbounded.capacity] at step
      cases step
      exact unbounded.moved (.checking cell) same rfl rfl settled
  next cell phase =>
      rw [phase] at settled
      rw [unbounded.capacity] at step
      cases step
      exact unbounded.moved (.marking cell) same rfl rfl settled
  next cell phase =>
      rw [phase] at settled
      exact settled.elim
  next cell scan phase =>
      rw [phase] at settled
      exact settled.elim
  next cell phase =>
      rw [phase] at settled
      cases step
      exact unbounded.moved (.entering cell) same rfl rfl settled
  next cell phase =>
      rw [phase] at settled
      split at step
      · cases step
        exact unbounded.moved _ same rfl rfl trivial
      · cases step
        exact unbounded.moved (.waiting cell) same rfl rfl settled
  next cell phase =>
      rw [phase] at settled
      split at step
      · cases step
        exact unbounded.moved _ same rfl rfl trivial
      · split at step
        · cases step
        · cases step
          exact unbounded.moved (.downloading cell) same rfl rfl settled
  next => cases step
  next result phase =>
      cases step
      exact unbounded.moved (.returned result) same rfl rfl trivial
  next => cases step

theorem Unbounded.step (unbounded : s.Unbounded) {a : AssetAction υ α}
    (step : assetStep s a = some t) : t.Unbounded := by
  have same : ∀ url cell, s.registered url = some cell → s.registered url = some cell :=
    fun _ _ there => there
  cases a with
  | download url =>
      cases step
      refine ⟨unbounded.capacity, forall_mem_concat
        (fun call inside => (unbounded.settled call inside).mono same) ?_⟩
      unfold fastPath
      split <;> trivial
  | advance i =>
      obtain ⟨call, found, next⟩ := Option.bind_eq_some_iff.mp step
      exact unbounded.advance found next
  | finish i result =>
      simp only [assetStep] at step
      split at step
      · cases step
        cases result with
        | error e => exact unbounded.moved _ same rfl rfl trivial
        | ok asset => exact unbounded.moved _ same rfl rfl trivial
      · cases step
  | cancel i =>
      simp only [assetStep] at step
      split at step
      · cases step
        exact unbounded.moved _ same rfl rfl trivial
      · cases step
        exact unbounded.moved _ same rfl rfl trivial
      · cases step

/-- Where the registry is unbounded, all steps protect the cells. -/
theorem Unbounded.protectsCells (unbounded : s.Unbounded) (a : AssetAction υ α) :
    s.ProtectsCells a := by
  cases a with
  | advance i =>
      intro call found
      have settled := unbounded.settled call (List.mem_of_getElem? found)
      unfold Settled at settled
      split
      next phase =>
          rw [phase] at settled
          exact settled.elim
      next phase =>
          rw [phase] at settled
          refine fun _ => ⟨settled, fun other inside gone => ?_⟩
          have quiet := unbounded.settled other inside
          unfold DownloadCall.removes at gone
          unfold Settled at quiet
          split at gone
          next phase =>
              rw [phase] at quiet
              exact quiet.elim
          next => cases gone
      next => trivial
  | _ => trivial

theorem unbounded_new : (AssetDownloader.new none : AssetDownloader υ α).Unbounded where
  capacity := rfl
  settled call inside := by cases inside

/-- Every run over an unbounded registry protects the cells. -/
theorem unbounded_protects (as : List (AssetAction υ α)) :
    Along assetStep ProtectsCells (AssetDownloader.new none : AssetDownloader υ α) as :=
  Along.of_invariant (P := fun _ _ => True) (fun _ _ _ unbounded _ step => unbounded.step step)
    (fun _ a unbounded _ => unbounded.protectsCells a) (Along.of_forall (fun _ _ _ => trivial) _)
    unbounded_new

/-! ## Two downloads of one URL -/

/-- One asset is being downloaded when a call for a second one makes room for itself, and another
call for the second one comes. -/
def roomForOne : List (AssetAction String Unit) :=
  .download "https://a.com/one.png" :: List.replicate 6 (.advance 0) ++
    .download "https://a.com/two.png" :: List.replicate 13 (.advance 1) ++
    .download "https://a.com/two.png" :: List.replicate 12 (.advance 2)

def sharedAsset : List (AssetAction String Unit) :=
  [.download "https://a.com/two.png", .download "https://a.com/two.png"] ++
    List.replicate 6 (.advance 0) ++ List.replicate 5 (.advance 1)

/-- Over an unbounded registry the second call waits for the first. -/
theorem shared_asset_downloaded_once :
    ∃ t, execute assetStep (AssetDownloader.new none) sharedAsset = some t ∧ t.SingleFlight := by
  have runs : (execute assetStep (AssetDownloader.new none) sharedAsset).isSome := by
    decide +kernel
  obtain ⟨t, run⟩ := Option.isSome_iff_exists.mp runs
  exact ⟨t, run, singleFlight_of_protected none (unbounded_protects sharedAsset) run⟩

/-- The eviction of the first call for the second asset removes the cell that the call has just
published and not marked yet; both calls download. -/
theorem second_asset_downloaded_twice :
    ∃ t, execute assetStep (AssetDownloader.new (some 1)) roomForOne = some t ∧ ¬ t.SingleFlight := by
  have found : ((execute assetStep (AssetDownloader.new (some 1)) roomForOne).any fun t =>
      t.calls.map (fun call => (call.url, call.runs)) =
        [("https://a.com/one.png", some 0), ("https://a.com/two.png", some 1),
          ("https://a.com/two.png", some 2)]) = true := by
    decide +kernel
  obtain ⟨t, run, runs⟩ := (Option.any_eq_true _ _).mp found
  refine ⟨t, run, fun single => ?_⟩
  have calls := congrArg (fun calls => (calls[1]?, calls[2]?)) (of_decide_eq_true runs)
  simp only [List.getElem?_map, Prod.mk.injEq] at calls
  obtain ⟨second, third⟩ := calls
  obtain ⟨call, here, callRuns⟩ := Option.map_eq_some_iff.mp second
  obtain ⟨other, there, otherRuns⟩ := Option.map_eq_some_iff.mp third
  simp only [Prod.mk.injEq] at callRuns otherRuns
  have same := single.once 1 2 call other here there (by rw [callRuns.2]; rfl)
    (by rw [otherRuns.2]; rfl) (callRuns.1.trans otherRuns.1.symm)
  cases same

end AssetDownloader

end Webfang.Assets
