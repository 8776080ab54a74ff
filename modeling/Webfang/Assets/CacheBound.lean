import Webfang.Assets.CacheLedger

/-!
# The bound of the asset cache

The steps of `download` are steps of the ledger.  So the ledger tracks the registry in every run; an
eviction passes entries at the head of the queue, and evicts all that it does not find in flight; and
what is registered behind it is bounded, as long as no call records a URL that was evicted since the
call took its cell.
-/

namespace Webfang.Assets

open KeyedRows StepSystem Parties

variable {υ α : Type}

def CallPhase.ledger : CallPhase υ α → LedgerPhase υ
  | .publishing => .ahead
  | .recording _ => .recording
  | .checking _ => .checking
  | .locking _ => .locking
  | .evicting _ scan => .evicting scan
  | .marking _ => .past
  | .entering _ => .past
  | .waiting _ => .past
  | .downloading _ => .past
  | .leaving _ => .past
  | .returned _ => .past

theorem CallPhase.of_recording {phase : CallPhase υ α} (here : phase.ledger = .recording) :
    ∃ cell, phase = .recording cell := by
  cases phase <;> cases here
  exact ⟨_, rfl⟩

theorem CallPhase.of_checking {phase : CallPhase υ α} (here : phase.ledger = .checking) :
    ∃ cell, phase = .checking cell := by
  cases phase <;> cases here
  exact ⟨_, rfl⟩

theorem CallPhase.of_locking {phase : CallPhase υ α} (here : phase.ledger = .locking) :
    ∃ cell, phase = .locking cell := by
  cases phase <;> cases here
  exact ⟨_, rfl⟩

def DownloadCall.party (call : DownloadCall υ α) : LedgerParty υ := ⟨call.url, call.phase.ledger⟩

namespace AssetDownloader

def view (s : AssetDownloader υ α) : LedgerView υ where
  urls := s.downloadedUrls.map RegistryEntry.url
  order := s.order
  locked := s.locked
  marks := s.inFlight
  parties := s.calls.map DownloadCall.party

section Moves

variable {s : AssetDownloader υ α} {i : Nat} {call : DownloadCall υ α}

theorem view_place (found : s.calls[i]? = some call) : s.view.parties[i]? = some call.party := by
  rw [view, List.getElem?_map, found]
  rfl

theorem view_move (s : AssetDownloader υ α) (i : Nat) (call : DownloadCall υ α)
    (phase : CallPhase υ α) : (s.move i call phase).view = s.view.move i call.url phase.ledger := by
  rw [view, AssetDownloader.move, List.map_set]
  rfl

/-- A call that is past its eviction, and stays so. -/
theorem view_past (found : s.calls[i]? = some call) (before : call.phase.ledger = .past)
    {phase : CallPhase υ α} (behind : phase.ledger = .past) : (s.move i call phase).view = s.view := by
  have same : (s.calls.set i { call with phase }).map DownloadCall.party =
      s.calls.map DownloadCall.party := by
    refine map_set_same DownloadCall.party found ?_
    rw [DownloadCall.party, DownloadCall.party, before, behind]
  rw [view, AssetDownloader.move, same]
  rfl

theorem length_urls (s : AssetDownloader υ α) : s.view.urls.length = s.downloadedUrls.length :=
  List.length_map _

end Moves

section Refinement

variable [DecidableEq υ] {s t : AssetDownloader υ α} {i capacity : Nat} {call : DownloadCall υ α}
  {a : AssetAction υ α}

/-- A call records its URL in the ledger. -/
def Records (s : AssetDownloader υ α) (a : AssetAction υ α) (url : υ) : Prop :=
  ∃ i call cell, a = .advance i ∧ s.calls[i]? = some call ∧ call.phase = .recording cell ∧
    call.url = url

theorem registered_isSome (url : υ) : (s.registered url).isSome ↔ url ∈ s.view.urls := by
  rw [registered, Option.isSome_map, ← not_iff_not, Option.not_isSome_iff_eq_none]
  exact rowAt_eq_none

theorem classify_candidate (candidate : υ) :
    (s.classify candidate).candidate = some candidate := by
  rw [classify]
  split
  · split <;> rfl
  · rfl

theorem ledgerStep_evict (found : s.calls[i]? = some call) {cell : Nat} {scan : Scan υ}
    (phase : call.phase = .evicting cell scan) :
    LedgerStep capacity s.view none (s.evict i call cell scan).view := by
  have place : s.view.parties[i]? = some ⟨call.url, .evicting scan⟩ := by
    rw [view_place found, DownloadCall.party, phase]
    rfl
  rw [evict]
  split
  · rename_i step
    rw [popCandidate]
    split
    · rename_i more
      split
      · rename_i empty
        rw [view_move]
        exact .leave place step fun _ => empty
      · rename_i candidate queue head
        rw [view_move]
        exact .pop place step more head (classify_candidate candidate)
    · rename_i done
      rw [view_move]
      exact .leave place step fun more => absurd more done
  · rename_i candidate step
    split
    · rename_i marked
      rw [view_move]
      exact .defer place step marked
    · rw [view_move]
      exact .condemn place step
  · rename_i candidate step
    rw [view_move]
    have urls : ((s.downloadedUrls.filter fun entry => entry.url ≠ candidate).map
        RegistryEntry.url) = s.view.urls.filter (· ≠ candidate) := by
      rw [view, List.filter_map]
      rfl
    have same : ({ s with
        downloadedUrls := s.downloadedUrls.filter fun entry => entry.url ≠ candidate
        order := s.order.forget candidate } : AssetDownloader υ α).view = { s.view with
        urls := s.view.urls.filter (· ≠ candidate)
        order := s.order.forget candidate } := by
      rw [← urls]
      rfl
    rw [same]
    exact .remove place step

theorem ledgerStep_publish (found : s.calls[i]? = some call) (phase : call.phase = .publishing) :
    LedgerStep capacity s.view none
      ((s.publish call.url).1.move i call (.recording (s.publish call.url).2)).view := by
  have place : s.view.parties[i]? = some ⟨call.url, .ahead⟩ := by
    rw [view_place found, DownloadCall.party, phase]
    rfl
  rw [view_move, publish]
  split
  · rename_i cell there
    have known : call.url ∈ s.view.urls := (registered_isSome call.url).mp (there ▸ rfl)
    exact .publish place (if_pos known).symm
  · rename_i none
    have absent : call.url ∉ s.view.urls := by
      rw [← registered_isSome, none]
      exact fun some => by cases some
    refine .publish place ?_
    rw [if_neg absent]
    exact List.map_append

theorem ledgerStep_advance (bound : s.capacity = some capacity) (found : s.calls[i]? = some call)
    (step : s.advance i call = some t) : ∃ recorded, LedgerStep capacity s.view recorded t.view ∧
      ∀ url ∈ recorded, s.Records (.advance i) url := by
  have unrecorded (step : LedgerStep capacity s.view none t.view) : ∃ recorded,
      LedgerStep capacity s.view recorded t.view ∧ ∀ url ∈ recorded, s.Records (.advance i) url :=
    ⟨none, step, fun _ member => by cases member⟩
  -- a move past the eviction shows in the marks at most
  have rest (marks : List υ) {phase : CallPhase υ α} (before : call.phase.ledger = .past)
      (behind : phase.ledger = .past) :
      LedgerStep capacity s.view none ({ s with inFlight := marks }.move i call phase).view := by
    rw [view_past (s := { s with inFlight := marks }) found before behind]
    exact .rest marks
  have place := view_place found
  rw [DownloadCall.party] at place
  rw [advance] at step
  split at step
  · rename_i phase
    cases step
    exact unrecorded (ledgerStep_publish found phase)
  · rename_i cell phase
    rw [phase] at place
    rw [bound] at step
    dsimp only at step
    split at step
    · cases step
    · rename_i free
      cases step
      refine ⟨some call.url, ?_, fun url same => ?_⟩
      · rw [view_move]
        exact .record place (Bool.eq_false_iff.mpr free)
      · cases same
        exact ⟨i, call, cell, rfl, found, phase, rfl⟩
  · rename_i cell phase
    rw [phase] at place
    refine unrecorded ?_
    rw [bound] at step
    split at step
    · rename_i room
      cases step
      rw [view_move]
      refine .skip place ?_
      rw [length_urls]
      exact of_decide_eq_true room
    · rename_i full
      cases step
      rw [view_move]
      refine .exceed place (Nat.lt_of_not_le fun room => full ?_)
      rw [length_urls] at room
      exact decide_eq_true room
  · rename_i cell phase
    rw [phase] at place
    refine unrecorded ?_
    split at step
    · cases step
    · rename_i free
      cases step
      rw [view_move, bound, Option.getD_some, ← length_urls]
      exact .lock place (Bool.eq_false_iff.mpr free)
  · rename_i cell scan phase
    cases step
    exact unrecorded (ledgerStep_evict found phase)
  · rename_i cell phase
    cases step
    exact unrecorded (rest _ (by rw [phase]; rfl) rfl)
  · rename_i cell phase
    refine unrecorded ?_
    split at step
    · cases step
      exact rest s.inFlight (by rw [phase]; rfl) rfl
    · cases step
      exact rest s.inFlight (by rw [phase]; rfl) rfl
  · rename_i cell phase
    refine unrecorded ?_
    split at step
    · cases step
      exact rest s.inFlight (by rw [phase]; rfl) rfl
    · split at step
      · cases step
      · cases step
        exact rest s.inFlight (by rw [phase]; rfl) rfl
  · cases step
  · rename_i result phase
    cases step
    exact unrecorded (rest _ (by rw [phase]; rfl) rfl)
  · cases step

theorem ledgerStep_of_step (bound : s.capacity = some capacity) (step : assetStep s a = some t) :
    ∃ recorded, LedgerStep capacity s.view recorded t.view ∧ ∀ url ∈ recorded, s.Records a url := by
  cases a with
  | download url =>
      cases step
      refine ⟨none, ?_, fun _ member => by cases member⟩
      have fresh : (s.fastPath url).ledger = .ahead ∨ (s.fastPath url).ledger = .past := by
        rw [fastPath]
        split
        · exact .inr rfl
        · exact .inl rfl
      have joined : ({ s with calls := s.calls ++ [⟨url, s.fastPath url⟩] } :
          AssetDownloader υ α).view = { s.view with
            parties := s.view.parties ++ [⟨url, (s.fastPath url).ledger⟩] } := by
        rw [view, List.map_append]
        rfl
      rw [joined]
      exact .arrive url fresh
  | advance i =>
      obtain ⟨call, found, next⟩ := Option.bind_eq_some_iff.mp step
      exact ledgerStep_advance bound found next
  | finish i result =>
      rw [assetStep] at step
      split at step
      · rename_i url cell found
        cases step
        refine ⟨none, ?_, fun _ member => by cases member⟩
        cases result with
        | ok asset =>
            rw [finish, view_past (s := { s with cells := s.cells.set cell (some asset) }) found rfl
              rfl]
            exact .rest s.inFlight
        | error e =>
            rw [finish, view_past found rfl rfl]
            exact .rest s.inFlight
      · cases step
  | cancel i =>
      rw [assetStep] at step
      split at step
      · rename_i url cell found
        cases step
        refine ⟨none, ?_, fun _ member => by cases member⟩
        rw [view_past found rfl rfl]
        exact .rest s.inFlight
      · rename_i url cell found
        cases step
        refine ⟨none, ?_, fun _ member => by cases member⟩
        rw [view_past found rfl rfl]
        exact .rest s.inFlight
      · cases step

theorem capacity_publish (url : υ) : (s.publish url).1.capacity = s.capacity := by
  rw [publish]
  split <;> rfl

theorem capacity_evict (cell : Nat) (scan : Scan υ) :
    (s.evict i call cell scan).capacity = s.capacity := by
  rw [evict]
  split
  · rw [popCandidate]
    split
    · split <;> rfl
    · rfl
  · split <;> rfl
  · rfl

theorem capacity_advance (step : s.advance i call = some t) : t.capacity = s.capacity := by
  rw [advance] at step
  split at step
  · cases step
    exact capacity_publish _
  · split at step
    · cases step
      rfl
    · split at step
      · cases step
      · cases step
        rfl
  · split at step
    · cases step
      rfl
    · cases step
      rfl
  · split at step
    · cases step
    · cases step
      rfl
  · cases step
    exact capacity_evict _ _
  · cases step
    rfl
  · split at step
    · cases step
      rfl
    · cases step
      rfl
  · split at step
    · cases step
      rfl
    · split at step
      · cases step
      · cases step
        rfl
  · cases step
  · cases step
    rfl
  · cases step

theorem capacity_step (step : assetStep s a = some t) : t.capacity = s.capacity := by
  cases a with
  | download url =>
      cases step
      rfl
  | advance i =>
      obtain ⟨call, found, next⟩ := Option.bind_eq_some_iff.mp step
      exact capacity_advance next
  | finish i result =>
      rw [assetStep] at step
      split at step
      · cases step
        cases result <;> rfl
      · cases step
  | cancel i =>
      rw [assetStep] at step
      split at step
      · cases step
        rfl
      · cases step
        rfl
      · cases step

end Refinement

/-! ## What runs keep -/

section Runs

variable [DecidableEq υ] {s s' t : AssetDownloader υ α} {i capacity : Nat}
  {as bs : List (AssetAction υ α)}

/-- Every URL that a call records is registered still. -/
def RecordsRegistered (s : AssetDownloader υ α) (a : AssetAction υ α) : Prop :=
  ∀ url, s.Records a url → (s.registered url).isSome

omit [DecidableEq υ] in
theorem tracks_new (capacity : Nat) :
    Tracks capacity (AssetDownloader.new (some capacity) : AssetDownloader υ α).view where
  keys := List.nodup_nil
  scans := rfl
  nodup := List.nodup_nil
  seen _ := Iff.rfl
  registered _ member := by cases member
  whole _ member := by cases member
  waiting _ member := by cases member
  excess _ member := by cases member

omit [DecidableEq υ] in
theorem bounded_new (capacity : Nat) :
    Bounded capacity (AssetDownloader.new (some capacity) : AssetDownloader υ α).view where
  tracks := tracks_new capacity
  present _ member := by cases member
  scanned _ member := by cases member

theorem run_tracks (init : Tracks capacity s.view) (bound : s.capacity = some capacity)
    (run : execute assetStep s as = some t) : Tracks capacity t.view ∧ t.capacity = some capacity :=
  execute_invariant (I := fun s => Tracks capacity s.view ∧ s.capacity = some capacity)
    (fun s a t kept step => by
      obtain ⟨recorded, move, -⟩ := ledgerStep_of_step kept.2 step
      exact ⟨kept.1.step move, (capacity_step step).trans kept.2⟩) run ⟨init, bound⟩

theorem run_bounded (init : Bounded capacity s.view) (bound : s.capacity = some capacity)
    (run : execute assetStep s as = some t) (registered : Along assetStep RecordsRegistered s as) :
    Bounded capacity t.view ∧ t.capacity = some capacity :=
  execute_invariant_along (I := fun s => Bounded capacity s.view ∧ s.capacity = some capacity)
    (fun s a t kept records step => by
      obtain ⟨recorded, move, recorders⟩ := ledgerStep_of_step kept.2 step
      refine ⟨kept.1.step (fun url member => ?_) move, (capacity_step step).trans kept.2⟩
      exact (registered_isSome url).mp (records url (recorders url member))) run registered
    ⟨init, bound⟩

theorem run_past (bound : s.capacity = some capacity) (run : execute assetStep s as = some t)
    {url : υ} (found : s.view.parties[i]? = some ⟨url, .past⟩) :
    t.view.parties[i]? = some ⟨url, .past⟩ :=
  (execute_invariant
    (I := fun s => s.view.parties[i]? = some ⟨url, .past⟩ ∧ s.capacity = some capacity)
    (fun s a t kept step => by
      obtain ⟨recorded, move, -⟩ := ledgerStep_of_step kept.2 step
      exact ⟨past_step kept.1 move, (capacity_step step).trans kept.2⟩) run ⟨found, bound⟩).1

/-- From one turn of a scan to another along a run. -/
theorem run_passed (init : Tracks capacity s.view) (bound : s.capacity = some capacity)
    (run : execute assetStep s as = some t) {url url' : υ} {scan scan' : Scan υ}
    (found : s.view.parties[i]? = some ⟨url, .evicting scan⟩)
    (found' : t.view.parties[i]? = some ⟨url', .evicting scan'⟩) :
    ∃ passed kept, Passed s.view scan t.view scan' passed kept ∧
      (∀ u ∈ kept, ∃ r, Reached assetStep s as r ∧ u ∈ r.inFlight) ∧
      ∀ u ∈ passed, u ∉ kept → ∃ r, Reached assetStep s as r ∧ r.registered u = none := by
  induction as generalizing s scan with
  | nil =>
      cases run
      cases found.symm.trans found'
      refine ⟨[], [], ⟨rfl, (List.append_nil _).symm, .refl _⟩, ?_, ?_⟩
      · exact fun u member => absurd member List.not_mem_nil
      · exact fun u member => absurd member List.not_mem_nil
  | cons a as ih =>
      obtain ⟨s', next, rest⟩ := execute_cons_eq_some.mp run
      obtain ⟨recorded, move, -⟩ := ledgerStep_of_step bound next
      have tracks := init.step move
      have bound' := (capacity_step next).trans bound
      have onward {r : AssetDownloader υ α} (reached : Reached assetStep s' as r) :
          Reached assetStep s (a :: as) r := reached_cons.mpr (.inr ⟨s', next, reached⟩)
      rcases scan_step init found move with ⟨-, -, ended⟩ | turned
      · have behind : s'.view.parties[i]? = some ⟨url, .past⟩ := by
          rw [ended]
          exact mem_place found _
        cases found'.symm.trans (run_past bound' rest behind)
      · obtain ⟨middle, passed, kept, there, first, marked, gone⟩ := turned
        obtain ⟨passed', kept', second, marked', gone'⟩ := ih tracks bound' rest there
        refine ⟨passed ++ passed', kept ++ kept', first.trans second, fun u member => ?_,
          fun u member absent => ?_⟩
        · rcases List.mem_append.mp member with here | later
          · exact ⟨s, reached_start s _, marked u here⟩
          · obtain ⟨r, reached, inFlight⟩ := marked' u later
            exact ⟨r, onward reached, inFlight⟩
        · rw [List.mem_append, not_or] at absent
          rcases List.mem_append.mp member with here | later
          · refine ⟨s', onward (reached_start s' as), ?_⟩
            rw [← Option.not_isSome_iff_eq_none, registered_isSome]
            exact gone u here absent.1
          · obtain ⟨r, reached, evicted⟩ := gone' u later absent.2
            exact ⟨r, onward reached, evicted⟩

end Runs

/-! ## Evictions -/

/-- Every URL is in the queue of the ledger once, if it is at all, and was seen just if it is there;
a registered one is there, or about to be recorded by the call that registered it. -/
structure LedgerExact (s : AssetDownloader υ α) : Prop where
  once : s.order.queue.Nodup
  seen : ∀ url, url ∈ s.order.seen ↔ url ∈ s.order.queue
  registered : ∀ entry ∈ s.downloadedUrls, entry.url ∈ s.order.queue ∨
    ∃ call ∈ s.calls, call.url = entry.url ∧ ∃ cell, call.phase = .recording cell

/-- The URLs of the calls between their registration and the end of their eviction step. -/
def windowUrls (s : AssetDownloader υ α) : List υ :=
  (s.calls.filter fun call => call.phase.ledger.inWindow).map DownloadCall.url

/-- An eviction that has come to its end: the entries that it has passed at the head of the queue,
and those among them that it has kept. -/
structure EvictionDone [DecidableEq υ] (before middle : AssetDownloader υ α)
    (bs : List (AssetAction υ α)) (behind : AssetDownloader υ α) (passed kept rest : List υ) :
    Prop where
  queue : before.order.queue = passed ++ rest
  requeued : behind.order.queue = rest ++ kept
  sublist : kept.Sublist passed
  /-- an entry that was kept was found in flight -/
  inFlight : ∀ url ∈ kept, ∃ r, Reached assetStep middle bs r ∧ url ∈ r.inFlight
  evicted : ∀ url ∈ passed, url ∉ kept → ∃ r, Reached assetStep middle bs r ∧
    r.registered url = none

/-- Where a call is with its URL. -/
def ledgerAt (s : AssetDownloader υ α) (i : Nat) : Option (LedgerPhase υ) :=
  s.calls[i]?.map fun call => call.phase.ledger

section Claims

variable [DecidableEq υ] {s t : AssetDownloader υ α} {i capacity : Nat}

omit [DecidableEq υ] in
theorem Tracks.ledgerExact (tracks : Tracks capacity s.view) (free : s.locked = false) :
    LedgerExact s := by
  have same : s.view.tracked = s.order.queue := by
    rw [LedgerView.tracked, tracks.idle free]
    rfl
  refine ⟨same ▸ tracks.nodup, fun url => same ▸ tracks.seen url, fun entry member => ?_⟩
  have known := tracks.registered entry.url (List.mem_map_of_mem member)
  rw [same] at known
  refine known.imp_right fun recording => ?_
  obtain ⟨call, inside, party⟩ := List.mem_map.mp recording
  obtain ⟨url, recording⟩ := LedgerParty.mk.injEq .. ▸ party
  exact ⟨call, inside, url, CallPhase.of_recording recording⟩

omit [DecidableEq υ] in
theorem windowUrls_view (s : AssetDownloader υ α) : s.view.windowUrls = s.windowUrls := by
  rw [LedgerView.windowUrls, windowUrls, view, List.filter_map, List.map_map]
  rfl

omit [DecidableEq υ] in
theorem view_ledgerAt {phase : LedgerPhase υ} (here : s.ledgerAt i = some phase) :
    ∃ url, s.view.parties[i]? = some ⟨url, phase⟩ := by
  obtain ⟨call, found, rfl⟩ := Option.map_eq_some_iff.mp here
  exact ⟨call.url, view_place found⟩

/-- A call that finds room does not evict. -/
theorem length_of_skip (bound : s.capacity = some capacity) (here : s.ledgerAt i = some .checking)
    (step : assetStep s (.advance i) = some t) (past : t.ledgerAt i = some .past) :
    t.downloadedUrls.length ≤ capacity := by
  obtain ⟨⟨url, phase⟩, found, ledger⟩ := Option.map_eq_some_iff.mp here
  obtain ⟨cell, rfl⟩ := CallPhase.of_checking ledger
  obtain ⟨call, found', step⟩ := Option.bind_eq_some_iff.mp step
  cases found.symm.trans found'
  rw [advance] at step
  dsimp only at step
  rw [bound] at step
  split at step
  · rename_i room
    cases step
    exact of_decide_eq_true room
  · cases step
    obtain ⟨call, found', ledger'⟩ := Option.map_eq_some_iff.mp past
    rw [AssetDownloader.move, List.getElem?_set_self (List.getElem?_eq_some_iff.mp found).1] at found'
    cases found'
    cases ledger'

/-- A call that takes the lock begins its scan. -/
theorem view_of_lock (bound : s.capacity = some capacity) (here : s.ledgerAt i = some .locking)
    (step : assetStep s (.advance i) = some t) : t.order = s.order ∧
      ∃ url, t.view.parties[i]? = some ⟨url, .evicting
        { excess := s.downloadedUrls.length - capacity, maxScan := s.order.queue.length }⟩ := by
  obtain ⟨⟨url, phase⟩, found, ledger⟩ := Option.map_eq_some_iff.mp here
  obtain ⟨cell, rfl⟩ := CallPhase.of_locking ledger
  obtain ⟨call, found', step⟩ := Option.bind_eq_some_iff.mp step
  cases found.symm.trans found'
  rw [advance] at step
  dsimp only at step
  split at step
  · cases step
  · cases step
    refine ⟨rfl, url, ?_⟩
    rw [view_move, bound, Option.getD_some]
    exact mem_place (view_place found) _

/-- An eviction from the lock to its end. -/
theorem eviction_done {before middle last behind : AssetDownloader υ α}
    {bs : List (AssetAction υ α)} (tracks : Tracks capacity before.view)
    (bound : before.capacity = some capacity) (here : before.ledgerAt i = some .locking)
    (lock : assetStep before (.advance i) = some middle)
    (run : execute assetStep middle bs = some last) {scan : Scan υ}
    (evicting : last.ledgerAt i = some (.evicting scan))
    (step : assetStep last (.advance i) = some behind) (past : behind.ledgerAt i = some .past) :
    (∃ passed rest, EvictionDone before middle bs behind passed scan.deferred rest) ∧
      (Bounded capacity last.view → behind.downloadedUrls.length ≤
        capacity + (behind.windowUrls ++ scan.deferred).dedup.length) := by
  obtain ⟨recorded, move, -⟩ := ledgerStep_of_step bound lock
  have bound' := (capacity_step lock).trans bound
  obtain ⟨order, url, found⟩ := view_of_lock bound here lock
  obtain ⟨url', found'⟩ := view_ledgerAt evicting
  obtain ⟨tracks', bound''⟩ := run_tracks (tracks.step move) bound' run
  obtain ⟨recorded', move', -⟩ := ledgerStep_of_step bound'' step
  rcases scan_step tracks' found' move' with ⟨scanning, done, ended⟩ | turned
  · obtain ⟨passed, kept, ⟨queue, deferred, sublist⟩, marked, gone⟩ :=
      run_passed (tracks.step move) bound' run found found'
    have requeued : behind.order.queue = last.order.queue ++ scan.deferred :=
      congrArg (·.order.queue) ended
    rw [scanning] at queue
    have all : scan.deferred = kept := deferred
    refine ⟨⟨passed, last.order.queue, ?_, requeued, all ▸ sublist, all ▸ marked, all ▸ gone⟩,
      fun bounded => ?_⟩
    · rw [← order]
      exact queue
    · have most := bounded.leave found' scanning done { last.order with
        queue := last.order.queue ++ scan.deferred }
      rw [← length_urls, ← windowUrls_view, ended]
      exact most
  · obtain ⟨scan', passed, kept, there, -⟩ := turned
    obtain ⟨url'', there'⟩ := view_ledgerAt past
    cases there.symm.trans there'

/-- What holds of the cache behind a run with a capacity. -/
structure CacheBounded (capacity : Nat) (as : List (AssetAction υ α)) (s : AssetDownloader υ α) :
    Prop where
  ledger : s.locked = false → LedgerExact s
  /-- a call that evicts nothing has found room -/
  skip : ∀ i t, s.ledgerAt i = some .checking → assetStep s (.advance i) = some t →
    t.ledgerAt i = some .past → t.downloadedUrls.length ≤ capacity
  /-- an eviction that begins here goes through the queue from its head, and keeps what it finds in
  flight; with that and the windows the capacity bounds what is registered behind it -/
  evict : ∀ i middle bs last scan t, s.ledgerAt i = some .locking →
    assetStep s (.advance i) = some middle → execute assetStep middle bs = some last →
    last.ledgerAt i = some (.evicting scan) → assetStep last (.advance i) = some t →
    t.ledgerAt i = some .past →
      (∃ passed rest, EvictionDone s middle bs t passed scan.deferred rest) ∧
      (Along assetStep RecordsRegistered (AssetDownloader.new (some capacity))
          (as ++ .advance i :: bs) →
        t.downloadedUrls.length ≤ capacity + (t.windowUrls ++ scan.deferred).dedup.length)

/-- The excess that a scan takes is a difference of numbers in order. -/
theorem capacity_le_of_locking {as : List (AssetAction υ α)}
    (run : execute assetStep (AssetDownloader.new (some capacity)) as = some s)
    (here : s.ledgerAt i = some .locking) : capacity ≤ s.downloadedUrls.length := by
  obtain ⟨tracks, -⟩ := run_tracks (tracks_new capacity) rfl run
  obtain ⟨url, found⟩ := view_ledgerAt here
  rw [← length_urls]
  exact tracks.waiting _ (List.mem_of_getElem? found) rfl

end Claims

/-! ## Out of order and over the bound -/

def arrive (i : Nat) (url : String) (turns : Nat) : List (AssetAction String Unit) :=
  .download url :: List.replicate turns (.advance i)

def settle (i : Nat) (result : Except String Unit) : List (AssetAction String Unit) :=
  [.finish i result, .advance i]

/-- `A` is in flight while `C` makes room for itself, and is put behind it. -/
def rotatedRun : List (AssetAction String Unit) :=
  arrive 0 "A" 6 ++ arrive 1 "B" 6 ++ settle 1 (.ok ()) ++ arrive 2 "C" 12 ++ settle 2 (.ok ()) ++
    settle 0 (.ok ())

/-- The downloads of `A` and `C` end while an eviction is under way that has found them in flight. -/
def endedInScan : List (AssetAction String Unit) :=
  arrive 0 "A" 6 ++ arrive 1 "C" 13 ++ arrive 2 "C" 8 ++ settle 0 (.ok ()) ++ settle 1 (.ok ())

/-- `A` is evicted between its lookup and its `push_new`, and the entry it leaves is evicted again. -/
def evictedTwice : List (AssetAction String Unit) :=
  arrive 0 "A" 6 ++ settle 0 (.error "404") ++ arrive 1 "A" 1 ++ arrive 2 "B" 11 ++
    settle 2 (.ok ()) ++ List.replicate 5 (.advance 1) ++ settle 1 (.ok ()) ++ arrive 3 "C" 10 ++
    settle 3 (.ok ()) ++ arrive 4 "D" 6

/-- An eviction ends with more URLs registered than the capacity, none of them in flight or in a
window. -/
def EndsOver (capacity : Nat) (as : List (AssetAction String Unit)) (i : Nat) : Prop :=
  ∃ s scan t, execute assetStep (AssetDownloader.new (some capacity)) as = some s ∧
    s.ledgerAt i = some (.evicting scan) ∧ assetStep s (.advance i) = some t ∧
    t.ledgerAt i = some .past ∧ t.inFlight = [] ∧ t.windowUrls = [] ∧
    capacity < t.downloadedUrls.length

end AssetDownloader

end Webfang.Assets
