import Webfang.Assets.AssetRegistry
import Webfang.Lib.Parties
import Mathlib.Data.List.Perm.Subperm
import Mathlib.Data.List.Dedup

/-!
# The ledger of the asset cache

What the calls of `download` do to the registry of URLs and to its ledger, with the cells left out:
a call registers its URL, records it, and evicts what is over the capacity, under the lock of the
ledger from its first turn to its last.  Whether a candidate is found in flight is left open.
-/

namespace Webfang.Assets

open Parties

variable {υ : Type}

/-- Where a call is with its URL: before the registration, between that and `push_new`, before the
two checks of its eviction, in its scan, or past it. -/
inductive LedgerPhase (υ : Type) where
  | ahead
  | recording
  | checking
  | locking
  | evicting (scan : Scan υ)
  | past
  deriving DecidableEq, Repr

structure LedgerParty (υ : Type) where
  url : υ
  phase : LedgerPhase υ
  deriving DecidableEq, Repr

structure LedgerView (υ : Type) where
  urls : List υ
  order : InsertionLedger υ
  locked : Bool
  marks : List υ
  parties : List (LedgerParty υ)
  deriving DecidableEq, Repr

def LedgerPhase.scan : LedgerPhase υ → Option (Scan υ)
  | .ahead => none
  | .recording => none
  | .checking => none
  | .locking => none
  | .evicting scan => some scan
  | .past => none

/-- Between the registration of a URL and the end of the eviction step of the call. -/
def LedgerPhase.inWindow : LedgerPhase υ → Bool
  | .ahead => false
  | .recording => true
  | .checking => true
  | .locking => true
  | .evicting _ => true
  | .past => false

def ScanStep.candidate : ScanStep υ → Option υ
  | .scanning => none
  | .asking candidate => some candidate
  | .removing candidate => some candidate

/-- The entries that a scan has taken from the queue and not dropped. -/
def Scan.held (scan : Scan υ) : List υ := scan.deferred ++ scan.step.candidate.toList

namespace LedgerView

def move (v : LedgerView υ) (i : Nat) (url : υ) (phase : LedgerPhase υ) : LedgerView υ :=
  { v with parties := v.parties.set i ⟨url, phase⟩ }

def scans (v : LedgerView υ) : List (Scan υ) := v.parties.filterMap (·.phase.scan)

/-- The queue behind what the scan under way holds. -/
def tracked (v : LedgerView υ) : List υ := v.scans.flatMap Scan.held ++ v.order.queue

def Recording (v : LedgerView υ) (url : υ) : Prop := ⟨url, .recording⟩ ∈ v.parties

/-- The URLs between their registration and the end of an eviction step. -/
def windowUrls (v : LedgerView υ) : List υ :=
  (v.parties.filter (·.phase.inWindow)).map LedgerParty.url

end LedgerView

section Steps

variable [DecidableEq υ]

/-- A step of a call; the option is the URL that it records. -/
inductive LedgerStep (capacity : Nat) (v : LedgerView υ) : Option υ → LedgerView υ → Prop
  | arrive (url : υ) {phase : LedgerPhase υ} (fresh : phase = .ahead ∨ phase = .past) :
      LedgerStep capacity v none { v with parties := v.parties ++ [⟨url, phase⟩] }
  /-- Past its eviction a call touches the marks only. -/
  | rest (marks : List υ) : LedgerStep capacity v none { v with marks := marks }
  | publish {i : Nat} {url : υ} (found : v.parties[i]? = some ⟨url, .ahead⟩) {urls : List υ}
      (registered : urls = if url ∈ v.urls then v.urls else v.urls ++ [url]) :
      LedgerStep capacity v none ({ v with urls }.move i url .recording)
  | record {i : Nat} {url : υ} (found : v.parties[i]? = some ⟨url, .recording⟩)
      (free : v.locked = false) :
      LedgerStep capacity v (some url) ({ v with order := v.order.pushNew url }.move i url .checking)
  | skip {i : Nat} {url : υ} (found : v.parties[i]? = some ⟨url, .checking⟩)
      (room : v.urls.length ≤ capacity) : LedgerStep capacity v none (v.move i url .past)
  | exceed {i : Nat} {url : υ} (found : v.parties[i]? = some ⟨url, .checking⟩)
      (full : capacity < v.urls.length) : LedgerStep capacity v none (v.move i url .locking)
  | lock {i : Nat} {url : υ} (found : v.parties[i]? = some ⟨url, .locking⟩)
      (free : v.locked = false) :
      LedgerStep capacity v none ({ v with locked := true }.move i url (.evicting
        { excess := v.urls.length - capacity, maxScan := v.order.queue.length }))
  | pop {i : Nat} {url candidate : υ} {scan : Scan υ} {queue : List υ} {next : ScanStep υ}
      (found : v.parties[i]? = some ⟨url, .evicting scan⟩) (step : scan.step = .scanning)
      (more : scan.evicted < scan.excess ∧ scan.scanned < scan.maxScan)
      (head : v.order.queue = candidate :: queue) (named : next.candidate = some candidate) :
      LedgerStep capacity v none ({ v with order := { v.order with queue } }.move i url
        (.evicting { scan with scanned := scan.scanned + 1, step := next }))
  | defer {i : Nat} {url candidate : υ} {scan : Scan υ}
      (found : v.parties[i]? = some ⟨url, .evicting scan⟩) (step : scan.step = .asking candidate)
      (marked : candidate ∈ v.marks) :
      LedgerStep capacity v none (v.move i url
        (.evicting { scan with deferred := scan.deferred ++ [candidate], step := .scanning }))
  | condemn {i : Nat} {url candidate : υ} {scan : Scan υ}
      (found : v.parties[i]? = some ⟨url, .evicting scan⟩) (step : scan.step = .asking candidate) :
      LedgerStep capacity v none (v.move i url (.evicting { scan with step := .removing candidate }))
  | remove {i : Nat} {url candidate : υ} {scan : Scan υ}
      (found : v.parties[i]? = some ⟨url, .evicting scan⟩)
      (step : scan.step = .removing candidate) :
      LedgerStep capacity v none ({ v with
        urls := v.urls.filter (· ≠ candidate)
        order := v.order.forget candidate }.move i url
          (.evicting { scan with evicted := scan.evicted + 1, step := .scanning }))
  | leave {i : Nat} {url : υ} {scan : Scan υ}
      (found : v.parties[i]? = some ⟨url, .evicting scan⟩) (step : scan.step = .scanning)
      (done : scan.evicted < scan.excess ∧ scan.scanned < scan.maxScan → v.order.queue = []) :
      LedgerStep capacity v none ({ v with
        order := scan.deferred.foldl InsertionLedger.requeue v.order
        locked := false }.move i url .past)

end Steps

/-! ## One scan at a time -/

section Scans

variable {v v' : LedgerView υ} {i : Nat} {url : υ} {phase phase' : LedgerPhase υ}
  {scan scan' : Scan υ}

/-- A call that scans neither before its move nor behind it. -/
theorem scans_move (found : v.parties[i]? = some ⟨url, phase⟩) (before : phase.scan = none)
    (behind : phase'.scan = none) : (v.move i url phase').scans = v.scans := by
  have same : (v.parties.set i ⟨url, phase'⟩).map (·.phase.scan) = _ :=
    map_set_same (·.phase.scan) found (behind.trans before.symm)
  have onMap (parties : List (LedgerParty υ)) :
      parties.filterMap (·.phase.scan) = (parties.map (·.phase.scan)).filterMap id := by
    rw [List.filterMap_map]
    rfl
  rw [LedgerView.scans, LedgerView.scans, LedgerView.move, onMap, same, ← onMap]

theorem scans_concat (quiet : phase.scan = none) :
    ({ v with parties := v.parties ++ [⟨url, phase⟩] } : LedgerView υ).scans = v.scans := by
  rw [LedgerView.scans, List.filterMap_append, List.filterMap_cons, quiet]
  exact List.append_nil _

theorem mem_scans (found : v.parties[i]? = some ⟨url, .evicting scan⟩) : scan ∈ v.scans :=
  List.mem_filterMap.mpr ⟨_, List.mem_of_getElem? found, rfl⟩

theorem scans_begin (found : v.parties[i]? = some ⟨url, phase⟩) (before : phase.scan = none)
    (alone : v.scans = []) : (v.move i url (.evicting scan)).scans = [scan] := by
  have moved := filterMap_set_perm (·.phase.scan) found ⟨url, .evicting scan⟩
  rw [before, Option.toList_none, List.append_nil] at moved
  have none : v.parties.filterMap (·.phase.scan) = [] := alone
  rw [none] at moved
  exact List.perm_singleton.mp moved

theorem scans_turn (found : v.parties[i]? = some ⟨url, .evicting scan⟩) (alone : v.scans = [scan]) :
    (v.move i url (.evicting scan')).scans = [scan'] := by
  have moved := filterMap_set_perm (·.phase.scan) found ⟨url, .evicting scan'⟩
  have one : v.parties.filterMap (·.phase.scan) = [scan] := alone
  rw [one] at moved
  exact List.perm_singleton.mp
    ((List.perm_append_right_iff [scan]).mp (moved.trans List.perm_append_comm))

theorem scans_end (found : v.parties[i]? = some ⟨url, .evicting scan⟩) (alone : v.scans = [scan])
    (behind : phase'.scan = none) : (v.move i url phase').scans = [] := by
  have moved := filterMap_set_perm (·.phase.scan) found ⟨url, phase'⟩
  have one : v.parties.filterMap (·.phase.scan) = [scan] := alone
  rw [one, behind] at moved
  exact List.Perm.eq_nil ((List.perm_append_right_iff [scan]).mp moved)

end Scans

/-! ## What the ledger tracks -/

/-- The entries that a scan holds and those of the queue are told apart, and are those that were
seen; a registered URL is one of them, or about to be recorded. -/
structure Tracks (capacity : Nat) (v : LedgerView υ) : Prop where
  keys : v.urls.Nodup
  scans : v.scans.length = if v.locked then 1 else 0
  nodup : v.tracked.Nodup
  seen : ∀ url, url ∈ v.order.seen ↔ url ∈ v.tracked
  registered : ∀ url ∈ v.urls, url ∈ v.tracked ∨ v.Recording url
  whole : ∀ scan ∈ v.scans, v.order.queue.length + scan.scanned = scan.maxScan
  /-- the excess of a scan is no more than what is over the capacity and it has not evicted -/
  waiting : ∀ party ∈ v.parties, party.phase = .locking → capacity ≤ v.urls.length
  excess : ∀ scan ∈ v.scans, scan.evicted ≤ scan.excess ∧
    capacity + scan.excess ≤ v.urls.length + scan.evicted ∧
    (scan.step ≠ .scanning → scan.evicted < scan.excess)

section Tracking

variable {capacity : Nat} {v v' : LedgerView υ} {i : Nat} {url : υ} {phase phase' : LedgerPhase υ}
  {scan scan' : Scan υ}

theorem Tracks.alone (tracks : Tracks capacity v)
    (found : v.parties[i]? = some ⟨url, .evicting scan⟩) : v.scans = [scan] := by
  have inside := mem_scans found
  have size := tracks.scans
  split at size
  · obtain ⟨other, one⟩ := List.length_eq_one_iff.mp size
    rw [one, List.mem_singleton] at inside
    rw [one, inside]
  · rw [List.length_eq_zero_iff.mp size] at inside
    cases inside

theorem Tracks.locked (tracks : Tracks capacity v)
    (found : v.parties[i]? = some ⟨url, .evicting scan⟩) : v.locked = true := by
  have size := tracks.scans
  rw [tracks.alone found] at size
  split at size
  · assumption
  · cases size

theorem Tracks.idle (tracks : Tracks capacity v) (free : v.locked = false) : v.scans = [] := by
  have size := tracks.scans
  rw [free] at size
  exact List.length_eq_zero_iff.mp size

theorem recording_move (found : v.parties[i]? = some ⟨url, phase⟩) (other : phase ≠ .recording)
    {u : υ} (recording : v.Recording u) : (v.move i url phase').Recording u := by
  refine mem_set_of_ne found recording ?_ _
  intro given
  rcases given with ⟨-, -⟩
  exact other rfl

/-- A move that leaves the registry and the ledger as they are, by a call that does not scan. -/
theorem Tracks.frame (tracks : Tracks capacity v) (urls : v'.urls = v.urls)
    (order : v'.order = v.order) (locked : v'.locked = v.locked) (scans : v'.scans = v.scans)
    (recording : ∀ u, v.Recording u → v'.Recording u)
    (waiting : ∀ party ∈ v'.parties, party.phase = .locking → capacity ≤ v.urls.length) :
    Tracks capacity v' := by
  have same : v'.tracked = v.tracked := by
    rw [LedgerView.tracked, LedgerView.tracked, scans, order]
  refine ⟨?_, ?_, ?_, ?_, ?_, ?_, ?_, ?_⟩
  · rw [urls]
    exact tracks.keys
  · rw [scans, locked]
    exact tracks.scans
  · rw [same]
    exact tracks.nodup
  · rw [order, same]
    exact tracks.seen
  · rw [urls, same]
    exact fun u member => (tracks.registered u member).imp_right (recording u)
  · rw [scans, order]
    exact tracks.whole
  · rw [urls]
    exact waiting
  · rw [scans, urls]
    exact tracks.excess

/-- A turn of the scan that takes an entry from the queue or decides about one. -/
theorem Tracks.turn (tracks : Tracks capacity v)
    (found : v.parties[i]? = some ⟨url, .evicting scan⟩)
    (order : InsertionLedger υ) (seen : order.seen = v.order.seen)
    (held : scan'.held ++ order.queue = scan.held ++ v.order.queue)
    (whole : order.queue.length + scan'.scanned = v.order.queue.length + scan.scanned)
    (maxScan : scan'.maxScan = scan.maxScan) (excess : scan'.excess = scan.excess)
    (evicted : scan'.evicted = scan.evicted)
    (more : scan'.step ≠ .scanning → scan.evicted < scan.excess) :
    Tracks capacity ({ v with order }.move i url (.evicting scan')) := by
  have alone := tracks.alone found
  have scans : ({ v with order }.move i url (.evicting scan')).scans = [scan'] :=
    scans_turn (v := { v with order }) found alone
  have same : ({ v with order }.move i url (.evicting scan')).tracked = v.tracked := by
    rw [LedgerView.tracked, LedgerView.tracked, scans, alone, List.flatMap_singleton,
      List.flatMap_singleton]
    exact held
  refine ⟨tracks.keys, ?_, ?_, ?_, ?_, ?_, ?_, ?_⟩
  · rw [scans]
    have size := tracks.scans
    rw [alone] at size
    exact size
  · rw [same]
    exact tracks.nodup
  · rw [same]
    exact fun u => (iff_of_eq (congrArg (u ∈ ·) seen)).trans (tracks.seen u)
  · rw [same]
    exact fun u member => (tracks.registered u member).imp_right fun recording =>
      recording_move (v := { v with order }) found (fun same => by cases same) recording
  · rw [scans]
    refine List.forall_mem_singleton.mpr ?_
    rw [maxScan]
    exact whole.trans (tracks.whole scan (mem_scans found))
  · exact forall_mem_set tracks.waiting fun same => by cases same
  · rw [scans]
    refine List.forall_mem_singleton.mpr ?_
    obtain ⟨most, room, -⟩ := tracks.excess scan (mem_scans found)
    rw [evicted, excess]
    exact ⟨most, room, more⟩

variable [DecidableEq υ]

theorem Tracks.publish (tracks : Tracks capacity v)
    (found : v.parties[i]? = some ⟨url, .ahead⟩) {urls : List υ}
    (registered : urls = if url ∈ v.urls then v.urls else v.urls ++ [url]) :
    Tracks capacity ({ v with urls }.move i url .recording) := by
  have scans : ({ v with urls }.move i url .recording).scans = v.scans :=
    scans_move (v := { v with urls }) found rfl rfl
  have same : ({ v with urls }.move i url .recording).tracked = v.tracked := by
    rw [LedgerView.tracked, LedgerView.tracked, scans]
    rfl
  have keys : urls.Nodup ∧ v.urls.length ≤ urls.length ∧ ∀ u ∈ urls, u ∈ v.urls ∨ u = url := by
    rw [registered]
    split
    · exact ⟨tracks.keys, Nat.le_refl _, fun u member => .inl member⟩
    · rename_i absent
      refine ⟨?_, ?_, fun u member => ?_⟩
      · exact List.nodup_append'.mpr ⟨tracks.keys, List.nodup_singleton url,
          List.disjoint_singleton.mpr absent⟩
      · rw [List.length_append]
        exact Nat.le_add_right _ _
      · exact (List.mem_append.mp member).imp_right List.mem_singleton.mp
  refine ⟨keys.1, ?_, ?_, ?_, ?_, ?_, ?_, ?_⟩
  · rw [scans]
    exact tracks.scans
  · rw [same]
    exact tracks.nodup
  · rw [same]
    exact tracks.seen
  · rw [same]
    intro u member
    rcases keys.2.2 u member with before | rfl
    · exact (tracks.registered u before).imp_right fun recording =>
        recording_move (v := { v with urls }) found (fun same => by cases same) recording
    · exact .inr (mem_set_self found _)
  · rw [scans]
    exact tracks.whole
  · refine forall_mem_set (fun party member locking => ?_) fun same => by cases same
    exact Nat.le_trans (tracks.waiting party member locking) keys.2.1
  · rw [scans]
    intro scan member
    obtain ⟨most, room, more⟩ := tracks.excess scan member
    refine ⟨most, Nat.le_trans room (Nat.add_le_add_right keys.2.1 _), more⟩

theorem Tracks.record (tracks : Tracks capacity v)
    (found : v.parties[i]? = some ⟨url, .recording⟩) (free : v.locked = false) :
    Tracks capacity ({ v with order := v.order.pushNew url }.move i url .checking) := by
  have idle := tracks.idle free
  have scans : ({ v with order := v.order.pushNew url }.move i url .checking).scans = [] :=
    (scans_move (v := { v with order := v.order.pushNew url }) found rfl rfl).trans idle
  have before : v.tracked = v.order.queue := by
    rw [LedgerView.tracked, idle]
    rfl
  have behind : ({ v with order := v.order.pushNew url }.move i url .checking).tracked =
      (v.order.pushNew url).queue := by
    rw [LedgerView.tracked, scans]
    rfl
  -- the URL is tracked from here on, if it was not before
  have pushed : (v.order.pushNew url).queue.Nodup ∧
      (∀ u, u ∈ (v.order.pushNew url).seen ↔ u ∈ (v.order.pushNew url).queue) ∧
      ∀ u, u ∈ (v.order.pushNew url).queue ↔ u ∈ v.order.queue ∨ u = url := by
    have nodup := tracks.nodup
    have seen := tracks.seen
    rw [before] at nodup seen
    rw [InsertionLedger.pushNew]
    split
    · rename_i there
      refine ⟨nodup, seen, fun u => ⟨.inl, ?_⟩⟩
      intro given
      rcases given with member | rfl
      · exact member
      · exact (seen u).mp there
    · rename_i absent
      refine ⟨?_, fun u => ?_, fun u => ?_⟩
      · refine List.nodup_append'.mpr ⟨nodup, List.nodup_singleton url, ?_⟩
        exact List.disjoint_singleton.mpr fun member => absent ((seen url).mpr member)
      · rw [List.mem_cons, List.mem_append, List.mem_singleton, seen, or_comm]
      · rw [List.mem_append, List.mem_singleton]
  refine ⟨tracks.keys, ?_, ?_, ?_, ?_, ?_, ?_, ?_⟩
  · rw [scans]
    have size := tracks.scans
    rw [idle] at size
    exact size
  · rw [behind]
    exact pushed.1
  · rw [behind]
    exact pushed.2.1
  · rw [behind]
    intro u member
    by_cases here : u = url
    · exact .inl ((pushed.2.2 u).mpr (.inr here))
    · refine (tracks.registered u member).imp (fun there => ?_) fun recording => ?_
      · rw [before] at there
        exact (pushed.2.2 u).mpr (.inl there)
      · refine mem_set_of_ne found recording ?_ _
        intro given
        rcases given with ⟨rfl, -⟩
        exact here rfl
  · rw [scans]
    intro scan member
    cases member
  · exact forall_mem_set tracks.waiting fun same => by cases same
  · rw [scans]
    intro scan member
    cases member

omit [DecidableEq υ] in
theorem Tracks.lock (tracks : Tracks capacity v)
    (found : v.parties[i]? = some ⟨url, .locking⟩) (free : v.locked = false) :
    Tracks capacity ({ v with locked := true }.move i url (.evicting
      { excess := v.urls.length - capacity, maxScan := v.order.queue.length })) := by
  have idle := tracks.idle free
  have scans : ({ v with locked := true }.move i url (.evicting
      { excess := v.urls.length - capacity, maxScan := v.order.queue.length })).scans = [_] :=
    scans_begin (v := { v with locked := true }) found rfl idle
  have same : ({ v with locked := true }.move i url (.evicting
      { excess := v.urls.length - capacity, maxScan := v.order.queue.length })).tracked =
      v.tracked := by
    rw [LedgerView.tracked, LedgerView.tracked, scans, idle]
    rfl
  have room := tracks.waiting _ (List.mem_of_getElem? found) rfl
  refine ⟨tracks.keys, ?_, ?_, ?_, ?_, ?_, ?_, ?_⟩
  · rw [scans]
    rfl
  · rw [same]
    exact tracks.nodup
  · rw [same]
    exact tracks.seen
  · rw [same]
    exact fun u member => (tracks.registered u member).imp_right fun recording =>
      recording_move (v := { v with locked := true }) found (fun same => by cases same) recording
  · rw [scans]
    exact List.forall_mem_singleton.mpr (Nat.add_zero _)
  · exact forall_mem_set tracks.waiting fun same => by cases same
  · rw [scans]
    refine List.forall_mem_singleton.mpr ⟨Nat.zero_le _, ?_, fun turn => absurd rfl turn⟩
    change capacity + (v.urls.length - capacity) ≤ v.urls.length + 0
    omega

theorem Tracks.remove (tracks : Tracks capacity v) {candidate : υ}
    (found : v.parties[i]? = some ⟨url, .evicting scan⟩)
    (step : scan.step = .removing candidate) :
    Tracks capacity ({ v with
      urls := v.urls.filter (· ≠ candidate)
      order := v.order.forget candidate }.move i url
        (.evicting { scan with evicted := scan.evicted + 1, step := .scanning })) := by
  have alone := tracks.alone found
  have scans : ({ v with
      urls := v.urls.filter (· ≠ candidate)
      order := v.order.forget candidate }.move i url
        (.evicting { scan with evicted := scan.evicted + 1, step := .scanning })).scans = [_] :=
    scans_turn (v := { v with
      urls := v.urls.filter (· ≠ candidate)
      order := v.order.forget candidate }) found alone
  have before : v.tracked = scan.deferred ++ candidate :: v.order.queue := by
    rw [LedgerView.tracked, alone, List.flatMap_singleton, Scan.held, step, List.append_assoc]
    rfl
  have behind : ({ v with
      urls := v.urls.filter (· ≠ candidate)
      order := v.order.forget candidate }.move i url
        (.evicting { scan with evicted := scan.evicted + 1, step := .scanning })).tracked =
      scan.deferred ++ v.order.queue := by
    rw [LedgerView.tracked, scans, List.flatMap_singleton, Scan.held]
    exact congrArg (· ++ v.order.queue) (List.append_nil _)
  have nodup := tracks.nodup
  rw [before, List.nodup_middle, List.nodup_cons] at nodup
  have others (u : υ) : u ∈ scan.deferred ++ v.order.queue ↔ u ∈ v.tracked ∧ u ≠ candidate := by
    rw [before, List.perm_middle.mem_iff, List.mem_cons]
    constructor
    · intro member
      refine ⟨.inr member, ?_⟩
      rintro rfl
      exact nodup.1 member
    · intro given
      rcases given with ⟨rfl | member, other⟩
      · exact absurd rfl other
      · exact member
  obtain ⟨most, room, more⟩ := tracks.excess scan (mem_scans found)
  have under : scan.evicted < scan.excess := more (by rw [step]; exact fun same => by cases same)
  have fewer : v.urls.length ≤ (v.urls.filter (· ≠ candidate)).length + 1 := by
    have covered : v.urls ⊆ candidate :: v.urls.filter (· ≠ candidate) := by
      intro u member
      by_cases here : u = candidate
      · exact here ▸ List.mem_cons_self
      · exact List.mem_cons_of_mem _ (List.mem_filter.mpr ⟨member, decide_eq_true here⟩)
    exact (tracks.keys.subperm covered).length_le
  refine ⟨tracks.keys.filter _, ?_, ?_, ?_, ?_, ?_, ?_, ?_⟩
  · rw [scans]
    have size := tracks.scans
    rw [alone] at size
    exact size
  · rw [behind]
    exact nodup.2
  · rw [behind]
    intro u
    rw [others, ← tracks.seen]
    change u ∈ v.order.seen.filter (· ≠ candidate) ↔ _
    rw [List.mem_filter, decide_eq_true_eq]
  · rw [behind]
    intro u member
    obtain ⟨member, other⟩ := List.mem_filter.mp member
    refine (tracks.registered u member).imp (fun there => ?_) fun recording => ?_
    · exact (others u).mpr ⟨there, of_decide_eq_true other⟩
    · refine mem_set_of_ne found recording ?_ _
      intro same
      cases same
  · rw [scans]
    exact List.forall_mem_singleton.mpr (tracks.whole scan (mem_scans found))
  · refine forall_mem_set (fun party member locking => ?_) fun same => by cases same
    change capacity ≤ (v.urls.filter (· ≠ candidate)).length
    omega
  · rw [scans]
    refine List.forall_mem_singleton.mpr ⟨under, ?_, fun turn => absurd rfl turn⟩
    change capacity + scan.excess ≤ (v.urls.filter (· ≠ candidate)).length + (scan.evicted + 1)
    omega

omit [DecidableEq υ] in
theorem requeue_foldl (order : InsertionLedger υ) (deferred : List υ) :
    deferred.foldl InsertionLedger.requeue order =
      { order with queue := order.queue ++ deferred } := by
  induction deferred generalizing order with
  | nil =>
      rw [List.foldl_nil, List.append_nil]
  | cons first rest ih =>
      rw [List.foldl_cons, ih, InsertionLedger.requeue, List.append_assoc]
      rfl

omit [DecidableEq υ] in
theorem Tracks.leave (tracks : Tracks capacity v)
    (found : v.parties[i]? = some ⟨url, .evicting scan⟩) (step : scan.step = .scanning) :
    Tracks capacity ({ v with
      order := scan.deferred.foldl InsertionLedger.requeue v.order
      locked := false }.move i url .past) := by
  rw [requeue_foldl]
  have alone := tracks.alone found
  have scans : ({ v with
      order := { v.order with queue := v.order.queue ++ scan.deferred }
      locked := false }.move i url .past).scans = [] :=
    scans_end (v := { v with
      order := { v.order with queue := v.order.queue ++ scan.deferred }
      locked := false }) found alone rfl
  -- what the scan held stands behind the queue now
  have same : ({ v with
      order := { v.order with queue := v.order.queue ++ scan.deferred }
      locked := false }.move i url .past).tracked.Perm v.tracked := by
    rw [LedgerView.tracked, LedgerView.tracked, scans, alone, List.flatMap_singleton, Scan.held,
      step, ScanStep.candidate, Option.toList_none, List.append_nil, List.flatMap_nil,
      List.nil_append]
    exact List.perm_append_comm
  refine ⟨tracks.keys, ?_, ?_, ?_, ?_, ?_, ?_, ?_⟩
  · rw [scans]
    rfl
  · exact same.nodup_iff.mpr tracks.nodup
  · exact fun u => (tracks.seen u).trans same.mem_iff.symm
  · exact fun u member => (tracks.registered u member).imp same.mem_iff.mpr fun recording =>
      recording_move (v := { v with
        order := { v.order with queue := v.order.queue ++ scan.deferred }
        locked := false }) found (fun same => by cases same) recording
  · rw [scans]
    intro scan member
    cases member
  · exact forall_mem_set tracks.waiting fun same => by cases same
  · rw [scans]
    intro scan member
    cases member

theorem Tracks.step (tracks : Tracks capacity v) {recorded : Option υ}
    (step : LedgerStep capacity v recorded v') : Tracks capacity v' := by
  cases step with
  | @arrive url phase fresh =>
      have quiet : phase.scan = none ∧ phase ≠ .locking := by
        rcases fresh with rfl | rfl
        · exact ⟨rfl, fun same => by cases same⟩
        · exact ⟨rfl, fun same => by cases same⟩
      refine tracks.frame rfl rfl rfl (scans_concat quiet.1) (fun u => List.mem_append_left _) ?_
      exact forall_mem_concat tracks.waiting fun locking => absurd locking quiet.2
  | rest marks => exact tracks.frame rfl rfl rfl rfl (fun _ => id) tracks.waiting
  | publish found registered => exact tracks.publish found registered
  | record found free => exact tracks.record found free
  | skip found room =>
      refine tracks.frame rfl rfl rfl (scans_move found rfl rfl) ?_ ?_
      · exact fun u => recording_move found fun same => by cases same
      · exact forall_mem_set tracks.waiting fun same => by cases same
  | exceed found full =>
      refine tracks.frame rfl rfl rfl (scans_move found rfl rfl) ?_ ?_
      · exact fun u => recording_move found fun same => by cases same
      · exact forall_mem_set tracks.waiting fun _ => Nat.le_of_lt full
  | lock found free => exact tracks.lock found free
  | @pop i url candidate scan queue next found step more head named =>
      refine tracks.turn found _ rfl ?_ ?_ rfl rfl rfl fun _ => more.1
      · rw [Scan.held, Scan.held, step, named, head, List.append_assoc, List.append_assoc]
        rfl
      · rw [head, List.length_cons, Nat.add_assoc, Nat.add_comm 1]
  | defer found step marked =>
      refine tracks.turn found v.order rfl ?_ rfl rfl rfl rfl fun turn => absurd rfl turn
      rw [Scan.held, Scan.held, step]
      exact congrArg (· ++ v.order.queue) (List.append_nil _)
  | condemn found step =>
      refine tracks.turn found v.order rfl ?_ rfl rfl rfl rfl fun _ => ?_
      · rw [Scan.held, Scan.held, step]
        rfl
      · exact (tracks.excess _ (mem_scans found)).2.2 (by rw [step]; exact fun same => by cases same)
  | remove found step => exact tracks.remove found step
  | leave found step done => exact tracks.leave found step

end Tracking

/-! ## The bound -/

/-- As long as only registered URLs are recorded, nothing is tracked that has left the registry; and
the registry is what a scan found when it began, less what it has evicted, or about to be recorded. -/
structure Bounded (capacity : Nat) (v : LedgerView υ) : Prop where
  tracks : Tracks capacity v
  present : ∀ url ∈ v.tracked, url ∈ v.urls
  scanned : ∀ scan ∈ v.scans, ∃ found : List υ, (∀ url ∈ v.urls, url ∈ found ∨ v.Recording url) ∧
    (∀ url ∈ v.tracked, url ∈ found) ∧ found.length + scan.evicted ≤ capacity + scan.excess

section Bound

variable [DecidableEq υ] {capacity : Nat} {v v' : LedgerView υ} {i : Nat} {url : υ}
  {scan scan' : Scan υ}

omit [DecidableEq υ] in
/-- A step that takes nothing from the registry and adds nothing to what was seen. -/
theorem Bounded.kept (bounded : Bounded capacity v) (tracks : Tracks capacity v')
    (seen : v'.order.seen = v.order.seen) (fewer : ∀ u ∈ v.urls, u ∈ v'.urls)
    (more : ∀ u ∈ v'.urls, u ∈ v.urls ∨ v'.Recording u)
    (recording : ∀ u, v.Recording u → v'.Recording u)
    (scans : ∀ scan' ∈ v'.scans, ∃ scan ∈ v.scans, scan'.excess = scan.excess ∧
      scan'.evicted = scan.evicted) : Bounded capacity v' := by
  have same (u : υ) : u ∈ v'.tracked ↔ u ∈ v.tracked := by
    rw [← tracks.seen, ← bounded.tracks.seen, seen]
  refine ⟨tracks, fun u member => fewer u (bounded.present u ((same u).mp member)), ?_⟩
  intro scan' member
  obtain ⟨scan, inside, excess, evicted⟩ := scans scan' member
  obtain ⟨found, registered, there, size⟩ := bounded.scanned scan inside
  refine ⟨found, fun u member => ?_, fun u member => there u ((same u).mp member), ?_⟩
  · rcases more u member with before | here
    · exact (registered u before).imp_right (recording u)
    · exact .inr here
  · rw [excess, evicted]
    exact size

omit [DecidableEq υ] in
/-- A turn of a scan that evicts nothing. -/
theorem Bounded.turn (bounded : Bounded capacity v)
    (found : v.parties[i]? = some ⟨url, .evicting scan⟩) (order : InsertionLedger υ)
    (tracks : Tracks capacity ({ v with order }.move i url (.evicting scan')))
    (seen : order.seen = v.order.seen) (excess : scan'.excess = scan.excess)
    (evicted : scan'.evicted = scan.evicted) :
    Bounded capacity ({ v with order }.move i url (.evicting scan')) := by
  refine bounded.kept tracks seen (fun _ => id) (fun _ => .inl) (fun u => ?_) ?_
  · exact recording_move (v := { v with order }) found fun same => by cases same
  · rw [scans_turn (v := { v with order }) found (bounded.tracks.alone found)]
    exact List.forall_mem_singleton.mpr ⟨scan, mem_scans found, excess, evicted⟩

theorem Bounded.remove (bounded : Bounded capacity v) {candidate : υ}
    (found : v.parties[i]? = some ⟨url, .evicting scan⟩)
    (step : scan.step = .removing candidate) :
    Bounded capacity ({ v with
      urls := v.urls.filter (· ≠ candidate)
      order := v.order.forget candidate }.move i url
        (.evicting { scan with evicted := scan.evicted + 1, step := .scanning })) := by
  have tracks := bounded.tracks.remove found step
  have same (u : υ) (member : u ∈ ({ v with
      urls := v.urls.filter (· ≠ candidate)
      order := v.order.forget candidate }.move i url
        (.evicting { scan with evicted := scan.evicted + 1, step := .scanning })).tracked) :
      u ∈ v.tracked ∧ u ≠ candidate := by
    rw [← tracks.seen] at member
    obtain ⟨member, other⟩ := List.mem_filter.mp member
    exact ⟨(bounded.tracks.seen u).mp member, of_decide_eq_true other⟩
  refine ⟨tracks, fun u member => ?_, ?_⟩
  · obtain ⟨there, other⟩ := same u member
    exact List.mem_filter.mpr ⟨bounded.present u there, decide_eq_true other⟩
  · rw [scans_turn (v := { v with
      urls := v.urls.filter (· ≠ candidate)
      order := v.order.forget candidate }) found (bounded.tracks.alone found)]
    refine List.forall_mem_singleton.mpr ?_
    obtain ⟨old, registered, there, size⟩ := bounded.scanned scan (mem_scans found)
    have held : candidate ∈ v.tracked := by
      rw [LedgerView.tracked, bounded.tracks.alone found, List.flatMap_singleton, Scan.held, step]
      exact List.mem_append_left _ (List.mem_append_right _ (List.mem_singleton.mpr rfl))
    refine ⟨old.erase candidate, fun u member => ?_, fun u member => ?_, ?_⟩
    · obtain ⟨member, other⟩ := List.mem_filter.mp member
      refine (registered u member).imp (fun here => ?_) fun recording => ?_
      · exact (List.mem_erase_of_ne (of_decide_eq_true other)).mpr here
      · refine recording_move (v := { v with
          urls := v.urls.filter (· ≠ candidate)
          order := v.order.forget candidate }) found (fun same => ?_) recording
        cases same
    · obtain ⟨member, other⟩ := same u member
      exact (List.mem_erase_of_ne other).mpr (there u member)
    · have one := List.length_erase_add_one (there candidate held)
      change (old.erase candidate).length + (scan.evicted + 1) ≤ capacity + scan.excess
      omega

theorem Bounded.step (bounded : Bounded capacity v) {recorded : Option υ}
    (registered : ∀ url ∈ recorded, url ∈ v.urls) (step : LedgerStep capacity v recorded v') :
    Bounded capacity v' := by
  have tracks := bounded.tracks.step step
  have itself (scans : v'.scans = v.scans) : ∀ scan' ∈ v'.scans, ∃ scan ∈ v.scans,
      scan'.excess = scan.excess ∧ scan'.evicted = scan.evicted := by
    rw [scans]
    exact fun scan member => ⟨scan, member, rfl, rfl⟩
  cases step with
  | @arrive url phase fresh =>
      have quiet : phase.scan = none := by
        rcases fresh with rfl | rfl <;> rfl
      exact bounded.kept tracks rfl (fun _ => id) (fun _ => .inl)
        (fun u => List.mem_append_left _) (itself (scans_concat quiet))
  | rest marks =>
      exact bounded.kept tracks rfl (fun _ => id) (fun _ => .inl) (fun _ => id) (itself rfl)
  | @publish i url found urls published =>
      refine bounded.kept tracks rfl (fun u member => ?_) (fun u member => ?_) (fun u => ?_)
        (itself (scans_move (v := { v with urls }) found rfl rfl))
      · change u ∈ urls
        rw [published]
        split
        · exact member
        · exact List.mem_append_left _ member
      · change u ∈ urls at member
        rw [published] at member
        split at member
        · exact .inl member
        · refine (List.mem_append.mp member).imp_right fun here => ?_
          rw [List.mem_singleton.mp here]
          exact mem_set_self found _
      · exact recording_move (v := { v with urls }) found fun same => by cases same
  | @record i url found free =>
      have idle := bounded.tracks.idle free
      have scans : ({ v with order := v.order.pushNew url }.move i url .checking).scans = [] :=
        (scans_move (v := { v with order := v.order.pushNew url }) found rfl rfl).trans idle
      refine ⟨tracks, fun u member => ?_, ?_⟩
      · rw [← tracks.seen] at member
        change u ∈ (v.order.pushNew url).seen at member
        rw [InsertionLedger.pushNew] at member
        split at member
        · exact bounded.present u ((bounded.tracks.seen u).mp member)
        · rcases List.mem_cons.mp member with rfl | before
          · exact registered u rfl
          · exact bounded.present u ((bounded.tracks.seen u).mp before)
      · rw [scans]
        intro scan member
        cases member
  | skip found room =>
      exact bounded.kept tracks rfl (fun _ => id) (fun _ => .inl)
        (fun u => recording_move found fun same => by cases same) (itself (scans_move found rfl rfl))
  | exceed found full =>
      exact bounded.kept tracks rfl (fun _ => id) (fun _ => .inl)
        (fun u => recording_move found fun same => by cases same) (itself (scans_move found rfl rfl))
  | @lock i url found free =>
      have idle := bounded.tracks.idle free
      refine ⟨tracks, fun u member => ?_, ?_⟩
      · rw [← tracks.seen] at member
        exact bounded.present u ((bounded.tracks.seen u).mp member)
      · rw [scans_begin (v := { v with locked := true }) found rfl idle]
        refine List.forall_mem_singleton.mpr ⟨v.urls, fun u => .inl, fun u member => ?_, ?_⟩
        · rw [← tracks.seen] at member
          exact bounded.present u ((bounded.tracks.seen u).mp member)
        · change v.urls.length + 0 ≤ capacity + (v.urls.length - capacity)
          omega
  | pop found step more head named => exact bounded.turn found _ tracks rfl rfl rfl
  | defer found step marked => exact bounded.turn found v.order tracks rfl rfl rfl
  | condemn found step => exact bounded.turn found v.order tracks rfl rfl rfl
  | remove found step => exact bounded.remove found step
  | @leave i url scan found step done =>
      refine ⟨tracks, fun u member => ?_, ?_⟩
      · rw [← tracks.seen] at member
        change u ∈ (scan.deferred.foldl InsertionLedger.requeue v.order).seen at member
        rw [requeue_foldl] at member
        exact bounded.present u ((bounded.tracks.seen u).mp member)
      · rw [scans_end (v := { v with
          order := scan.deferred.foldl InsertionLedger.requeue v.order
          locked := false }) found (bounded.tracks.alone found) rfl]
        intro scan member
        cases member

/-- The registered URLs are at most the capacity, when an eviction has ended, and those that it has
found in flight or that are in a window. -/
theorem Bounded.leave (bounded : Bounded capacity v)
    (found : v.parties[i]? = some ⟨url, .evicting scan⟩) (step : scan.step = .scanning)
    (done : scan.evicted < scan.excess ∧ scan.scanned < scan.maxScan → v.order.queue = [])
    (order : InsertionLedger υ) :
    v.urls.length ≤ capacity +
      (({ v with order, locked := false }.move i url .past).windowUrls ++ scan.deferred).dedup.length := by
  have recording (u : υ) (recording : v.Recording u) :
      u ∈ ({ v with order, locked := false }.move i url .past).windowUrls := by
    have kept : ({ v with order, locked := false }.move i url .past).Recording u :=
      recording_move (v := { v with order, locked := false }) found (fun same => by cases same)
        recording
    exact List.mem_map.mpr ⟨_, List.mem_filter.mpr ⟨kept, rfl⟩, rfl⟩
  have inside := mem_scans found
  by_cases more : scan.evicted < scan.excess
  · -- the whole queue was gone through
    have empty : v.order.queue = [] := by
      by_cases turns : scan.scanned < scan.maxScan
      · exact done ⟨more, turns⟩
      · have whole := bounded.tracks.whole scan inside
        exact List.length_eq_zero_iff.mp (by omega)
    have held : v.tracked = scan.deferred := by
      rw [LedgerView.tracked, bounded.tracks.alone found, List.flatMap_singleton, Scan.held, step,
        ScanStep.candidate, Option.toList_none, List.append_nil, empty, List.append_nil]
    refine Nat.le_trans (bounded.tracks.keys.subperm fun u member => ?_).length_le
      (Nat.le_add_left _ _)
    rw [List.mem_dedup, List.mem_append, or_comm, ← held]
    exact (bounded.tracks.registered u member).imp_right (recording u)
  · obtain ⟨old, registered, -, size⟩ := bounded.scanned scan inside
    have covered : v.urls ⊆ old ++
        (({ v with order, locked := false }.move i url .past).windowUrls ++ scan.deferred).dedup := by
      intro u member
      rw [List.mem_append, List.mem_dedup, List.mem_append]
      exact (registered u member).imp_right fun there => .inl (recording u there)
    have most := (bounded.tracks.keys.subperm covered).length_le
    rw [List.length_append] at most
    omega

end Bound

/-! ## The order of a scan -/

/-- From one state of a scan to another: what was passed at the head of the queue was found in flight,
and is deferred, or was evicted. -/
structure Passed (v : LedgerView υ) (scan : Scan υ) (v' : LedgerView υ) (scan' : Scan υ)
    (passed kept : List υ) : Prop where
  queue : scan.step.candidate.toList ++ v.order.queue =
    passed ++ (scan'.step.candidate.toList ++ v'.order.queue)
  deferred : scan'.deferred = scan.deferred ++ kept
  kept : kept.Sublist passed

section Order

variable [DecidableEq υ] {capacity : Nat} {v v' : LedgerView υ} {i j : Nat} {url url' : υ}
  {scan scan' : Scan υ} {recorded : Option υ}

omit [DecidableEq υ] in
/-- No two calls scan at a time. -/
theorem Tracks.evicts_once (tracks : Tracks capacity v)
    (found : v.parties[i]? = some ⟨url, .evicting scan⟩)
    (found' : v.parties[j]? = some ⟨url', .evicting scan'⟩) : i = j := by
  by_contra other
  have still : (v.move i url .past).parties[j]? = some ⟨url', .evicting scan'⟩ := by
    rw [LedgerView.move, List.getElem?_set_ne other, found']
  have inside := mem_scans still
  rw [scans_end found (tracks.alone found) rfl] at inside
  cases inside

omit [DecidableEq υ] in
/-- The place of a call that has moved. -/
theorem mem_place {party : LedgerParty υ} (found : v.parties[i]? = some party)
    (moved : LedgerParty υ) : (v.parties.set i moved)[i]? = some moved :=
  List.getElem?_set_self (List.getElem?_eq_some_iff.mp found).1

/-- While a call scans, a step is a turn of its scan, or ends it, or leaves the queue alone. -/
theorem scan_step (tracks : Tracks capacity v)
    (found : v.parties[i]? = some ⟨url, .evicting scan⟩) (step : LedgerStep capacity v recorded v') :
    (scan.step = .scanning ∧
      (scan.evicted < scan.excess ∧ scan.scanned < scan.maxScan → v.order.queue = []) ∧
      v' = { v with
        order := { v.order with queue := v.order.queue ++ scan.deferred }
        locked := false }.move i url .past) ∨
    ∃ scan' passed kept, v'.parties[i]? = some ⟨url, .evicting scan'⟩ ∧
      Passed v scan v' scan' passed kept ∧ (∀ u ∈ kept, u ∈ v.marks) ∧
      ∀ u ∈ passed, u ∉ kept → u ∉ v'.urls := by
  -- a step that is none of the call leaves the phase and the queue
  have aside (there : v'.parties[i]? = some ⟨url, .evicting scan⟩)
      (queue : v'.order.queue = v.order.queue) :
      ∃ scan' passed kept, v'.parties[i]? = some ⟨url, .evicting scan'⟩ ∧
        Passed v scan v' scan' passed kept ∧ (∀ u ∈ kept, u ∈ v.marks) ∧
        ∀ u ∈ passed, u ∉ kept → u ∉ v'.urls := by
    refine ⟨scan, [], [], there, ⟨?_, (List.append_nil _).symm, List.Sublist.refl _⟩, ?_, ?_⟩
    · rw [queue, List.nil_append]
    · exact fun u member => absurd member List.not_mem_nil
    · exact fun u member => absurd member List.not_mem_nil
  have other {j : Nat} {url' : υ} {phase phase' : LedgerPhase υ}
      (mover : v.parties[j]? = some ⟨url', phase⟩) (quiet : phase.scan = none) :
      (v.parties.set j ⟨url', phase'⟩)[i]? = some ⟨url, .evicting scan⟩ := by
    have ne : j ≠ i := by
      rintro rfl
      cases found.symm.trans mover
      cases quiet
    rw [List.getElem?_set_ne ne, found]
  cases step with
  | arrive url fresh =>
      refine .inr (aside ?_ rfl)
      exact (List.getElem?_append_left (List.getElem?_eq_some_iff.mp found).1).trans found
  | rest marks => exact .inr (aside found rfl)
  | publish mover registered => exact .inr (aside (other mover rfl) rfl)
  | record mover free =>
      rw [tracks.locked found] at free
      cases free
  | skip mover room => exact .inr (aside (other mover rfl) rfl)
  | exceed mover full => exact .inr (aside (other mover rfl) rfl)
  | lock mover free =>
      rw [tracks.locked found] at free
      cases free
  | @pop j url' candidate scan₀ queue next mover step more head named =>
      cases tracks.evicts_once found mover
      cases found.symm.trans mover
      refine .inr ⟨_, [], [], mem_place found _, ⟨?_, (List.append_nil _).symm, .refl _⟩, ?_, ?_⟩
      · rw [step, head, named]
        rfl
      · exact fun u member => absurd member List.not_mem_nil
      · exact fun u member => absurd member List.not_mem_nil
  | @defer j url' candidate scan₀ mover step marked =>
      cases tracks.evicts_once found mover
      cases found.symm.trans mover
      refine .inr ⟨_, [candidate], [candidate], mem_place found _, ⟨?_, rfl, .refl _⟩, ?_, ?_⟩
      · rw [step]
        rfl
      · exact List.forall_mem_singleton.mpr marked
      · exact fun u member absent => absurd member absent
  | @condemn j url' candidate scan₀ mover step =>
      cases tracks.evicts_once found mover
      cases found.symm.trans mover
      refine .inr ⟨_, [], [], mem_place found _, ⟨?_, (List.append_nil _).symm, .refl _⟩, ?_, ?_⟩
      · rw [step]
        rfl
      · exact fun u member => absurd member List.not_mem_nil
      · exact fun u member => absurd member List.not_mem_nil
  | @remove j url' candidate scan₀ mover step =>
      cases tracks.evicts_once found mover
      cases found.symm.trans mover
      refine .inr ⟨_, [candidate], [], mem_place found _,
        ⟨?_, (List.append_nil _).symm, List.nil_sublist _⟩, ?_, ?_⟩
      · rw [step]
        rfl
      · exact fun u member => absurd member List.not_mem_nil
      · refine List.forall_mem_singleton.mpr fun _ member => ?_
        exact of_decide_eq_true (List.mem_filter.mp member).2 rfl
  | @leave j url' scan₀ mover step done =>
      cases tracks.evicts_once found mover
      cases found.symm.trans mover
      refine .inl ⟨step, done, ?_⟩
      rw [requeue_foldl]

omit [DecidableEq υ] in
theorem Passed.trans {v₁ v₂ v₃ : LedgerView υ} {scan₁ scan₂ scan₃ : Scan υ}
    {passed passed' kept kept' : List υ} (first : Passed v₁ scan₁ v₂ scan₂ passed kept)
    (second : Passed v₂ scan₂ v₃ scan₃ passed' kept') :
    Passed v₁ scan₁ v₃ scan₃ (passed ++ passed') (kept ++ kept') := by
  refine ⟨?_, ?_, first.kept.append second.kept⟩
  · rw [first.queue, second.queue, List.append_assoc]
  · rw [second.deferred, first.deferred, List.append_assoc]

/-- A call whose eviction is past stays past it. -/
theorem past_step (found : v.parties[i]? = some ⟨url, .past⟩)
    (step : LedgerStep capacity v recorded v') : v'.parties[i]? = some ⟨url, .past⟩ := by
  have other {j : Nat} {url' : υ} {phase phase' : LedgerPhase υ}
      (mover : v.parties[j]? = some ⟨url', phase⟩) (ne : phase ≠ .past) :
      (v.parties.set j ⟨url', phase'⟩)[i]? = some ⟨url, .past⟩ := by
    have apart : j ≠ i := by
      rintro rfl
      cases found.symm.trans mover
      exact ne rfl
    rw [List.getElem?_set_ne apart, found]
  cases step with
  | arrive url fresh =>
      exact (List.getElem?_append_left (List.getElem?_eq_some_iff.mp found).1).trans found
  | rest marks => exact found
  | publish mover registered => exact other mover fun same => by cases same
  | record mover free => exact other mover fun same => by cases same
  | skip mover room => exact other mover fun same => by cases same
  | exceed mover full => exact other mover fun same => by cases same
  | lock mover free => exact other mover fun same => by cases same
  | pop mover step more head named => exact other mover fun same => by cases same
  | defer mover step marked => exact other mover fun same => by cases same
  | condemn mover step => exact other mover fun same => by cases same
  | remove mover step => exact other mover fun same => by cases same
  | leave mover step done => exact other mover fun same => by cases same

end Order

end Webfang.Assets
