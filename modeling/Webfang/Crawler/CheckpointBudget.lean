import Mathlib.Data.List.Dedup
import Webfang.Crawler.FrontierOrder
import Webfang.Crawler.Scheduler

/-!
# What a bounded checkpoint is worth

A scheduler restored from `snapshot_visited` and `snapshot_pending_bounded` dispatches the URLs of
the snapshot that are new to it.  The snapshot is cut before anything is filtered, so an entry that
is visited, or there twice, takes a place of the budget.
-/

namespace Webfang.CrawlScheduler

variable {υ κ : Type} [DecidableEq κ]

section Dispatch

variable (canonical : υ → κ)

/-- Up to `n` calls of `next_url` below the concurrency limit, until one finds nothing: what they
dispatch, and the scheduler behind them. -/
def dispatches : Nat → CrawlScheduler υ κ → List (DiscoveredUrl υ) × CrawlScheduler υ κ
  | 0, s => ([], s)
  | n + 1, s =>
      match s.nextUrl canonical with
      | (none, s) => ([], s)
      | (some d, s) => (d :: (dispatches n s).1, (dispatches n s).2)

/-- `next_url` until it is exhausted. -/
def dispatchAll (s : CrawlScheduler υ κ) : List (DiscoveredUrl υ) × CrawlScheduler υ κ :=
  s.dispatches canonical s.pending.length

/-- The canonical forms of the URLs that are not visited, each once. -/
def unvisitedForms (visited : List κ) (urls : List υ) : List κ :=
  ((urls.map canonical).filter (· ∉ visited)).dedup

variable {canonical}

@[simp] theorem mem_unvisitedForms {visited : List κ} {urls : List υ} {key : κ} :
    key ∈ unvisitedForms canonical visited urls ↔
      (∃ url ∈ urls, canonical url = key) ∧ key ∉ visited := by
  simp [unvisitedForms]

theorem nodup_unvisitedForms {visited : List κ} {urls : List υ} :
    (unvisitedForms canonical visited urls).Nodup := List.nodup_dedup _

theorem length_unvisitedForms_le (visited : List κ) (urls : List υ) :
    (unvisitedForms canonical visited urls).length ≤ urls.length := by
  refine (List.dedup_sublist _).length_le.trans ((List.length_filter_le _ _).trans ?_)
  rw [List.length_map]

/-- All the URLs count where none is visited and no two have one form. -/
theorem length_unvisitedForms_eq_iff {visited : List κ} {urls : List υ} :
    (unvisitedForms canonical visited urls).length = urls.length ↔
      (urls.map canonical).Nodup ∧ ∀ url ∈ urls, canonical url ∉ visited := by
  constructor
  · intro all
    have filtered := List.length_filter_le (fun key => decide (key ∉ visited)) (urls.map canonical)
    have deduplicated := (List.dedup_sublist
      ((urls.map canonical).filter fun key => decide (key ∉ visited))).length_le
    rw [List.length_map] at filtered
    have whole : (urls.map canonical).filter (fun key => decide (key ∉ visited)) =
        urls.map canonical := by
      refine List.filter_sublist.eq_of_length ?_
      rw [List.length_map]
      exact le_antisymm filtered (all ▸ deduplicated)
    constructor
    · have distinct : (urls.map canonical).dedup = urls.map canonical := by
        refine (List.dedup_sublist _).eq_of_length ?_
        rw [unvisitedForms, whole] at all
        rw [all, List.length_map]
      exact List.dedup_eq_self.mp distinct
    · intro url member
      have kept := List.filter_eq_self.mp whole (canonical url) (List.mem_map_of_mem member)
      exact of_decide_eq_true kept
  · rintro ⟨nodup, fresh⟩
    have whole : (urls.map canonical).filter (fun key => decide (key ∉ visited)) =
        urls.map canonical := by
      rw [List.filter_eq_self]
      intro key member
      obtain ⟨url, inside, rfl⟩ := List.mem_map.mp member
      exact decide_eq_true (fresh url inside)
    rw [unvisitedForms, whole, nodup.dedup, List.length_map]

variable (canonical) in
/-- With a call for each pending URL, every form that is new is dispatched once, and then nothing. -/
theorem dispatches_spec {n : Nat} {s : CrawlScheduler υ κ} (enough : s.pending.length ≤ n) :
    ((s.dispatches canonical n).1.map (canonical ·.url)).Nodup ∧
      (∀ key, key ∈ (s.dispatches canonical n).1.map (canonical ·.url) ↔
        key ∈ s.pending.map (canonical ·.url) ∧ key ∉ s.visited) ∧
      ((s.dispatches canonical n).2.nextUrl canonical).1 = none := by
  induction n generalizing s with
  | zero =>
      have none : s.pending = [] := List.length_eq_zero_iff.mp (Nat.le_zero.mp enough)
      refine ⟨List.nodup_nil, fun key => ?_, ?_⟩
      · rw [none]
        simp [dispatches]
      · rw [dispatches, nextUrl, none]
        rfl
  | succ n ih =>
      rw [dispatches]
      rcases nextUrl_cases canonical s with
        ⟨outcome, all⟩ | ⟨skipped, d, rest, outcome, split, fresh, all⟩
      · rw [outcome]
        refine ⟨List.nodup_nil, fun key => ?_, rfl⟩
        refine iff_of_false List.not_mem_nil fun both => ?_
        obtain ⟨d, member, rfl⟩ := List.mem_map.mp both.1
        exact both.2 (all d member)
      · rw [outcome]
        dsimp only
        have shorter : rest.length ≤ n := by
          rw [split, List.length_append, List.length_cons] at enough
          omega
        obtain ⟨nodup, members, exhausted⟩ := ih (s :=
          { s with
            visited := canonical d.url :: s.visited
            visitedUrls := s.visitedUrls ++ [d.url]
            pending := rest }) shorter
        refine ⟨?_, fun key => ?_, exhausted⟩
        · refine List.nodup_cons.mpr ⟨fun member => ?_, nodup⟩
          exact ((members _).mp member).2 List.mem_cons_self
        · rw [List.map_cons, List.mem_cons, members, split, List.map_append, List.mem_append,
            List.map_cons, List.mem_cons, List.mem_cons, not_or]
          constructor
          · rintro (rfl | ⟨later, -, new⟩)
            · exact ⟨.inr (.inl rfl), fresh⟩
            · exact ⟨.inr (.inr later), new⟩
          · rintro ⟨early | rfl | later, new⟩
            · obtain ⟨d', member, rfl⟩ := List.mem_map.mp early
              exact absurd (all d' member) new
            · exact .inl rfl
            · by_cases same : key = canonical d.url
              · exact .inl same
              · exact .inr ⟨later, same, new⟩

theorem length_dispatchAll (s : CrawlScheduler υ κ) :
    (s.dispatchAll canonical).1.length =
      (unvisitedForms canonical s.visited (s.pending.map (·.url))).length := by
  obtain ⟨nodup, members, -⟩ := dispatches_spec canonical (le_refl s.pending.length)
  rw [← List.length_map (canonical ·.url)]
  refine ((List.perm_ext_iff_of_nodup nodup nodup_unvisitedForms).mpr fun key => ?_).length_eq
  rw [members, mem_unvisitedForms]
  simp

end Dispatch

/-! ## Schedulers that operations lead to -/

section Frontier

variable [LinearOrder υ]

/-- The URLs of the pending buffer and of the queue, in the order they are taken. -/
def frontier (s : CrawlScheduler υ κ) : List υ :=
  s.pending.map (·.url) ++ (UrlQueue.popOrder s.queue.heap).map (·.url)

omit [DecidableEq κ] in
theorem snapshotPendingBounded_eq (s : CrawlScheduler υ κ) (budget : Nat) :
    s.snapshotPendingBounded budget = s.frontier.take budget := by
  unfold snapshotPendingBounded UrlQueue.snapshotUrlsBounded frontier
  dsimp only
  rw [List.take_append, List.take_append, List.take_take, Nat.min_self]

/-- What the engine and its tasks do to a scheduler. -/
inductive SchedulerOp (υ : Type)
  | seed (url : υ)
  | recordVisit (url : υ)
  | restoreVisited (urls : List υ)
  | restorePending (urls : List υ)
  | drainDiscovered
  | nextUrl
  | queue (op : UrlQueue.QueueOp υ)

variable (canonical : υ → κ)

def step (s : CrawlScheduler υ κ) : SchedulerOp υ → CrawlScheduler υ κ
  | .seed url => s.seed canonical url
  | .recordVisit url => (s.recordVisit canonical url).2
  | .restoreVisited urls => s.restoreVisited canonical urls
  | .restorePending urls => s.restorePending urls
  | .drainDiscovered => s.drainDiscovered
  | .nextUrl => (s.nextUrl canonical).2
  | .queue op => { s with queue := s.queue.step canonical op }

def run (ops : List (SchedulerOp υ)) : CrawlScheduler υ κ := ops.foldl (step canonical) .new

variable {canonical}

theorem Mirrored.step {s : CrawlScheduler υ κ} (mirrored : s.Mirrored canonical)
    (op : SchedulerOp υ) : (s.step canonical op).Mirrored canonical := by
  cases op with
  | seed url => exact mirrored
  | recordVisit url => exact mirrored.recordVisit url
  | restoreVisited urls => exact (restoreVisited_spec canonical s urls).2.2.1 mirrored
  | restorePending urls => exact mirrored
  | drainDiscovered => exact mirrored
  | nextUrl =>
      rw [CrawlScheduler.step, CrawlScheduler.nextUrl]
      split
      · exact mirrored
      · rename_i d rest found
        exact Mirrored.recordVisit (s := { s with pending := rest }) mirrored d.url
  | queue op => exact mirrored

variable (canonical) in
theorem mirrored_run (ops : List (SchedulerOp υ)) : (run canonical ops).Mirrored canonical := by
  have each (ops : List (SchedulerOp υ)) (s : CrawlScheduler υ κ) (mirrored : s.Mirrored canonical) :
      (ops.foldl (CrawlScheduler.step canonical) s).Mirrored canonical := by
    induction ops generalizing s with
    | nil => exact mirrored
    | cons op ops ih => exact ih _ (mirrored.step op)
  refine each ops .new fun key => ?_
  simp [new]

/-! ## The restored scheduler -/

variable (canonical) in
/-- A fresh scheduler with the visited URLs and the bounded frontier of a checkpoint. -/
def restored (s : CrawlScheduler υ κ) (budget : Nat) : CrawlScheduler υ κ :=
  (new.restoreVisited canonical s.visitedUrls).restorePending (s.snapshotPendingBounded budget)

variable (canonical) in
/-- Every form of the frontier that is not visited is among its first `budget` entries. -/
def NoneStranded (s : CrawlScheduler υ κ) (budget : Nat) : Prop :=
  ∀ url ∈ s.frontier, canonical url ∉ s.visited →
    ∃ kept ∈ s.frontier.take budget, canonical kept = canonical url

variable (canonical) in
/-- The first entries of the frontier are as many as the budget allows, none visited and no two of
one form. -/
def NoneWasted (s : CrawlScheduler υ κ) (budget : Nat) : Prop :=
  budget ≤ s.frontier.length ∧ ((s.frontier.take budget).map canonical).Nodup ∧
    ∀ url ∈ s.frontier.take budget, canonical url ∉ s.visited

/-- The restored scheduler dispatches the forms of the snapshot that are not visited. -/
theorem length_dispatchAll_restored {s : CrawlScheduler υ κ} (mirrored : s.Mirrored canonical)
    (budget : Nat) :
    ((s.restored canonical budget).dispatchAll canonical).1.length =
      (unvisitedForms canonical s.visited (s.frontier.take budget)).length := by
  obtain ⟨pending, -, -, visited, -⟩ := restoreVisited_spec canonical (new : CrawlScheduler υ κ)
    s.visitedUrls
  rw [length_dispatchAll]
  refine ((List.perm_ext_iff_of_nodup nodup_unvisitedForms nodup_unvisitedForms).mpr
    fun key => ?_).length_eq
  have known : key ∈ (s.restored canonical budget).visited ↔ key ∈ s.visited := by
    rw [mirrored, restored]
    refine (visited key).trans ?_
    simp [new]
  have waiting : (s.restored canonical budget).pending.map (·.url) = s.frontier.take budget := by
    rw [restored, restorePending, pending, snapshotPendingBounded_eq]
    simp [new, Function.comp_def]
  rw [mem_unvisitedForms, mem_unvisitedForms, known, waiting]

theorem length_unvisitedForms_take {s : CrawlScheduler υ κ} {budget : Nat} :
    (unvisitedForms canonical s.visited (s.frontier.take budget)).length =
        min budget (unvisitedForms canonical s.visited s.frontier).length ↔
      s.NoneStranded canonical budget ∨ s.NoneWasted canonical budget := by
  have within : unvisitedForms canonical s.visited (s.frontier.take budget) ⊆
      unvisitedForms canonical s.visited s.frontier := by
    intro key
    simp only [mem_unvisitedForms]
    exact And.imp_left fun ⟨url, early, same⟩ => ⟨url, List.mem_of_mem_take early, same⟩
  have fewer := (List.subperm_of_subset nodup_unvisitedForms within).length_le
  have bounded : (unvisitedForms canonical s.visited (s.frontier.take budget)).length ≤
      (s.frontier.take budget).length := length_unvisitedForms_le _ _
  have cut : (s.frontier.take budget).length ≤ budget := List.length_take_le budget s.frontier
  constructor
  · intro all
    by_cases large : budget < (unvisitedForms canonical s.visited s.frontier).length
    · rw [min_eq_left large.le] at all
      have full : (s.frontier.take budget).length = budget :=
        le_antisymm cut (all.ge.trans bounded)
      obtain ⟨nodup, fresh⟩ := length_unvisitedForms_eq_iff.mp (all.trans full.symm)
      refine .inr ⟨?_, nodup, fresh⟩
      rw [List.length_take] at full
      omega
    · rw [min_eq_right (not_lt.mp large)] at all
      have perm := (List.subperm_of_subset nodup_unvisitedForms within).perm_of_length_le all.ge
      refine .inl fun url member new => ?_
      have kept := perm.symm.subset (mem_unvisitedForms.mpr ⟨⟨url, member, rfl⟩, new⟩)
      exact (mem_unvisitedForms.mp kept).1
  · rintro (noneLost | ⟨long, nodup, fresh⟩)
    · have same : (unvisitedForms canonical s.visited s.frontier).length ≤
          (unvisitedForms canonical s.visited (s.frontier.take budget)).length := by
        refine (List.subperm_of_subset nodup_unvisitedForms fun key member => ?_).length_le
        obtain ⟨⟨url, inside, rfl⟩, new⟩ := mem_unvisitedForms.mp member
        exact mem_unvisitedForms.mpr ⟨noneLost url inside new, new⟩
      omega
    · have full := length_unvisitedForms_eq_iff.mpr ⟨nodup, fresh⟩
      rw [List.length_take] at full
      omega

/-- After any run, a restored checkpoint dispatches as much as its budget and its frontier allow
just when the cut strands no form, or wastes no place. -/
theorem checkpoint_budget_iff (ops : List (SchedulerOp υ)) (budget : Nat) :
    let s := run canonical ops
    let outcome := (s.restored canonical budget).dispatchAll canonical
    (outcome.2.nextUrl canonical).1 = none ∧
      (outcome.1.length = min budget (unvisitedForms canonical s.visited s.frontier).length ↔
        s.NoneStranded canonical budget ∨ s.NoneWasted canonical budget) := by
  have mirrored := mirrored_run canonical ops
  refine ⟨(dispatches_spec canonical (le_refl _)).2.2, ?_⟩
  rw [length_dispatchAll_restored mirrored]
  exact length_unvisitedForms_take

/-! ## A checkpoint that strands its frontier -/

/-- The seed is dispatched, and its page links to two others: the second copy of the seed, still in
the queue, is all that a budget of one keeps. -/
theorem seed_copy_strands_frontier :
    let s := run (id : Nat → Nat) [.seed 0, .nextUrl, .queue (.push ⟨1, 1, 0⟩ .link),
      .queue (.push ⟨2, 1, 0⟩ .link)]
    ((s.restored id 1).dispatchAll id).1.length = 0 ∧
      min 1 (unvisitedForms id s.visited s.frontier).length = 1 := by
  decide

end Frontier

end Webfang.CrawlScheduler
