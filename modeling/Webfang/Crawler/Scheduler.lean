import Webfang.Crawler.UrlQueue

/-!
# The crawl scheduler

`application/crawler/crawl_scheduler.rs`: the visited set with its string mirror, the shared
discovery queue and the pending buffer the crawl loop takes its next URL from.
-/

namespace Webfang

/-- `CrawlScheduler`; the concurrency limit is read anew at every call. -/
structure CrawlScheduler (υ κ : Type) where
  visited : List κ
  visitedUrls : List υ
  queue : UrlQueue υ κ
  pending : List (DiscoveredUrl υ)

namespace CrawlScheduler

variable {υ κ : Type}

/-- `CrawlScheduler::new`. -/
def new : CrawlScheduler υ κ := ⟨[], [], .new, []⟩

section Canonical

variable [DecidableEq κ] (canonical : υ → κ)

/-- `record_visit`. -/
def recordVisit (s : CrawlScheduler υ κ) (url : υ) : Bool × CrawlScheduler υ κ :=
  if canonical url ∈ s.visited then (false, s)
  else (true,
    { s with visited := canonical url :: s.visited, visitedUrls := s.visitedUrls ++ [url] })

/-- `restore_visited`. -/
def restoreVisited (s : CrawlScheduler υ κ) (urls : List υ) : CrawlScheduler υ κ :=
  urls.foldl (fun s url => (s.recordVisit canonical url).2) s

/-- `restore_pending`. -/
def restorePending (s : CrawlScheduler υ κ) (urls : List υ) : CrawlScheduler υ κ :=
  { s with pending := s.pending ++ urls.map fun url => ⟨url, 0, url⟩ }

/-- `seed`. -/
def seed (s : CrawlScheduler υ κ) (seedUrl : υ) : CrawlScheduler υ κ :=
  let discovered : DiscoveredUrl υ := ⟨seedUrl, 0, seedUrl⟩
  { s with
    queue := (s.queue.pushPrioritized canonical discovered .seed).2
    pending := s.pending ++ [discovered] }

/-- The loop of `next_url`: skip the URLs that are visited. -/
def popUnvisited (visited : List κ) :
    List (DiscoveredUrl υ) → Option (DiscoveredUrl υ × List (DiscoveredUrl υ))
  | [] => none
  | d :: rest =>
      if canonical d.url ∈ visited then popUnvisited visited rest else some (d, rest)

/-- `next_url`, for a caller below the concurrency limit. -/
def nextUrl (s : CrawlScheduler υ κ) : Option (DiscoveredUrl υ) × CrawlScheduler υ κ :=
  match popUnvisited canonical s.visited s.pending with
  | none => (none, { s with pending := [] })
  | some (d, rest) => (some d, ({ s with pending := rest }.recordVisit canonical d.url).2)

end Canonical

section Order

variable [LinearOrder υ]

/-- `drain_discovered`. -/
def drainDiscovered (s : CrawlScheduler υ κ) : CrawlScheduler υ κ :=
  let (drained, queue) := s.queue.drainAll
  { s with queue := queue, pending := s.pending ++ drained }

/-- `snapshot_pending_bounded`. -/
def snapshotPendingBounded (s : CrawlScheduler υ κ) (budget : Nat) : List υ :=
  let urls := s.pending.map (·.url)
  (urls ++ s.queue.snapshotUrlsBounded (budget - urls.length)).take budget

end Order

/-- `has_pending_work`. -/
def hasPendingWork (s : CrawlScheduler υ κ) : Bool := !s.pending.isEmpty

/-! ## What the operations do -/

section Canonical

variable [DecidableEq κ] {canonical : υ → κ}

variable (canonical) in
/-- `next_url` finds the first URL that is not visited, or empties the pending buffer. -/
theorem popUnvisited_cases (visited : List κ) (pending : List (DiscoveredUrl υ)) :
    (popUnvisited canonical visited pending = none ∧
        ∀ d ∈ pending, canonical d.url ∈ visited) ∨
      ∃ skipped d rest, popUnvisited canonical visited pending = some (d, rest) ∧
        pending = skipped ++ d :: rest ∧ canonical d.url ∉ visited ∧
        ∀ d' ∈ skipped, canonical d'.url ∈ visited := by
  induction pending with
  | nil => exact .inl ⟨rfl, fun d member => nomatch member⟩
  | cons d rest ih =>
      rw [popUnvisited]
      by_cases visitedHere : canonical d.url ∈ visited
      · rw [if_pos visitedHere]
        rcases ih with ⟨none, all⟩ | ⟨skipped, d', rest', found, split, fresh, all⟩
        · exact .inl ⟨none, List.forall_mem_cons.mpr ⟨visitedHere, all⟩⟩
        · exact .inr ⟨d :: skipped, d', rest', found, by rw [split]; rfl, fresh,
            List.forall_mem_cons.mpr ⟨visitedHere, all⟩⟩
      · rw [if_neg visitedHere]
        exact .inr ⟨[], d, rest, rfl, rfl, visitedHere, fun d' member => nomatch member⟩

variable (canonical) in
/-- The two outcomes of `next_url`. -/
theorem nextUrl_cases (s : CrawlScheduler υ κ) :
    (s.nextUrl canonical = (none, { s with pending := [] }) ∧
        ∀ d ∈ s.pending, canonical d.url ∈ s.visited) ∨
      ∃ skipped d rest,
        s.nextUrl canonical = (some d,
          { s with
            visited := canonical d.url :: s.visited
            visitedUrls := s.visitedUrls ++ [d.url]
            pending := rest }) ∧
        s.pending = skipped ++ d :: rest ∧ canonical d.url ∉ s.visited ∧
        ∀ d' ∈ skipped, canonical d'.url ∈ s.visited := by
  unfold nextUrl
  rcases popUnvisited_cases canonical s.visited s.pending with
    ⟨none, all⟩ | ⟨skipped, d, rest, found, split, fresh, all⟩
  · rw [none]
    exact .inl ⟨rfl, all⟩
  · rw [found]
    refine .inr ⟨skipped, d, rest, ?_, split, fresh, all⟩
    dsimp only [recordVisit]
    rw [if_neg fresh]

/-- The visited set holds the canonical forms of its string mirror. -/
def Mirrored (canonical : υ → κ) (s : CrawlScheduler υ κ) : Prop :=
  ∀ key, key ∈ s.visited ↔ ∃ url ∈ s.visitedUrls, canonical url = key

theorem Mirrored.recordVisit {s : CrawlScheduler υ κ} (mirrored : s.Mirrored canonical)
    (url : υ) : (s.recordVisit canonical url).2.Mirrored canonical := by
  unfold CrawlScheduler.recordVisit
  split
  · exact mirrored
  · intro key
    simp only [List.mem_cons, List.mem_append, List.not_mem_nil, or_false]
    rw [mirrored key]
    constructor
    · rintro (rfl | ⟨u, member, same⟩)
      · exact ⟨url, .inr rfl, rfl⟩
      · exact ⟨u, .inl member, same⟩
    · rintro ⟨u, member | rfl, same⟩
      · exact .inr ⟨u, member, same⟩
      · exact .inl same.symm

variable (canonical) in
theorem recordVisit_frame (s : CrawlScheduler υ κ) (url : υ) :
    (s.recordVisit canonical url).2.pending = s.pending ∧
      (s.recordVisit canonical url).2.queue = s.queue := by
  unfold recordVisit
  split <;> exact ⟨rfl, rfl⟩

variable (canonical) in
/-- What `restore_visited` makes of a scheduler. -/
theorem restoreVisited_spec (s : CrawlScheduler υ κ) (urls : List υ) :
    (s.restoreVisited canonical urls).pending = s.pending ∧
      (s.restoreVisited canonical urls).queue = s.queue ∧
      (s.Mirrored canonical → (s.restoreVisited canonical urls).Mirrored canonical) ∧
      (∀ key, key ∈ (s.restoreVisited canonical urls).visited ↔
        key ∈ s.visited ∨ ∃ url ∈ urls, canonical url = key) ∧
      ∀ url ∈ (s.restoreVisited canonical urls).visitedUrls,
        url ∈ s.visitedUrls ∨ url ∈ urls := by
  induction urls generalizing s with
  | nil => simp [restoreVisited]
  | cons url urls ih =>
      obtain ⟨pending, queue, mirrored, visited, mirror⟩ := ih (s.recordVisit canonical url).2
      obtain ⟨samePending, sameQueue⟩ := recordVisit_frame canonical s url
      refine ⟨pending.trans samePending, queue.trans sameQueue,
        fun here => mirrored (here.recordVisit url), fun key => ?_, fun u member => ?_⟩
      · refine (visited key).trans ?_
        unfold recordVisit
        split
        · rename_i known
          simp only [List.mem_cons, exists_eq_or_imp]
          constructor
          · exact Or.imp_right .inr
          · rintro (old | rfl | later)
            · exact .inl old
            · exact .inl known
            · exact .inr later
        · simp only [List.mem_cons, exists_eq_or_imp]
          rw [or_comm (a := key = canonical url), or_assoc, eq_comm]
      · rcases mirror u member with old | later
        · unfold recordVisit at old
          split at old
          · exact .inl old
          · rcases List.mem_append.mp old with before | here
            · exact .inl before
            · exact .inr (List.mem_singleton.mp here ▸ List.mem_cons_self ..)
        · exact .inr (List.mem_cons_of_mem _ later)

end Canonical

end CrawlScheduler

end Webfang
