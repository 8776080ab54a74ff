import Mathlib.Data.List.Sort
import Mathlib.Order.Basic

/-!
# The discovery queue of a crawl

`infrastructure/crawler/url_queue.rs`.  A URL is its serialised text, ordered as text;
`canonical` is `normalize_url` with `strip_www` and all query parameters removed.  The `seen`
set holds 64-bit hashes of canonical forms in the source; it holds the canonical forms here,
as long as no two of them that occur share a hash.
-/

namespace Webfang

/-- `DiscoveredUrl`, of the HTML content type every crawl URL has. -/
structure DiscoveredUrl (υ : Type) where
  url : υ
  depth : Nat
  parentUrl : υ
  deriving DecidableEq, Repr

/-- `UrlSource`. -/
inductive UrlSource
  | seed
  | sitemap
  | link
  deriving DecidableEq, Repr

/-- `PrioritizedUrl`. -/
structure PrioritizedUrl (υ : Type) where
  url : DiscoveredUrl υ
  priority : Nat
  deriving DecidableEq, Repr

/-- `PrioritizedUrl::from_source`. -/
def PrioritizedUrl.fromSource {υ : Type} (url : DiscoveredUrl υ) (source : UrlSource) :
    PrioritizedUrl υ :=
  let basePriority := match source with
    | .seed => 1000
    | .sitemap => 500
    | .link => 200
  ⟨url, max (basePriority - url.depth * 10) 1⟩

/-- `UrlQueue`: the heap in any order, and the canonical forms it has taken. -/
structure UrlQueue (υ κ : Type) where
  heap : List (PrioritizedUrl υ)
  seen : List κ

namespace UrlQueue

variable {υ κ : Type}

/-- `UrlQueue::new`. -/
def new : UrlQueue υ κ := ⟨[], []⟩

section Push

variable [DecidableEq κ] (canonical : υ → κ)

/-- The first half of `push_prioritized`: enter the URL into the seen set, unless it is there. -/
def markSeen (q : UrlQueue υ κ) (url : υ) : Option (UrlQueue υ κ) :=
  if canonical url ∈ q.seen then none else some { q with seen := canonical url :: q.seen }

/-- The second half: push it on the heap. -/
def push (q : UrlQueue υ κ) (url : DiscoveredUrl υ) (source : UrlSource) : UrlQueue υ κ :=
  { q with heap := .fromSource url source :: q.heap }

/-- `push_prioritized`, by one caller alone. -/
def pushPrioritized (q : UrlQueue υ κ) (url : DiscoveredUrl υ) (source : UrlSource) :
    Bool × UrlQueue υ κ :=
  match q.markSeen canonical url.url with
  | none => (false, q)
  | some q => (true, q.push url source)

end Push

section Order

variable [LinearOrder υ]

/-- `a` pops before `b`: the higher priority first, then the smaller URL. -/
def Before (a b : PrioritizedUrl υ) : Prop :=
  b.priority < a.priority ∨ (a.priority = b.priority ∧ a.url.url ≤ b.url.url)

instance : DecidableRel (Before (υ := υ)) := fun _ _ => inferInstanceAs (Decidable (_ ∨ _))

/-- The heap in the order it pops in. -/
def popOrder (heap : List (PrioritizedUrl υ)) : List (DiscoveredUrl υ) :=
  (heap.insertionSort Before).map (·.url)

/-- `drain_all`. -/
def drainAll (q : UrlQueue υ κ) : List (DiscoveredUrl υ) × UrlQueue υ κ :=
  (popOrder q.heap, { q with heap := [] })

/-- `snapshot_urls_bounded`. -/
def snapshotUrlsBounded (q : UrlQueue υ κ) (n : Nat) : List υ :=
  ((popOrder q.heap).map (·.url)).take n

theorem popOrder_perm (heap : List (PrioritizedUrl υ)) :
    List.Perm (popOrder heap) (heap.map (·.url)) :=
  (List.perm_insertionSort Before heap).map _

@[simp] theorem mem_popOrder {heap : List (PrioritizedUrl υ)} {d : DiscoveredUrl υ} :
    d ∈ popOrder heap ↔ d ∈ heap.map (·.url) :=
  (popOrder_perm heap).mem_iff

end Order

end UrlQueue

end Webfang
