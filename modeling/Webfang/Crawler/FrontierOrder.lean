import Webfang.Crawler.UrlQueue
import Webfang.Lib.Selection

/-!
# The order of the frontier

The operations of `UrlQueue` in any sequence.  The heap gives out its best entry at each `pop`; no
two entries of a queue are level, so whatever was pushed comes out in one order, which does not
depend on when it was pushed.
-/

namespace Webfang.UrlQueue

open Selection

variable {υ κ χ : Type}

/-! ## Sequences of operations -/

/-- What a caller does to the queue. -/
inductive QueueOp (υ : Type)
  | push (url : DiscoveredUrl υ) (source : UrlSource)
  | pop
  | drainAll
  | snapshot (n : Nat)

/-- The operation takes URLs out. -/
def QueueOp.extracts : QueueOp υ → Bool
  | .pop | .drainAll => true
  | .push .. | .snapshot _ => false

/-- The URLs that the operations push, in that order. -/
def pushes (ops : List (QueueOp υ)) : List (DiscoveredUrl υ × UrlSource) :=
  ops.filterMap fun
    | .push url source => some (url, source)
    | _ => none

section Operations

variable [LinearOrder υ]

/-- `pop`. -/
def pop (q : UrlQueue υ κ) : Option (DiscoveredUrl υ) × UrlQueue υ κ :=
  match takeFirst Before q.heap with
  | none => (none, q)
  | some (best, heap) => (some best.url, { q with heap })

/-- What `n` calls of `pop` find, on a queue or on a clone of its heap; none is made after one that
finds nothing. -/
def popTimes : Nat → UrlQueue υ κ → List (DiscoveredUrl υ)
  | 0, _ => []
  | n + 1, q =>
      match q.pop with
      | (none, _) => []
      | (some url, q) => url :: popTimes n q

variable [DecidableEq κ] (canonical : υ → κ)

/-- One operation. -/
def step (q : UrlQueue υ κ) : QueueOp υ → UrlQueue υ κ
  | .push url source => (q.pushPrioritized canonical url source).2
  | .pop => q.pop.2
  | .drainAll => q.drainAll.2
  | .snapshot _ => q

/-- The operations in order, on a new queue. -/
def run (ops : List (QueueOp υ)) : UrlQueue υ κ := ops.foldl (step canonical) .new

end Operations

/-! ## The order of the entries -/

section Order

variable [LinearOrder υ]

instance : Std.Total (Before (υ := υ)) where
  total a b := by
    unfold Before
    rcases lt_trichotomy a.priority b.priority with less | level | more
    · exact .inr (.inl less)
    · rcases le_total a.url.url b.url.url with le | ge
      · exact .inl (.inr ⟨level, le⟩)
      · exact .inr (.inr ⟨level.symm, ge⟩)
    · exact .inl (.inl more)

instance : IsTrans (PrioritizedUrl υ) Before where
  trans a b c := by
    unfold Before
    rintro (first | ⟨level, le⟩) (second | ⟨level', le'⟩)
    · exact .inl (second.trans first)
    · exact .inl (level' ▸ first)
    · exact .inl (level.symm ▸ second)
    · exact .inr ⟨level.trans level', le.trans le'⟩

/-- Entries that come before each other have the same URL. -/
theorem url_eq_of_before {a b : PrioritizedUrl υ} (first : Before a b) (second : Before b a) :
    a.url.url = b.url.url := by
  unfold Before at first second
  rcases first with less | ⟨level, le⟩
  · rcases second with more | ⟨level, -⟩
    · exact absurd less more.asymm
    · exact absurd level less.ne
  · rcases second with more | ⟨-, ge⟩
    · exact absurd level more.ne
    · exact le_antisymm le ge

variable {heap heap' : List (PrioritizedUrl υ)}

theorem eq_of_before (apart : (heap.map (·.url.url)).Nodup) :
    ∀ a ∈ heap, ∀ b ∈ heap, Before a b → Before b a → a = b :=
  fun _ memberA _ memberB first second =>
    List.inj_on_of_nodup_map apart memberA memberB (url_eq_of_before first second)

theorem popTimes_eq_takeFirsts (q : UrlQueue υ κ) (n : Nat) :
    q.popTimes n = (takeFirsts Before n q.heap).1.map (·.url) := by
  induction n generalizing q with
  | zero => rfl
  | succ n ih =>
      rw [popTimes, pop, takeFirsts]
      cases takeFirst Before q.heap with
      | none => rfl
      | some taken => exact congrArg (taken.1.url :: ·) (ih _)

/-- Successive pops find the heap in the order of `popOrder`, where no two entries have one URL. -/
theorem popTimes_eq_take {q : UrlQueue υ κ} (apart : (q.heap.map (·.url.url)).Nodup) (n : Nat) :
    q.popTimes n = (popOrder q.heap).take n := by
  rw [popTimes_eq_takeFirsts, takeFirsts_eq_take (eq_of_before apart) (List.perm_insertionSort Before q.heap)
    (List.pairwise_insertionSort Before q.heap) n, popOrder, List.map_take]

/-- The order depends on the entries alone. -/
theorem popOrder_congr (apart : (heap.map (·.url.url)).Nodup) (perm : heap'.Perm heap) :
    popOrder heap' = popOrder heap := by
  have sorted := List.perm_insertionSort Before heap
  have sorted' := (List.perm_insertionSort Before heap').trans perm
  refine congrArg (List.map (·.url)) ((sorted'.trans sorted.symm).eq_of_pairwise ?_
    (List.pairwise_insertionSort Before heap') (List.pairwise_insertionSort Before heap))
  exact fun a b memberA memberB =>
    eq_of_before apart a (sorted'.subset memberA) b (sorted.subset memberB)

end Order

/-! ## What the operations keep -/

section Kept

variable {canonical : υ → κ}

/-- What is in the heap has been seen, and no two entries have one canonical form. -/
structure Deduplicated (canonical : υ → κ) (q : UrlQueue υ κ) : Prop where
  seen : ∀ p ∈ q.heap, canonical p.url.url ∈ q.seen
  nodup : (q.heap.map fun p => canonical p.url.url).Nodup

theorem deduplicated_new : Deduplicated canonical (.new : UrlQueue υ κ) :=
  ⟨fun _ member => (nomatch member), List.nodup_nil⟩

theorem Deduplicated.urls_nodup {q : UrlQueue υ κ} (dedup : Deduplicated canonical q) :
    (q.heap.map (·.url.url)).Nodup := by
  have nodup := dedup.nodup
  rw [show (fun p : PrioritizedUrl υ => canonical p.url.url) = canonical ∘ (·.url.url) from rfl,
    ← List.map_map] at nodup
  exact nodup.of_map


/-- Taking entries out of the heap. -/
theorem Deduplicated.of_sublist {q q' : UrlQueue υ κ} (dedup : Deduplicated canonical q)
    (rest : List (PrioritizedUrl υ)) (split : (rest ++ q'.heap).Perm q.heap)
    (seen : q'.seen = q.seen) : Deduplicated canonical q' := by
  constructor
  · intro p member
    rw [seen]
    exact dedup.seen p (split.subset (List.mem_append_right rest member))
  · have nodup := ((split.map fun p => canonical p.url.url).nodup_iff).mpr dedup.nodup
    rw [List.map_append] at nodup
    exact (List.nodup_append.mp nodup).2.1

variable [DecidableEq κ]

variable (canonical) in
/-- The two outcomes of a push. -/
theorem pushPrioritized_cases (q : UrlQueue υ κ) (url : DiscoveredUrl υ) (source : UrlSource) :
    (canonical url.url ∈ q.seen ∧ q.pushPrioritized canonical url source = (false, q)) ∨
      (canonical url.url ∉ q.seen ∧ q.pushPrioritized canonical url source =
        (true, ⟨.fromSource url source :: q.heap, canonical url.url :: q.seen⟩)) := by
  unfold pushPrioritized markSeen
  by_cases seen : canonical url.url ∈ q.seen
  · rw [if_pos seen]
    exact .inl ⟨seen, rfl⟩
  · rw [if_neg seen]
    exact .inr ⟨seen, rfl⟩

variable [LinearOrder υ]

theorem Deduplicated.step {q : UrlQueue υ κ} (dedup : Deduplicated canonical q)
    (op : QueueOp υ) : Deduplicated canonical (q.step canonical op) := by
  cases op with
  | push url source =>
      rw [UrlQueue.step]
      rcases pushPrioritized_cases canonical q url source with
        ⟨-, outcome⟩ | ⟨fresh, outcome⟩
      · rw [outcome]
        exact dedup
      · rw [outcome]
        constructor
        · refine List.forall_mem_cons.mpr ⟨List.mem_cons_self, fun p member => ?_⟩
          exact List.mem_cons_of_mem _ (dedup.seen p member)
        · refine List.nodup_cons.mpr ⟨fun member => ?_, dedup.nodup⟩
          obtain ⟨p, inside, same⟩ := List.mem_map.mp member
          have seen := dedup.seen p inside
          rw [show canonical p.url.url = canonical url.url from same] at seen
          exact fresh seen
  | pop =>
      rw [UrlQueue.step, UrlQueue.pop]
      split
      · exact dedup
      · rename_i best heap taken
        exact dedup.of_sublist [best] (takeFirst_perm taken) rfl
  | drainAll => exact dedup.of_sublist q.heap (by simp [UrlQueue.step, drainAll]) rfl
  | snapshot n => exact dedup

theorem seen_subset_step (q : UrlQueue υ κ) (op : QueueOp υ) :
    q.seen ⊆ (q.step canonical op).seen := by
  cases op with
  | push url source =>
      rw [UrlQueue.step]
      rcases pushPrioritized_cases canonical q url source with
        ⟨-, outcome⟩ | ⟨-, outcome⟩
      · rw [outcome]
        exact List.Subset.refl _
      · rw [outcome]
        exact List.subset_cons_self _ _
  | pop =>
      rw [UrlQueue.step, UrlQueue.pop]
      split <;> exact List.Subset.refl _
  | drainAll => exact List.Subset.refl _
  | snapshot n => exact List.Subset.refl _

variable (canonical) in
theorem deduplicated_run (ops : List (QueueOp υ)) : Deduplicated canonical (run canonical ops) := by
  have each (ops : List (QueueOp υ)) (q : UrlQueue υ κ) (dedup : Deduplicated canonical q) :
      Deduplicated canonical (ops.foldl (UrlQueue.step canonical) q) := by
    induction ops generalizing q with
    | nil => exact dedup
    | cons op ops ih => exact ih _ (dedup.step op)
  exact each ops .new deduplicated_new

/-- The seen set never forgets what was pushed, whether it was taken, refused or drained. -/
theorem canonical_mem_seen_run {ops : List (QueueOp υ)} {url : DiscoveredUrl υ}
    {source : UrlSource} (pushed : (url, source) ∈ pushes ops) :
    canonical url.url ∈ (run canonical ops).seen := by
  have kept (ops : List (QueueOp υ)) (q : UrlQueue υ κ) :
      q.seen ⊆ (ops.foldl (UrlQueue.step canonical) q).seen := by
    induction ops generalizing q with
    | nil => exact List.Subset.refl _
    | cons op ops ih => exact List.Subset.trans (seen_subset_step q op) (ih _)
  obtain ⟨op, inside, here⟩ := List.mem_filterMap.mp pushed
  obtain ⟨before, later, rfl⟩ := List.append_of_mem inside
  have entered (q : UrlQueue υ κ) : canonical url.url ∈ (q.step canonical op).seen := by
    cases op with
    | push url' source' =>
        cases here
        rw [UrlQueue.step]
        rcases pushPrioritized_cases canonical q url source with
          ⟨seen, outcome⟩ | ⟨-, outcome⟩
        · rw [outcome]
          exact seen
        · rw [outcome]
          exact List.mem_cons_self
    | pop | drainAll | snapshot n => cases here
  rw [run, List.foldl_append, List.foldl_cons]
  exact kept later _ (entered _)

/-- Pushes of URLs that are all new fill the heap with just these. -/
theorem heap_foldl_perm {ops : List (QueueOp υ)} (keeps : ∀ op ∈ ops, op.extracts = false)
    {q : UrlQueue υ κ} (nodup : ((pushes ops).map fun p => canonical p.1.url).Nodup)
    (fresh : ∀ p ∈ pushes ops, canonical p.1.url ∉ q.seen) :
    (ops.foldl (UrlQueue.step canonical) q).heap.Perm
      ((pushes ops).map (fun p => .fromSource p.1 p.2) ++ q.heap) := by
  induction ops generalizing q with
  | nil => exact List.Perm.refl _
  | cons op ops ih =>
      obtain ⟨keep, keepRest⟩ := List.forall_mem_cons.mp keeps
      cases op with
      | pop | drainAll => cases keep
      | snapshot n => exact ih keepRest nodup fresh
      | push url source =>
          obtain ⟨new, nodup⟩ := List.nodup_cons.mp nodup
          obtain ⟨unseen, fresh⟩ := List.forall_mem_cons.mp fresh
          rw [List.foldl_cons, UrlQueue.step]
          rcases pushPrioritized_cases canonical q url source with
            ⟨seen, -⟩ | ⟨-, outcome⟩
          · exact absurd seen unseen
          · rw [outcome]
            refine (ih keepRest nodup fun p member => ?_).trans List.perm_middle
            rw [List.mem_cons, not_or]
            exact ⟨fun same => new (List.mem_map.mpr ⟨p, member, same⟩), fresh p member⟩

variable (canonical) in
/-- The same, for a new queue. -/
theorem heap_run_perm {ops : List (QueueOp υ)} (keeps : ∀ op ∈ ops, op.extracts = false)
    (nodup : ((pushes ops).map fun p => canonical p.1.url).Nodup) :
    (run canonical ops).heap.Perm ((pushes ops).map fun p => .fromSource p.1 p.2) := by
  have filled := heap_foldl_perm keeps nodup (q := .new) fun _ _ seen => nomatch seen
  rwa [show (new : UrlQueue υ κ).heap = [] from rfl, List.append_nil] at filled

end Kept

/-! ## The order in which the frontier is taken -/

section Frontier

/-- The hash that `push_prioritized` enters into the seen set. -/
def hashOf (canonical : υ → χ) (hashOne : χ → UInt64) (url : υ) : UInt64 := hashOne (canonical url)

/-- Different canonical forms of these pushes have different hashes. -/
def HashesApart (canonical : υ → χ) (hashOne : χ → UInt64)
    (pushed : List (DiscoveredUrl υ × UrlSource)) : Prop :=
  ∀ a ∈ pushed, ∀ b ∈ pushed,
    hashOf canonical hashOne a.1.url = hashOf canonical hashOne b.1.url →
      canonical a.1.url = canonical b.1.url

theorem HashesApart.nodup {canonical : υ → χ} {hashOne : χ → UInt64}
    {pushed : List (DiscoveredUrl υ × UrlSource)} (apart : HashesApart canonical hashOne pushed)
    (nodup : (pushed.map fun p => canonical p.1.url).Nodup) :
    (pushed.map fun p => hashOf canonical hashOne p.1.url).Nodup := by
  rw [show (fun p : DiscoveredUrl υ × UrlSource => hashOf canonical hashOne p.1.url) =
    hashOne ∘ fun p => canonical p.1.url from rfl, ← List.map_map]
  refine nodup.map_on fun a memberA b memberB same => ?_
  obtain ⟨p, insideP, rfl⟩ := List.mem_map.mp memberA
  obtain ⟨p', insideP', rfl⟩ := List.mem_map.mp memberB
  exact apart p insideP p' insideP' same

example : (run (id : Nat → Nat) [.push ⟨7, 1, 0⟩ .link, .snapshot 1, .push ⟨3, 1, 0⟩ .link,
    .push ⟨9, 0, 9⟩ .sitemap, .push ⟨7, 2, 3⟩ .seed]).drainAll.1.map (·.url) = [9, 3, 7] := by
  decide

end Frontier

end Webfang.UrlQueue
