import Mathlib.Algebra.Order.Ring.Rat
import Mathlib.Data.List.Destutter
import Mathlib.Order.Compare
import Mathlib.Tactic.NormNum
import Webfang.Lib.KeyedRows
import Webfang.Lib.StableSort

/-!
# The order of sitemap entries

`dedup_and_sort_sitemap_urls` of `infrastructure/crawler/sitemap_parser.rs`: the entries of a
sitemap are sorted by URL, the first of each URL is kept, and these are sorted by priority and
modification date.  A priority that is not a number compares as equal to every other.
-/

namespace Webfang

namespace Sitemap

open KeyedRows StableSort

/-! ## Entries -/

/-- A value of `f32`. -/
inductive F32
  | nan
  | negInfinity
  | finite (value : ℚ)
  | infinity
  deriving DecidableEq

/-- A priority between zero and one, or not a number. -/
inductive Priority
  | nan
  | number (value : {q : ℚ // 0 ≤ q ∧ q ≤ 1})

/-- `f32::clamp` to the priorities. -/
def F32.clamp : F32 → Priority
  | .nan => .nan
  | .negInfinity => .number ⟨0, by norm_num⟩
  | .finite value => .number ⟨max 0 (min value 1), le_max_left .., max_le zero_le_one (min_le_right ..)⟩
  | .infinity => .number ⟨1, by norm_num⟩

structure SitemapUrl (υ τ : Type) where
  url : υ
  lastmod : Option τ
  priority : Option Priority
  changefreq : Option τ

/-- The priority of an entry that gives none. -/
def defaultPriority : Priority := .number ⟨1 / 2, by norm_num⟩

def SitemapUrl.effectivePriority {υ τ : Type} (e : SitemapUrl υ τ) : Priority :=
  e.priority.getD defaultPriority

/-- `f32::partial_cmp` -/
def Priority.partialCmp : Priority → Priority → Option Ordering
  | .number a, .number b => some (cmp a.val b.val)
  | _, _ => none

/-! ## Sorting -/

/-- `slice::sort_by` -/
abbrev SortBy (α : Type) := (α → α → Ordering) → List α → List α

/-- On what `P` holds of, the comparator is a total preorder. -/
structure LawfulOn {α : Type} (P : α → Prop) (comparator : α → α → Ordering) : Prop where
  swap : ∀ a, P a → ∀ b, P b → comparator b a = (comparator a b).swap
  trans : ∀ a, P a → ∀ b, P b → ∀ c, P c →
    comparator a b ≠ .gt → comparator b c ≠ .gt → comparator a c ≠ .gt

/-- What is documented of `sort_by`: where the comparator is lawful it is the stable sort. -/
def SortsStably {α : Type} (sortBy : SortBy α) : Prop :=
  ∀ comparator l, LawfulOn (· ∈ l) comparator →
    sortBy comparator l = l.insertionSort fun a b => comparator a b ≠ .gt

section Dates

variable {υ τ : Type} [LinearOrder τ]

/-! ## The order by priority and date -/

/-- `Option::cmp`: no date comes before every date. -/
def compareLastmod : Option τ → Option τ → Ordering
  | none, none => .eq
  | none, some _ => .lt
  | some _, none => .gt
  | some a, some b => cmp a b

/-- The comparator of the second sort. -/
def compareEntries (a b : SitemapUrl υ τ) : Ordering :=
  ((b.effectivePriority.partialCmp a.effectivePriority).getD .eq).then
    (compareLastmod b.lastmod a.lastmod)

variable {a b c : SitemapUrl υ τ} {p q : {q : ℚ // 0 ≤ q ∧ q ≤ 1}}

theorem compareLastmod_swap (a b : Option τ) :
    compareLastmod b a = (compareLastmod a b).swap := by
  cases a <;> cases b
  · rfl
  · rfl
  · rfl
  · exact (cmp_swap _ _).symm

theorem compareLastmod_trans {a b c : Option τ} (first : compareLastmod a b ≠ .gt)
    (second : compareLastmod b c ≠ .gt) : compareLastmod a c ≠ .gt := by
  cases a with
  | none => cases c <;> exact nofun
  | some a =>
      cases b with
      | none => exact absurd rfl first
      | some b =>
          cases c with
          | none => exact absurd rfl second
          | some c =>
              rw [compareLastmod, ne_eq, cmp_eq_gt_iff, not_lt] at first second ⊢
              exact first.trans second

theorem then_ne_gt {o o' : Ordering} : o.then o' ≠ .gt ↔ o = .lt ∨ o = .eq ∧ o' ≠ .gt := by
  cases o <;> simp [Ordering.then]

/-- Two priorities that are numbers decide, and the dates where they are equal. -/
theorem compareEntries_numbers (left : a.effectivePriority = .number p)
    (right : b.effectivePriority = .number q) :
    compareEntries a b ≠ .gt ↔
      q.val < p.val ∨ q.val = p.val ∧ compareLastmod b.lastmod a.lastmod ≠ .gt := by
  rw [compareEntries, left, right, Priority.partialCmp, Option.getD_some, then_ne_gt,
    cmp_eq_lt_iff, cmp_eq_eq_iff]

/-- Beside a priority that is no number the dates decide. -/
theorem compareEntries_nan (either : a.effectivePriority = .nan ∨ b.effectivePriority = .nan) :
    compareEntries a b = compareLastmod b.lastmod a.lastmod := by
  have undecided : b.effectivePriority.partialCmp a.effectivePriority = none := by
    rcases either with left | right
    · rw [left]
      cases b.effectivePriority <;> rfl
    · rw [right]
      rfl
  rw [compareEntries, undecided]
  rfl

theorem compareEntries_swap (a b : SitemapUrl υ τ) :
    compareEntries b a = (compareEntries a b).swap := by
  have priorities : (a.effectivePriority.partialCmp b.effectivePriority).getD .eq =
      ((b.effectivePriority.partialCmp a.effectivePriority).getD .eq).swap := by
    cases a.effectivePriority <;> cases b.effectivePriority
    · rfl
    · rfl
    · rfl
    · exact (cmp_swap _ _).symm
  rw [compareEntries, compareEntries, Ordering.swap_then, priorities,
    compareLastmod_swap b.lastmod a.lastmod]

end Dates

section Urls

variable {υ τ : Type} [LinearOrder υ]

/-! ## The first entry of each URL -/

def compareUrls (a b : SitemapUrl υ τ) : Ordering := cmp a.url b.url

/-- `dedup_by` of the URLs keeps the first of a run. -/
def dedupByUrl (entries : List (SitemapUrl υ τ)) : List (SitemapUrl υ τ) :=
  entries.destutter fun a b => a.url ≠ b.url

/-- An entry that is the first of its URL. -/
def IsFirst (entries : List (SitemapUrl υ τ)) (e : SitemapUrl υ τ) : Prop :=
  rowAt SitemapUrl.url entries e.url = some e

/-- The entries of one URL carry one metadata. -/
def Consistent (entries : List (SitemapUrl υ τ)) : Prop :=
  ∀ a ∈ entries, ∀ b ∈ entries, a.url = b.url → a = b

instance compareUrls_total : Std.Total fun a b : SitemapUrl υ τ => compareUrls a b ≠ .gt where
  total a b := by
    rw [compareUrls, compareUrls, ne_eq, ne_eq, cmp_eq_gt_iff, cmp_eq_gt_iff, not_lt, not_lt]
    exact le_total a.url b.url

instance compareUrls_isTrans : IsTrans (SitemapUrl υ τ) fun a b => compareUrls a b ≠ .gt where
  trans a b c := by
    rw [compareUrls, compareUrls, compareUrls, ne_eq, ne_eq, ne_eq, cmp_eq_gt_iff, cmp_eq_gt_iff,
      cmp_eq_gt_iff, not_lt, not_lt, not_lt]
    exact le_trans

theorem compareUrls_lawful (P : SitemapUrl υ τ → Prop) : LawfulOn P compareUrls where
  swap a _ b _ := (cmp_swap a.url b.url).symm
  trans a _ b _ c _ := compareUrls_isTrans.trans a b c

/-- Dropping the repetitions in a run keeps the first entry of each URL. -/
theorem rowAt_dedupByUrl (entries : List (SitemapUrl υ τ)) (u : υ) :
    rowAt SitemapUrl.url (dedupByUrl entries) u = rowAt SitemapUrl.url entries u := by
  cases entries with
  | nil => rfl
  | cons e entries =>
      rw [dedupByUrl, List.destutter_cons']
      induction entries generalizing e with
      | nil => rfl
      | cons e' entries ih =>
          by_cases other : e.url ≠ e'.url
          · rw [List.destutter'_cons, if_pos other]
            have later := ih e'
            unfold rowAt at later ⊢
            rw [List.find?_cons, List.find?_cons, later]
          · rw [List.destutter'_cons, if_neg other, ih e]
            have same : e.url = e'.url := not_not.mp other
            unfold rowAt
            rw [List.find?_cons, List.find?_cons, List.find?_cons, same]
            split <;> rfl

variable {sortBy : SortBy (SitemapUrl υ τ)} {entries : List (SitemapUrl υ τ)}

theorem isFirst_of_consistent (consistent : Consistent entries) {e : SitemapUrl υ τ} :
    IsFirst entries e ↔ e ∈ entries := by
  constructor
  · exact fun first => (rowAt_some first).1
  · intro member
    unfold IsFirst
    cases found : rowAt SitemapUrl.url entries e.url with
    | none => exact absurd (List.mem_map_of_mem member) (rowAt_eq_none.mp found)
    | some e' =>
        obtain ⟨member', same⟩ := rowAt_some found
        exact congrArg some (consistent e' member' e member same)

/-- The entries that the second sort is given. -/
theorem sortByUrl_eq (stably : SortsStably sortBy) (entries : List (SitemapUrl υ τ)) :
    sortBy compareUrls entries = entries.insertionSort fun a b => compareUrls a b ≠ .gt :=
  stably compareUrls entries (compareUrls_lawful _)

theorem rowAt_kept (stably : SortsStably sortBy) (u : υ) :
    rowAt SitemapUrl.url (dedupByUrl (sortBy compareUrls entries)) u =
      rowAt SitemapUrl.url entries u := by
  have level (a b : SitemapUrl υ τ) (left : decide (a.url = u) = true)
      (right : decide (b.url = u) = true) : compareUrls a b ≠ .gt := by
    rw [compareUrls, of_decide_eq_true left, of_decide_eq_true right, cmp_self_eq_eq]
    exact nofun
  rw [rowAt_dedupByUrl, sortByUrl_eq stably, rowAt, rowAt, ← List.head?_filter,
    ← List.head?_filter, filter_insertionSort level]

theorem kept_sorted (stably : SortsStably sortBy) :
    (dedupByUrl (sortBy compareUrls entries)).Pairwise fun a b => a.url < b.url := by
  set kept := dedupByUrl (sortBy compareUrls entries) with unfolded
  have level : kept.IsChain fun a b => compareUrls a b ≠ .gt := by
    rw [unfolded, sortByUrl_eq stably]
    exact ((List.pairwise_insertionSort _ entries).sublist (List.destutter_sublist _ _)).isChain
  have apart : kept.IsChain fun a b => a.url ≠ b.url := List.isChain_destutter _ _
  have : IsTrans (SitemapUrl υ τ) fun a b => a.url < b.url := ⟨fun _ _ _ => lt_trans⟩
  refine List.IsChain.pairwise (List.isChain_iff_getElem.mpr fun i bound => ?_)
  have le := level.getElem i bound
  rw [compareUrls, ne_eq, cmp_eq_gt_iff, not_lt] at le
  exact lt_of_le_of_ne le (apart.getElem i bound)

theorem kept_distinct (stably : SortsStably sortBy) :
    ((dedupByUrl (sortBy compareUrls entries)).map (·.url)).Nodup :=
  List.Pairwise.map _ (fun _ _ => ne_of_lt) (kept_sorted stably)

theorem mem_kept (stably : SortsStably sortBy) {e : SitemapUrl υ τ} :
    e ∈ dedupByUrl (sortBy compareUrls entries) ↔ IsFirst entries e := by
  rw [IsFirst, ← rowAt_kept stably, rowAt_eq_some (kept_distinct stably)]
  exact (and_iff_left rfl).symm

end Urls

section Order

variable {υ τ : Type} [LinearOrder υ] [LinearOrder τ]

def dedupAndSortSitemapUrls (sortBy : SortBy (SitemapUrl υ τ)) (entries : List (SitemapUrl υ τ)) :
    List (SitemapUrl υ τ) :=
  sortBy compareEntries (dedupByUrl (sortBy compareUrls entries))

/-- One entry stands before another: by priority and date, else by URL. -/
def Precedes (a b : SitemapUrl υ τ) : Prop :=
  compareEntries a b = .lt ∨ compareEntries a b = .eq ∧ a.url < b.url

/-- The comparator is a total preorder on the entries that it sorts, and the result has the first
entry of each URL, once and in order, however the input is permuted. -/
structure OrdersLawfully (sortBy : SortBy (SitemapUrl υ τ)) (entries : List (SitemapUrl υ τ)) :
    Prop where
  lawful : LawfulOn (IsFirst entries) compareEntries
  distinct : ((dedupAndSortSitemapUrls sortBy entries).map (·.url)).Nodup
  mem_iff : ∀ e, e ∈ dedupAndSortSitemapUrls sortBy entries ↔ IsFirst entries e
  sorted : (dedupAndSortSitemapUrls sortBy entries).Pairwise Precedes
  permuted : ∀ entries', entries'.Perm entries → Consistent entries →
    dedupAndSortSitemapUrls sortBy entries' = dedupAndSortSitemapUrls sortBy entries

/-- No entry without a priority number is dated between two others, the later of which has the
lower priority. -/
def NoNanBetween (entries : List (SitemapUrl υ τ)) : Prop :=
  ∀ x y n, IsFirst entries x → IsFirst entries y → IsFirst entries n →
    n.effectivePriority = .nan →
    ∀ p q, x.effectivePriority = .number p → y.effectivePriority = .number q → q.val < p.val →
      ¬ (compareLastmod x.lastmod n.lastmod ≠ .gt ∧ compareLastmod n.lastmod y.lastmod ≠ .gt)

/-- The comparator is transitive exactly where no entry without a priority number stands between
two that their priorities order the other way. -/
theorem lawful_iff {entries : List (SitemapUrl υ τ)} :
    LawfulOn (IsFirst entries) compareEntries ↔ NoNanBetween entries := by
  constructor
  · intro lawful x y n firstX firstY firstN nan p q left right less
    rintro ⟨later, earlier⟩
    have yn : compareEntries y n ≠ .gt := by rwa [compareEntries_nan (.inr nan)]
    have nx : compareEntries n x ≠ .gt := by rwa [compareEntries_nan (.inl nan)]
    have yx := lawful.trans y firstY n firstN x firstX yn nx
    rw [compareEntries_numbers right left] at yx
    rcases yx with more | ⟨level, -⟩
    · exact absurd less more.asymm
    · exact absurd level less.ne'
  · intro apart
    refine ⟨fun a _ b _ => compareEntries_swap a b, ?_⟩
    intro a firstA b firstB c firstC ab bc
    cases left : a.effectivePriority with
    | nan =>
        rw [compareEntries_nan (.inl left)] at ab ⊢
        cases middle : b.effectivePriority with
        | nan =>
            rw [compareEntries_nan (.inl middle)] at bc
            exact compareLastmod_trans bc ab
        | number q =>
            cases right : c.effectivePriority with
            | nan =>
                rw [compareEntries_nan (.inr right)] at bc
                exact compareLastmod_trans bc ab
            | number r =>
                rw [compareEntries_numbers middle right] at bc
                rcases bc with less | ⟨-, dated⟩
                · intro late
                  have early : compareLastmod a.lastmod c.lastmod ≠ .gt := by
                    rw [compareLastmod_swap, late]
                    exact nofun
                  exact apart b c a firstB firstC firstA left q r middle right less ⟨ab, early⟩
                · exact compareLastmod_trans dated ab
    | number p =>
        cases middle : b.effectivePriority with
        | nan =>
            rw [compareEntries_nan (.inr middle)] at ab
            rw [compareEntries_nan (.inl middle)] at bc
            cases right : c.effectivePriority with
            | nan =>
                rw [compareEntries_nan (.inr right)]
                exact compareLastmod_trans bc ab
            | number r =>
                rw [compareEntries_numbers left right]
                rcases lt_trichotomy r.val p.val with less | level | more
                · exact .inl less
                · exact .inr ⟨level, compareLastmod_trans bc ab⟩
                · exact absurd ⟨bc, ab⟩ (apart c a b firstC firstA firstB middle r p right left more)
        | number q =>
            rw [compareEntries_numbers left middle] at ab
            cases right : c.effectivePriority with
            | nan =>
                rw [compareEntries_nan (.inr right)] at bc ⊢
                rcases ab with less | ⟨-, dated⟩
                · intro late
                  have early : compareLastmod a.lastmod c.lastmod ≠ .gt := by
                    rw [compareLastmod_swap, late]
                    exact nofun
                  exact apart a b c firstA firstB firstC right p q left middle less ⟨early, bc⟩
                · exact compareLastmod_trans bc dated
            | number r =>
                rw [compareEntries_numbers middle right] at bc
                rw [compareEntries_numbers left right]
                rcases ab with less | ⟨level, dated⟩
                · rcases bc with less' | ⟨level', -⟩
                  · exact .inl (less'.trans less)
                  · exact .inl (level'.trans_lt less)
                · rcases bc with less' | ⟨level', dated'⟩
                  · exact .inl (less'.trans_eq level)
                  · exact .inr ⟨level'.trans level, compareLastmod_trans dated' dated⟩

variable {sortBy : SortBy (SitemapUrl υ τ)} {entries : List (SitemapUrl υ τ)}

/-! ## The result -/

/-- However the second sort orders them, no URL comes twice. -/
theorem dedupAndSort_distinct (stably : SortsStably sortBy)
    (permutes : ∀ comparator l, (sortBy comparator l).Perm l) :
    ((dedupAndSortSitemapUrls sortBy entries).map (·.url)).Nodup :=
  ((permutes compareEntries _).map _).nodup_iff.mpr (kept_distinct stably)

/-- Permuted entries whose metadata agree are sorted into one list. -/
theorem dedupAndSort_permuted (stably : SortsStably sortBy) {entries' : List (SitemapUrl υ τ)}
    (perm : entries'.Perm entries) (consistent : Consistent entries) :
    dedupAndSortSitemapUrls sortBy entries' = dedupAndSortSitemapUrls sortBy entries := by
  have consistent' : Consistent entries' := fun a memberA b memberB =>
    consistent a (perm.subset memberA) b (perm.subset memberB)
  have : Std.Irrefl fun a b : SitemapUrl υ τ => a.url < b.url := ⟨fun _ => lt_irrefl _⟩
  have : Std.Antisymm fun a b : SitemapUrl υ τ => a.url < b.url :=
    ⟨fun _ _ less more => absurd less more.asymm⟩
  refine congrArg (sortBy compareEntries) ?_
  refine (kept_sorted stably).eq_of_mem_iff (kept_sorted stably) fun e => ?_
  rw [mem_kept stably, mem_kept stably, isFirst_of_consistent consistent,
    isFirst_of_consistent consistent', perm.mem_iff]

/-- For every list of entries the sort is lawful and has its result exactly where no entry without
a priority number stands between two that their priorities order the other way. -/
theorem dedupAndSort_lawful_iff (stably : SortsStably sortBy)
    (entries : List (SitemapUrl υ τ)) :
    OrdersLawfully sortBy entries ↔ NoNanBetween entries := by
  refine ⟨fun orders => lawful_iff.mp orders.lawful, fun apart => ?_⟩
  have lawful := lawful_iff.mpr apart
  set kept := dedupByUrl (sortBy compareUrls entries) with unfolded
  have onKept : LawfulOn (· ∈ kept) compareEntries :=
    ⟨fun a memberA b memberB =>
      lawful.swap a ((mem_kept stably).mp memberA) b ((mem_kept stably).mp memberB),
      fun a memberA b memberB c memberC => lawful.trans a ((mem_kept stably).mp memberA) b
        ((mem_kept stably).mp memberB) c ((mem_kept stably).mp memberC)⟩
  have result : dedupAndSortSitemapUrls sortBy entries =
      kept.insertionSort fun a b => compareEntries a b ≠ .gt := stably compareEntries kept onKept
  have perm := List.perm_insertionSort (fun a b => compareEntries a b ≠ .gt) kept
  exact {
    lawful := lawful
    distinct := by
      rw [result, (perm.map _).nodup_iff]
      exact kept_distinct stably
    mem_iff := fun e => by rw [result, perm.mem_iff, mem_kept stably]
    sorted := by
      rw [result]
      refine (pairwise_insertionSort_lex_of_mem ?_ onKept.trans (kept_distinct stably).of_map
        (kept_sorted stably)).imp ?_
      · intro a memberA b memberB
        rw [onKept.swap a memberA b memberB]
        cases compareEntries a b <;> simp
      · intro a b ⟨before, level⟩
        rw [compareEntries_swap a b] at level
        cases order : compareEntries a b with
        | lt => exact .inl order
        | eq => exact .inr ⟨order, level (by rw [order]; exact nofun)⟩
        | gt => exact absurd order before
    permuted := fun entries' => dedupAndSort_permuted stably }

end Order

/-- A sort that is the stable one whatever it is given. -/
def stableSort {α : Type} : SortBy α := fun comparator l => l.insertionSort fun a b => comparator a b ≠ .gt

theorem dedupAndSort_of_number :
    OrdersLawfully stableSort [⟨0, none, none, none⟩, (⟨1, some 0, none, none⟩ : SitemapUrl ℕ ℕ)] ↔
      NoNanBetween [⟨0, none, none, none⟩, (⟨1, some 0, none, none⟩ : SitemapUrl ℕ ℕ)] :=
  dedupAndSort_lawful_iff (fun _ _ _ => rfl) _

/-- Undated pages with the priorities `nan`, one and zero. -/
def nanBetween : List (SitemapUrl ℕ ℕ) :=
  [⟨0, none, some F32.nan.clamp, none⟩, ⟨1, none, some (F32.finite 1).clamp, none⟩,
    ⟨2, none, some (F32.finite 0).clamp, none⟩]

/-- Zero ties with `nan`, which ties with one. -/
theorem nan_not_lawful : ¬ OrdersLawfully stableSort nanBetween := by
  intro orders
  have bound : max (0 : ℚ) (min 0 1) < max 0 (min 1 1) := by norm_num
  exact lawful_iff.mp orders.lawful ⟨1, none, some (F32.finite 1).clamp, none⟩
    ⟨2, none, some (F32.finite 0).clamp, none⟩ ⟨0, none, some F32.nan.clamp, none⟩ rfl rfl rfl rfl
    _ _ rfl rfl bound ⟨nofun, nofun⟩

end Sitemap

end Webfang
