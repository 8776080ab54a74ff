import Mathlib.Analysis.SpecialFunctions.Sqrt
import Webfang.Embedding.Tokenizer
import Webfang.Lib.Outliers

/-!
# The relevance of chunks

`infrastructure_ai/semantic_cleaner_impl.rs` and `embedding_ops.rs`: a chunk is kept when its
distance to the centroid of all chunks deviates from the mean distance by no more than a limit in
standard deviations.  The arithmetic is exact.
-/

namespace Webfang.Relevance

open Outliers

/-- `DocumentChunk`, as far as the filter reads it. -/
structure DocumentChunk (ρ : Type) where
  rest : ρ
  embeddings : Option (List ℝ)

/-! ## Similarity -/

/-- The products of eight numbers each, one in each lane. -/
noncomputable def mulLanes (a b : List ℝ) (offset : Nat) : List ℝ :=
  List.zipWith (· * ·) ((a.drop offset).take 8) ((b.drop offset).take 8)

/-- `wide::f32x8`: the lanes are summed up behind the last eight, and the remainder is added. -/
noncomputable def dotProduct (a b : List ℝ) : ℝ :=
  let len := min a.length b.length
  let lanes := (List.range (len / 8)).foldl
    (fun sum i => List.zipWith (· + ·) sum (mulLanes a b (i * 8))) (List.replicate 8 0)
  let remainder := List.zipWith (· * ·)
    ((a.drop (len / 8 * 8)).take (len % 8)) ((b.drop (len / 8 * 8)).take (len % 8))
  remainder.foldl (· + ·) lanes.sum

noncomputable def magnitude (a : List ℝ) : ℝ := √(a.map fun x => x * x).sum

noncomputable def cosineSimilarity (a b : List ℝ) : ℝ :=
  let len := min a.length b.length
  if len = 0 then 0
  else
    let magA := magnitude (a.take len)
    let magB := magnitude (b.take len)
    if magA = 0 ∨ magB = 0 then 0 else dotProduct a b / (magA * magB)

/-! ## The centroid -/

/-- The loop over one embedding. -/
noncomputable def accumulate : List ℝ → List ℝ → List ℝ
  | [], _ => []
  | centroid, [] => centroid
  | c :: centroid, val :: embedding => (c + val) :: accumulate centroid embedding

noncomputable def centroid (embeddings : List (List ℝ)) : List ℝ :=
  let embeddingDim := (embeddings.head?.map List.length).getD 0
  (embeddings.foldl accumulate (List.replicate embeddingDim 0)).map (· / embeddings.length)

/-! ## The filter -/

section Filter

variable {ρ : Type}

noncomputable def variance (distances : List ℝ) : ℝ :=
  (distances.map fun d => (d - mean distances) ^ 2).sum / distances.length

noncomputable def stdDev (distances : List ℝ) : ℝ := √(variance distances)

/-- What a deviation is measured in. -/
noncomputable def spread (distances : List ℝ) : ℝ := max (stdDev distances) 1e-6

noncomputable def zLimit (threshold : ℝ) : ℝ := 3 * (1 - threshold)

noncomputable def filterByRelevance (threshold : ℝ) (chunks : List (DocumentChunk ρ))
    (embeddings : List (List ℝ)) : Except SemanticError (List (DocumentChunk ρ)) :=
  if chunks.length ≠ embeddings.length then
    .error (.inference s!"Length mismatch: got {chunks.length} chunks but {embeddings.length} embedding vectors. Each chunk must have exactly one embedding vector.")
  else if (embeddings.head?.map List.length).getD 0 = 0 then
    .error (.inference "No embeddings available for relevance scoring")
  else
    let pairs := chunks.zip embeddings
    let distances := pairs.map fun (_, emb) => 1 - cosineSimilarity emb (centroid embeddings)
    let filtered := (pairs.zip distances).filter fun (_, distance) =>
      |distance - mean distances| / spread distances ≤ zLimit threshold
    .ok (filtered.map fun ((chunk, embedding), _) => { chunk with embeddings := some embedding })

end Filter

/-! ## What is promised -/

section Promise

variable {ρ : Type}

/-- The filter on chunks with an embedding each. -/
noncomputable def outcome (threshold : ℝ) (pages : List (DocumentChunk ρ × List ℝ)) :
    Except SemanticError (List (DocumentChunk ρ)) :=
  filterByRelevance threshold (pages.map Prod.fst) (pages.map Prod.snd)

/-- A chunk that carries its own embedding. -/
def embedded (page : DocumentChunk ρ × List ℝ) : DocumentChunk ρ :=
  { page.1 with embeddings := some page.2 }

/-- The distance of a chunk to the centroid. -/
noncomputable def distance (pages : List (DocumentChunk ρ × List ℝ))
    (page : DocumentChunk ρ × List ℝ) : ℝ :=
  1 - cosineSimilarity page.2 (centroid (pages.map Prod.snd))

/-- What is nearer to the centroid than a kept chunk is kept, in the order of the input and each
with its own embedding; a higher threshold only removes chunks; and the nearest chunk is kept. -/
structure KeepsRelevant (threshold : ℝ) (pages : List (DocumentChunk ρ × List ℝ)) : Prop where
  nearer : ∀ kept, outcome threshold pages = .ok kept → ∀ p ∈ pages, ∀ q ∈ pages,
    embedded p ∈ kept → distance pages q ≤ distance pages p → embedded q ∈ kept
  ordered : ∀ kept, outcome threshold pages = .ok kept → kept.Sublist (pages.map embedded)
  stricter : ∀ kept, outcome threshold pages = .ok kept → ∀ higher, threshold ≤ higher →
    ∃ fewer, outcome higher pages = .ok fewer ∧ fewer.Sublist kept
  nearest : pages ≠ [] → ∃ kept, outcome threshold pages = .ok kept ∧
    ∀ p ∈ pages, (∀ q ∈ pages, distance pages p ≤ distance pages q) → embedded p ∈ kept

/-- The first embedding has numbers, and no chunk is nearer to the centroid than the mean distance
by more than the limit. -/
def NoneTooNear (threshold : ℝ) (pages : List (DocumentChunk ρ × List ℝ)) : Prop :=
  (∀ first ∈ pages.head?, first.2 ≠ []) ∧ ∀ p ∈ pages,
    mean (pages.map (distance pages)) - distance pages p ≤
      zLimit threshold * spread (pages.map (distance pages))

end Promise

/-! ## The dot product -/

theorem sum_zipWith_add {xs ys : List ℝ} (same : xs.length = ys.length) :
    (List.zipWith (· + ·) xs ys).sum = xs.sum + ys.sum := by
  induction xs generalizing ys with
  | nil =>
      obtain rfl := List.length_eq_zero_iff.mp same.symm
      simp
  | cons x xs ih =>
      obtain ⟨y, ys, rfl⟩ := List.exists_cons_of_length_eq_add_one same.symm
      rw [List.zipWith_cons_cons, List.sum_cons, List.sum_cons, List.sum_cons,
        ih (Nat.succ.inj same)]
      ring

/-- The lanes hold the products up to the last eight. -/
theorem sum_lanes (a b : List ℝ) {chunks : Nat} (fits : chunks * 8 ≤ min a.length b.length) :
    ((List.range chunks).foldl (fun sum i => List.zipWith (· + ·) sum (mulLanes a b (i * 8)))
        (List.replicate 8 0)).length = 8 ∧
      ((List.range chunks).foldl (fun sum i => List.zipWith (· + ·) sum (mulLanes a b (i * 8)))
        (List.replicate 8 0)).sum =
          (List.zipWith (· * ·) (a.take (chunks * 8)) (b.take (chunks * 8))).sum := by
  induction chunks with
  | zero => simp
  | succ chunks ih =>
      obtain ⟨eight, products⟩ := ih (by omega)
      have lanes : (mulLanes a b (chunks * 8)).length = 8 := by
        rw [mulLanes, List.length_zipWith, List.length_take, List.length_take, List.length_drop,
          List.length_drop]
        omega
      rw [List.range_succ, List.foldl_append, List.foldl_cons, List.foldl_nil]
      refine ⟨by rw [List.length_zipWith, eight, lanes, Nat.min_self], ?_⟩
      have split : (chunks + 1) * 8 = chunks * 8 + 8 := by omega
      rw [sum_zipWith_add (eight.trans lanes.symm), products, split, List.take_add, List.take_add,
        List.zipWith_append, List.sum_append]
      · rfl
      · rw [List.length_take, List.length_take]
        omega

theorem foldl_add (start : ℝ) (xs : List ℝ) : xs.foldl (· + ·) start = start + xs.sum := by
  induction xs generalizing start with
  | nil => rw [List.foldl_nil, List.sum_nil, add_zero]
  | cons x xs ih => rw [List.foldl_cons, ih, List.sum_cons, add_assoc]

/-- Lanes and remainder together are the products of all numbers. -/
theorem dotProduct_eq (a b : List ℝ) : dotProduct a b = (List.zipWith (· * ·) a b).sum := by
  have whole : List.zipWith (· * ·) a b =
      List.zipWith (· * ·) (a.take (min a.length b.length)) (b.take (min a.length b.length)) := by
    rw [← List.take_zipWith, List.take_of_length_le (by rw [List.length_zipWith])]
  generalize bound : min a.length b.length = len at whole
  have split : len = len / 8 * 8 + len % 8 := by omega
  obtain ⟨-, lanes⟩ := @sum_lanes a b (len / 8) (by omega)
  have taken (x : List ℝ) : x.take len = x.take (len / 8 * 8) ++ (x.drop (len / 8 * 8)).take (len % 8) := by
    rw [← List.take_add, ← split]
  unfold dotProduct
  dsimp only
  rw [foldl_add, bound, lanes, whole, taken a, taken b, List.zipWith_append, List.sum_append]
  rw [List.length_take, List.length_take]
  omega

/-! ## What is kept -/

section Kept

variable {ρ : Type} {threshold : ℝ} {pages : List (DocumentChunk ρ × List ℝ)}

/-- A chunk is kept when its distance is near the mean. -/
def Kept (threshold : ℝ) (pages : List (DocumentChunk ρ × List ℝ))
    (page : DocumentChunk ρ × List ℝ) : Prop :=
  Near (mean (pages.map (distance pages))) (spread (pages.map (distance pages))) (zLimit threshold)
    (distance pages page)

theorem map_some_eq (some : ∃ page ∈ pages.head?, page.2 ≠ []) :
    (((pages.map Prod.snd).head?.map List.length).getD 0) ≠ 0 := by
  obtain ⟨page, first, nonempty⟩ := some
  rw [List.head?_map, Option.mem_def.mp first]
  exact fun none => nonempty (List.length_eq_zero_iff.mp none)

open Classical in
/-- The chunks that are kept, each with its embedding. -/
theorem outcome_eq (some : ∃ page ∈ pages.head?, page.2 ≠ []) :
    outcome threshold pages =
      .ok ((pages.filter fun page => Kept threshold pages page).map embedded) := by
  have pairs : (pages.map Prod.fst).zip (pages.map Prod.snd) = pages := by
    rw [List.zip_map', List.map_id'' (fun _ => rfl)]
  have lengths : ¬ (pages.map Prod.fst).length ≠ (pages.map Prod.snd).length := by
    rw [List.length_map, List.length_map]
    exact fun differ => differ rfl
  have measured : pages.map (fun page => 1 - cosineSimilarity page.2 (centroid (pages.map Prod.snd))) =
      pages.map (distance pages) := rfl
  have paired : pages.zip (pages.map (distance pages)) =
      pages.map fun page => (page, distance pages page) := by
    have both := @List.zip_map' _ _ _ id (distance pages) pages
    rwa [List.map_id] at both
  unfold outcome filterByRelevance
  rw [if_neg lengths, if_neg (map_some_eq some)]
  dsimp only
  rw [pairs, measured, paired, List.filter_map, List.map_map]
  rfl

theorem outcome_error (none : ∀ page ∈ pages.head?, page.2 = []) (kept : List (DocumentChunk ρ)) :
    outcome threshold pages ≠ .ok kept := by
  have lengths : ¬ (pages.map Prod.fst).length ≠ (pages.map Prod.snd).length := by
    rw [List.length_map, List.length_map]
    exact fun differ => differ rfl
  have empty : ((pages.map Prod.snd).head?.map List.length).getD 0 = 0 := by
    cases pages with
    | nil => rfl
    | cons page pages => exact List.length_eq_zero_iff.mpr (none page rfl)
  unfold outcome filterByRelevance
  rw [if_neg lengths, if_pos empty]
  intro same
  cases same

theorem spread_pos (distances : List ℝ) : 0 < spread distances :=
  lt_max_of_lt_right (by norm_num)

theorem kept_of_embedded {p q : DocumentChunk ρ × List ℝ} (same : embedded p = embedded q)
    (kept : Kept threshold pages p) : Kept threshold pages q := by
  have embeddings : p.2 = q.2 := Option.some.inj (congrArg DocumentChunk.embeddings same)
  have equal : distance pages p = distance pages q := by rw [distance, distance, embeddings]
  rwa [Kept, ← equal]

/-- A chunk is among the kept ones just when its distance is near the mean. -/
theorem embedded_mem_iff (some : ∃ page ∈ pages.head?, page.2 ≠ []) {kept : List (DocumentChunk ρ)}
    (filtered : outcome threshold pages = .ok kept) {p : DocumentChunk ρ × List ℝ} (member : p ∈ pages) :
    embedded p ∈ kept ↔ Kept threshold pages p := by
  classical
  rw [outcome_eq some, Except.ok.injEq] at filtered
  rw [← filtered, List.mem_map]
  constructor
  · rintro ⟨q, inside, same⟩
    exact kept_of_embedded same (of_decide_eq_true (List.mem_filter.mp inside).2)
  · intro near
    exact ⟨p, List.mem_filter.mpr ⟨member, decide_eq_true near⟩, rfl⟩

/-- The filter never drops a chunk for being nearer than a kept one, and keeps the nearest, just
when no chunk is too near. -/
theorem keepsRelevant_iff (threshold : ℝ) (pages : List (DocumentChunk ρ × List ℝ)) :
    KeepsRelevant threshold pages ↔ NoneTooNear threshold pages := by
  classical
  by_cases some : ∃ page ∈ pages.head?, page.2 ≠ []
  · have nonempty : pages ≠ [] := by
      rintro rfl
      obtain ⟨page, first, -⟩ := some
      cases first
    have numbers : ∀ first ∈ pages.head?, first.2 ≠ [] := by
      obtain ⟨page, first, filled⟩ := some
      intro other same
      rwa [Option.mem_unique same first]
    have distances : pages.map (distance pages) ≠ [] := fun none => nonempty (List.map_eq_nil_iff.mp none)
    have downward := @downward_iff ℝ _ _ _ _ (zLimit threshold) (pages.map (distance pages))
      (spread_pos (pages.map (distance pages))) distances
    simp only [List.forall_mem_map] at downward
    rw [NoneTooNear, and_iff_right numbers, ← downward]
    constructor
    · intro keeps
      obtain ⟨kept, filtered, nearest⟩ := keeps.nearest nonempty
      refine ⟨fun p inP q inQ near below => ?_, fun p inP least => ?_⟩
      · refine (embedded_mem_iff some filtered inQ).mp ?_
        exact keeps.nearer kept filtered p inP q inQ ((embedded_mem_iff some filtered inP).mpr near) below
      · exact (embedded_mem_iff some filtered inP).mp (nearest p inP least)
    · rintro ⟨closed, least⟩
      refine ⟨fun kept filtered p inP q inQ member below => ?_, fun kept filtered => ?_,
        fun kept filtered higher above => ?_, fun _ => ⟨_, outcome_eq some, fun p inP lowest => ?_⟩⟩
      · refine (embedded_mem_iff some filtered inQ).mpr ?_
        exact closed p inP q inQ ((embedded_mem_iff some filtered inP).mp member) below
      · rw [outcome_eq some, Except.ok.injEq] at filtered
        rw [← filtered]
        exact List.filter_sublist.map embedded
      · rw [outcome_eq some, Except.ok.injEq] at filtered
        refine ⟨_, outcome_eq some, ?_⟩
        rw [← filtered]
        refine List.Sublist.map embedded (List.monotone_filter_right pages fun p near => ?_)
        have narrower : zLimit higher ≤ zLimit threshold := by
          rw [zLimit, zLimit]
          linarith
        exact decide_eq_true ((of_decide_eq_true near : Kept higher pages p).mono narrower)
      · exact (embedded_mem_iff some (outcome_eq some) inP).mpr (least p inP lowest)
  · have none : ∀ page ∈ pages.head?, page.2 = [] := fun page first => by
      by_contra filled
      exact some ⟨page, first, filled⟩
    cases pages with
    | nil =>
        refine iff_of_true ⟨fun kept filtered => ?_, fun kept filtered => ?_, fun kept filtered => ?_,
          fun nonempty => absurd rfl nonempty⟩ ⟨fun first absent => ?_, fun p absent => ?_⟩
        · exact absurd filtered (outcome_error none kept)
        · exact absurd filtered (outcome_error none kept)
        · exact absurd filtered (outcome_error none kept)
        · cases absent
        · cases absent
    | cons page pages =>
        refine iff_of_false (fun keeps => ?_) fun near => near.1 page rfl (none page rfl)
        obtain ⟨kept, filtered, -⟩ := keeps.nearest (List.cons_ne_nil page pages)
        exact outcome_error none kept filtered

end Kept

/-! ## Two chunks at the centroid and one opposite -/

/-- Two chunks that point to the centroid and one that points away. -/
def twoAndOne : List (DocumentChunk Unit × List ℝ) :=
  [(⟨(), none⟩, [1]), (⟨(), none⟩, [1]), (⟨(), none⟩, [-1])]

theorem cosineSimilarity_single {x y : ℝ} (hx : x ≠ 0) (hy : y ≠ 0) :
    cosineSimilarity [x] [y] = x * y / (|x| * |y|) := by
  have magnitude_single (z : ℝ) : magnitude [z] = |z| := by
    rw [magnitude, List.map_singleton, List.sum_singleton, Real.sqrt_mul_self_eq_abs]
  unfold cosineSimilarity
  rw [dotProduct_eq]
  simp [magnitude_single, hx, hy]

theorem distance_twoAndOne (p : DocumentChunk Unit × List ℝ) {x : ℝ} (nonzero : x ≠ 0)
    (single : p.2 = [x]) : distance twoAndOne p = 1 - x / |x| := by
  have center : centroid (twoAndOne.map Prod.snd) = [1 / 3] := by
    simp [centroid, twoAndOne, accumulate]
  have third : (1 / 3 : ℝ) ≠ 0 := by norm_num
  rw [distance, center, single, cosineSimilarity_single nonzero third,
    mul_div_mul_comm, abs_of_pos (by norm_num : (0 : ℝ) < 1 / 3), div_self third, mul_one]

/-- With the threshold one nothing is kept, not even what points to the centroid. -/
theorem nearest_dropped : ¬ KeepsRelevant 1 twoAndOne := by
  have first : distance twoAndOne (⟨(), none⟩, [1]) = 0 := by
    rw [distance_twoAndOne _ one_ne_zero rfl]
    norm_num
  have last : distance twoAndOne (⟨(), none⟩, [-1]) = 2 := by
    rw [distance_twoAndOne _ (neg_ne_zero.mpr one_ne_zero) rfl]
    norm_num
  have distances : twoAndOne.map (distance twoAndOne) = [0, 0, 2] := by
    have whole : twoAndOne.map (distance twoAndOne) = [distance twoAndOne (⟨(), none⟩, [1]),
        distance twoAndOne (⟨(), none⟩, [1]), distance twoAndOne (⟨(), none⟩, [-1])] := rfl
    rw [whole, first, last]
  intro keeps
  have some : ∃ page ∈ twoAndOne.head?, page.2 ≠ [] := ⟨_, rfl, List.cons_ne_nil _ _⟩
  have inside : (⟨(), none⟩, [1]) ∈ twoAndOne := List.mem_cons_self
  obtain ⟨kept, filtered, nearest⟩ := keeps.nearest (List.cons_ne_nil _ _)
  have lowest : ∀ q ∈ twoAndOne, distance twoAndOne (⟨(), none⟩, [1]) ≤ distance twoAndOne q := by
    intro q member
    have measured := List.mem_map_of_mem (f := distance twoAndOne) member
    rw [distances] at measured
    rw [first]
    simp at measured
    rcases measured with zero | two
    · exact zero.ge
    · rw [two]
      norm_num
  have near := (embedded_mem_iff some filtered inside).mp (nearest _ inside lowest)
  rw [Kept, distances, near_iff (spread_pos _), first] at near
  have average : mean ([0, 0, 2] : List ℝ) = 2 / 3 := by
    rw [mean]
    norm_num
  rw [average, zLimit] at near
  norm_num at near

end Webfang.Relevance
