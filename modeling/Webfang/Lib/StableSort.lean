import Mathlib.Data.List.Sort

/-!
# Stable sorting

A stable sort keeps the order of the entries that it does not tell apart: where one order has
sorted the list already, sorting it by a second one leaves it in the lexicographic order of both.
-/

namespace StableSort

variable {α β : Type*}

/-- One entry does not come after another where their keys are compared. -/
def ByKey [LE β] (key : α → β) (a b : α) : Prop := key a ≤ key b

instance ByKey.decidable [LE β] [DecidableRel ((· ≤ ·) : β → β → Prop)] (key : α → β) :
    DecidableRel (ByKey key) := fun a b => inferInstanceAs (Decidable (key a ≤ key b))

instance ByKey.total [LinearOrder β] (key : α → β) : Std.Total (ByKey key) where
  total a b := le_total (key a) (key b)

instance ByKey.isTrans [Preorder β] (key : α → β) : IsTrans α (ByKey key) where
  trans _ _ _ first second := le_trans first second

variable {l : List α}

/-- Two entries of a list stand in it in one of the two orders. -/
theorem pair_sublist_or {a b : α} (memberA : a ∈ l) (memberB : b ∈ l) (apart : a ≠ b) :
    [a, b].Sublist l ∨ [b, a].Sublist l := by
  obtain ⟨before, rest, rfl⟩ := List.append_of_mem memberA
  rcases List.mem_append.mp memberB with early | late
  · exact .inr ((List.singleton_sublist.mpr early).append
      (List.singleton_sublist.mpr (List.mem_cons_self ..)))
  · have later : b ∈ rest := (List.mem_cons.mp late).resolve_left (Ne.symm apart)
    exact .inl (((List.singleton_sublist.mpr later).cons_cons a).trans
      (List.sublist_append_right ..))

/-- Distinct entries stand in one order only. -/
theorem not_pair_sublist_swap (distinct : l.Nodup) {a b : α} (one : [a, b].Sublist l) :
    ¬ [b, a].Sublist l := by
  induction l with
  | nil => cases one
  | cons x l ih =>
      obtain ⟨fresh, distinct⟩ := List.nodup_cons.mp distinct
      intro other
      rcases List.sublist_cons_iff.mp one with within | ⟨_, first, within⟩
      · rcases List.sublist_cons_iff.mp other with other | ⟨_, first, _⟩
        · exact ih distinct within other
        · cases first
          exact fresh (within.subset (List.mem_cons_of_mem _ (List.mem_cons_self ..)))
      · cases first
        rcases List.sublist_cons_iff.mp other with other | ⟨_, second, _⟩
        · exact fresh (other.subset (List.mem_cons_of_mem _ (List.mem_cons_self ..)))
        · cases second
          exact fresh (within.subset (List.mem_cons_self ..))

/-- Sorting what is sorted by `tie` orders it by `le` first and by `tie` among equals. -/
theorem pairwise_insertionSort_lex {le tie : α → α → Prop} [DecidableRel le] [Std.Total le]
    [IsTrans α le] (distinct : l.Nodup) (sorted : l.Pairwise tie) :
    (l.insertionSort le).Pairwise fun a b => le a b ∧ (le b a → tie a b) := by
  rw [List.pairwise_iff_forall_sublist]
  intro a b pair
  have distinct' := (List.perm_insertionSort le l).nodup_iff.mpr distinct
  refine ⟨List.pairwise_iff_forall_sublist.mp (List.pairwise_insertionSort le l) pair, ?_⟩
  intro level
  have memberA := (List.mem_insertionSort le).mp (pair.subset (List.mem_cons_self ..))
  have memberB : b ∈ l := (List.mem_insertionSort le).mp
    (pair.subset (List.mem_cons_of_mem _ (List.mem_cons_self ..)))
  have apart : a ≠ b := by
    have both : [a, b].Nodup := pair.nodup distinct'
    simpa using both
  rcases pair_sublist_or memberA memberB apart with kept | swapped
  · exact List.pairwise_iff_forall_sublist.mp sorted kept
  · exact absurd (List.pair_sublist_insertionSort level swapped)
      (not_pair_sublist_swap distinct' pair)

/-- The same where the order is one on the entries of the list only. -/
theorem pairwise_insertionSort_lex_of_mem {le tie : α → α → Prop} [DecidableRel le]
    (total : ∀ a ∈ l, ∀ b ∈ l, le a b ∨ le b a)
    (trans : ∀ a ∈ l, ∀ b ∈ l, ∀ c ∈ l, le a b → le b c → le a c)
    (distinct : l.Nodup) (sorted : l.Pairwise tie) :
    (l.insertionSort le).Pairwise fun a b => le a b ∧ (le b a → tie a b) := by
  let leOn : {a // a ∈ l} → {a // a ∈ l} → Prop := fun a b => le a.1 b.1
  have : Std.Total leOn := ⟨fun a b => total a.1 a.2 b.1 b.2⟩
  have : IsTrans _ leOn := ⟨fun a b c => trans a.1 a.2 b.1 b.2 c.1 c.2⟩
  have sorted' : l.attach.Pairwise fun a b => tie a.1 b.1 := by
    rw [← List.pairwise_map (f := Subtype.val) (R := tie), List.attach_map_subtype_val]
    exact sorted
  have lex : (l.attach.insertionSort leOn).Pairwise fun a b => leOn a b ∧ (leOn b a → tie a.1 b.1) :=
    pairwise_insertionSort_lex (List.nodup_attach.mpr distinct) sorted'
  have image : (l.attach.insertionSort leOn).map Subtype.val = l.insertionSort le := by
    rw [List.map_insertionSort leOn le Subtype.val l.attach fun a _ b _ => Iff.rfl,
      List.attach_map_subtype_val]
  rw [← image, List.pairwise_map]
  exact lex

/-- A stable sort keeps the order of entries that it does not tell apart. -/
theorem filter_insertionSort {le : α → α → Prop} [DecidableRel le] {p : α → Bool}
    (level : ∀ a b, p a = true → p b = true → le a b) :
    (l.insertionSort le).filter p = l.filter p := by
  have alike : (l.filter p).Pairwise le :=
    List.pairwise_of_forall_mem_list fun a memberA b memberB =>
      level a b (List.of_mem_filter memberA) (List.of_mem_filter memberB)
  have kept := (List.sublist_insertionSort alike List.filter_sublist).filter p
  simp only [List.filter_filter, Bool.and_self] at kept
  exact (kept.eq_of_length ((List.perm_insertionSort le l).filter p).length_eq.symm).symm

end StableSort
