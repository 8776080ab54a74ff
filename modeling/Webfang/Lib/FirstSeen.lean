import Mathlib.Data.List.Pairwise
import Mathlib.Logic.Basic

/-!
# The first of each group

Of a list, the elements that nothing in front of them is related to.  A list keeps the same elements
for equality and for a coarser relation just when the two agree on it.
-/

namespace FirstSeen

variable {α : Type}

open Classical in
/-- The elements of a list that nothing before them is related to. -/
noncomputable def firsts (r : α → α → Prop) : List α → List α → List α
  | _, [] => []
  | before, x :: xs =>
      if ∃ y ∈ before, r y x then firsts r (x :: before) xs else x :: firsts r (x :: before) xs

variable {r s : α → α → Prop} {before xs ys : List α} {x : α}

theorem firsts_cons_old (old : ∃ y ∈ before, r y x) :
    firsts r before (x :: xs) = firsts r (x :: before) xs := if_pos old

theorem firsts_cons_new (new : ¬ ∃ y ∈ before, r y x) :
    firsts r before (x :: xs) = x :: firsts r (x :: before) xs := if_neg new

theorem firsts_append :
    firsts r before (xs ++ ys) = firsts r before xs ++ firsts r (xs.reverse ++ before) ys := by
  induction xs generalizing before with
  | nil => rfl
  | cons x xs ih =>
      rw [List.cons_append, List.reverse_cons, List.append_assoc]
      by_cases old : ∃ y ∈ before, r y x
      · rw [firsts_cons_old old, firsts_cons_old old]
        exact ih
      · rw [firsts_cons_new old, firsts_cons_new old, ih]
        rfl

theorem mem_of_mem_firsts (kept : x ∈ firsts r before xs) : x ∈ xs := by
  induction xs generalizing before with
  | nil => cases kept
  | cons x' xs ih =>
      by_cases old : ∃ y ∈ before, r y x'
      · rw [firsts_cons_old old] at kept
        exact List.mem_cons_of_mem _ (ih kept)
      · rw [firsts_cons_new old] at kept
        rcases List.mem_cons.mp kept with here | later
        · rw [here]
          exact List.mem_cons_self
        · exact List.mem_cons_of_mem _ (ih later)

/-- For equality, every element is kept or stood before. -/
theorem mem_firsts_eq (member : x ∈ xs) : x ∈ before ∨ x ∈ firsts Eq before xs := by
  induction xs generalizing before with
  | nil => cases member
  | cons x' xs ih =>
      have later : x ∈ xs → x ∈ x' :: before ∨ x ∈ firsts Eq (x' :: before) xs :=
        fun inside => ih inside
      by_cases old : ∃ y ∈ before, y = x'
      · rw [firsts_cons_old old]
        rcases old with ⟨y, stood, same⟩
        rw [same] at stood
        rcases List.mem_cons.mp member with here | inside
        · rw [here]
          exact .inl stood
        · rcases later inside with front | kept
          · rcases List.mem_cons.mp front with here | there
            · rw [here]
              exact .inl stood
            · exact .inl there
          · exact .inr kept
      · rw [firsts_cons_new old]
        rcases List.mem_cons.mp member with here | inside
        · rw [here]
          exact .inr List.mem_cons_self
        · rcases later inside with front | kept
          · rcases List.mem_cons.mp front with here | there
            · rw [here]
              exact .inr List.mem_cons_self
            · exact .inl there
          · exact .inr (List.mem_cons_of_mem _ kept)

theorem mem_firsts_iff : x ∈ firsts Eq [] xs ↔ x ∈ xs := by
  constructor
  · exact mem_of_mem_firsts
  · intro member
    have either : x ∈ [] ∨ x ∈ firsts Eq [] xs := mem_firsts_eq member
    rcases either with nowhere | kept
    · cases nowhere
    · exact kept

/-- What is kept is unrelated to what stood before and to what is kept before it. -/
theorem firsts_apart : (∀ x ∈ firsts r before xs, ∀ y ∈ before, ¬ r y x) ∧
    (firsts r before xs).Pairwise fun a b => ¬ r a b := by
  induction xs generalizing before with
  | nil => exact ⟨fun x inside => absurd inside List.not_mem_nil, .nil⟩
  | cons x xs ih =>
      have later : (∀ x' ∈ firsts r (x :: before) xs, ∀ y ∈ x :: before, ¬ r y x') ∧
          (firsts r (x :: before) xs).Pairwise fun a b => ¬ r a b := ih
      rcases later with ⟨apart, pairwise⟩
      by_cases old : ∃ y ∈ before, r y x
      · rw [firsts_cons_old old]
        refine ⟨?_, pairwise⟩
        intro x' kept y stood
        exact apart x' kept y (List.mem_cons_of_mem _ stood)
      · rw [firsts_cons_new old]
        refine ⟨?_, List.pairwise_cons.mpr ⟨?_, pairwise⟩⟩
        · intro x' kept y stood
          rcases List.mem_cons.mp kept with here | later
          · rw [here]
            exact fun related => old ⟨y, stood, related⟩
          · exact apart x' later y (List.mem_cons_of_mem _ stood)
        · intro x' kept
          exact apart x' kept x List.mem_cons_self

/-- Relations that agree on the elements keep the same. -/
theorem firsts_congr (agree : ∀ y ∈ xs ++ before, ∀ x ∈ xs, r y x ↔ s y x) :
    firsts r before xs = firsts s before xs := by
  induction xs generalizing before with
  | nil => rfl
  | cons x xs ih =>
      have later : firsts r (x :: before) xs = firsts s (x :: before) xs := by
        apply ih
        intro y stood x' inside
        refine agree y ?_ x' (List.mem_cons_of_mem _ inside)
        rcases List.mem_append.mp stood with front | behind
        · exact List.mem_append_left _ (List.mem_cons_of_mem _ front)
        · rcases List.mem_cons.mp behind with here | there
          · rw [here]
            exact List.mem_append_left _ List.mem_cons_self
          · exact List.mem_append_right _ there
      have same : (∃ y ∈ before, r y x) ↔ ∃ y ∈ before, s y x := by
        refine exists_congr fun y => and_congr_right fun stood => ?_
        exact agree y (List.mem_append_right _ stood) x List.mem_cons_self
      by_cases old : ∃ y ∈ before, r y x
      · rw [firsts_cons_old old, firsts_cons_old (same.mp old), later]
      · rw [firsts_cons_new old, firsts_cons_new fun old' => old (same.mpr old'), later]

/-- A coarser relation keeps the same as equality just when it relates no two elements that are
different. -/
theorem firsts_eq_iff (reflexive : ∀ a, r a a) (symmetric : ∀ a b, r a b → r b a) :
    firsts Eq [] xs = firsts r [] xs ↔ ∀ a ∈ xs, ∀ b ∈ xs, r a b → a = b := by
  constructor
  · intro same a left b right related
    by_contra different
    have kept := mem_firsts_iff.mpr left
    have kept' := mem_firsts_iff.mpr right
    rw [same] at kept kept'
    have apart : Std.Symm fun a b => ¬ r a b :=
      ⟨fun a b unrelated swapped => unrelated (symmetric b a swapped)⟩
    have pairwise : (firsts r [] xs).Pairwise fun a b => ¬ r a b := firsts_apart.2
    exact pairwise.forall kept kept' different related
  · intro finer
    apply firsts_congr
    rw [List.append_nil]
    intro y left x right
    constructor
    · intro equal
      rw [equal]
      exact reflexive x
    · exact finer y left x right

end FirstSeen
