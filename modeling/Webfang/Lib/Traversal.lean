import Mathlib.Data.List.Forall2

/-!
# Traversals that may fail

A list is traversed by a function that may fail, from its first element on, and the first failure
is the failure of the whole.
-/

namespace Webfang.Traversal

variable {α β γ ε : Type}

/-- Of two computations, one behind the other, both succeed. -/
theorem bind_eq_ok_iff {x : Except ε α} {f : α → Except ε β} {b : β} :
    (x >>= f) = .ok b ↔ ∃ a, x = .ok a ∧ f a = .ok b := by
  cases x <;> simp [bind, Except.bind]

theorem then_eq_ok_iff {x y : Except ε Unit} :
    (x >>= fun _ => y) = .ok () ↔ x = .ok () ∧ y = .ok () := by
  cases x <;> simp [bind, Except.bind]

/-- The failure of two checks, one behind the other, is that of the first or of the second. -/
theorem eq_error_of_then {x y : Except ε Unit} {e : ε} (failed : (x >>= fun _ => y) = .error e) :
    x = .error e ∨ y = .error e := by
  cases x with
  | error e' => exact .inl failed
  | ok u => exact .inr failed

/-- A list of checks passes when each of them does. -/
theorem forM_eq_ok_iff (f : α → Except ε Unit) (xs : List α) :
    xs.forM f = .ok () ↔ ∀ x ∈ xs, f x = .ok () := by
  induction xs with
  | nil => exact iff_of_true rfl fun x inside => absurd inside List.not_mem_nil
  | cons x xs ih =>
      have unfolded : (x :: xs).forM f = f x >>= fun _ => xs.forM f := rfl
      rw [unfolded, then_eq_ok_iff, ih, List.forall_mem_cons]

/-- The failure of a list of checks is that of one of them. -/
theorem exists_of_forM_eq_error {f : α → Except ε Unit} {xs : List α} {e : ε}
    (failed : xs.forM f = .error e) : ∃ x ∈ xs, f x = .error e := by
  induction xs with
  | nil => cases failed
  | cons x xs ih =>
      rcases eq_error_of_then failed with here | later
      · exact ⟨x, List.mem_cons_self, here⟩
      · rcases ih later with ⟨x', inside, there⟩
        exact ⟨x', List.mem_cons_of_mem x inside, there⟩

/-- A traversal succeeds with the answers of its elements. -/
theorem mapM_eq_ok_iff (f : α → Except ε β) (xs : List α) (ys : List β) :
    xs.mapM f = .ok ys ↔ List.Forall₂ (fun x y => f x = .ok y) xs ys := by
  induction xs generalizing ys with
  | nil => cases ys <;> simp [pure, Except.pure]
  | cons x xs ih =>
      rw [List.mapM_cons]
      cases here : f x with
      | error e => cases ys <;> simp [bind, Except.bind, here]
      | ok y =>
          cases rest : xs.mapM f with
          | error e => cases ys <;> simp [bind, Except.bind, here, ← ih, rest]
          | ok ys' => cases ys <;> simp [bind, Except.bind, pure, Except.pure, here, ← ih, rest]

/-- Two traversals, one behind the other, succeed like the two functions at each element. -/
theorem mapM_bind_mapM_eq_ok_iff (f : α → Except ε β) (g : β → Except ε γ) (xs : List α)
    (zs : List γ) :
    (xs.mapM f >>= fun ys => ys.mapM g) = .ok zs ↔
      List.Forall₂ (fun x z => (f x >>= g) = .ok z) xs zs := by
  have split : (xs.mapM f >>= fun ys => ys.mapM g) = .ok zs ↔
      ∃ ys, xs.mapM f = .ok ys ∧ ys.mapM g = .ok zs := bind_eq_ok_iff
  simp only [split, mapM_eq_ok_iff, bind_eq_ok_iff]
  clear split
  constructor
  · intro ⟨ys, first, second⟩
    induction first generalizing zs with
    | nil =>
        cases second
        exact .nil
    | cons here _ ih =>
        cases second with
        | cons there rest => exact .cons ⟨_, here, there⟩ (ih _ rest)
  · intro both
    induction both with
    | nil => exact ⟨[], .nil, .nil⟩
    | cons here _ ih =>
        obtain ⟨y, first, second⟩ := here
        obtain ⟨ys, firsts, seconds⟩ := ih
        exact ⟨y :: ys, .cons first firsts, .cons second seconds⟩

/-- What stands on the right is related to something on the left. -/
theorem exists_of_mem_right {r : α → β → Prop} {xs : List α} {ys : List β}
    (related : List.Forall₂ r xs ys) {y : β} (inside : y ∈ ys) : ∃ x ∈ xs, r x y := by
  induction related with
  | nil => exact absurd inside List.not_mem_nil
  | cons here _ ih =>
      rcases List.mem_cons.mp inside with rfl | later
      · exact ⟨_, List.mem_cons_self, here⟩
      · obtain ⟨x, member, there⟩ := ih later
        exact ⟨x, List.mem_cons_of_mem _ member, there⟩

theorem exists_of_mem_left {r : α → β → Prop} {xs : List α} {ys : List β}
    (related : List.Forall₂ r xs ys) {x : α} (inside : x ∈ xs) : ∃ y ∈ ys, r x y :=
  exists_of_mem_right (List.Forall₂.flip related) inside

/-- A list is related to some list when each of its elements is related to something. -/
theorem exists_forall₂_iff {r : α → β → Prop} (xs : List α) :
    (∃ ys, List.Forall₂ r xs ys) ↔ ∀ x ∈ xs, ∃ y, r x y := by
  constructor
  · intro ⟨ys, related⟩
    induction related with
    | nil => exact fun _ inside => absurd inside List.not_mem_nil
    | cons here _ ih =>
        intro x inside
        rcases List.mem_cons.mp inside with rfl | later
        · exact ⟨_, here⟩
        · exact ih x later
  · intro each
    induction xs with
    | nil => exact ⟨[], .nil⟩
    | cons x xs ih =>
        obtain ⟨y, here⟩ := each x List.mem_cons_self
        obtain ⟨ys, rest⟩ := ih fun x inside => each x (List.mem_cons_of_mem _ inside)
        exact ⟨y :: ys, .cons here rest⟩

/-- Relations that agree at each element of a list relate it to the same lists. -/
theorem forall₂_congr_left {r r' : α → β → Prop} {xs : List α} {ys : List β}
    (agree : ∀ x ∈ xs, ∀ y, r x y ↔ r' x y) : List.Forall₂ r xs ys ↔ List.Forall₂ r' xs ys := by
  induction xs generalizing ys with
  | nil => simp only [List.forall₂_nil_left_iff]
  | cons x xs ih =>
      obtain ⟨here, rest⟩ := List.forall_mem_cons.mp agree
      simp only [List.forall₂_cons_left_iff, here, ih rest]

end Webfang.Traversal
