import Mathlib.Data.List.Sort
import Mathlib.Order.Basic

/-!
# Taking first elements out of a list

`takeFirst r` takes out an element that is first under `r`, `takeFirsts r n` does so `n` times, and
stops early when nothing is left.  Where `r` tells the elements of the list apart, the elements come
out in sorted order (`takeFirsts_eq_take`): a priority queue needs no more than its best element
each time.
-/

namespace Selection

variable {α : Type*} (r : α → α → Prop) [DecidableRel r]

/-- A first element, and the others. -/
def takeFirst : List α → Option (α × List α)
  | [] => none
  | a :: as =>
      match takeFirst as with
      | none => some (a, [])
      | some (b, rest) => if r a b then some (a, b :: rest) else some (b, a :: rest)

/-- The elements of `n` extractions, and what they leave. -/
def takeFirsts : Nat → List α → List α × List α
  | 0, l => ([], l)
  | n + 1, l =>
      match takeFirst r l with
      | none => ([], l)
      | some (a, rest) => (a :: (takeFirsts n rest).1, (takeFirsts n rest).2)

variable {r}

theorem takeFirst_eq_none {l : List α} : takeFirst r l = none ↔ l = [] := by
  cases l with
  | nil => exact iff_of_true rfl rfl
  | cons a as =>
      refine iff_of_false (fun none => ?_) (List.cons_ne_nil a as)
      unfold takeFirst at none
      split at none
      · cases none
      · split at none
        · cases none
        · cases none

theorem takeFirst_perm {l rest : List α} {a : α} (taken : takeFirst r l = some (a, rest)) :
    (a :: rest).Perm l := by
  induction l generalizing a rest with
  | nil => cases taken
  | cons first l ih =>
      unfold takeFirst at taken
      split at taken
      · rename_i none
        cases taken
        rw [takeFirst_eq_none.mp none]
      · rename_i b others found
        split at taken
        · cases taken
          exact (ih found).cons first
        · cases taken
          exact (List.Perm.swap first a others).trans ((ih found).cons first)

/-- What is left comes after the element taken out. -/
theorem rel_of_takeFirst [Std.Total r] [IsTrans α r] {l rest : List α} {a : α}
    (taken : takeFirst r l = some (a, rest)) : ∀ b ∈ rest, r a b := by
  induction l generalizing a rest with
  | nil => cases taken
  | cons first l ih =>
      unfold takeFirst at taken
      split at taken
      · cases taken
        exact fun b member => nomatch member
      · rename_i b others found
        split at taken
        · rename_i before
          cases taken
          exact List.forall_mem_cons.mpr
            ⟨before, fun c member => IsTrans.trans _ _ _ before (ih found c member)⟩
        · rename_i after
          cases taken
          exact List.forall_mem_cons.mpr
            ⟨(Std.Total.total a first).resolve_right after, ih found⟩

/-- Elements that `r` tells apart come out in sorted order. -/
theorem takeFirsts_eq_take [Std.Total r] [IsTrans α r] {l sorted : List α}
    (apart : ∀ a ∈ l, ∀ b ∈ l, r a b → r b a → a = b) (perm : sorted.Perm l)
    (ordered : sorted.Pairwise r) (n : Nat) : (takeFirsts r n l).1 = sorted.take n := by
  induction n generalizing l sorted with
  | zero => rfl
  | succ n ih =>
      rw [takeFirsts]
      cases taken : takeFirst r l with
      | none =>
          rw [takeFirst_eq_none.mp taken] at perm
          rw [perm.eq_nil]
          rfl
      | some found =>
          obtain ⟨a, rest⟩ := found
          have inside := takeFirst_perm taken
          have after := rel_of_takeFirst taken
          cases sorted with
          | nil => exact absurd (inside.trans perm.symm).eq_nil (List.cons_ne_nil a rest)
          | cons b later =>
              have first : a = b := by
                have memberA : a ∈ b :: later := (inside.trans perm.symm).subset List.mem_cons_self
                have memberB : b ∈ a :: rest := (perm.trans inside.symm).subset List.mem_cons_self
                rcases List.mem_cons.mp memberA with same | behindB
                · exact same
                · rcases List.mem_cons.mp memberB with same | behindA
                  · exact same.symm
                  · exact apart a (inside.subset List.mem_cons_self) b
                      (perm.subset List.mem_cons_self) (after b behindA)
                      (List.rel_of_pairwise_cons ordered behindB)
              subst first
              rw [List.take_succ_cons]
              refine congrArg (a :: ·) (ih ?_ ?_ ordered.of_cons)
              · exact fun c memberC d memberD => apart c (inside.subset (List.mem_cons_of_mem a memberC))
                  d (inside.subset (List.mem_cons_of_mem a memberD))
              · exact (List.perm_cons a).mp (perm.trans inside.symm)

end Selection
