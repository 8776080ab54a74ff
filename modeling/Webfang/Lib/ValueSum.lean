import Mathlib.Algebra.GroupWithZero.Nat
import Webfang.Lib.ValueCount

/-!
# Summing the values of an ordered map

The sum of one share of every value of a map, and how it changes when the value of a key, or the
value that stands for an absent one, is replaced.
-/

namespace ValueSum

open Std ValueCount

variable {α β : Type*} {cmp : α → α → Ordering} [TransCmp cmp] [LawfulEqCmp cmp]

/-- The sum of the shares of all values. -/
def sumValues (share : β → Nat) (t : ExtTreeMap α β cmp) : Nat :=
  (t.toList.map fun entry => share entry.2).sum

omit [LawfulEqCmp cmp] in
@[simp] theorem sumValues_empty (share : β → Nat) :
    sumValues share (∅ : ExtTreeMap α β cmp) = 0 := rfl

/-- What the entry of `k` adds to the sum. -/
theorem sumValues_of_getElem? (share : β → Nat) {t : ExtTreeMap α β cmp} {k : α} {v : β}
    (present : t[k]? = some v) : sumValues share t = sumValues share (t.erase k) + share v := by
  have entries := ((toList_perm_erase present).map fun entry => share entry.2).sum_nat
  rw [List.map_cons, List.sum_cons] at entries
  rw [sumValues, entries, Nat.add_comm]
  rfl

theorem sumValues_insert (share : β → Nat) (t : ExtTreeMap α β cmp) (k : α) (v : β) :
    sumValues share (t.insert k v) = sumValues share (t.erase k) + share v := by
  rw [sumValues_of_getElem? share ExtTreeMap.getElem?_insert_self, erase_insert]

theorem erase_of_absent {t : ExtTreeMap α β cmp} {k : α} (absent : t[k]? = none) : t.erase k = t := by
  refine ExtTreeMap.ext_getElem? fun k' => ?_
  rw [ExtTreeMap.getElem?_erase]
  split
  · rename_i same
    rw [← LawfulEqCmp.compare_eq_iff_eq.mp same, absent]
  · rfl

/-- An entry is changed where it stands, or first made from `zero`, which adds nothing. -/
theorem sumValues_insert_getD (share : β → Nat) (t : ExtTreeMap α β cmp) (k : α) (zero : β)
    {v : β} {more : Nat} (nothing : share zero = 0) (grown : share v = share (t[k]?.getD zero) + more) :
    sumValues share (t.insert k v) = sumValues share t + more := by
  rw [sumValues_insert, grown, ← Nat.add_assoc]
  congr 1
  cases found : t[k]? with
  | none => rw [erase_of_absent found, Option.getD_none, nothing, Nat.add_zero]
  | some w => rw [Option.getD_some, ← sumValues_of_getElem? share found]

end ValueSum
