import Mathlib.Data.List.Count
import Mathlib.Data.List.Nodup
import Mathlib.Data.List.Perm.Basic
import Std.Data.ExtTreeMap

/-!
# Counting the values of an ordered map

How many entries of a map have a value of one kind, and how an insertion changes that number: the
entries of a map that holds a key are the entry of that key and the entries of the map without it.
-/

namespace ValueCount

open Std

variable {α β : Type*} {cmp : α → α → Ordering} [TransCmp cmp] [LawfulEqCmp cmp]

/-- The number of entries whose value satisfies `p`. -/
def countValues (p : β → Bool) (t : ExtTreeMap α β cmp) : Nat :=
  t.toList.countP fun entry => p entry.2

theorem nodup_toList (t : ExtTreeMap α β cmp) : t.toList.Nodup := by
  refine ExtTreeMap.distinct_keys_toList.imp ?_
  intro a b distinct same
  rw [same] at distinct
  exact distinct (LawfulEqCmp.compare_eq_iff_eq.mpr rfl)

/-- The entries of a map that holds `k`. -/
theorem toList_perm_erase {t : ExtTreeMap α β cmp} {k : α} {v : β} (present : t[k]? = some v) :
    t.toList.Perm ((k, v) :: (t.erase k).toList) := by
  have absent : (k, v) ∉ (t.erase k).toList := by
    rw [ExtTreeMap.mem_toList_iff_getElem?_eq_some, ExtTreeMap.getElem?_erase_self]
    exact nofun
  rw [List.perm_ext_iff_of_nodup (nodup_toList t) (List.nodup_cons.mpr ⟨absent, nodup_toList _⟩)]
  rintro ⟨k', v'⟩
  rw [List.mem_cons, ExtTreeMap.mem_toList_iff_getElem?_eq_some,
    ExtTreeMap.mem_toList_iff_getElem?_eq_some, ExtTreeMap.getElem?_erase, Prod.mk.injEq]
  split
  · rename_i same
    cases LawfulEqCmp.compare_eq_iff_eq.mp same
    rw [present, Option.some.injEq]
    constructor
    · intro here
      exact .inl ⟨rfl, here.symm⟩
    · rintro (⟨-, here⟩ | gone)
      · exact here.symm
      · cases gone
  · rename_i other
    constructor
    · exact .inr
    · rintro (⟨same, -⟩ | here)
      · exact absurd (LawfulEqCmp.compare_eq_iff_eq.mpr same.symm) other
      · exact here

theorem erase_insert (t : ExtTreeMap α β cmp) (k : α) (v : β) :
    (t.insert k v).erase k = t.erase k := by
  refine ExtTreeMap.ext_getElem? fun k' => ?_
  rw [ExtTreeMap.getElem?_erase, ExtTreeMap.getElem?_erase, ExtTreeMap.getElem?_insert]
  split
  · rfl
  · rfl

/-- What the entry of `k` adds to the number. -/
theorem countValues_of_getElem? {t : ExtTreeMap α β cmp} {k : α} {v : β}
    (present : t[k]? = some v) (p : β → Bool) :
    countValues p t = countValues p (t.erase k) + if p v then 1 else 0 := by
  unfold countValues
  rw [(toList_perm_erase present).countP_eq, List.countP_cons]

theorem countValues_insert (p : β → Bool) (t : ExtTreeMap α β cmp) (k : α) (v : β) :
    countValues p (t.insert k v) = countValues p (t.erase k) + if p v then 1 else 0 := by
  rw [countValues_of_getElem? ExtTreeMap.getElem?_insert_self, erase_insert]

end ValueCount
