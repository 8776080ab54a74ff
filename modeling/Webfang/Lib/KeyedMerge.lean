import Mathlib.Data.List.Pairwise
import Mathlib.Data.List.Nodup
import Std.Data.ExtTreeMap

/-!
# Merging one ordered map into another, key by key

`mergeInto keeps mine current` walks the entries of `mine` and installs each one in
`current`, except where the entry already there `keeps` its place.  The walk visits
every key once, so the result is decided by the two entries of that key alone
(`getElem?_mergeInto`); every fact about a merge follows from that equation.
-/

namespace KeyedMerge

open Std

variable {α β : Type*} {cmp : α → α → Ordering} [TransCmp cmp] [LawfulEqCmp cmp]

theorem getElem?_insert_of_eq {t : ExtTreeMap α β cmp} {k a : α} {v : β} [DecidableEq α] :
    (t.insert k v)[a]? = if k = a then some v else t[a]? := by
  rw [ExtTreeMap.getElem?_insert]
  simp only [LawfulEqCmp.compare_eq_iff_eq]

theorem getElem?_erase_of_eq {t : ExtTreeMap α β cmp} {k a : α} [DecidableEq α] :
    (t.erase k)[a]? = if k = a then none else t[a]? := by
  rw [ExtTreeMap.getElem?_erase]
  simp only [LawfulEqCmp.compare_eq_iff_eq]

/-- Every entry of a map satisfies `P`. -/
def AllEntries (P : α → β → Prop) (t : ExtTreeMap α β cmp) : Prop :=
  ∀ (k : α) (v : β), t[k]? = some v → P k v

/-- A property that can be checked of an entry can be checked of a map. -/
instance AllEntries.decidable {P : α → β → Prop} [∀ k v, Decidable (P k v)]
    (t : ExtTreeMap α β cmp) : Decidable (AllEntries P t) :=
  decidable_of_iff (∀ entry ∈ t.toList, P entry.1 entry.2) <| by
    constructor
    · intro all k v stored
      exact all (k, v) (ExtTreeMap.mem_toList_iff_getElem?_eq_some.mpr stored)
    · rintro all ⟨k, v⟩ member
      exact all k v (ExtTreeMap.mem_toList_iff_getElem?_eq_some.mp member)

omit [LawfulEqCmp cmp] in
theorem AllEntries.empty {P : α → β → Prop} : AllEntries P (∅ : ExtTreeMap α β cmp) := by
  intro k v stored
  simp at stored

omit [LawfulEqCmp cmp] in
theorem AllEntries.mono {P Q : α → β → Prop} {t : ExtTreeMap α β cmp} (all : AllEntries P t)
    (weaken : ∀ k v, P k v → Q k v) : AllEntries Q t :=
  fun k v stored => weaken k v (all k v stored)

theorem AllEntries.insert {P : α → β → Prop} {t : ExtTreeMap α β cmp} {k : α} {v : β}
    [DecidableEq α] (all : AllEntries P t) (new : P k v) : AllEntries P (t.insert k v) := by
  intro a w stored
  rw [getElem?_insert_of_eq] at stored
  split at stored
  · rename_i same
    cases stored
    exact same ▸ new
  · exact all a w stored

theorem AllEntries.erase {P : α → β → Prop} {t : ExtTreeMap α β cmp} {k : α}
    [DecidableEq α] (all : AllEntries P t) : AllEntries P (t.erase k) := by
  intro a w stored
  rw [getElem?_erase_of_eq] at stored
  split at stored
  · cases stored
  · exact all a w stored

/-- Install every entry of `mine` in `current` unless the entry there `keeps` its place. -/
def mergeInto (keeps : β → β → Bool) (mine current : ExtTreeMap α β cmp) :
    ExtTreeMap α β cmp :=
  mine.foldl (fun acc k v => if (acc[k]?).any (keeps · v) then acc else acc.insert k v) current

/-- The entry a key holds after a merge, from its two entries before. -/
def mergedEntry (keeps : β → β → Bool) : Option β → Option β → Option β
  | none, held => held
  | some v, none => some v
  | some v, some held => if keeps held v then some held else some v

/-- A list with distinct keys looks up exactly its entries. -/
theorem lookup_of_mem [DecidableEq α] {entries : List (α × β)}
    (distinct : (entries.map Prod.fst).Nodup) {k : α} {value : β}
    (member : (k, value) ∈ entries) : entries.lookup k = some value := by
  induction entries with
  | nil => cases member
  | cons entry entries ih =>
      rw [List.map_cons, List.nodup_cons] at distinct
      rcases List.mem_cons.mp member with same | later
      · rw [← same, List.lookup_cons_self]
      · have different : (k == entry.1) = false := by
          rw [beq_eq_false_iff_ne]
          rintro rfl
          exact distinct.1 (List.mem_map.mpr ⟨_, later, rfl⟩)
        rw [List.lookup_cons, different]
        exact ih distinct.2 later

theorem getElem?_foldl_install [DecidableEq α] (keeps : β → β → Bool)
    (entries : List (α × β)) (distinct : (entries.map Prod.fst).Nodup)
    (current : ExtTreeMap α β cmp) (k : α) :
    (entries.foldl (fun acc e =>
        if (acc[e.1]?).any (keeps · e.2) then acc else acc.insert e.1 e.2) current)[k]? =
      mergedEntry keeps (entries.lookup k) current[k]? := by
  induction entries generalizing current with
  | nil => rfl
  | cons entry entries ih =>
      obtain ⟨key, value⟩ := entry
      rw [List.map_cons, List.nodup_cons] at distinct
      rw [List.foldl_cons, ih distinct.2]
      by_cases same : k = key
      · subst same
        have absent : entries.lookup k = none := by
          rw [List.lookup_eq_none_iff]
          intro e member
          have inKeys : e.1 ∈ entries.map Prod.fst := List.mem_map_of_mem member
          rw [bne_iff_ne]
          rintro rfl
          exact distinct.1 inKeys
        rw [absent, List.lookup_cons_self]
        cases held : current[k]? with
        | none => simp [mergedEntry]
        | some old =>
            by_cases keep : keeps old value = true
            · simp [mergedEntry, keep, held]
            · simp [mergedEntry, keep]
      · have other : List.lookup k ((key, value) :: entries) = entries.lookup k := by
          rw [List.lookup_cons]
          have : (k == key) = false := by simpa using same
          rw [this]
        rw [other]
        dsimp only
        split
        · rfl
        · rw [getElem?_insert_of_eq, if_neg (Ne.symm same)]

/-- A merge decides each key by the two entries that key had. -/
theorem getElem?_mergeInto [DecidableEq α] (keeps : β → β → Bool)
    (mine current : ExtTreeMap α β cmp) (k : α) :
    (mergeInto keeps mine current)[k]? = mergedEntry keeps mine[k]? current[k]? := by
  have distinct : (mine.toList.map Prod.fst).Nodup := by
    rw [List.Nodup, List.pairwise_map]
    refine (ExtTreeMap.distinct_keys_toList (t := mine)).imp ?_
    intro a b different same
    exact different (same ▸ ReflCmp.compare_self)
  have looked : mine.toList.lookup k = mine[k]? := by
    cases stored : mine[k]? with
    | none =>
        rw [List.lookup_eq_none_iff]
        rintro ⟨key, value⟩ member
        have here := ExtTreeMap.mem_toList_iff_getElem?_eq_some.mp member
        rw [bne_iff_ne]
        rintro rfl
        rw [here] at stored
        cases stored
    | some value =>
        have member := ExtTreeMap.mem_toList_iff_getElem?_eq_some.mpr stored
        exact lookup_of_mem distinct member
  rw [mergeInto, ExtTreeMap.foldl_eq_foldl_toList,
    getElem?_foldl_install keeps mine.toList distinct current k, looked]

theorem AllEntries.mergeInto [DecidableEq α] {P : α → β → Prop} {keeps : β → β → Bool}
    {mine current : ExtTreeMap α β cmp} (left : AllEntries P mine)
    (right : AllEntries P current) : AllEntries P (mergeInto keeps mine current) := by
  intro k v stored
  rw [getElem?_mergeInto] at stored
  cases own : mine[k]? with
  | none => rw [own] at stored; exact right k v stored
  | some new =>
      rw [own] at stored
      cases held : current[k]? with
      | none => rw [held] at stored; cases stored; exact left k _ own
      | some old =>
          rw [held, mergedEntry] at stored
          split at stored
          · cases stored; exact right k _ held
          · cases stored; exact left k _ own

/-- A held entry that keeps its place against every other one survives the merge. -/
theorem getElem?_mergeInto_of_kept [DecidableEq α] {keeps : β → β → Bool}
    {mine current : ExtTreeMap α β cmp} {k : α} {held : β} (stored : current[k]? = some held)
    (kept : ∀ v, mine[k]? = some v → v = held ∨ keeps held v = true) :
    (mergeInto keeps mine current)[k]? = some held := by
  rw [getElem?_mergeInto, stored]
  cases own : mine[k]? with
  | none => rfl
  | some v =>
      rw [mergedEntry]
      split
      · rfl
      · rename_i replaced
        rcases kept v own with same | keep
        · rw [same]
        · exact absurd keep replaced

/-- Behind a merge a key holds the entry it held, or the one merged in, which was not kept out. -/
theorem getElem?_mergeInto_eq_some [DecidableEq α] {keeps : β → β → Bool}
    {mine current : ExtTreeMap α β cmp} {k : α} {v : β} :
    (mergeInto keeps mine current)[k]? = some v →
      current[k]? = some v ∨
        mine[k]? = some v ∧ ∀ held, current[k]? = some held → keeps held v = false := by
  intro merged
  rw [getElem?_mergeInto] at merged
  cases own : mine[k]? with
  | none =>
      rw [own] at merged
      exact .inl merged
  | some new =>
      cases stored : current[k]? with
      | none =>
          rw [own, stored] at merged
          cases merged
          exact .inr ⟨rfl, fun held found => by cases found⟩
      | some old =>
          rw [own, stored, mergedEntry] at merged
          split at merged
          · exact .inl merged
          · rename_i loses
            cases merged
            refine .inr ⟨rfl, fun held found => ?_⟩
            cases found
            simpa using loses

end KeyedMerge
