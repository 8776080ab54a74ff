import Mathlib.Data.List.Induction
import Mathlib.Data.List.Nodup
import Mathlib.Data.List.Perm.Basic

/-!
# Tables with a key

A table is a list of rows with distinct keys; `rowAt` is the row of a key.  The rows of a second
table that refer to one of the first are grouped by the row they refer to.
-/

namespace KeyedRows

variable {ρ σ κ : Type*} [DecidableEq κ] {key : ρ → κ} {rows : List ρ}

/-- The row of a key. -/
def rowAt (key : ρ → κ) (rows : List ρ) (k : κ) : Option ρ := rows.find? fun r => key r = k

theorem rowAt_eq_none {k : κ} : rowAt key rows k = none ↔ k ∉ rows.map key := by
  rw [rowAt, List.find?_eq_none, List.mem_map]
  simp only [decide_eq_true_eq, not_exists, not_and]

theorem rowAt_some {k : κ} {r : ρ} (found : rowAt key rows k = some r) :
    r ∈ rows ∧ key r = k :=
  ⟨List.mem_of_find?_eq_some found,
    of_decide_eq_true (List.find?_some (p := fun r => decide (key r = k)) found)⟩

/-- With distinct keys, the row of a key is any that has it. -/
theorem rowAt_eq_some (distinct : (rows.map key).Nodup) {k : κ} {r : ρ} :
    rowAt key rows k = some r ↔ r ∈ rows ∧ key r = k := by
  refine ⟨rowAt_some, ?_⟩
  rintro ⟨member, rfl⟩
  cases found : rowAt key rows (key r) with
  | none => exact absurd (List.mem_map_of_mem member) (rowAt_eq_none.mp found)
  | some s =>
      obtain ⟨there, same⟩ := rowAt_some found
      rw [List.inj_on_of_nodup_map distinct there member same]

/-- Rows that change and keep their keys. -/
theorem rowAt_map {f : ρ → ρ} (keeps : ∀ r, key (f r) = key r) (k : κ) :
    rowAt key (rows.map f) k = (rowAt key rows k).map f := by
  rw [rowAt, rowAt, List.find?_map]
  congr 2
  funext r
  rw [Function.comp_apply, keeps]

theorem rowAt_append {r : ρ} (absent : rowAt key rows (key r) = none) (k : κ) :
    rowAt key (rows ++ [r]) k = if key r = k then some r else rowAt key rows k := by
  rw [rowAt, List.find?_append, ← rowAt]
  split
  · rename_i same
    rw [← same, absent, Option.none_or, List.find?_singleton, decide_eq_true rfl]
    rfl
  · rename_i other
    rw [List.find?_singleton, decide_eq_false other]
    exact Option.or_none

theorem rowAt_filter_ne (gone k : κ) :
    rowAt key (rows.filter fun r => key r ≠ gone) k =
      if k = gone then none else rowAt key rows k := by
  induction rows with
  | nil => simp [rowAt]
  | cons r rows ih =>
      simp only [rowAt] at ih ⊢
      grind

/-- The rows that refer to a table, grouped by the row they refer to. -/
theorem perm_flatMap_filter (parent : σ → κ) {children : List σ}
    (distinct : (rows.map key).Nodup) (owned : ∀ c ∈ children, parent c ∈ rows.map key) :
    children.Perm (rows.flatMap fun r => children.filter fun c => parent c = key r) := by
  induction rows generalizing children with
  | nil =>
      cases children with
      | nil => exact .nil
      | cons c _ => exact nomatch owned c (List.mem_cons_self ..)
  | cons r rows ih =>
      rw [List.map_cons, List.nodup_cons] at distinct
      rw [List.flatMap_cons]
      refine (List.filter_append_perm (fun c => decide (parent c = key r)) children).symm.trans
        (List.Perm.append_left _ ?_)
      have owned' : ∀ c ∈ children.filter fun c => !decide (parent c = key r),
          parent c ∈ rows.map key := by
        intro c member
        obtain ⟨there, other⟩ := List.mem_filter.mp member
        rcases List.mem_cons.mp (owned c there) with same | later
        · rw [same] at other
          simp at other
        · exact later
      refine (ih distinct.2 owned').trans (.of_eq (List.flatMap_congr fun s member => ?_))
      rw [List.filter_filter]
      refine List.filter_congr fun c _ => ?_
      have apart : key s ≠ key r := fun same => distinct.1 (same ▸ List.mem_map_of_mem member)
      by_cases here : parent c = key s
      · rw [here]
        simp [apart]
      · simp [here]

/-! ## Rows that replace one another -/

/-- The row takes the place of the first with its key, or the end of the table. -/
def upsert (key : ρ → κ) (row : ρ) : List ρ → List ρ
  | [] => [row]
  | r :: rows => if key r = key row then row :: rows else r :: upsert key row rows

theorem map_key_upsert (row : ρ) (rows : List ρ) :
    (upsert key row rows).map key =
      if key row ∈ rows.map key then rows.map key else rows.map key ++ [key row] := by
  induction rows with
  | nil => simp [upsert]
  | cons r rows ih =>
      rw [upsert]
      by_cases same : key r = key row
      · rw [if_pos same]
        simp [same]
      · rw [if_neg same, List.map_cons, ih, List.map_cons]
        by_cases later : key row ∈ rows.map key
        · rw [if_pos later, if_pos (List.mem_cons_of_mem (key r) later)]
        · rw [if_neg later, if_neg (List.not_mem_cons_of_ne_of_not_mem (Ne.symm same) later),
            List.cons_append]

theorem nodup_upsert (row : ρ) (distinct : (rows.map key).Nodup) :
    ((upsert key row rows).map key).Nodup := by
  rw [map_key_upsert]
  split
  · exact distinct
  · rename_i absent
    exact List.nodup_append.mpr ⟨distinct, List.nodup_singleton _, fun k member l single same =>
      absent (List.mem_singleton.mp single ▸ same ▸ member)⟩

theorem mem_upsert (distinct : (rows.map key).Nodup) {row r : ρ} :
    r ∈ upsert key row rows ↔ r = row ∨ r ∈ rows ∧ key r ≠ key row := by
  induction rows with
  | nil => simp [upsert]
  | cons s rows ih =>
      obtain ⟨apart, later⟩ := List.nodup_cons.mp distinct
      rw [upsert]
      by_cases same : key s = key row
      · rw [if_pos same, List.mem_cons, List.mem_cons]
        refine or_congr_right ⟨fun member => ⟨.inr member, fun again => apart ?_⟩, ?_⟩
        · rw [same, ← again]
          exact List.mem_map_of_mem member
        · rintro ⟨rfl | member, other⟩
          · exact absurd same other
          · exact member
      · rw [if_neg same, List.mem_cons, List.mem_cons, ih later]
        constructor
        · rintro (rfl | rfl | ⟨member, other⟩)
          · exact .inr ⟨.inl rfl, same⟩
          · exact .inl rfl
          · exact .inr ⟨.inr member, other⟩
        · rintro (rfl | ⟨rfl | member, other⟩)
          · exact .inr (.inl rfl)
          · exact .inl rfl
          · exact .inr (.inr ⟨member, other⟩)

/-- The row is the last of its key. -/
def LastOf (key : ρ → κ) (written : List ρ) (row : ρ) : Prop :=
  ∃ before after, written = before ++ row :: after ∧ ∀ r ∈ after, key r ≠ key row

omit [DecidableEq κ] in
theorem lastOf_concat {written : List ρ} {last row : ρ} :
    LastOf key (written ++ [last]) row ↔ row = last ∨ LastOf key written row ∧ key row ≠ key last := by
  constructor
  · rintro ⟨before, after, whole, others⟩
    rcases List.eq_nil_or_concat after with rfl | ⟨after, r, rfl⟩
    · obtain ⟨-, same⟩ := List.append_inj' whole rfl
      exact .inl (List.cons.inj same).1.symm
    · rw [List.concat_eq_append] at others
      have whole' : written ++ [last] = (before ++ row :: after) ++ [r] := by
        rw [whole, List.concat_eq_append, List.append_assoc, List.cons_append]
      obtain ⟨rfl, same⟩ := List.append_inj' whole' rfl
      obtain ⟨earlier, atLast⟩ := List.forall_mem_append.mp others
      have other := atLast r (List.mem_singleton_self r)
      rw [← (List.cons.inj same).1] at other
      exact .inr ⟨⟨before, after, rfl, earlier⟩, Ne.symm other⟩
  · rintro (rfl | ⟨⟨before, after, rfl, others⟩, other⟩)
    · exact ⟨written, [], rfl, fun r member => absurd member List.not_mem_nil⟩
    · refine ⟨before, after ++ [last], by rw [List.append_assoc, List.cons_append], ?_⟩
      exact List.forall_mem_append.mpr ⟨others, List.forall_mem_singleton.mpr (Ne.symm other)⟩

/-- A table that rows are written to has the last row of each key, once. -/
theorem foldl_upsert (written : List ρ) :
    ((written.foldl (fun rows row => upsert key row rows) []).map key).Nodup ∧
      ∀ row, row ∈ written.foldl (fun rows row => upsert key row rows) [] ↔
        LastOf key written row := by
  induction written using List.reverseRecOn with
  | nil =>
      refine ⟨List.nodup_nil, fun row => iff_of_false List.not_mem_nil ?_⟩
      rintro ⟨before, after, whole, -⟩
      exact List.append_ne_nil_of_right_ne_nil before (List.cons_ne_nil row after) whole.symm
  | append_singleton written last ih =>
      obtain ⟨distinct, members⟩ := ih
      rw [List.foldl_concat]
      refine ⟨nodup_upsert last distinct, fun row => ?_⟩
      rw [mem_upsert distinct, members, lastOf_concat]

end KeyedRows
