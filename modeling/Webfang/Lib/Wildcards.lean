import Mathlib.Data.List.Count

/-!
# Patterns with wildcards

A pattern is a list of items: a run of any letters, one letter, or a letter that stands for itself.
What the wildcards may stand for is a predicate of letters; a text that a pattern fits keeps a letter
out of the wildcards just if it has that letter no more often than the pattern itself.
-/

namespace Wildcards


inductive Item (α : Type*)
  | run
  | one
  | lit (c : α)
  deriving DecidableEq, Repr

/-- The text comes of the pattern by putting permitted letters for its wildcards. -/
inductive Fits (ok : α → Prop) : List (Item α) → List α → Prop
  | nil : Fits ok [] []
  | done {items : List (Item α)} {text : List α} (rest : Fits ok items text) :
      Fits ok (.run :: items) text
  | more {items : List (Item α)} {c : α} {text : List α} (permitted : ok c)
      (rest : Fits ok (.run :: items) text) : Fits ok (.run :: items) (c :: text)
  | one {items : List (Item α)} {c : α} {text : List α} (permitted : ok c)
      (rest : Fits ok items text) : Fits ok (.one :: items) (c :: text)
  | lit {items : List (Item α)} {c : α} {text : List α} (rest : Fits ok items text) :
      Fits ok (.lit c :: items) (c :: text)

variable {α : Type*} {ok : α → Prop} {items : List (Item α)} {text : List α}

theorem Fits.mono {strict : α → Prop} (weaker : ∀ c, strict c → ok c) (fits : Fits strict items text) :
    Fits ok items text := by
  induction fits with
  | nil => exact .nil
  | done _ ih => exact .done ih
  | more permitted _ ih => exact .more (weaker _ permitted) ih
  | one permitted _ ih => exact .one (weaker _ permitted) ih
  | lit _ ih => exact .lit ih

@[simp] theorem fits_nil : Fits ok [] text ↔ text = [] := by
  constructor
  · intro fits
    cases fits
    rfl
  · rintro rfl
    exact .nil

@[simp] theorem fits_lit {c : α} : Fits ok (.lit c :: items) text ↔
    ∃ rest, text = c :: rest ∧ Fits ok items rest := by
  constructor
  · intro fits
    cases fits with
    | lit rest => exact ⟨_, rfl, rest⟩
  · intro given
    rcases given with ⟨rest, rfl, fits⟩
    exact .lit fits

@[simp] theorem fits_one : Fits ok (.one :: items) text ↔
    ∃ c rest, text = c :: rest ∧ ok c ∧ Fits ok items rest := by
  constructor
  · intro fits
    cases fits with
    | one permitted rest => exact ⟨_, _, rfl, permitted, rest⟩
  · intro given
    rcases given with ⟨c, rest, rfl, permitted, fits⟩
    exact .one permitted fits

theorem fits_run_append {stretch : List α} (permitted : ∀ c ∈ stretch, ok c)
    (fits : Fits ok items text) : Fits ok (.run :: items) (stretch ++ text) := by
  induction stretch with
  | nil => exact .done fits
  | cons c stretch ih =>
      obtain ⟨here, later⟩ := List.forall_mem_cons.mp permitted
      exact .more here (ih later)

/-- What a run stands for. -/
theorem fits_run : Fits ok (.run :: items) text ↔
    ∃ stretch rest, text = stretch ++ rest ∧ (∀ c ∈ stretch, ok c) ∧ Fits ok items rest := by
  constructor
  · intro fits
    generalize whole : Item.run :: items = pattern at fits
    induction fits with
    | nil => cases whole
    | done rest =>
        cases whole
        exact ⟨[], _, rfl, List.forall_mem_nil _, rest⟩
    | more permitted _ ih =>
        obtain ⟨stretch, rest, rfl, all, fits⟩ := ih whole
        exact ⟨_ :: stretch, rest, rfl, List.forall_mem_cons.mpr ⟨permitted, all⟩, fits⟩
    | one => cases whole
    | lit => cases whole
  · intro given
    rcases given with ⟨stretch, rest, rfl, permitted, fits⟩
    exact fits_run_append permitted fits

/-- Two runs side by side are one. -/
theorem fits_run_run : Fits ok (.run :: .run :: items) text ↔ Fits ok (.run :: items) text := by
  constructor
  · intro fits
    obtain ⟨first, rest, rfl, permitted, later⟩ := fits_run.mp fits
    obtain ⟨second, rest, rfl, permitted', fits⟩ := fits_run.mp later
    rw [← List.append_assoc]
    exact fits_run_append (List.forall_mem_append.mpr ⟨permitted, permitted'⟩) fits
  · exact .done

theorem fits_append {before behind : List (Item α)} : Fits ok (before ++ behind) text ↔
    ∃ left right, text = left ++ right ∧ Fits ok before left ∧ Fits ok behind right := by
  induction before generalizing text with
  | nil => simp
  | cons item before ih =>
      cases item with
      | run =>
          rw [List.cons_append, fits_run]
          constructor
          · intro given
            rcases given with ⟨stretch, rest, rfl, permitted, fits⟩
            obtain ⟨left, right, rfl, fits, later⟩ := ih.mp fits
            exact ⟨stretch ++ left, right, (List.append_assoc ..).symm,
              fits_run_append permitted fits, later⟩
          · intro given
            rcases given with ⟨left, right, rfl, fits, later⟩
            obtain ⟨stretch, rest, rfl, permitted, fits⟩ := fits_run.mp fits
            exact ⟨stretch, rest ++ right, List.append_assoc .., permitted,
              ih.mpr ⟨rest, right, rfl, fits, later⟩⟩
      | one =>
          rw [List.cons_append, fits_one]
          constructor
          · intro given
            rcases given with ⟨c, rest, rfl, permitted, fits⟩
            obtain ⟨left, right, rfl, fits, later⟩ := ih.mp fits
            exact ⟨c :: left, right, rfl, .one permitted fits, later⟩
          · intro given
            rcases given with ⟨left, right, rfl, fits, later⟩
            obtain ⟨c, rest, rfl, permitted, fits⟩ := fits_one.mp fits
            exact ⟨c, rest ++ right, rfl, permitted, ih.mpr ⟨rest, right, rfl, fits, later⟩⟩
      | lit c =>
          rw [List.cons_append, fits_lit]
          constructor
          · intro given
            rcases given with ⟨rest, rfl, fits⟩
            obtain ⟨left, right, rfl, fits, later⟩ := ih.mp fits
            exact ⟨c :: left, right, rfl, .lit fits, later⟩
          · intro given
            rcases given with ⟨left, right, rfl, fits, later⟩
            obtain ⟨rest, rfl, inner⟩ := fits_lit.mp fits
            exact ⟨rest ++ right, rfl, ih.mpr ⟨rest, right, rfl, inner, later⟩⟩

/-- A pattern without wildcards fits its own letters only. -/
theorem fits_map_lit {letters : List α} : Fits ok (letters.map .lit) text ↔ text = letters := by
  induction letters generalizing text with
  | nil => exact fits_nil
  | cons c letters ih =>
      rw [List.map_cons, fits_lit]
      constructor
      · intro given
        rcases given with ⟨rest, rfl, fits⟩
        rw [ih.mp fits]
      · rintro rfl
        exact ⟨letters, rfl, ih.mpr rfl⟩

/-- Patterns that differ behind one item. -/
theorem fits_cons_congr {items' : List (Item α)} (item : Item α)
    (same : ∀ text, Fits ok items text ↔ Fits ok items' text) :
    Fits ok (item :: items) text ↔ Fits ok (item :: items') text := by
  rw [← List.singleton_append, ← List.singleton_append (l := items'), fits_append, fits_append]
  simp only [same]

/-! ## Deciding it -/

/-- The texts behind the stretches of permitted letters at the front. -/
def behindStretch (ok : α → Bool) : List α → List (List α)
  | [] => [[]]
  | c :: text => (c :: text) :: if ok c then behindStretch ok text else []

def fitsWithin (ok : α → Bool) [DecidableEq α] : List (Item α) → List α → Bool
  | [], text => text.isEmpty
  | .run :: items, text => (behindStretch ok text).any (fitsWithin ok items)
  | .one :: items, c :: text => ok c && fitsWithin ok items text
  | .lit l :: items, c :: text => decide (c = l) && fitsWithin ok items text
  | .one :: _, [] => false
  | .lit _ :: _, [] => false

theorem mem_behindStretch {ok : α → Bool} {rest : List α} : rest ∈ behindStretch ok text ↔
    ∃ stretch, text = stretch ++ rest ∧ ∀ c ∈ stretch, ok c = true := by
  induction text with
  | nil =>
      rw [behindStretch, List.mem_singleton]
      constructor
      · rintro rfl
        exact ⟨[], rfl, List.forall_mem_nil _⟩
      · intro given
        rcases given with ⟨stretch, whole, -⟩
        exact (List.append_eq_nil_iff.mp whole.symm).2
  | cons c text ih =>
      rw [behindStretch, List.mem_cons]
      constructor
      · intro given
        rcases given with rfl | later
        · exact ⟨[], rfl, List.forall_mem_nil _⟩
        · split at later
          · rename_i permitted
            obtain ⟨stretch, rfl, all⟩ := ih.mp later
            exact ⟨c :: stretch, rfl, List.forall_mem_cons.mpr ⟨permitted, all⟩⟩
          · exact absurd later List.not_mem_nil
      · intro given
        rcases given with ⟨_ | ⟨d, stretch⟩, whole, all⟩
        · exact .inl whole.symm
        · obtain ⟨rfl, rfl⟩ := List.cons.inj whole
          obtain ⟨permitted, later⟩ := List.forall_mem_cons.mp all
          rw [if_pos permitted]
          exact .inr (ih.mpr ⟨stretch, rfl, later⟩)

theorem fitsWithin_iff [DecidableEq α] {ok : α → Bool} :
    fitsWithin ok items text = true ↔ Fits (fun c => ok c = true) items text := by
  induction items generalizing text with
  | nil => rw [fitsWithin, fits_nil, List.isEmpty_iff]
  | cons item items ih =>
      cases item with
      | run =>
          rw [fitsWithin, fits_run, List.any_eq_true]
          simp only [mem_behindStretch, ih]
          constructor
          · intro given
            rcases given with ⟨rest, ⟨stretch, whole, all⟩, fits⟩
            exact ⟨stretch, rest, whole, all, fits⟩
          · intro given
            rcases given with ⟨stretch, rest, whole, all, fits⟩
            exact ⟨rest, ⟨stretch, whole, all⟩, fits⟩
      | one =>
          cases text with
          | nil => simp [fitsWithin]
          | cons c text => simp [fitsWithin, ih]
      | lit l =>
          cases text with
          | nil => simp [fitsWithin]
          | cons c text => simp [fitsWithin, ih]

/-! ## How often a letter stands outside the wildcards -/

/-- The letters that stand for themselves. -/
def letters : List (Item α) → List α
  | [] => []
  | .lit c :: items => c :: letters items
  | _ :: items => letters items

variable [DecidableEq α]

theorem Fits.count_letters_le (x : α) (fits : Fits ok items text) :
    (letters items).count x ≤ text.count x := by
  induction fits with
  | nil => exact Nat.le_refl _
  | done _ ih => exact ih
  | more _ _ ih => exact Nat.le_trans ih (List.count_le_count_cons ..)
  | one _ _ ih => exact Nat.le_trans ih (List.count_le_count_cons ..)
  | lit _ ih =>
      rw [letters, List.count_cons, List.count_cons]
      exact Nat.add_le_add_right ih _

theorem Fits.count_le_letters {x : α} (fits : Fits (fun c => ok c ∧ c ≠ x) items text) :
    text.count x ≤ (letters items).count x := by
  induction fits with
  | nil => exact Nat.le_refl _
  | done _ ih => exact ih
  | more permitted _ ih => rwa [List.count_cons_of_ne permitted.2]
  | one permitted _ ih => rwa [List.count_cons_of_ne permitted.2]
  | lit _ ih =>
      rw [letters, List.count_cons, List.count_cons]
      exact Nat.add_le_add_right ih _

/-- A letter is kept out of the wildcards just if the text has it no more often than the pattern. -/
theorem fits_without {x : α} (fits : Fits ok items text) :
    Fits (fun c => ok c ∧ c ≠ x) items text ↔ text.count x ≤ (letters items).count x := by
  refine ⟨Fits.count_le_letters, fun few => ?_⟩
  induction fits with
  | nil => exact .nil
  | done _ ih => exact .done (ih few)
  | @more items c text permitted rest ih =>
      have below := rest.count_letters_le x
      have other : c ≠ x := by
        rintro rfl
        rw [List.count_cons_self] at few
        omega
      rw [List.count_cons_of_ne other] at few
      exact .more ⟨permitted, other⟩ (ih few)
  | @one items c text permitted rest ih =>
      have below := rest.count_letters_le x
      have other : c ≠ x := by
        rintro rfl
        rw [List.count_cons_self, letters] at few
        · omega
        · simp
      rw [List.count_cons_of_ne other] at few
      exact .one ⟨permitted, other⟩ (ih few)
  | @lit items c text rest ih =>
      rw [letters, List.count_cons, List.count_cons] at few
      exact .lit (ih (Nat.le_of_add_le_add_right few))

end Wildcards
