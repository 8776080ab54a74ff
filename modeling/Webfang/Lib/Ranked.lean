import Mathlib

/-!
# Ranked writes

A slot holds a value with the rank of the source that set it, and an offer takes the slot when it
ranks strictly above what is there.  After any number of offers the slot holds the first of the
highest rank among them, whatever the order they came in when no two rank alike.
-/

namespace Ranked

variable {ρ α : Type}

/-- A value and the rank of its source. -/
structure Slot (ρ α : Type) where
  value : α
  source : ρ
  deriving DecidableEq

variable [LinearOrder ρ]

def write (slot offer : Slot ρ α) : Slot ρ α :=
  if slot.source < offer.source then offer else slot

/-- The first offer of the highest rank. -/
def Prevails (offers : List (Slot ρ α)) (slot : Slot ρ α) : Prop :=
  ∃ before after, offers = before ++ slot :: after ∧
    (∀ offer ∈ before, offer.source < slot.source) ∧ ∀ offer ∈ after, offer.source ≤ slot.source

variable {offers : List (Slot ρ α)} {slot offer : Slot ρ α}

theorem Prevails.mem (prevails : Prevails offers slot) : slot ∈ offers := by
  obtain ⟨before, after, rfl, _, _⟩ := prevails
  simp

theorem Prevails.le (prevails : Prevails offers slot) (member : offer ∈ offers) :
    offer.source ≤ slot.source := by
  obtain ⟨before, after, rfl, below, notAbove⟩ := prevails
  rcases List.mem_append.mp member with earlier | rest
  · exact le_of_lt (below offer earlier)
  · rcases List.mem_cons.mp rest with rfl | later
    · exact le_refl _
    · exact notAbove offer later

theorem Prevails.write (prevails : Prevails offers slot) (offer : Slot ρ α) :
    Prevails (offers ++ [offer]) (write slot offer) := by
  unfold Ranked.write
  split
  next above =>
      refine ⟨offers, [], rfl, fun earlier member => ?_, by simp⟩
      exact lt_of_le_of_lt (prevails.le member) above
  next kept =>
      obtain ⟨before, after, rfl, below, notAbove⟩ := prevails
      refine ⟨before, after ++ [offer], by simp, below, fun later member => ?_⟩
      rcases List.mem_append.mp member with old | new
      · exact notAbove later old
      · rw [List.mem_singleton.mp new]
        exact not_lt.mp kept

theorem Prevails.foldl (prevails : Prevails offers slot) (later : List (Slot ρ α)) :
    Prevails (offers ++ later) (later.foldl Ranked.write slot) := by
  induction later generalizing offers slot with
  | nil => rwa [List.append_nil]
  | cons offer later ih =>
      rw [List.append_cons, List.foldl_cons]
      exact ih (prevails.write offer)

/-- What is in the slot after the offers prevails over them. -/
theorem prevails_foldl (slot : Slot ρ α) (offers : List (Slot ρ α)) :
    Prevails (slot :: offers) (offers.foldl write slot) :=
  have alone : Prevails [slot] slot := ⟨[], [], rfl, by simp, by simp⟩
  alone.foldl offers

theorem Prevails.unique {slot' : Slot ρ α} (prevails : Prevails offers slot)
    (prevails' : Prevails offers slot') : slot = slot' := by
  have level : slot.source = slot'.source :=
    le_antisymm (prevails'.le prevails.mem) (prevails.le prevails'.mem)
  obtain ⟨before, after, rfl, below, _⟩ := prevails
  obtain ⟨before', after', same, below', _⟩ := prevails'
  rcases List.append_eq_append_iff.mp same with ⟨gap, rfl, rest⟩ | ⟨gap, rfl, rest⟩
  · cases gap with
    | nil => exact (List.cons.inj rest).1
    | cons first gap =>
        obtain ⟨rfl, _⟩ := List.cons.inj rest
        have lower := below' slot (by simp)
        rw [level] at lower
        exact absurd lower (lt_irrefl _)
  · cases gap with
    | nil => exact (List.cons.inj rest).1.symm
    | cons first gap =>
        obtain ⟨rfl, _⟩ := List.cons.inj rest
        have lower := below slot' (by simp)
        rw [level] at lower
        exact absurd lower (lt_irrefl _)

/-- Where no two offers rank alike, their order does not matter. -/
theorem Prevails.perm {offers' : List (Slot ρ α)} (prevails : Prevails offers slot)
    (same : offers.Perm offers') (apart : (offers.map Slot.source).Nodup) :
    Prevails offers' slot := by
  obtain ⟨before, after, split⟩ := List.append_of_mem (same.mem_iff.mp prevails.mem)
  have apart' : (offers'.map Slot.source).Nodup := (same.map _).nodup_iff.mp apart
  refine ⟨before, after, split, fun offer earlier => ?_, fun offer later => ?_⟩
  · refine lt_of_le_of_ne (prevails.le (same.mem_iff.mpr (by simp [split, earlier]))) ?_
    rw [split, List.map_append, List.map_cons] at apart'
    intro level
    exact (List.nodup_append.mp apart').2.2 _ (List.mem_map_of_mem earlier) _
      List.mem_cons_self level
  · exact prevails.le (same.mem_iff.mpr (by simp [split, later]))

end Ranked
