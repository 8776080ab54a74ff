import Mathlib.Algebra.Order.Group.Nat
import Mathlib.Algebra.GroupWithZero.Nat
import Mathlib.Algebra.BigOperators.Group.List.Basic

/-!
# Parties

The parties of a system are a list, one place for each party; a party moves by a `set` at its place.
What the parties hold together is a sum over the list, or what each of them holds, and a move
changes it by what the party holds.
-/

namespace Parties

variable {ρ : Type*} {parties : List ρ} {i : Nat} {party : ρ}

/-- A move changes the sum by the share of the party that moves. -/
theorem sum_set (share : ρ → Nat) (found : parties[i]? = some party) (moved : ρ) :
    ((parties.set i moved).map share).sum + share party =
      (parties.map share).sum + share moved := by
  induction parties generalizing i with
  | nil => cases found
  | cons first rest ih =>
      cases i with
      | zero =>
          cases found
          simp only [List.set_cons_zero, List.map_cons, List.sum_cons]
          omega
      | succ i =>
          have later := ih (i := i) found
          simp only [List.set_cons_succ, List.map_cons, List.sum_cons]
          omega

theorem sum_concat (share : ρ → Nat) (parties : List ρ) (party : ρ) :
    ((parties ++ [party]).map share).sum = (parties.map share).sum + share party := by
  rw [List.map_append, List.sum_append, List.map_singleton, List.sum_singleton]

/-- One by one the shares are at most others, and so are the sums. -/
theorem sum_le_sum {share other : ρ → Nat} (each : ∀ party ∈ parties, share party ≤ other party) :
    (parties.map share).sum ≤ (parties.map other).sum := by
  induction parties with
  | nil => exact le_refl _
  | cons first rest ih =>
      obtain ⟨here, later⟩ := List.forall_mem_cons.mp each
      simp only [List.map_cons, List.sum_cons]
      exact Nat.add_le_add here (ih later)

/-- Where one has a share, the sum is not zero; so none has where it is. -/
theorem sum_eq_zero_iff {share : ρ → Nat} :
    (parties.map share).sum = 0 ↔ ∀ party ∈ parties, share party = 0 := by
  induction parties with
  | nil => simp
  | cons first rest ih =>
      rw [List.map_cons, List.sum_cons, Nat.add_eq_zero_iff, ih, List.forall_mem_cons]

/-- What holds of all parties and of the party that has moved holds of all behind the move. -/
theorem forall_mem_set {P : ρ → Prop} (all : ∀ party ∈ parties, P party) {moved : ρ}
    (here : P moved) : ∀ party ∈ parties.set i moved, P party := by
  intro party member
  rcases List.mem_or_eq_of_mem_set member with before | rfl
  · exact all party before
  · exact here

/-- What the party that moves keeps, the parties keep. -/
theorem map_set_same {β : Type*} (f : ρ → β) (found : parties[i]? = some party) {moved : ρ}
    (same : f moved = f party) : (parties.set i moved).map f = parties.map f := by
  obtain ⟨inside, rfl⟩ := List.getElem?_eq_some_iff.mp found
  rw [List.map_set, same, ← List.getElem_map f (h := by rwa [List.length_map]),
    List.set_getElem_self]

/-- A party that has moved is one of all. -/
theorem mem_set_self (found : parties[i]? = some party) (moved : ρ) : moved ∈ parties.set i moved := by
  refine List.mem_iff_getElem?.mpr ⟨i, ?_⟩
  rw [List.getElem?_set_self (List.getElem?_eq_some_iff.mp found).1]

/-- The others are where they were. -/
theorem mem_set_of_ne (found : parties[i]? = some party) {other : ρ} (inside : other ∈ parties)
    (ne : other ≠ party) (moved : ρ) : other ∈ parties.set i moved := by
  obtain ⟨j, there⟩ := List.mem_iff_getElem?.mp inside
  refine List.mem_iff_getElem?.mpr ⟨j, ?_⟩
  rw [List.getElem?_set_ne, there]
  rintro rfl
  exact ne (Option.some.inj (there.symm.trans found))

theorem forall_mem_concat {P : ρ → Prop} (all : ∀ party ∈ parties, P party)
    (here : P party) : ∀ other ∈ parties ++ [party], P other := by
  intro other member
  rcases List.mem_append.mp member with before | last
  · exact all other before
  · rwa [List.mem_singleton.mp last]

/-- A move changes what the parties hold by what the party holds, wherever it stands. -/
theorem filterMap_set_perm {β : Type*} (held : ρ → Option β) (found : parties[i]? = some party)
    (moved : ρ) : ((parties.set i moved).filterMap held ++ (held party).toList).Perm
      (parties.filterMap held ++ (held moved).toList) := by
  have cut (first : ρ) (rest : List ρ) :
      (first :: rest).filterMap held = (held first).toList ++ rest.filterMap held := by
    rw [List.filterMap_cons]
    cases held first <;> rfl
  induction parties generalizing i with
  | nil => cases found
  | cons first rest ih =>
      cases i with
      | zero =>
          cases found
          rw [List.set_cons_zero, cut, cut]
          refine (List.perm_append_comm.append_right _).trans ?_
          rw [List.append_assoc, List.append_assoc]
          refine (List.perm_append_comm.append_left _).trans ?_
          rw [← List.append_assoc, ← List.append_assoc]
          exact List.perm_append_comm.append_right _
      | succ i =>
          rw [List.set_cons_succ, cut, cut, List.append_assoc, List.append_assoc]
          exact (ih found).append_left _

end Parties
