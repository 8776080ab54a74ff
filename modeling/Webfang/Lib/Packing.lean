import Mathlib.Data.List.Basic
import Mathlib.Data.List.Flatten

/-!
# Pieces packed into bundles

Pieces are put together, with a separator between them, as long as they fit within a bound; a piece
that does not fit by itself is a bundle of its own.  A whole of which each part was cut down is
the same whole only if no part was.  A stretch of a whole is uncut when it lies in one piece.
-/

namespace Packing

variable {α : Type*} (sep : List α) (size : List α → Nat) (bound : Nat)

/-- The bundles behind one that is begun. -/
def pack : List α → List (List α) → List (List α)
  | current, [] => if current.isEmpty then [] else [current]
  | current, piece :: pieces =>
      if current.isEmpty then pack piece pieces
      else if bound < size current + size sep + size piece then current :: pack piece pieces
      else pack (current ++ sep ++ piece) pieces

variable {sep size bound} {current : List α} {pieces : List (List α)}

/-- What is no separator is kept, in order. -/
theorem filter_flatten_pack {keep : α → Bool} (blank : ∀ c ∈ sep, keep c = false) :
    (pack sep size bound current pieces).flatten.filter keep =
      (current ++ pieces.flatten).filter keep := by
  have noSep : sep.filter keep = [] := List.filter_eq_nil_iff.mpr fun c member => by
    rw [blank c member]
    exact Bool.false_ne_true
  induction pieces generalizing current with
  | nil =>
      rw [pack]
      split
      case isTrue none => rw [List.isEmpty_iff.mp none]; rfl
      case isFalse => rw [List.flatten_singleton, List.flatten_nil, List.append_nil]
  | cons piece pieces ih =>
      rw [pack]
      split
      case isTrue none =>
        rw [ih, List.isEmpty_iff.mp none, List.flatten_cons, List.nil_append]
      case isFalse =>
        split
        · rw [List.flatten_cons, List.filter_append, ih, List.filter_append, List.filter_append,
            List.flatten_cons, List.filter_append]
        · rw [ih, List.flatten_cons]
          simp only [List.filter_append, noSep, List.nil_append, List.append_assoc]

/-- A bundle fits within the bound, or is a piece. -/
theorem bounded_pack (additive : ∀ a b, size (a ++ b) = size a + size b) {single : List α → Prop}
    (each : ∀ piece ∈ pieces, single piece) (begun : size current ≤ bound ∨ single current) :
    ∀ bundle ∈ pack sep size bound current pieces, size bundle ≤ bound ∨ single bundle := by
  induction pieces generalizing current with
  | nil =>
      rw [pack]
      split
      case isTrue => exact fun bundle absent => absurd absent List.not_mem_nil
      case isFalse => exact List.forall_mem_singleton.mpr begun
  | cons piece pieces ih =>
      obtain ⟨here, later⟩ := List.forall_mem_cons.mp each
      rw [pack]
      split
      case isTrue => exact ih later (.inr here)
      case isFalse =>
        split
        case isTrue => exact List.forall_mem_cons.mpr ⟨begun, ih later (.inr here)⟩
        case isFalse fits =>
          refine ih later (.inl ?_)
          rw [additive, additive]
          omega

/-! ## Parts cut down -/

section Parts

variable {β : Type*} {less full : β → List α} {parts : List β}

theorem flatMap_eq_iff (cut : ∀ part ∈ parts, (less part).Sublist (full part)) :
    parts.flatMap less = parts.flatMap full ↔ ∀ part ∈ parts, less part = full part := by
  constructor
  · intro same
    induction parts with
    | nil => exact fun part absent => absurd absent List.not_mem_nil
    | cons part parts ih =>
        obtain ⟨here, later⟩ := List.forall_mem_cons.mp cut
        have shorter := here.length_le
        have shorterBehind := (List.Sublist.flatMap_right parts later).length_le
        have total := congrArg List.length same
        rw [List.flatMap_cons, List.flatMap_cons, List.length_append, List.length_append] at total
        have first : less part = full part := here.eq_of_length (by omega)
        have behind : parts.flatMap less = parts.flatMap full :=
          (List.Sublist.flatMap_right parts later).eq_of_length (by omega)
        exact List.forall_mem_cons.mpr ⟨first, ih later behind⟩
  · intro each
    exact List.flatMap_congr each

end Parts

/-! ## Stretches -/

section Stretches

/-- What stands from one place of the whole to another lies in one piece. -/
def Uncut (pieces : List (List α)) (start stop : Nat) : Prop :=
  ∃ before piece after, pieces = before ++ piece :: after ∧ before.flatten.length ≤ start ∧
    stop ≤ before.flatten.length + piece.length

variable {piece : List α} {front pieces : List (List α)} {start stop : Nat}

theorem uncut_cons : Uncut (piece :: pieces) start stop ↔ stop ≤ piece.length ∨
    piece.length ≤ start ∧ Uncut pieces (start - piece.length) (stop - piece.length) := by
  constructor
  · intro ⟨before, found, after, split, low, high⟩
    cases before with
    | nil =>
        obtain ⟨rfl, rfl⟩ := List.cons.inj split
        exact .inl (by simpa using high)
    | cons first before =>
        obtain ⟨rfl, rest⟩ := List.cons.inj split
        rw [List.flatten_cons, List.length_append] at low high
        exact .inr ⟨by omega, before, found, after, rest, by omega, by omega⟩
  · rintro (fits | ⟨behind, before, found, after, rfl, low, high⟩)
    · exact ⟨[], piece, pieces, rfl, Nat.zero_le _, by simpa using fits⟩
    · refine ⟨piece :: before, found, after, rfl, ?_, ?_⟩
      · rw [List.flatten_cons, List.length_append]
        omega
      · rw [List.flatten_cons, List.length_append]
        omega

theorem not_uncut_nil : ¬ Uncut ([] : List (List α)) start stop := by
  intro ⟨before, found, after, split, _⟩
  exact absurd split (by simp)

instance decidableUncut : (pieces : List (List α)) → (start stop : Nat) →
    Decidable (Uncut pieces start stop)
  | [], _, _ => isFalse not_uncut_nil
  | piece :: pieces, start, stop =>
      have := decidableUncut pieces (start - piece.length) (stop - piece.length)
      decidable_of_iff' _ uncut_cons

/-- A stretch behind some pieces lies in one of the others. -/
theorem uncut_append_left (some : start < stop) :
    Uncut (front ++ pieces) (front.flatten.length + start) (front.flatten.length + stop) ↔
      Uncut pieces start stop := by
  induction front with
  | nil => rw [List.nil_append, List.flatten_nil, List.length_nil, Nat.zero_add, Nat.zero_add]
  | cons first front ih =>
      rw [List.cons_append, uncut_cons, List.flatten_cons, List.length_append, ← ih]
      have startBehind : first.length + front.flatten.length + start - first.length =
          front.flatten.length + start := by omega
      have stopBehind : first.length + front.flatten.length + stop - first.length =
          front.flatten.length + stop := by omega
      rw [startBehind, stopBehind]
      constructor
      · rintro (fits | ⟨-, rest⟩)
        · omega
        · exact rest
      · exact fun rest => .inr ⟨by omega, rest⟩

/-- A stretch that ends before some pieces lies in none of them. -/
theorem uncut_append_right (some : start < stop) (inside : stop ≤ front.flatten.length) :
    Uncut (front ++ pieces) start stop ↔ Uncut front start stop := by
  induction front generalizing start stop with
  | nil => exact absurd inside (by simp; omega)
  | cons first front ih =>
      rw [List.cons_append, uncut_cons, uncut_cons]
      rw [List.flatten_cons, List.length_append] at inside
      refine or_congr_right (and_congr_right fun behind => ih ?_ ?_)
      · omega
      · omega

end Stretches

end Packing
