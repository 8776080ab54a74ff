import Mathlib.Data.List.DropRight
import Mathlib.Data.List.Infix

/-!
# Segments

A text is cut at every symbol of a kind, and a segment is stripped of such symbols at its ends.
-/

namespace Segments

variable {α : Type*} {p : α → Bool} {text : List α}

/-! ## Cut texts -/

/-- A segment holds none of the symbols that the text is cut at. -/
theorem of_mem_splitOnP {segment : List α} (member : segment ∈ text.splitOnP p) :
    (∀ c ∈ segment, p c = false) ∧ segment.Sublist text := by
  induction text generalizing segment with
  | nil =>
      rw [List.splitOnP_nil, List.mem_singleton] at member
      rw [member]
      exact ⟨fun c inside => absurd inside List.not_mem_nil, List.Sublist.refl []⟩
  | cons x text ih =>
      rw [List.splitOnP_cons_eq_if_modifyHead] at member
      split at member
      case isTrue cut =>
        rcases List.mem_cons.1 member with rfl | later
        · exact ⟨fun c inside => absurd inside List.not_mem_nil, List.nil_sublist _⟩
        · exact (ih later).imp_right (List.Sublist.cons x)
      case isFalse whole =>
        obtain ⟨first, rest, segments⟩ :=
          List.exists_cons_of_ne_nil (List.splitOnP_ne_nil p text)
        rw [segments] at member ih
        rcases List.mem_cons.1 member with rfl | later
        · obtain ⟨clean, sublist⟩ := ih List.mem_cons_self
          refine ⟨fun c inside => ?_, sublist.cons_cons x⟩
          rcases List.mem_cons.1 inside with rfl | inside
          · exact Bool.eq_false_iff.2 whole
          · exact clean c inside
        · exact (ih (List.mem_cons_of_mem _ later)).imp_right (List.Sublist.cons x)

theorem of_mem_splitOn [DecidableEq α] {sep : α} {segment : List α}
    (member : segment ∈ text.splitOn sep) : sep ∉ segment ∧ segment.Sublist text := by
  rw [List.splitOn_eq_splitOnP] at member
  refine (of_mem_splitOnP member).imp_left fun clean inside => ?_
  simpa using clean sep inside

/-! ## Stripped ends -/

theorem strip_sublist (p : α → Bool) (text : List α) :
    ((text.dropWhile p).rdropWhile p).Sublist text :=
  (List.rdropWhile_prefix p _).sublist.trans (List.dropWhile_suffix p).sublist

/-- A text that is left whole. -/
theorem strip_eq_self (first : ∀ c, text.head? = some c → p c = false)
    (last : ∀ c, text.getLast? = some c → p c = false) :
    (text.dropWhile p).rdropWhile p = text := by
  have start : text.dropWhile p = text := by
    cases text with
    | nil => rfl
    | cons c text => exact List.dropWhile_cons_of_neg (by simp [first c rfl])
  rw [start, List.rdropWhile_eq_self_iff]
  intro nonempty
  rw [Bool.not_eq_true]
  exact last _ (List.getLast?_eq_getLast_of_ne_nil nonempty)

/-- The ends of a text that is left over. -/
theorem ends_of_strip {rest : List α} (same : (text.dropWhile p).rdropWhile p = rest)
    (nonempty : rest ≠ []) :
    (∀ c, rest.head? = some c → p c = false) ∧ ∀ c, rest.getLast? = some c → p c = false := by
  subst same
  constructor
  · intro c first
    obtain ⟨more, whole⟩ := List.rdropWhile_prefix p (text.dropWhile p)
    have head : (text.dropWhile p).head? = some c := by
      rw [← whole, List.head?_append, first]
      rfl
    obtain ⟨d, tail, cons⟩ : ∃ d tail, text.dropWhile p = d :: tail := by
      cases dropped : text.dropWhile p with
      | nil => rw [dropped] at head; cases head
      | cons d tail => exact ⟨d, tail, rfl⟩
    rw [cons] at head
    cases head
    have stops := List.head_dropWhile_not p (l := text) (by rw [cons]; exact List.cons_ne_nil _ _)
    simpa only [cons, List.head_cons] using stops
  · intro c last
    have stops := List.rdropWhile_last_not p (text.dropWhile p) nonempty
    rw [List.getLast?_eq_getLast_of_ne_nil nonempty, Option.some.injEq] at last
    rw [last] at stops
    exact Bool.eq_false_iff.2 stops

/-- What is stripped may stand around a text. -/
theorem strip_between {c d : α} (before : p c = true) (behind : p d = true)
    (text : List α) :
    ((c :: (text ++ [d])).dropWhile p).rdropWhile p = (text.dropWhile p).rdropWhile p := by
  rw [List.dropWhile_cons_of_pos before, List.dropWhile_append]
  split
  case isTrue all =>
    rw [List.isEmpty_iff] at all
    rw [all, List.dropWhile_cons_of_pos behind]
    rfl
  case isFalse some_left => rw [List.rdropWhile_concat_pos _ _ _ behind]

end Segments
