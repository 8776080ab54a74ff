import Mathlib.Tactic.Common

/-!
# Attempts

A call makes one attempt after the other until one settles it or none is left.  An attempt takes
requests, numbered through the whole call, and ends in a verdict and the number of the next
request.  Two ways to judge attempts give the same calls just where they agree on every attempt
that is made.
-/

namespace Attempts

variable {α ε : Type*}

/-- An attempt settles the call, or it fails and the next one is made. -/
inductive Verdict (α ε : Type*)
  | settled (result : Except ε α)
  | again (failure : ε)

/-- The call from attempt `k` and request `n` on, with this many attempts left behind that one: its
result and the number of requests. -/
def run (attempt : Nat → Nat → Verdict α ε × Nat) : Nat → Nat → Nat → Except ε α × Nat
  | left, k, n =>
      match attempt k n with
      | (.settled result, next) => (result, next)
      | (.again failure, next) =>
          match left with
          | 0 => (.error failure, next)
          | left + 1 => run attempt left (k + 1) next

/-- Attempt `k` is made, and begins with request `n`. -/
inductive Made (attempt : Nat → Nat → Verdict α ε × Nat) (retries : Nat) : Nat → Nat → Prop
  | first : Made attempt retries 0 0
  | next {k n next : Nat} {failure : ε} (made : Made attempt retries k n) (left : k < retries)
      (again : attempt k n = (.again failure, next)) : Made attempt retries (k + 1) next

/-- The verdicts come to the same result; on the last attempt a failure is one. -/
def Agree (last : Prop) : Verdict α ε → Verdict α ε → Prop
  | .settled result, .settled result' => result = result'
  | .again failure, .again failure' => last → failure = failure'
  | .settled result, .again failure => last ∧ result = .error failure
  | .again failure, .settled result => last ∧ result = .error failure

variable {attempt attempt' : Nat → Nat → Verdict α ε × Nat}

theorem run_settled {left k n next : Nat} {result : Except ε α}
    (settled : attempt k n = (.settled result, next)) : run attempt left k n = (result, next) := by
  rw [run, settled]

theorem run_last {k n next : Nat} {failure : ε} (again : attempt k n = (.again failure, next)) :
    run attempt 0 k n = (.error failure, next) := by
  rw [run, again]

theorem run_again {left k n next : Nat} {failure : ε}
    (again : attempt k n = (.again failure, next)) :
    run attempt (left + 1) k n = run attempt left (k + 1) next := by
  rw [run, again]

/-- A call sends the requests of its attempts. -/
theorem lt_run (sends : ∀ k n, n < (attempt k n).2) (left k n : Nat) :
    n < (run attempt left k n).2 := by
  induction left generalizing k n with
  | zero =>
      have here := sends k n
      rw [run]
      split <;> rename_i judged <;> rw [judged] at here <;> exact here
  | succ left ih =>
      have here := sends k n
      rw [run]
      split <;> rename_i judged <;> rw [judged] at here
      · exact here
      · exact Nat.lt_trans here (ih (k + 1) _)

/-- Where every attempt but the first sends at most one request, a call sends at most one for each
attempt more than its first attempt does. -/
theorem run_le {left k n : Nat} (one : ∀ k n, 0 < k → (attempt k n).2 ≤ n + 1) :
    (run attempt left k n).2 ≤ (attempt k n).2 + left := by
  induction left generalizing k n with
  | zero =>
      rw [run]
      split <;> rename_i judged <;> rw [judged] <;> exact Nat.le_refl _
  | succ left ih =>
      rw [run]
      split <;> rename_i judged <;> rw [judged]
      · exact Nat.le_add_right _ _
      · rename_i failure next
        have later := ih (k := k + 1) (n := next)
        have single := one (k + 1) next (Nat.succ_pos k)
        dsimp only
        omega

/-- The call goes on from each attempt it makes. -/
theorem Made.run_eq {retries k n : Nat} (made : Made attempt retries k n) :
    k ≤ retries ∧ run attempt retries 0 0 = run attempt (retries - k) k n := by
  induction made with
  | first => exact ⟨Nat.zero_le _, rfl⟩
  | next made left again ih =>
      rename_i k n next failure
      refine ⟨left, ih.2.trans ?_⟩
      rw [show retries - k = retries - (k + 1) + 1 by omega, run_again again]

section Compare

variable (sends : ∀ k n, n < (attempt k n).2) (sends' : ∀ k n, n < (attempt' k n).2)
  (same : ∀ k n, (attempt k n).2 = (attempt' k n).2)

include sends sends' same in
/-- Equal calls agree on their attempt, and are equal from the next one on where there is one. -/
theorem agree_of_run_eq {left k n : Nat} (equal : run attempt left k n = run attempt' left k n) :
    Agree (left = 0) (attempt k n).1 (attempt' k n).1 ∧
      ∀ less failure next, left = less + 1 → attempt k n = (.again failure, next) →
        run attempt less (k + 1) next = run attempt' less (k + 1) next := by
  have counts := same k n
  rcases judged : attempt k n with ⟨_ | _, next⟩ <;>
    rcases judged' : attempt' k n with ⟨_ | _, next'⟩ <;>
      rw [judged, judged'] at counts <;> dsimp only at counts <;> subst counts
  · rw [run_settled judged, run_settled judged'] at equal
    exact ⟨congrArg Prod.fst equal, fun _ _ _ _ other => by cases other⟩
  · rename_i result failure
    cases left with
    | zero =>
        rw [run_settled judged, run_last judged'] at equal
        exact ⟨⟨rfl, congrArg Prod.fst equal⟩, fun _ _ _ _ other => by cases other⟩
    | succ left =>
        rw [run_settled judged, run_again judged'] at equal
        have more := lt_run sends' left (k + 1) next
        rw [← equal] at more
        exact absurd more (Nat.lt_irrefl _)
  · rename_i failure result
    cases left with
    | zero =>
        rw [run_last judged, run_settled judged'] at equal
        exact ⟨⟨rfl, (congrArg Prod.fst equal).symm⟩, fun _ _ _ none _ => by cases none⟩
    | succ left =>
        rw [run_again judged, run_settled judged'] at equal
        have more := lt_run sends left (k + 1) next
        rw [equal] at more
        exact absurd more (Nat.lt_irrefl _)
  · rename_i failure failure'
    cases left with
    | zero =>
        rw [run_last judged, run_last judged'] at equal
        refine ⟨fun _ => ?_, fun _ _ _ none _ => by cases none⟩
        exact Except.error.inj (congrArg Prod.fst equal)
    | succ left =>
        rw [run_again judged, run_again judged'] at equal
        refine ⟨fun none => absurd none (Nat.succ_ne_zero left), fun less other next' some again => ?_⟩
        cases some
        cases again
        exact equal

include same in
/-- Calls that agree on their attempt are equal where they are equal from the next one on. -/
theorem run_eq_of_agree {left k n : Nat}
    (agree : Agree (left = 0) (attempt k n).1 (attempt' k n).1)
    (later : ∀ less failure next, left = less + 1 → attempt k n = (.again failure, next) →
      run attempt less (k + 1) next = run attempt' less (k + 1) next) :
    run attempt left k n = run attempt' left k n := by
  have counts := same k n
  rcases judged : attempt k n with ⟨_ | _, next⟩ <;>
    rcases judged' : attempt' k n with ⟨_ | _, next'⟩ <;>
      rw [judged, judged'] at counts agree <;> dsimp only at counts <;> subst counts
  · rw [run_settled judged, run_settled judged', show _ = _ from agree]
  · obtain ⟨rfl, equal⟩ := agree
    rw [run_settled judged, run_last judged', equal]
  · obtain ⟨rfl, equal⟩ := agree
    rw [run_last judged, run_settled judged', equal]
  · cases left with
    | zero => rw [run_last judged, run_last judged', show _ = _ from agree rfl]
    | succ left =>
        rw [run_again judged, run_again judged']
        exact later left _ next rfl judged

include sends sends' same in
/-- Two ways to judge attempts give the same call just where they agree on each attempt made. -/
theorem run_eq_iff (retries : Nat) :
    run attempt retries 0 0 = run attempt' retries 0 0 ↔
      ∀ k n, Made attempt retries k n → Agree (k = retries) (attempt k n).1 (attempt' k n).1 := by
  constructor
  · intro equal
    have along : ∀ k n, Made attempt retries k n → k ≤ retries ∧
        run attempt (retries - k) k n = run attempt' (retries - k) k n := by
      intro k n made
      induction made with
      | first => exact ⟨Nat.zero_le _, equal⟩
      | next made left again ih =>
          rename_i k n next failure
          refine ⟨left, (agree_of_run_eq sends sends' same ih.2).2 (retries - (k + 1)) failure next
            ?_ again⟩
          omega
    intro k n made
    obtain ⟨bound, here⟩ := along k n made
    have agree := (agree_of_run_eq sends sends' same here).1
    rwa [show (retries - k = 0) = (k = retries) from propext (by omega)] at agree
  · intro agree
    have back : ∀ left k n, k + left = retries → Made attempt retries k n →
        run attempt left k n = run attempt' left k n := by
      intro left
      induction left with
      | zero =>
          intro k n last made
          refine run_eq_of_agree same ?_ fun _ _ _ none _ => by cases none
          rw [show ((0 : Nat) = 0) = (k = retries) from propext (by omega)]
          exact agree k n made
      | succ left ih =>
          intro k n total made
          refine run_eq_of_agree same ?_ fun less failure next some again => ?_
          · rw [show (left + 1 = 0) = (k = retries) from propext (by omega)]
            exact agree k n made
          · cases some
            exact ih (k + 1) next (by omega) (made.next (by omega) again)
    exact back retries 0 0 (by omega) .first

end Compare

end Attempts
