import Mathlib.Logic.Basic
import Mathlib.Data.List.Basic

/-!
# Executions of a step function

A system is a step function `step : σ → α → Option σ`: an action either is enabled
and leads to one state, or is refused.  `execute` runs a list of actions, `Along`
states a property of every state the run acts in together with the action it takes
there.  The rules below turn what one step preserves into what a whole run
preserves, with or without a condition on the steps.
-/

namespace StepSystem

variable {σ α : Type*} {step : σ → α → Option σ}

/-- Run the actions in order; a refused action refuses the run. -/
def execute (step : σ → α → Option σ) : σ → List α → Option σ
  | s, [] => some s
  | s, a :: as => (step s a).bind fun s' => execute step s' as

/-- `P` holds of every state the run acts in, with the action taken there. -/
def Along (step : σ → α → Option σ) (P : σ → α → Prop) : σ → List α → Prop
  | _, [] => True
  | s, a :: as => P s a ∧ ∀ s', step s a = some s' → Along step P s' as

@[simp] theorem execute_nil (s : σ) : execute step s [] = some s := rfl

theorem execute_cons (s : σ) (a : α) (as : List α) :
    execute step s (a :: as) = (step s a).bind fun s' => execute step s' as := rfl

theorem execute_cons_eq_some {s t : σ} {a : α} {as : List α} :
    execute step s (a :: as) = some t ↔
      ∃ s', step s a = some s' ∧ execute step s' as = some t := by
  rw [execute_cons, Option.bind_eq_some_iff]

theorem execute_append (s : σ) (as bs : List α) :
    execute step s (as ++ bs) = (execute step s as).bind fun s' => execute step s' bs := by
  induction as generalizing s with
  | nil => rfl
  | cons a as ih =>
      simp only [List.cons_append, execute_cons, Option.bind_assoc]
      exact congrArg _ (funext fun s' => ih s')

theorem execute_append_eq_some {s t : σ} {as bs : List α} :
    execute step s (as ++ bs) = some t ↔
      ∃ m, execute step s as = some m ∧ execute step m bs = some t := by
  rw [execute_append, Option.bind_eq_some_iff]

@[simp] theorem along_nil {P : σ → α → Prop} (s : σ) : Along step P s [] := True.intro

theorem along_cons {P : σ → α → Prop} {s : σ} {a : α} {as : List α} :
    Along step P s (a :: as) ↔
      P s a ∧ ∀ s', step s a = some s' → Along step P s' as := Iff.rfl

/-- A condition that can be checked at every step can be checked along a run. -/
instance Along.decidable {P : σ → α → Prop} [∀ s a, Decidable (P s a)] :
    (as : List α) → (s : σ) → Decidable (Along step P s as)
  | [], _ => .isTrue True.intro
  | a :: as, s =>
      match next : step s a with
      | none => decidable_of_iff (P s a) (by simp [along_cons, next])
      | some s' =>
          have : Decidable (Along step P s' as) := Along.decidable as s'
          decidable_of_iff (P s a ∧ Along step P s' as) (by simp [along_cons, next])

/-- An enabled action that meets the condition, before a run along which it holds. -/
theorem Along.cons {P : σ → α → Prop} {s s' : σ} {a : α} {as : List α} (here : P s a)
    (next : step s a = some s') (rest : Along step P s' as) : Along step P s (a :: as) := by
  refine ⟨here, fun t next' => ?_⟩
  rw [next, Option.some.injEq] at next'
  exact next' ▸ rest

theorem Along.mono {P Q : σ → α → Prop} (weaken : ∀ s a, P s a → Q s a) {s : σ}
    {as : List α} (along : Along step P s as) : Along step Q s as := by
  induction as generalizing s with
  | nil => trivial
  | cons a as ih => exact ⟨weaken s a along.1, fun s' next => ih (along.2 s' next)⟩

/-- A condition that every action of the run meets holds along it. -/
theorem Along.of_forall {P : σ → α → Prop} {as : List α} (all : ∀ a ∈ as, ∀ s, P s a) (s : σ) :
    Along step P s as := by
  induction as generalizing s with
  | nil => trivial
  | cons a as ih =>
      exact ⟨all a (List.mem_cons_self ..) s,
        fun s' _ => ih (fun b later => all b (List.mem_cons_of_mem _ later)) s'⟩

theorem Along.and {P Q : σ → α → Prop} {s : σ} {as : List α} (left : Along step P s as)
    (right : Along step Q s as) : Along step (fun s a => P s a ∧ Q s a) s as := by
  induction as generalizing s with
  | nil => trivial
  | cons a as ih =>
      exact ⟨⟨left.1, right.1⟩, fun s' next => ih (left.2 s' next) (right.2 s' next)⟩

theorem along_append {P : σ → α → Prop} {s : σ} {as bs : List α} :
    Along step P s (as ++ bs) ↔
      Along step P s as ∧ ∀ m, execute step s as = some m → Along step P m bs := by
  induction as generalizing s with
  | nil => simp
  | cons a as ih =>
      simp only [List.cons_append, along_cons, ih, execute_cons_eq_some]
      constructor
      · rintro ⟨here, later⟩
        refine ⟨⟨here, fun s' next => (later s' next).1⟩, ?_⟩
        rintro m ⟨s', next, run⟩
        exact (later s' next).2 m run
      · rintro ⟨⟨here, later⟩, rest⟩
        exact ⟨here, fun s' next => ⟨later s' next, fun m run => rest m ⟨s', next, run⟩⟩⟩

/-! ## Invariant rules -/

/-- What every enabled step preserves, every run preserves. -/
theorem execute_invariant {I : σ → Prop}
    (preserved : ∀ s a s', I s → step s a = some s' → I s')
    {s t : σ} {as : List α} (run : execute step s as = some t) (init : I s) : I t := by
  induction as generalizing s with
  | nil => cases run; exact init
  | cons a as ih =>
      obtain ⟨s', next, rest⟩ := execute_cons_eq_some.mp run
      exact ih rest (preserved s a s' init next)

/-- Where every step takes from a measure, a run has at most so many steps. -/
theorem length_add_measure_le {I : σ → Prop} {measure : σ → Nat}
    (preserved : ∀ s a s', I s → step s a = some s' → I s')
    (decreases : ∀ s a s', I s → step s a = some s' → measure s' < measure s)
    {s t : σ} {as : List α} (run : execute step s as = some t) (init : I s) :
    as.length + measure t ≤ measure s := by
  induction as generalizing s with
  | nil =>
      cases run
      exact Nat.le_of_eq (Nat.zero_add _)
  | cons a as ih =>
      obtain ⟨s', next, rest⟩ := execute_cons_eq_some.mp run
      have less := decreases s a s' init next
      have later := ih rest (preserved s a s' init next)
      rw [List.length_cons]
      omega

/-- Where every step takes from a measure and some actions add `c` to it, a run has at most so many
steps. -/
theorem length_add_measure_le_countP {I : σ → Prop} {measure : σ → Nat} {p : α → Bool} {c : Nat}
    (preserved : ∀ s a s', I s → step s a = some s' → I s')
    (decreases : ∀ s a s', I s → step s a = some s' →
      measure s' + 1 ≤ measure s + if p a then c else 0)
    {s t : σ} {as : List α} (run : execute step s as = some t) (init : I s) :
    as.length + measure t ≤ measure s + c * as.countP p := by
  induction as generalizing s with
  | nil =>
      cases run
      exact Nat.le_of_eq (Nat.zero_add _)
  | cons a as ih =>
      obtain ⟨s', next, rest⟩ := execute_cons_eq_some.mp run
      have less := decreases s a s' init next
      have later := ih rest (preserved s a s' init next)
      rw [List.length_cons, List.countP_cons, Nat.mul_add]
      by_cases chosen : p a = true
      · rw [if_pos chosen] at less ⊢
        omega
      · rw [if_neg chosen] at less ⊢
        omega

/-- What every step meeting `P` preserves, every run whose steps all meet `P` preserves. -/
theorem execute_invariant_along {I : σ → Prop} {P : σ → α → Prop}
    (preserved : ∀ s a s', I s → P s a → step s a = some s' → I s')
    {s t : σ} {as : List α} (run : execute step s as = some t)
    (along : Along step P s as) (init : I s) : I t := by
  induction as generalizing s with
  | nil => cases run; exact init
  | cons a as ih =>
      obtain ⟨s', next, rest⟩ := execute_cons_eq_some.mp run
      exact ih rest (along.2 s' next) (preserved s a s' init along.1 next)

/-- An invariant kept by the steps that meet `P` carries a consequence along the run. -/
theorem Along.of_invariant {I : σ → Prop} {P Q : σ → α → Prop}
    (preserved : ∀ s a s', I s → P s a → step s a = some s' → I s')
    (gives : ∀ s a, I s → P s a → Q s a) {s : σ} {as : List α}
    (along : Along step P s as) (init : I s) : Along step Q s as := by
  induction as generalizing s with
  | nil => trivial
  | cons a as ih =>
      exact ⟨gives s a init along.1,
        fun s' next => ih (along.2 s' next) (preserved s a s' init along.1 next)⟩

/-- Where each step, other than to a state that is done, stays good exactly when it meets the
condition, a run that is not done ends good exactly when its steps meet it. -/
theorem good_iff_along {I Done Good : σ → Prop} {P : σ → α → Prop}
    (preserved : ∀ s a s', I s → step s a = some s' → I s')
    (done : ∀ s a s', Done s → step s a ≠ some s')
    (exact_ : ∀ s a s', I s → step s a = some s' → ¬ Done s' → (Good s' ↔ Good s ∧ P s a))
    {s t : σ} {as : List α} (run : execute step s as = some t) (open_ : ¬ Done t) (init : I s) :
    Good t ↔ Good s ∧ Along step P s as := by
  induction as generalizing s with
  | nil =>
      cases run
      exact (and_iff_left True.intro).symm
  | cons a as ih =>
      obtain ⟨s', next, rest⟩ := execute_cons_eq_some.mp run
      have underway : ¬ Done s' := by
        intro finished
        cases as with
        | nil =>
            cases rest
            exact open_ finished
        | cons b bs =>
            obtain ⟨s'', later, -⟩ := execute_cons_eq_some.mp rest
            exact done s' b s'' finished later
      have later : (∀ m, step s a = some m → Along step P m as) ↔ Along step P s' as := by
        rw [next]
        simp
      rw [ih rest (preserved s a s' init next), exact_ s a s' init next underway, along_cons, later,
        and_assoc]

/-! ## States a run goes through -/

/-- A run goes through the state: some of its first actions lead there. -/
def Reached (step : σ → α → Option σ) (s : σ) (as : List α) (t : σ) : Prop :=
  ∃ bs, bs <+: as ∧ execute step s bs = some t

theorem reached_start (s : σ) (as : List α) : Reached step s as s := ⟨[], List.nil_prefix, rfl⟩

theorem reached_cons {s t : σ} {a : α} {as : List α} :
    Reached step s (a :: as) t ↔ t = s ∨ ∃ s', step s a = some s' ∧ Reached step s' as t := by
  constructor
  · intro ⟨bs, early, run⟩
    cases bs with
    | nil => exact .inl (Option.some.inj run).symm
    | cons b bs =>
        obtain ⟨rfl, earlier⟩ := List.cons_prefix_cons.mp early
        obtain ⟨s', next, rest⟩ := execute_cons_eq_some.mp run
        exact .inr ⟨s', next, bs, earlier, rest⟩
  · intro either
    rcases either with rfl | ⟨s', next, bs, early, run⟩
    · exact reached_start t (a :: as)
    · exact ⟨a :: bs, List.cons_prefix_cons.mpr ⟨rfl, early⟩,
        execute_cons_eq_some.mpr ⟨s', next, run⟩⟩

/-- Where an invariant tells exactly which of the steps that meet `W` stay good, all states of a
run of such steps are good exactly when its steps meet the condition. -/
theorem reached_good_iff_along {I Good : σ → Prop} {P W : σ → α → Prop}
    (preserved : ∀ s a s', I s → Good s → W s a → step s a = some s' → Good s' → I s')
    (exact_ : ∀ s a s', I s → Good s → W s a → step s a = some s' → (Good s' ↔ P s a))
    (refused : ∀ s a, step s a = none → P s a)
    {s : σ} (init : I s) (good : Good s) {as : List α} (along : Along step W s as) :
    (∀ t, Reached step s as t → Good t) ↔ Along step P s as := by
  induction as generalizing s with
  | nil =>
      refine iff_of_true (fun t reached => ?_) True.intro
      obtain ⟨bs, early, run⟩ := reached
      cases List.prefix_nil.mp early
      cases run
      exact good
  | cons a as ih =>
      obtain ⟨met, rest⟩ := along_cons.mp along
      simp only [reached_cons, along_cons]
      constructor
      · intro all
        constructor
        · cases next : step s a with
          | none => exact refused s a next
          | some s' =>
              exact (exact_ s a s' init good met next).mp
                (all s' (.inr ⟨s', next, reached_start s' as⟩))
        · intro s' next
          have good' := all s' (.inr ⟨s', next, reached_start s' as⟩)
          exact (ih (preserved s a s' init good met next good') good' (rest s' next)).mp
            fun t reached => all t (.inr ⟨s', next, reached⟩)
      · intro ⟨here, later⟩ t either
        rcases either with rfl | ⟨s', next, reached⟩
        · exact good
        · have good' := (exact_ s a s' init good met next).mpr here
          have init' := preserved s a s' init good met next good'
          exact (ih init' good' (rest s' next)).mpr (later s' next) t reached

/-- Where an invariant tells exactly which steps stay good, all states of a run are good exactly
when its steps meet the condition. -/
theorem reached_good_iff {I Good : σ → Prop} {P : σ → α → Prop}
    (preserved : ∀ s a s', I s → step s a = some s' → I s')
    (exact_ : ∀ s a s', I s → Good s → step s a = some s' → (Good s' ↔ P s a))
    (refused : ∀ s a, step s a = none → P s a)
    {s : σ} (init : I s) (good : Good s) (as : List α) :
    (∀ t, Reached step s as t → Good t) ↔ Along step P s as :=
  reached_good_iff_along (W := fun _ _ => True)
    (fun s a s' inv _ _ next _ => preserved s a s' inv next)
    (fun s a s' inv here _ => exact_ s a s' inv here) refused init good
    (Along.of_forall (fun _ _ _ => True.intro) s)

end StepSystem
