import Webfang.Http.InspectedBodies

/-!
# What the retry loop reports

`application/http_client/retry.rs`: the loop ends at the first 2xx, or at the first status it does
not retry.  When its attempts are spent it reports a timeout where the flag of the last transport
error is set.  A response that is retried leaves the flag as it is.
-/

namespace Webfang.Http.HttpClient

variable (client : HttpClient) (answers : Nat → Except SendError Response) (policy : RetryPolicy)

/-! ## What is promised -/

/-- The answer ends the loop with this result. -/
inductive EndsWith : Except SendError Response → Except HttpError String → Prop
  | success (r : Response) (success : r.isSuccess) : EndsWith (.ok r) (client.readText r)
  | refused (r : Response) (failure : ¬ r.isSuccess) (other : policy.retryable r.status = false) :
      EndsWith (.ok r) (.error (.clientError r.status))

/-- All answers from `next` up to the `count`-th are passed over. -/
def AllPassed (next count : Nat) : Prop :=
  ∀ i < count, PassedOver policy (answers (next + i))

/-- The last of so many attempts timed out. -/
def LastTimedOut (next budget : Nat) : Prop :=
  ∃ k, budget = k + 1 ∧ answers (next + k) = .error .timeout

/-- The loop with a budget of attempts reports the outcome of the first attempt that ends it, and
otherwise a timeout just if the last attempt was one; and it makes no more attempts than that. -/
structure ReportsLast (budget next : Nat) : Prop where
  ended : ∀ k < budget, AllPassed answers policy next k →
    ∀ result, client.EndsWith policy (answers (next + k)) result →
      client.retryWithBackoff answers policy budget false next = (result, next + (k + 1))
  timedOut : AllPassed answers policy next budget → LastTimedOut answers next budget →
    client.retryWithBackoff answers policy budget false next = (.error .timeout, next + budget)
  exhausted : AllPassed answers policy next budget → ¬ LastTimedOut answers next budget →
    client.retryWithBackoff answers policy budget false next =
      (.error policy.exhausted, next + budget)
  bounded : (client.retryWithBackoff answers policy budget false next).2 ≤ next + budget

/-- An attempt before the last timed out, and all attempts behind it got a response. -/
def StaleTimeout (next budget : Nat) : Prop :=
  ∃ k, k + 1 < budget ∧ answers (next + k) = .error .timeout ∧
    ∀ i, k < i → i < budget → ∃ r, answers (next + i) = .ok r

/-! ## The flag -/

/-- The flag behind an answer. -/
def flagBehind (flag : Bool) : Except SendError Response → Bool
  | .ok _ => flag
  | .error e => e.isTimeout

/-- The flag behind so many attempts. -/
def flagAfter (next : Nat) : Nat → Bool
  | 0 => false
  | count + 1 => flagBehind (flagAfter next count) (answers (next + count))

variable {client answers policy} {next budget : Nat}

theorem retryWithBackoff_step {left : Nat} {flag : Bool}
    (passed : PassedOver policy (answers next)) :
    client.retryWithBackoff answers policy (left + 1) flag next =
      client.retryWithBackoff answers policy left (flagBehind flag (answers next)) (next + 1) := by
  rw [retryWithBackoff]
  cases answer : answers next with
  | error e => rfl
  | ok r =>
      obtain ⟨failure, again⟩ := passed r answer
      simp only [failure, again, if_false, if_true, flagBehind]

/-- The loop behind attempts that are all passed over. -/
theorem retryWithBackoff_passed (left : Nat) {count : Nat}
    (passed : AllPassed answers policy next count) :
    client.retryWithBackoff answers policy (count + left) false next =
      client.retryWithBackoff answers policy left (flagAfter answers next count)
        (next + count) := by
  induction count generalizing left with
  | zero => rw [Nat.zero_add]; rfl
  | succ count ih =>
      have before := ih (left + 1) fun i small => passed i (Nat.lt_succ_of_lt small)
      have here := passed count (Nat.lt_succ_self count)
      rw [show count + 1 + left = count + (left + 1) by omega, before,
        retryWithBackoff_step here]
      rfl

theorem retryWithBackoff_ended {left : Nat} {flag : Bool} {result : Except HttpError String}
    (ends : client.EndsWith policy (answers next) result) :
    client.retryWithBackoff answers policy (left + 1) flag next = (result, next + 1) := by
  rw [retryWithBackoff]
  generalize answers next = answer at ends
  cases ends with
  | success r success => simp only [success, if_true]
  | refused r failure other => simp only [failure, other, if_false, Bool.false_eq_true]

theorem SendError.isTimeout_eq {e : SendError} : e.isTimeout = true ↔ e = .timeout := by
  cases e <;> simp [SendError.isTimeout]

/-- The flag is set by a timeout and stays set behind responses. -/
theorem flagAfter_eq_true {count : Nat} :
    flagAfter answers next count = true ↔
      ∃ k < count, answers (next + k) = .error .timeout ∧
        ∀ i, k < i → i < count → ∃ r, answers (next + i) = .ok r := by
  induction count with
  | zero => simp [flagAfter]
  | succ count ih =>
      rw [flagAfter]
      cases answer : answers (next + count) with
      | ok r =>
          rw [flagBehind, ih]
          constructor
          · rintro ⟨k, small, timedOut, later⟩
            refine ⟨k, Nat.lt_succ_of_lt small, timedOut, fun i above below => ?_⟩
            rcases Nat.lt_succ_iff_lt_or_eq.1 below with inside | rfl
            · exact later i above inside
            · exact ⟨r, answer⟩
          · rintro ⟨k, small, timedOut, later⟩
            have apart : k ≠ count := by
              rintro rfl
              rw [answer] at timedOut
              cases timedOut
            exact ⟨k, by omega, timedOut, fun i above below =>
              later i above (Nat.lt_succ_of_lt below)⟩
      | error e =>
          rw [flagBehind, SendError.isTimeout_eq]
          constructor
          · rintro rfl
            exact ⟨count, Nat.lt_succ_self count, answer, fun i above below => by omega⟩
          · rintro ⟨k, small, timedOut, later⟩
            rcases Nat.lt_succ_iff_lt_or_eq.1 small with inside | rfl
            · obtain ⟨r, response⟩ := later count inside (Nat.lt_succ_self count)
              rw [answer] at response
              cases response
            · rw [answer] at timedOut
              exact Except.error.inj timedOut

/-- The flag is set behind the last attempt where that timed out, or where a timeout is stale. -/
theorem flagAfter_budget :
    flagAfter answers next budget = true ↔
      LastTimedOut answers next budget ∨ StaleTimeout answers next budget := by
  rw [flagAfter_eq_true]
  constructor
  · rintro ⟨k, small, timedOut, later⟩
    rcases Nat.lt_or_eq_of_le (Nat.succ_le_of_lt small) with inside | last
    · exact .inr ⟨k, inside, timedOut, later⟩
    · exact .inl ⟨k, last.symm, timedOut⟩
  · rintro (⟨k, rfl, timedOut⟩ | ⟨k, small, timedOut, later⟩)
    · exact ⟨k, Nat.lt_succ_self k, timedOut, fun i above below => by omega⟩
    · exact ⟨k, by omega, timedOut, later⟩

theorem LastTimedOut.not_stale (last : LastTimedOut answers next budget) :
    ¬ StaleTimeout answers next budget := by
  obtain ⟨k, rfl, timedOut⟩ := last
  rintro ⟨j, small, -, later⟩
  obtain ⟨r, response⟩ := later k (by omega) (Nat.lt_succ_self k)
  rw [timedOut] at response
  cases response

/-! ## What is kept -/

/-- The loop when its attempts are spent. -/
theorem retryWithBackoff_spent (passed : AllPassed answers policy next budget) :
    client.retryWithBackoff answers policy budget false next =
      (.error (if flagAfter answers next budget then .timeout else policy.exhausted),
        next + budget) := by
  have spent : client.retryWithBackoff answers policy (budget + 0) false next = _ :=
    retryWithBackoff_passed 0 passed
  rw [Nat.add_zero] at spent
  rw [spent, retryWithBackoff]

variable (client answers policy next budget)

variable {policy} in
/-- An answer that is not passed over ends the loop. -/
theorem exists_endsWith {answer : Except SendError Response} (stops : ¬ PassedOver policy answer) :
    ∃ result, client.EndsWith policy answer result := by
  cases answer with
  | error e => exact absurd (fun r response => by cases response) stops
  | ok r =>
      by_cases success : r.isSuccess
      · exact ⟨_, .success r success⟩
      · refine ⟨_, .refused r success (Bool.eq_false_iff.2 fun again => stops ?_)⟩
        rintro r' ⟨rfl⟩
        exact ⟨success, again⟩

/-- There is a first attempt that is not passed over, or there is none. -/
theorem allPassed_or_first (count : Nat) :
    AllPassed answers policy next count ∨
      ∃ k < count, AllPassed answers policy next k ∧ ¬ PassedOver policy (answers (next + k)) := by
  induction count with
  | zero => exact .inl fun i small => absurd small (Nat.not_lt_zero i)
  | succ count ih =>
      rcases ih with passed | ⟨k, small, first⟩
      · by_cases here : PassedOver policy (answers (next + count))
        · refine .inl fun i small => ?_
          rcases Nat.lt_succ_iff_lt_or_eq.1 small with inside | rfl
          · exact passed i inside
          · exact here
        · exact .inr ⟨count, Nat.lt_succ_self count, passed, here⟩
      · exact .inr ⟨k, Nat.lt_succ_of_lt small, first⟩

variable {client answers policy next budget} in
theorem retryWithBackoff_of_ends {k : Nat} (small : k < budget)
    (passed : AllPassed answers policy next k) {result : Except HttpError String}
    (ends : client.EndsWith policy (answers (next + k)) result) :
    client.retryWithBackoff answers policy budget false next = (result, next + (k + 1)) := by
  obtain ⟨left, rfl⟩ : ∃ left, budget = k + (left + 1) := ⟨budget - k - 1, by omega⟩
  rw [retryWithBackoff_passed (left + 1) passed, retryWithBackoff_ended ends, Nat.add_assoc]

/-- No more attempts are made than the budget allows. -/
theorem retryWithBackoff_bounded :
    (client.retryWithBackoff answers policy budget false next).2 ≤ next + budget := by
  rcases allPassed_or_first answers policy next budget with passed | ⟨k, small, passed, stops⟩
  · rw [retryWithBackoff_spent passed]
  · obtain ⟨result, ends⟩ := exists_endsWith client stops
    rw [retryWithBackoff_of_ends small passed ends]
    dsimp only
    omega

/-- The loop reports what happened last just where an attempt ends it, where no timeout is followed,
up to the last attempt, by responses alone, or where the policy reports a timeout itself. -/
theorem retryWithBackoff_reportsLast_iff :
    client.ReportsLast answers policy budget next ↔
      ¬ AllPassed answers policy next budget ∨ ¬ StaleTimeout answers next budget ∨
        policy.exhausted = .timeout := by
  constructor
  · intro reports
    by_contra wrong
    push Not at wrong
    obtain ⟨passed, stale, other⟩ := wrong
    have reported := reports.exhausted passed fun last => last.not_stale stale
    rw [retryWithBackoff_spent passed, flagAfter_budget.2 (.inr stale), if_pos rfl,
      Prod.mk.injEq, Except.error.injEq] at reported
    exact other reported.1.symm
  · intro condition
    refine ⟨fun k small passed result ends => retryWithBackoff_of_ends small passed ends,
      ?_, ?_, retryWithBackoff_bounded client answers policy next budget⟩
    · intro passed last
      rw [retryWithBackoff_spent passed, flagAfter_budget.2 (.inl last), if_pos rfl]
    · intro passed other
      rw [retryWithBackoff_spent passed]
      cases flag : flagAfter answers next budget with
      | false => rfl
      | true =>
          have stale := (flagAfter_budget.1 flag).resolve_left other
          rcases condition with ended | fresh | same
          · exact absurd passed ended
          · exact absurd stale fresh
          · rw [if_pos rfl, same]

/-- A client for which a 503 is retried twice. -/
def plainClient : HttpClient where
  tools :=
    { inspect := fun _ _ => { isBlocked := false, evidenceChain := "" }
      decode := fun _ _ => ""
      text := fun _ _ => ""
      parseUrl := .ok
      parseU64 := fun _ => none }
  config := { maxRetries := 2, maxPageBytes := 0, ignoreWaf := false }
  userAgents := []

def unavailable : Response := { status := 503, headers := [], chunks := [] }

/-- The first attempt times out, and the second gets a 503. -/
def timeoutFirst : Nat → Except SendError Response
  | 0 => .error .timeout
  | _ => .ok unavailable

/-- The last failure was no timeout, and a timeout is reported. -/
theorem timeout_stays :
    ¬ plainClient.ReportsLast timeoutFirst (serverErrorPolicy unavailable) 2 0 := by
  intro reports
  have reported := reports.exhausted
    (fun i small r answer => by
      rcases i with _ | i
      · cases answer
      · cases answer
        exact ⟨by decide, by decide⟩)
    (by
      rintro ⟨k, same, timedOut⟩
      cases same
      cases timedOut)
  cases congrArg Prod.fst reported

end Webfang.Http.HttpClient
