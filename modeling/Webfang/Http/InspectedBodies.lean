import Webfang.Http.HttpClient

/-!
# Bodies that have been inspected

The first answer of a request is read up to the cap and inspected.  The answers of the retry loop
are not: the first 2xx among them is returned as it is.
-/

namespace Webfang.Http.HttpClient

variable (client : HttpClient) (answers : Nat → Except SendError Response)

/-! ## What is promised -/

/-- The text is the body of the response, decoded. -/
def BodyOf (r : Response) (text : String) : Prop :=
  ∃ bytes, Response.bytes r.chunks = .ok bytes ∧
    (text = client.tools.decode r.charset bytes ∨ text = client.tools.text r.headers bytes)

/-- The text is within the cap, and not blocked as the body of the response. -/
def Clean (r : Response) (text : String) : Prop :=
  text.utf8ByteSize ≤ client.config.maxPageBytes ∧ (client.verdict r text).isBlocked = false

/-- The response is classified as a challenge. -/
def Challenge (r : Response) : Prop :=
  (client.verdict r (client.serverErrorBody r)).isBlocked = true

/-- A body that is returned belongs to a 2xx response, is within the cap and not blocked, and no 5xx
response to the request was a challenge. -/
def ReturnsInspected (session : Option (String × Bool)) (url : String) : Prop :=
  ∀ text n, client.get answers session url = (.ok text, n) →
    (∃ i < n, ∃ r, answers i = .ok r ∧ r.isSuccess ∧ client.BodyOf r text ∧ client.Clean r text) ∧
    ∀ i < n, ∀ r, answers i = .ok r → r.isServerError → ¬ client.Challenge r

/-! ## The answers that matter -/

/-- The URL is fetched at all. -/
def Admitted (session : Option (String × Bool)) (url : String) : Prop :=
  (∃ scheme, client.tools.parseUrl url = .ok scheme ∧ (scheme = "http" ∨ scheme = "https")) ∧
    ∀ domain, session ≠ some (domain, false)

/-- From `next` on, this answer is the first that is no timeout. -/
def AnsweredAt (next k : Nat) (r : Response) : Prop :=
  next ≤ k ∧ k ≤ next + client.config.maxRetries ∧
    (∀ i, next ≤ i → i < k → answers i = .error .timeout) ∧ answers k = .ok r

/-- This answer decides: it is the first response, or the first behind a 403. -/
def Decides (k : Nat) (r : Response) : Prop :=
  (client.AnsweredAt answers 0 k r ∧ r.status ≠ 403) ∨
    ∃ m forbidden, client.AnsweredAt answers 0 m forbidden ∧ forbidden.status = 403 ∧
      1 < client.userAgents.length ∧ client.AnsweredAt answers (m + 1) k r

/-- The retry loop goes on behind this answer. -/
def PassedOver (policy : RetryPolicy) (answer : Except SendError Response) : Prop :=
  ∀ r, answer = .ok r → ¬ r.isSuccess ∧ policy.retryable r.status = true

/-- From `next` on, this answer is the first at which the retry loop ends, and it is a 2xx. -/
def RetriedAt (policy : RetryPolicy) (next k : Nat) (r : Response) : Prop :=
  next ≤ k ∧ k < next + client.config.maxRetries ∧
    (∀ i, next ≤ i → i < k → PassedOver policy (answers i)) ∧ answers k = .ok r ∧ r.isSuccess

/-- The policy under which the request is retried behind a response. -/
def policyBehind (r : Response) : Option RetryPolicy :=
  if r.status = 429 then some (client.rateLimitPolicy r)
  else if r.isServerError ∧ ¬ (client.verdict r (client.serverErrorBody r)).isBlocked then
    some (serverErrorPolicy r)
  else none

/-- The answer that decides is a 2xx that stays within the cap when it is decoded; or behind it, the
first 2xx in reach of the retry loop is clean, and no 5xx before it is a challenge. -/
def CleanBehind (k : Nat) (r : Response) : Prop :=
  (r.isSuccess → ∀ text, client.readBodyCapped r = .ok text →
    (client.verdict r text).isBlocked = false →
      text.utf8ByteSize ≤ client.config.maxPageBytes) ∧
  ∀ policy ∈ client.policyBehind r, ∀ j s, client.RetriedAt answers policy (k + 1) j s →
    ∀ text, client.readText s = .ok text → client.Clean s text ∧
      ∀ i, k < i → i < j → ∀ q, answers i = .ok q → q.isServerError → ¬ client.Challenge q

/-! ## What the loops return -/

section Loops

variable {client answers}

theorem sendWithTimeoutRetry_eq_ok_iff {r : Response} {n : Nat} (left next : Nat) :
    sendWithTimeoutRetry answers left next = (.ok r, n) ↔
      ∃ k, n = k + 1 ∧ next ≤ k ∧ k ≤ next + left ∧
        (∀ i, next ≤ i → i < k → answers i = .error .timeout) ∧ answers k = .ok r := by
  induction left generalizing next with
  | zero =>
      rw [sendWithTimeoutRetry]
      constructor
      · intro sent
        cases here : answers next with
        | ok r' =>
            rw [here] at sent
            cases sent
            exact ⟨next, rfl, le_refl _, le_refl _, fun i low high => absurd low (by omega), here⟩
        | error e =>
            rw [here] at sent
            simp only at sent
            split at sent <;> cases sent
      · intro ⟨k, count, low, high, _, here⟩
        obtain rfl : k = next := by omega
        rw [here, count]
  | succ left ih =>
      rw [sendWithTimeoutRetry]
      constructor
      · intro sent
        cases here : answers next with
        | ok r' =>
            rw [here] at sent
            cases sent
            exact ⟨next, rfl, le_refl _, by omega, fun i low high => absurd low (by omega), here⟩
        | error e =>
            rw [here] at sent
            cases e with
            | timeout =>
                obtain ⟨k, count, low, high, timeouts, there⟩ := (ih (next + 1)).mp sent
                refine ⟨k, count, by omega, by omega, fun i above below => ?_, there⟩
                rcases Nat.eq_or_lt_of_le above with rfl | later
                · exact here
                · exact timeouts i later below
            | connect message => cases sent
            | other message => cases sent
      · intro ⟨k, count, low, high, timeouts, there⟩
        rcases Nat.eq_or_lt_of_le low with rfl | later
        · rw [there, count]
        · rw [timeouts next (le_refl _) later]
          exact (ih (next + 1)).mpr ⟨k, count, later, by omega,
            fun i above below => timeouts i (by omega) below, there⟩

theorem retryWithBackoff_eq_ok_iff {policy : RetryPolicy} {text : String} {n : Nat}
    (left : Nat) (last : Bool) (next : Nat) :
    client.retryWithBackoff answers policy left last next = (.ok text, n) ↔
      ∃ k r, n = k + 1 ∧ next ≤ k ∧ k < next + left ∧
        (∀ i, next ≤ i → i < k → PassedOver policy (answers i)) ∧ answers k = .ok r ∧
        r.isSuccess ∧ client.readText r = .ok text := by
  induction left generalizing last next with
  | zero =>
      rw [retryWithBackoff]
      constructor
      · intro sent
        cases sent
      · intro ⟨k, r, _, low, high, _⟩
        omega
  | succ left ih =>
      rw [retryWithBackoff]
      have onward (last : Bool) (passed : PassedOver policy (answers next)) :
          client.retryWithBackoff answers policy left last (next + 1) = (.ok text, n) ↔
          ∃ k r, n = k + 1 ∧ next ≤ k ∧ k < next + (left + 1) ∧
            (∀ i, next ≤ i → i < k → PassedOver policy (answers i)) ∧ answers k = .ok r ∧
            r.isSuccess ∧ client.readText r = .ok text := by
        rw [ih]
        constructor
        · intro ⟨k, r, count, low, high, earlier, there, success, read⟩
          refine ⟨k, r, count, by omega, by omega, fun i above below => ?_, there, success, read⟩
          rcases Nat.eq_or_lt_of_le above with rfl | later
          · exact passed
          · exact earlier i later below
        · intro ⟨k, r, count, low, high, earlier, there, success, read⟩
          have later : next + 1 ≤ k := by
            rcases Nat.eq_or_lt_of_le low with rfl | later
            · exact absurd success (passed r there).1
            · exact later
          exact ⟨k, r, count, later, by omega, fun i above below => earlier i (by omega) below, there,
            success, read⟩
      cases here : answers next with
      | error e =>
          rw [here] at onward
          exact onward e.isTimeout fun r answered => nomatch answered
      | ok r =>
          simp only
          rw [here] at onward
          split
          next success =>
              constructor
              · intro sent
                obtain ⟨read, rfl⟩ := Prod.mk.inj sent
                exact ⟨next, r, rfl, le_refl _, by omega, fun i low high => absurd low (by omega),
                  here, success, read⟩
              · intro ⟨k, s, count, low, high, earlier, there, _, read⟩
                rcases Nat.eq_or_lt_of_le low with rfl | later
                · cases here.symm.trans there
                  rw [read, count]
                · exact absurd success (earlier next (le_refl _) later r here).1
          next failure =>
              split
              next retryable =>
                  refine onward last fun s answered => ?_
                  cases answered
                  exact ⟨failure, retryable⟩
              next final =>
                  constructor
                  · intro sent
                    cases sent
                  · intro ⟨k, s, count, low, high, earlier, there, success, _⟩
                    rcases Nat.eq_or_lt_of_le low with rfl | later
                    · cases here.symm.trans there
                      exact absurd success failure
                    · exact absurd (earlier next (le_refl _) later r here).2 final

end Loops

/-! ## What a request returns -/

/-- The body that is returned once this answer has decided, with the number of the next answer. -/
def SettledBy (k : Nat) (r : Response) (text : String) (n : Nat) : Prop :=
  (r.isSuccess ∧ n = k + 1 ∧ client.readBodyCapped r = .ok text ∧
    (client.verdict r text).isBlocked = false) ∨
  ∃ policy ∈ client.policyBehind r, ∃ j s, client.RetriedAt answers policy (k + 1) j s ∧
    n = j + 1 ∧ client.readText s = .ok text

section Returns

variable {client answers} {k n : Nat} {r : Response} {text : String}

theorem handleSuccess_eq_ok_iff :
    client.handleSuccess r k = (.ok text, n) ↔
      n = k ∧ client.readBodyCapped r = .ok text ∧ (client.verdict r text).isBlocked = false := by
  rw [handleSuccess]
  cases client.readBodyCapped r with
  | error e =>
      constructor
      · intro sent
        cases sent
      · intro ⟨_, read, _⟩
        cases read
  | ok body =>
      simp only [wafBlockError]
      by_cases blocked : (client.verdict r body).isBlocked = true
      · rw [if_pos blocked]
        constructor
        · intro sent
          cases sent
        · intro ⟨_, read, clean⟩
          cases read
          exact absurd blocked (by rw [clean]; exact Bool.false_ne_true)
      · rw [if_neg blocked]
        constructor
        · intro sent
          cases sent
          exact ⟨rfl, rfl, Bool.eq_false_iff.mpr blocked⟩
        · intro ⟨count, read, _⟩
          cases read
          rw [count]

/-- A response that is not a 2xx is retried under its policy. -/
theorem retried_iff (policy : RetryPolicy) :
    client.retryWithBackoff answers policy client.config.maxRetries false (k + 1) = (.ok text, n) ↔
      ∃ j s, client.RetriedAt answers policy (k + 1) j s ∧ n = j + 1 ∧
        client.readText s = .ok text := by
  rw [retryWithBackoff_eq_ok_iff]
  constructor
  · intro ⟨j, s, count, low, high, passed, there, success, read⟩
    exact ⟨j, s, ⟨low, high, passed, there, success⟩, count, read⟩
  · intro ⟨j, s, ⟨low, high, passed, there, success⟩, count, read⟩
    exact ⟨j, s, count, low, high, passed, there, success, read⟩

theorem handleRateLimited_eq_ok_iff (limited : r.status = 429) :
    client.handleRateLimited answers r (k + 1) = (.ok text, n) ↔
      client.SettledBy answers k r text n := by
  have failure : ¬ r.isSuccess := by
    intro success
    have := success.2
    omega
  rw [handleRateLimited, retried_iff, SettledBy, or_iff_right fun settled => failure settled.1]
  have policy : client.policyBehind r = some (client.rateLimitPolicy r) := by
    rw [policyBehind, if_pos limited]
  simp only [policy, Option.mem_some_iff, exists_eq_left']

theorem handleServerError_eq_ok_iff (serverError : r.isServerError) :
    client.handleServerError answers r (k + 1) = (.ok text, n) ↔
      client.SettledBy answers k r text n := by
  have failure : ¬ r.isSuccess := by
    intro success
    have := success.2
    have := serverError.1
    omega
  have other : r.status ≠ 429 := by
    intro limited
    have := serverError.1
    omega
  rw [SettledBy, or_iff_right fun settled => failure settled.1, handleServerError, wafBlockError]
  by_cases blocked : (client.verdict r (client.serverErrorBody r)).isBlocked = true
  · have policy : client.policyBehind r = none := by
      rw [policyBehind, if_neg other, if_neg fun both => both.2 blocked]
    rw [if_pos blocked]
    simp [policy]
  · have policy : client.policyBehind r = some (serverErrorPolicy r) := by
      rw [policyBehind, if_neg other, if_pos ⟨serverError, blocked⟩]
    rw [if_neg blocked]
    simp only [policy, Option.mem_some_iff, exists_eq_left']
    exact retried_iff (serverErrorPolicy r)

/-- The other responses settle nothing. -/
theorem not_settledBy (failure : ¬ r.isSuccess) (other : r.status ≠ 429)
    (noServerError : ¬ r.isServerError) : ¬ client.SettledBy answers k r text n := by
  intro settled
  rcases settled with ⟨success, -⟩ | ⟨policy, inside, -⟩
  · exact failure success
  · rw [policyBehind, if_neg other, if_neg fun both => noServerError both.1] at inside
    cases inside

/-- One user agent. -/
theorem getWith_eq_ok_iff (uaIndex next : Nat) (again : Nat → Except HttpError String × Nat) :
    client.getWith answers uaIndex again next = (.ok text, n) ↔
      ¬ (client.userAgents.length ≤ uaIndex ∧ 0 < uaIndex) ∧
        ∃ k r, client.AnsweredAt answers next k r ∧
          ((r.status = 403 ∧ uaIndex = 0 ∧ again (k + 1) = (.ok text, n)) ∨
            client.SettledBy answers k r text n) := by
  rw [getWith]
  split
  next out =>
      constructor
      · intro sent
        cases sent
      · intro ⟨left, _⟩
        exact absurd out left
  next left =>
      rw [and_iff_right left]
      cases sent : sendWithTimeoutRetry answers client.config.maxRetries next with
      | mk answer behind =>
          cases answer with
          | error e =>
              constructor
              · intro failed
                cases failed
              · intro ⟨k, r, ⟨low, high, timeouts, there⟩, _⟩
                cases sent.symm.trans ((sendWithTimeoutRetry_eq_ok_iff _ _).mpr
                  ⟨k, rfl, low, high, timeouts, there⟩)
          | ok r =>
              obtain ⟨k, rfl, low, high, timeouts, there⟩ :=
                (sendWithTimeoutRetry_eq_ok_iff _ _).mp sent
              have only : (∃ k' r', client.AnsweredAt answers next k' r' ∧
                  ((r'.status = 403 ∧ uaIndex = 0 ∧ again (k' + 1) = (.ok text, n)) ∨
                    client.SettledBy answers k' r' text n)) ↔
                  (r.status = 403 ∧ uaIndex = 0 ∧ again (k + 1) = (.ok text, n)) ∨
                    client.SettledBy answers k r text n := by
                constructor
                · intro ⟨k', r', ⟨low', high', timeouts', there'⟩, either⟩
                  cases sent.symm.trans ((sendWithTimeoutRetry_eq_ok_iff _ _).mpr
                    ⟨k', rfl, low', high', timeouts', there'⟩)
                  exact either
                · intro either
                  exact ⟨k, r, ⟨low, high, timeouts, there⟩, either⟩
              rw [only]
              simp only
              by_cases success : r.isSuccess
              · have allowed : r.status ≠ 403 := by
                  intro forbidden
                  have := success.2
                  omega
                have unsettled : ∀ policy, policy ∉ client.policyBehind r := by
                  have limited : r.status ≠ 429 := by
                    intro limited
                    have := success.2
                    omega
                  have noServerError : ¬ r.isServerError := by
                    intro serverError
                    have := success.2
                    have := serverError.1
                    omega
                  intro policy inside
                  rw [policyBehind, if_neg limited, if_neg fun both => noServerError both.1] at inside
                  cases inside
                rw [if_pos success, handleSuccess_eq_ok_iff, SettledBy,
                  or_iff_right fun both => allowed both.1, or_iff_left fun ⟨policy, inside, _⟩ =>
                  unsettled policy inside, and_iff_right success]
              · rw [if_neg success]
                by_cases forbidden : r.status = 403
                · have unsettled : ¬ client.SettledBy answers k r text n := by
                    apply not_settledBy success (by omega)
                    intro serverError
                    have := serverError.1
                    omega
                  rw [if_pos forbidden, or_iff_left unsettled, and_iff_right forbidden]
                  split
                  next first => rw [and_iff_right first]
                  next second =>
                      constructor
                      · intro failed
                        cases failed
                      · intro ⟨first, _⟩
                        exact absurd first second
                · rw [if_neg forbidden, or_iff_right fun both => forbidden both.1]
                  split
                  next limited => exact handleRateLimited_eq_ok_iff limited
                  next other =>
                      split
                      next serverError => exact handleServerError_eq_ok_iff serverError
                      next noServerError =>
                          have unsettled : ¬ client.SettledBy answers k r text n :=
                            not_settledBy success other noServerError
                          split <;> exact iff_of_false (fun failed => nomatch failed) unsettled

/-- What a request returns is settled by the answer that decides. -/
theorem getInner_eq_ok_iff :
    client.getInner answers = (.ok text, n) ↔
      ∃ k r, client.Decides answers k r ∧ client.SettledBy answers k r text n := by
  rw [getInner, getWith_eq_ok_iff, and_iff_right (by omega)]
  constructor
  · intro ⟨k, r, answered, either⟩
    rcases either with ⟨forbidden, -, second⟩ | settled
    · obtain ⟨agents, k', r', answered', either'⟩ := (getWith_eq_ok_iff _ _ _).mp second
      rcases either' with ⟨-, first, -⟩ | settled
      · cases first
      · exact ⟨k', r', .inr ⟨k, r, answered, forbidden, by omega, answered'⟩, settled⟩
    · refine ⟨k, r, .inl ⟨answered, fun forbidden => ?_⟩, settled⟩
      revert settled
      apply not_settledBy
      · intro success
        have := success.2
        omega
      · omega
      · intro serverError
        have := serverError.1
        omega
  · intro ⟨k, r, decides, settled⟩
    rcases decides with ⟨answered, -⟩ | ⟨m, first, answered, forbidden, agents, answered'⟩
    · exact ⟨k, r, answered, .inr settled⟩
    · refine ⟨m, first, answered, .inl ⟨forbidden, rfl, ?_⟩⟩
      exact (getWith_eq_ok_iff _ _ _).mpr ⟨by omega, k, r, answered', .inr settled⟩

theorem get_eq_ok_iff {session : Option (String × Bool)} {url : String} :
    client.get answers session url = (.ok text, n) ↔
      client.Admitted session url ∧ client.getInner answers = (.ok text, n) := by
  unfold get Admitted
  cases client.tools.parseUrl url with
  | error e => simp
  | ok scheme =>
      simp only
      by_cases web : scheme = "http" ∨ scheme = "https"
      · rw [if_neg (by rwa [not_and_or, not_not, not_not])]
        have fetched : ∃ scheme', (Except.ok scheme : Except String String) = .ok scheme' ∧
            (scheme' = "http" ∨ scheme' = "https") := ⟨scheme, rfl, web⟩
        rw [and_iff_right fetched]
        cases session with
        | none => exact (and_iff_right (by simp)).symm
        | some pair =>
            obtain ⟨domain, granted⟩ := pair
            cases granted with
            | true => exact (and_iff_right (by simp)).symm
            | false => exact iff_of_false (fun failed => nomatch failed) fun both => both.1 domain rfl
      · rw [if_pos (by rwa [not_or] at web)]
        constructor
        · intro failed
          cases failed
        · intro ⟨⟨⟨_, same, web'⟩, _⟩, _⟩
          cases same
          exact absurd web' web

/-- What is read up to the cap is the body. -/
theorem bytes_of_readCapped {limit : Nat} {chunks : List (Except String (List UInt8))}
    {buf bytes : List UInt8} (read : Response.readCapped limit chunks buf = .ok bytes) :
    ∃ rest, Response.bytes chunks = .ok rest ∧ bytes = buf ++ rest := by
  induction chunks generalizing buf with
  | nil =>
      cases read
      exact ⟨[], rfl, (List.append_nil _).symm⟩
  | cons chunk chunks ih =>
      cases chunk with
      | error e => cases read
      | ok chunk =>
          rw [Response.readCapped] at read
          split at read
          · cases read
          · obtain ⟨rest, whole, rfl⟩ := ih read
            refine ⟨chunk ++ rest, ?_, List.append_assoc _ _ _⟩
            rw [Response.bytes, whole]
            rfl

theorem bodyOf_of_readBodyCapped (read : client.readBodyCapped r = .ok text) :
    client.BodyOf r text := by
  rw [readBodyCapped] at read
  cases capped : Response.readCapped client.config.maxPageBytes r.chunks [] with
  | error e =>
      rw [capped] at read
      cases read
  | ok bytes =>
      rw [capped] at read
      obtain ⟨rest, whole, same⟩ := bytes_of_readCapped capped
      rw [List.nil_append] at same
      exact ⟨bytes, same ▸ whole, .inl (Except.ok.inj read).symm⟩

theorem bodyOf_of_readText (read : client.readText r = .ok text) : client.BodyOf r text := by
  rw [readText] at read
  cases whole : Response.bytes r.chunks with
  | error e =>
      rw [whole] at read
      cases read
  | ok bytes =>
      rw [whole] at read
      exact ⟨bytes, whole, .inr (Except.ok.inj read).symm⟩

/-- The responses before the one that decides are a 403 at most. -/
theorem Decides.before (decides : client.Decides answers k r) {i : Nat} (early : i < k)
    {q : Response} (answered : answers i = .ok q) : q.status = 403 := by
  rcases decides with ⟨⟨_, _, timeouts, _⟩, -⟩ |
    ⟨m, first, ⟨_, _, timeouts, there⟩, forbidden, -, ⟨_, _, timeouts', _⟩⟩
  · cases (timeouts i (Nat.zero_le _) early).symm.trans answered
  · rcases Nat.lt_trichotomy i m with before | rfl | behind
    · cases (timeouts i (Nat.zero_le _) before).symm.trans answered
    · cases there.symm.trans answered
      exact forbidden
    · cases (timeouts' i behind early).symm.trans answered

theorem Decides.answered (decides : client.Decides answers k r) : answers k = .ok r := by
  rcases decides with ⟨answered, -⟩ | ⟨_, _, -, -, -, answered⟩
  · exact answered.2.2.2
  · exact answered.2.2.2

/-- A response that is retried is no 2xx, and no challenge when it is a 5xx. -/
theorem of_mem_policyBehind {policy : RetryPolicy} (inside : policy ∈ client.policyBehind r) :
    ¬ r.isSuccess ∧ (r.isServerError → ¬ client.Challenge r) := by
  rw [policyBehind] at inside
  split at inside
  next limited =>
      refine ⟨fun success => ?_, fun serverError => ?_⟩
      · have := success.2
        omega
      · have := serverError.1
        omega
  next =>
      split at inside
      next both =>
          refine ⟨fun success => ?_, fun _ => both.2⟩
          have := success.2
          have := both.1.1
          omega
      next => cases inside

end Returns

/-! ## When bodies have been inspected -/

/-- Bodies that are returned have been inspected exactly when the answers behind the one that
decides are clean. -/
theorem returnsInspected_iff (session : Option (String × Bool)) (url : String) :
    client.ReturnsInspected answers session url ↔
      (client.Admitted session url →
        ∀ k r, client.Decides answers k r → client.CleanBehind answers k r) := by
  constructor
  · intro inspected admitted k r decides
    have returned {text : String} {n : Nat} (settled : client.SettledBy answers k r text n) :=
      inspected text n (get_eq_ok_iff.mpr ⟨admitted, getInner_eq_ok_iff.mpr ⟨k, r, decides, settled⟩⟩)
    refine ⟨fun success text read clean => ?_, fun policy inside j s retried text read => ?_⟩
    · obtain ⟨⟨_, _, _, _, _, _, within, _⟩, _⟩ := returned (.inl ⟨success, rfl, read, clean⟩)
      exact within
    · obtain ⟨⟨i, low, q, answered, success, _, clean⟩, challenges⟩ :=
        returned (.inr ⟨policy, inside, j, s, retried, rfl, read⟩)
      refine ⟨?_, fun i above below => challenges i (by omega)⟩
      -- only the last response is a 2xx
      obtain ⟨first, _, passed, there, _⟩ := retried
      rcases Nat.lt_trichotomy i k with before | rfl | behind
      · have forbidden := decides.before before answered
        have := success.2
        omega
      · cases decides.answered.symm.trans answered
        exact absurd success (of_mem_policyBehind inside).1
      · rcases Nat.eq_or_lt_of_le (Nat.lt_succ_iff.mp low) with rfl | between
        · cases there.symm.trans answered
          exact clean
        · exact absurd success (passed i behind between q answered).1
  · intro clean text n got
    obtain ⟨admitted, inner⟩ := get_eq_ok_iff.mp got
    obtain ⟨k, r, decides, settled⟩ := getInner_eq_ok_iff.mp inner
    have behind := clean admitted k r decides
    have early {i : Nat} (before : i < k) {q : Response} (answered : answers i = .ok q) :
        ¬ q.isServerError := by
      intro serverError
      have := decides.before before answered
      have := serverError.1
      omega
    rcases settled with ⟨success, rfl, read, unblocked⟩ |
      ⟨policy, inside, j, s, retried, rfl, read⟩
    · refine ⟨⟨k, by omega, r, decides.answered, success, bodyOf_of_readBodyCapped read,
        behind.1 success text read unblocked, unblocked⟩, fun i low q answered serverError => ?_⟩
      rcases Nat.eq_or_lt_of_le (Nat.lt_succ_iff.mp low) with rfl | before
      · cases decides.answered.symm.trans answered
        have := success.2
        have := serverError.1
        omega
      · exact absurd serverError (early before answered)
    · obtain ⟨cleanText, challenges⟩ := behind.2 policy inside j s retried text read
      obtain ⟨first, _, _, there, success⟩ := retried
      refine ⟨⟨j, by omega, s, there, success, bodyOf_of_readText read, cleanText⟩,
        fun i low q answered serverError => ?_⟩
      rcases Nat.lt_trichotomy i k with before | rfl | after
      · exact absurd serverError (early before answered)
      · cases decides.answered.symm.trans answered
        exact (of_mem_policyBehind inside).2 serverError
      · rcases Nat.eq_or_lt_of_le (Nat.lt_succ_iff.mp low) with rfl | between
        · cases there.symm.trans answered
          have := success.2
          have := serverError.1
          omega
        · exact challenges i after between q answered serverError

/-- The bytes of an ASCII text, as text. -/
def asciiText (bytes : List UInt8) : String := String.ofList (bytes.map fun b => Char.ofNat b.toNat)

/-- A client that takes pages of four bytes, with an inspector that finds nothing. -/
def fourBytes : HttpClient where
  tools :=
    { inspect := fun _ _ => ⟨false, ""⟩
      decode := fun _ => asciiText
      text := fun _ => asciiText
      parseUrl := fun _ => .ok "https"
      parseU64 := fun _ => none }
  config := { maxRetries := 3, maxPageBytes := 4, ignoreWaf := false }
  userAgents := ["a", "b"]

/-- The server is unavailable at first, and then sends five bytes. -/
def unavailableThenFive (i : Nat) : Except SendError Response :=
  if i = 0 then .ok ⟨503, [], []⟩ else .ok ⟨200, [], [.ok [72, 101, 108, 108, 111]]⟩

/-- Behind a 503, a page over the cap is returned. -/
theorem retry_returns_uncapped :
    ¬ ∀ (client : HttpClient) (answers : Nat → Except SendError Response)
      (session : Option (String × Bool)) (url : String), client.config.ignoreWaf = false →
        client.ReturnsInspected answers session url := by
  intro claim
  have returned : fourBytes.get unavailableThenFive none "https://example.com/" =
    (.ok "Hello", 2) := rfl
  obtain ⟨⟨_, _, _, _, _, _, within, _⟩, _⟩ :=
    claim fourBytes unavailableThenFive none "https://example.com/" rfl _ _ returned
  revert within
  decide

end Webfang.Http.HttpClient
