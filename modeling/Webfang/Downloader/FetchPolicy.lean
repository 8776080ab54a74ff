import Webfang.Lib.Attempts
import Webfang.Downloader.WreqDownloader

/-!
# The retry policy of the pooled downloader

The documented policy judges an answer alike wherever it comes: a permanent failure settles the call,
any other is followed by the next attempt, and the failure of the last attempt is the result.  The
loop departs from it where the body of an answer breaks off, and on the answer to the rotated
request.
-/

namespace Webfang.Wreq.WreqDownloader

open Attempts

variable (d : WreqDownloader) (answers : Nat → Except TransportError Response) (url : Url)

/-! ## The policy -/

/-- What an answer comes to: a page, or the failure that is the result of the call if no other answer
follows. -/
def outcome (answer : Except TransportError Response) : Except DownloadError FetchedPage :=
  match d.sendRequest answer with
  | .error e => .error e
  | .ok r =>
      if r.isSuccess then d.buildPage url r
      else
        match d.inspectFailure r with
        | .error e => .error e
        | .ok () =>
            if r.status = 429 ∨ isServerError r.status then .error (exhausted r.status)
            else .error (terminal r.status)

/-- A page and a permanent failure settle the call. -/
def judge (answer : Except TransportError Response) : Verdict FetchedPage DownloadError :=
  match d.outcome url answer with
  | .ok page => .settled (.ok page)
  | .error e => if e.Permanent then .settled (.error e) else .again e

/-- The first attempt goes on with a rotated User-Agent: the answer is a 403 and no challenge, and no
User-Agent is pinned. -/
def rotates (attempt : Nat) (answer : Except TransportError Response) : Bool :=
  match answer with
  | .error _ => false
  | .ok r => r.status == 403 && attempt == 0 && d.pinnedUa.isNone && (d.inspectFailure r).isOk

/-- An attempt under the policy: its last answer counts. -/
def policyAttempt (attempt next : Nat) : Verdict FetchedPage DownloadError × Nat :=
  if d.rotates attempt (answers next) then (d.judge url (answers (next + 1)), next + 2)
  else (d.judge url (answers next), next + 1)

/-- A call under the policy. -/
def policy : Except DownloadError FetchedPage × Nat :=
  run (d.policyAttempt answers url) d.maxRetries 0 0

/-- The call does what the policy says, and sends at most two requests more than it has retries. -/
def KeepsPolicy : Prop :=
  (d.fetch answers url).2 ≤ d.maxRetries + 2 ∧ d.fetch answers url = d.policy answers url

/-! ## The answers that matter -/

/-- The body that is read of the response breaks off, and not for good: the page of a 2xx whose URL
parses, or the first bytes of an answer that may yet be a challenge. -/
def Interrupted (r : Response) : Prop :=
  if r.isSuccess then
    (∃ finalUrl, d.tools.parseUrl r.uri = .ok finalUrl) ∧
      ∃ e, readBounded d.maxPageBytes .abort r.chunks [] = .error e ∧ ¬ e.Permanent
  else
    d.ignoreWaf = false ∧ (d.verdict r "").isBlocked = false ∧ r.isT2BlockingStatus ∧
      ∃ e, readBounded wafSniffMaxBytes .truncate r.chunks [] = .error e ∧ ¬ e.Permanent

/-- No body breaks off but in the last attempt. -/
def HandledFirst (last : Prop) (answer : Except TransportError Response) : Prop :=
  ∀ r, answer = .ok r → d.Interrupted r → last

/-- Behind a rotation, a transport error that is not permanent and a page that breaks off are
answered in the last attempt only; and what is no 2xx is inspected and found no challenge, and is a
429 or a 5xx, or else it breaks off before the last attempt. -/
def HandledRotated (last : Prop) (answer : Except TransportError Response) : Prop :=
  match answer with
  | .error e => (d.sendFailure e).Permanent ∨ last
  | .ok r =>
      if r.isSuccess then d.Interrupted r → last
      else
        d.inspectFailure r = .ok () ∧ (r.status = 429 ∨ isServerError r.status) ∨
          d.Interrupted r ∧ ¬ last

/-- The attempt, from this request on, is handled as the policy says. -/
def HandledAttempt (attempt next : Nat) : Prop :=
  if d.rotates attempt (answers next) then
    d.HandledRotated (attempt = d.maxRetries) (answers (next + 1))
  else d.HandledFirst (attempt = d.maxRetries) (answers next)

/-! ## The loop as attempts -/

/-- What the loop makes of an answer to a first request. -/
def loopFirst (answer : Except TransportError Response) : Verdict FetchedPage DownloadError :=
  match d.sendRequest answer with
  | .error e => if e.Permanent then .settled (.error e) else .again e
  | .ok r =>
      if r.isSuccess then .settled (d.buildPage url r)
      else
        match d.inspectFailure r with
        | .error e => .settled (.error e)
        | .ok () =>
            if r.status = 429 ∨ isServerError r.status then .again (exhausted r.status)
            else .settled (.error (terminal r.status))

/-- What the loop makes of an answer to the rotated request. -/
def loopRotated (answer : Except TransportError Response) : Verdict FetchedPage DownloadError :=
  match d.sendRequest answer with
  | .error e => .settled (.error e)
  | .ok r =>
      if r.isSuccess then .settled (d.buildPage url r) else .again (exhausted r.status)

/-- An attempt of the loop. -/
def loopAttempt (attempt next : Nat) : Verdict FetchedPage DownloadError × Nat :=
  if d.rotates attempt (answers next) then (d.loopRotated url (answers (next + 1)), next + 2)
  else (d.loopFirst url (answers next), next + 1)

variable {d answers url}

theorem rotates_iff {attempt : Nat} {r : Response} :
    d.rotates attempt (.ok r) = true ↔
      r.status = 403 ∧ attempt = 0 ∧ d.pinnedUa = none ∧ d.inspectFailure r = .ok () := by
  rw [rotates]
  rcases d.inspectFailure r with _ | ⟨⟩ <;> simp [Except.isOk, Except.toBool, and_assoc]

@[simp] theorem sendRequest_error (e : TransportError) :
    d.sendRequest (.error e) = .error (d.sendFailure e) := rfl

@[simp] theorem sendRequest_ok (r : Response) : d.sendRequest (.ok r) = .ok r := rfl

theorem not_rotates_error {attempt : Nat} {e : TransportError} :
    d.rotates attempt (.error e) = false := rfl

theorem not_rotates_of_success {attempt : Nat} {r : Response} (success : r.isSuccess) :
    ¬ d.rotates attempt (.ok r) = true := by
  intro turns
  have status := (rotates_iff.mp turns).1
  have bound : r.status ≤ 299 := success.2
  omega

variable (d answers url) in
/-- A round of the loop is an attempt; behind one that fails, the loop carries its failure. -/
theorem fetchLoop_succ (rounds attempt next lastStatus : Nat) (lastError : Option DownloadError) :
    (∃ result sent, d.loopAttempt answers url attempt next = (.settled result, sent) ∧
      d.fetchLoop answers url (rounds + 1) attempt next lastStatus lastError = (result, sent)) ∨
    ∃ sent status error,
      d.loopAttempt answers url attempt next = (.again (error.getD (exhausted status)), sent) ∧
        d.fetchLoop answers url (rounds + 1) attempt next lastStatus lastError =
          d.fetchLoop answers url rounds (attempt + 1) sent status error := by
  rw [fetchLoop, loopAttempt]
  cases answer : answers next with
  | error e =>
      rw [if_neg (by rw [not_rotates_error]; exact Bool.false_ne_true), loopFirst,
        sendRequest_error]
      dsimp only
      by_cases permanent : (d.sendFailure e).Permanent
      · rw [if_pos permanent, if_pos permanent]
        exact .inl ⟨_, _, rfl, rfl⟩
      · rw [if_neg permanent, if_neg permanent]
        exact .inr ⟨_, lastStatus, some (d.sendFailure e), rfl, rfl⟩
  | ok r =>
      rw [sendRequest_ok]
      dsimp only
      by_cases success : r.isSuccess
      · rw [if_pos success, if_neg (not_rotates_of_success success), loopFirst, sendRequest_ok]
        dsimp only
        rw [if_pos success]
        exact .inl ⟨_, _, rfl, rfl⟩
      rw [if_neg success]
      rcases inspected : d.inspectFailure r with e | ⟨⟩
      · have still : ¬ d.rotates attempt (.ok r) = true := fun turns => by
          have passed := (rotates_iff.mp turns).2.2.2
          rw [inspected] at passed
          cases passed
        rw [if_neg still, loopFirst, sendRequest_ok]
        dsimp only
        rw [if_neg success, inspected]
        exact .inl ⟨_, _, rfl, rfl⟩
      dsimp only
      by_cases turns : r.status = 403 ∧ attempt = 0 ∧ d.pinnedUa = none
      · rw [if_pos turns, if_pos (rotates_iff.mpr ⟨turns.1, turns.2.1, turns.2.2, inspected⟩),
          loopRotated]
        cases answers (next + 1) with
        | error e => exact .inl ⟨_, _, rfl, rfl⟩
        | ok rotated =>
            rw [sendRequest_ok]
            dsimp only
            by_cases success : rotated.isSuccess
            · rw [if_pos success, if_pos success]
              exact .inl ⟨_, _, rfl, rfl⟩
            · rw [if_neg success, if_neg success]
              exact .inr ⟨_, rotated.status, none, rfl, rfl⟩
      · have still : ¬ d.rotates attempt (.ok r) = true := fun other =>
          turns ⟨(rotates_iff.mp other).1, (rotates_iff.mp other).2.1, (rotates_iff.mp other).2.2.1⟩
        rw [if_neg turns, if_neg still, loopFirst, sendRequest_ok]
        dsimp only
        rw [if_neg success, inspected]
        dsimp only
        by_cases passing : r.status = 429 ∨ isServerError r.status
        · rw [if_pos passing, if_pos passing]
          exact .inr ⟨_, r.status, none, rfl, rfl⟩
        · rw [if_neg passing, if_neg passing]
          exact .inl ⟨_, _, rfl, rfl⟩

/-- The rounds of the loop are attempts: what it carries is the failure of the attempt before. -/
theorem fetchLoop_eq (rounds attempt next lastStatus : Nat) (lastError : Option DownloadError) :
    d.fetchLoop answers url (rounds + 1) attempt next lastStatus lastError =
      run (d.loopAttempt answers url) rounds attempt next := by
  induction rounds generalizing attempt next lastStatus lastError with
  | zero =>
      rcases fetchLoop_succ d answers url 0 attempt next lastStatus lastError with
        ⟨result, sent, settled, loop⟩ | ⟨sent, status, error, again, loop⟩
      · rw [loop, run_settled settled]
      · rw [loop, run_last again, fetchLoop]
  | succ rounds ih =>
      rcases fetchLoop_succ d answers url (rounds + 1) attempt next lastStatus lastError with
        ⟨result, sent, settled, loop⟩ | ⟨sent, status, error, again, loop⟩
      · rw [loop, run_settled settled]
      · rw [loop, run_again again, ih]

/-! ## What the policy says -/

/-- The first page, challenge or other permanent failure is the result, and nothing is sent behind
it. -/
theorem policy_of_settled {attempt next sent : Nat} {result : Except DownloadError FetchedPage}
    (made : Made (d.policyAttempt answers url) d.maxRetries attempt next)
    (settled : d.policyAttempt answers url attempt next = (.settled result, sent)) :
    d.policy answers url = (result, sent) := by
  rw [policy, made.run_eq.2, run_settled settled]

/-- The failure of the last attempt is the result. -/
theorem policy_of_last {next sent : Nat} {failure : DownloadError}
    (made : Made (d.policyAttempt answers url) d.maxRetries d.maxRetries next)
    (again : d.policyAttempt answers url d.maxRetries next = (.again failure, sent)) :
    d.policy answers url = (.error failure, sent) := by
  rw [policy, made.run_eq.2, Nat.sub_self, run_last again]

/-! ## Failures -/

theorem permanent_http_iff {status : Nat} {message : String} :
    (DownloadError.http status message).Permanent ↔ ¬ (status = 429 ∨ isServerError status) := by
  rw [DownloadError.Permanent, DownloadError.classify]
  by_cases server : isServerError status
  · simp [server]
  · by_cases limited : status = 429
    · subst limited
      simp [server]
    · simp [server, limited]

theorem ofSources_ne_http {text : String} {sources : List Source} {status : Nat}
    {message : String} : ofSources text sources ≠ .http status message := by
  induction sources with
  | nil => exact DownloadError.noConfusion
  | cons source sources ih =>
      cases source with
      | io kind text => exact DownloadError.noConfusion
      | other cause =>
          rw [ofSources]
          split
          · exact DownloadError.noConfusion
          · split
            · exact DownloadError.noConfusion
            · exact ih

theorem ofTransport_ne_http {e : TransportError} {status : Nat} {message : String} :
    DownloadError.ofTransport e ≠ .http status message := by
  rw [DownloadError.ofTransport]
  split
  · exact DownloadError.noConfusion
  · exact ofSources_ne_http

theorem readBounded_ne_http {limit : Nat} {onOverflow : BoundedRead}
    {chunks : List (Except TransportError (List UInt8))} {buf : List UInt8} {status : Nat}
    {message : String} :
    readBounded limit onOverflow chunks buf ≠ .error (.http status message) := by
  induction chunks generalizing buf with
  | nil =>
      intro failed
      cases failed
  | cons chunk chunks ih =>
      cases chunk with
      | error e =>
          intro failed
          exact ofTransport_ne_http (Except.error.inj failed)
      | ok chunk =>
          intro failed
          simp only [readBounded] at failed
          split at failed
          · cases onOverflow <;> cases failed
          · exact ih failed

/-- An inspection fails by a challenge, or by the error that breaks the body off. -/
theorem inspectFailure_eq_error {r : Response} {e : DownloadError}
    (failed : d.inspectFailure r = .error e) :
    (∃ evidence, e = .wafChallenge evidence) ∨
      d.ignoreWaf = false ∧ (d.verdict r "").isBlocked = false ∧ r.isT2BlockingStatus ∧
        readBounded wafSniffMaxBytes .truncate r.chunks [] = .error e := by
  rw [inspectFailure] at failed
  by_cases ignored : d.ignoreWaf = true
  · rw [if_pos ignored] at failed
    cases failed
  rw [if_neg ignored] at failed
  by_cases blocked : (d.verdict r "").isBlocked = true
  · rw [if_pos blocked] at failed
    exact .inl ⟨_, (Except.error.inj failed).symm⟩
  rw [if_neg blocked] at failed
  by_cases status : r.isT2BlockingStatus
  · rw [if_neg (not_not_intro status), readBodySnippet, readBodyBounded] at failed
    rcases read : readBounded wafSniffMaxBytes .truncate r.chunks [] with e' | bytes <;>
      rw [read] at failed
    · cases failed
      exact .inr ⟨Bool.not_eq_true _ |>.mp ignored, Bool.not_eq_true _ |>.mp blocked, status, rfl⟩
    · simp only [Except.map] at failed
      split at failed
      · exact .inl ⟨_, (Except.error.inj failed).symm⟩
      · cases failed
  · rw [if_pos status] at failed
    cases failed

theorem inspectFailure_ne_http {r : Response} {e : DownloadError} {status : Nat} {message : String}
    (failed : d.inspectFailure r = .error e) : e ≠ .http status message := by
  rcases inspectFailure_eq_error failed with ⟨evidence, rfl⟩ | ⟨_, _, _, read⟩
  · exact DownloadError.noConfusion
  · intro same
    exact readBounded_ne_http (same ▸ read)

theorem interrupted_of_not_success {r : Response} (failure : ¬ r.isSuccess) :
    d.Interrupted r ↔ ∃ e, d.inspectFailure r = .error e ∧ ¬ e.Permanent := by
  rw [Interrupted, if_neg failure]
  constructor
  · intro ⟨heeded, unblocked, status, e, read, passing⟩
    refine ⟨e, ?_, passing⟩
    rw [inspectFailure, if_neg (by rw [heeded]; exact Bool.false_ne_true),
      if_neg (by rw [unblocked]; exact Bool.false_ne_true), if_neg (not_not_intro status),
      readBodySnippet, readBodyBounded, read]
    rfl
  · intro ⟨e, failed, passing⟩
    rcases inspectFailure_eq_error failed with ⟨evidence, rfl⟩ | ⟨heeded, unblocked, status, read⟩
    · exact absurd rfl passing
    · exact ⟨heeded, unblocked, status, e, read, passing⟩

variable (url) in
theorem interrupted_of_success {r : Response} (success : r.isSuccess) :
    d.Interrupted r ↔ ∃ e, d.buildPage url r = .error e ∧ ¬ e.Permanent := by
  rw [Interrupted, if_pos success, buildPage, readBodyCapped, readBodyBounded]
  rcases d.tools.parseUrl r.uri with e | finalUrl
  · constructor
    · intro ⟨⟨_, parsed⟩, _⟩
      cases parsed
    · intro ⟨_, failed, passing⟩
      cases failed
      exact absurd rfl passing
  · rcases readBounded d.maxPageBytes .abort r.chunks [] with e | bytes
    · constructor
      · intro ⟨_, e', same, passing⟩
        cases same
        exact ⟨e, rfl, passing⟩
      · intro ⟨e', same, passing⟩
        cases same
        exact ⟨⟨finalUrl, rfl⟩, e, rfl, passing⟩
    · constructor
      · intro ⟨_, _, failed, _⟩
        cases failed
      · intro ⟨_, failed, _⟩
        cases failed

/-! ## Attempts that agree -/

theorem judge_page {answer : Except TransportError Response} {page : FetchedPage}
    (got : d.outcome url answer = .ok page) : d.judge url answer = .settled (.ok page) := by
  rw [judge, got]

theorem judge_permanent {answer : Except TransportError Response} {e : DownloadError}
    (failed : d.outcome url answer = .error e) (permanent : e.Permanent) :
    d.judge url answer = .settled (.error e) := by
  rw [judge, failed]
  exact if_pos permanent

theorem judge_again {answer : Except TransportError Response} {e : DownloadError}
    (failed : d.outcome url answer = .error e) (passing : ¬ e.Permanent) :
    d.judge url answer = .again e := by
  rw [judge, failed]
  exact if_neg passing

theorem passing_error_iff {α : Type} {e : DownloadError} :
    (∃ e', (.error e : Except DownloadError α) = .error e' ∧ ¬ e'.Permanent) ↔ ¬ e.Permanent := by
  constructor
  · intro ⟨e', same, passing⟩
    cases same
    exact passing
  · intro passing
    exact ⟨e, rfl, passing⟩

/-- A failure that the loop returns at once is one that the policy returns, but where it passes and an
attempt is left. -/
theorem agree_error {last : Prop} {answer : Except TransportError Response} {e : DownloadError}
    (failed : d.outcome url answer = .error e) :
    Agree last (d.judge url answer) (.settled (.error e)) ↔ (¬ e.Permanent → last) := by
  by_cases permanent : e.Permanent
  · rw [judge_permanent failed permanent]
    exact ⟨fun _ passing => absurd permanent passing, fun _ => rfl⟩
  · rw [judge_again failed permanent]
    exact ⟨fun agree _ => agree.1, fun last => ⟨last permanent, rfl⟩⟩

theorem outcome_error (e : TransportError) :
    d.outcome url (.error e) = .error (d.sendFailure e) := rfl

theorem outcome_of_success {r : Response} (success : r.isSuccess) :
    d.outcome url (.ok r) = d.buildPage url r := by
  rw [outcome, sendRequest_ok]
  exact if_pos success

variable (url) in
theorem outcome_of_failure {r : Response} {e : DownloadError} (failure : ¬ r.isSuccess)
    (failed : d.inspectFailure r = .error e) : d.outcome url (.ok r) = .error e := by
  rw [outcome, sendRequest_ok]
  dsimp only
  rw [if_neg failure, failed]

variable (url) in
theorem outcome_of_passed {r : Response} (failure : ¬ r.isSuccess)
    (passed : d.inspectFailure r = .ok ()) :
    d.outcome url (.ok r) =
      .error (if r.status = 429 ∨ isServerError r.status then exhausted r.status
        else terminal r.status) := by
  rw [outcome, sendRequest_ok]
  dsimp only
  rw [if_neg failure, passed]
  dsimp only
  split <;> rfl

/-- A page is read alike on both requests: the loop returns the failure of a read at once. -/
theorem agree_page {last : Prop} {r : Response} (success : r.isSuccess) :
    Agree last (d.judge url (.ok r)) (.settled (d.buildPage url r)) ↔ (d.Interrupted r → last) := by
  rw [interrupted_of_success url success]
  rcases built : d.buildPage url r with e | page
  · rw [passing_error_iff]
    exact agree_error ((outcome_of_success success).trans built)
  · rw [judge_page ((outcome_of_success success).trans built)]
    refine iff_of_true rfl fun ⟨_, failed, _⟩ => ?_
    cases failed

theorem agree_first {last : Prop} (answer : Except TransportError Response) :
    Agree last (d.judge url answer) (d.loopFirst url answer) ↔ d.HandledFirst last answer := by
  rw [loopFirst]
  cases answer with
  | error e =>
      refine iff_of_true ?_ fun r other => by cases other
      rw [sendRequest_error]
      dsimp only
      split
      · rename_i permanent
        rw [judge_permanent (outcome_error e) permanent]
        exact rfl
      · rename_i passing
        rw [judge_again (outcome_error e) passing]
        exact fun _ => rfl
  | ok r =>
      rw [sendRequest_ok]
      dsimp only
      have plain : d.HandledFirst last (.ok r) ↔ (d.Interrupted r → last) :=
        ⟨fun handled => handled r rfl, fun handled r' same => by cases same; exact handled⟩
      rw [plain]
      by_cases success : r.isSuccess
      · rw [if_pos success]
        exact agree_page success
      rw [if_neg success, interrupted_of_not_success success]
      rcases inspected : d.inspectFailure r with e | ⟨⟩
      · dsimp only
        rw [passing_error_iff]
        exact agree_error (outcome_of_failure url success inspected)
      · have passed := outcome_of_passed url success inspected
        refine iff_of_true ?_ fun ⟨_, failed, _⟩ => by cases failed
        dsimp only
        by_cases passing : r.status = 429 ∨ isServerError r.status
        · rw [if_pos passing] at passed ⊢
          rw [judge_again passed (fun permanent => permanent_http_iff.mp permanent passing)]
          exact fun _ => rfl
        · rw [if_neg passing] at passed ⊢
          rw [judge_permanent passed (permanent_http_iff.mpr passing)]
          exact rfl

theorem terminal_ne_exhausted (status : Nat) : terminal status ≠ exhausted status := by
  intro same
  have texts : "HTTP " ++ toString status = "retries exhausted at status " ++ toString status := by
    injection same
  have first := congrArg (fun text => text.toList.head?) texts
  simp only [String.toList_append, List.head?_append] at first
  have other : ¬ some 'H' = some 'r' := by decide
  exact other first

/-- Behind a rotation the loop goes on with what is no 2xx, whatever it is. -/
theorem agree_rotated {last : Prop} (answer : Except TransportError Response) :
    Agree last (d.judge url answer) (d.loopRotated url answer) ↔ d.HandledRotated last answer := by
  rw [loopRotated]
  cases answer with
  | error e =>
      rw [sendRequest_error]
      dsimp only
      rw [agree_error (outcome_error e), HandledRotated]
      constructor
      · intro passing
        by_cases permanent : (d.sendFailure e).Permanent
        · exact .inl permanent
        · exact .inr (passing permanent)
      · intro handled passing
        exact handled.resolve_left passing
  | ok r =>
      rw [sendRequest_ok, HandledRotated]
      dsimp only
      by_cases success : r.isSuccess
      · rw [if_pos success, if_pos success]
        exact agree_page success
      rw [if_neg success, if_neg success, interrupted_of_not_success success]
      rcases inspected : d.inspectFailure r with e | ⟨⟩
      · have failed := outcome_of_failure url success inspected
        by_cases permanent : e.Permanent
        · rw [judge_permanent failed permanent]
          refine iff_of_false (fun agree => ?_) ?_
          · exact inspectFailure_ne_http inspected (Except.error.inj agree.2)
          · intro handled
            rcases handled with ⟨other, _⟩ | ⟨⟨e', same, passing⟩, _⟩
            · cases other
            · cases same
              exact passing permanent
        · rw [judge_again failed permanent]
          constructor
          · intro agree
            exact .inr ⟨⟨e, rfl, permanent⟩, fun final => inspectFailure_ne_http inspected (agree final)⟩
          · intro handled
            rcases handled with ⟨other, _⟩ | ⟨_, left⟩
            · cases other
            · exact fun final => absurd final left
      · have passed := outcome_of_passed url success inspected
        by_cases passing : r.status = 429 ∨ isServerError r.status
        · rw [if_pos passing] at passed
          rw [judge_again passed (fun permanent => permanent_http_iff.mp permanent passing)]
          exact iff_of_true (fun _ => rfl) (.inl ⟨rfl, passing⟩)
        · rw [if_neg passing] at passed
          rw [judge_permanent passed (permanent_http_iff.mpr passing)]
          refine iff_of_false (fun agree => ?_) ?_
          · exact terminal_ne_exhausted r.status (Except.error.inj agree.2)
          · intro handled
            rcases handled with ⟨_, other⟩ | ⟨⟨_, other, _⟩, _⟩
            · exact passing other
            · cases other

/-! ## The call -/

theorem fetch_eq : d.fetch answers url = run (d.loopAttempt answers url) d.maxRetries 0 0 :=
  fetchLoop_eq d.maxRetries 0 0 0 none

theorem policyAttempt_snd (attempt next : Nat) :
    (d.policyAttempt answers url attempt next).2 =
      if d.rotates attempt (answers next) then next + 2 else next + 1 := by
  rw [policyAttempt]
  split <;> rfl

theorem loopAttempt_snd (attempt next : Nat) :
    (d.loopAttempt answers url attempt next).2 =
      if d.rotates attempt (answers next) then next + 2 else next + 1 := by
  rw [loopAttempt]
  split <;> rfl

theorem not_rotates_of_pos {attempt : Nat} {answer : Except TransportError Response}
    (later : 0 < attempt) : ¬ d.rotates attempt answer = true := by
  intro turns
  cases answer with
  | error e => cases turns
  | ok r => exact absurd (rotates_iff.mp turns).2.1 (Nat.ne_of_gt later)

variable (d answers url) in
/-- At most one request is sent for each retry behind the two of the first attempt. -/
theorem fetch_snd_le : (d.fetch answers url).2 ≤ d.maxRetries + 2 := by
  have one : ∀ k n, 0 < k → (d.loopAttempt answers url k n).2 ≤ n + 1 := fun k n later => by
    rw [loopAttempt_snd, if_neg (not_rotates_of_pos later)]
  have first : (d.loopAttempt answers url 0 0).2 ≤ 2 := by
    rw [loopAttempt_snd]
    split <;> omega
  have bound : (run (d.loopAttempt answers url) d.maxRetries 0 0).2 ≤
      (d.loopAttempt answers url 0 0).2 + d.maxRetries := run_le one
  rw [fetch_eq]
  omega

theorem agree_attempt {last : Prop} (attempt next : Nat) :
    Agree last (d.policyAttempt answers url attempt next).1
      (d.loopAttempt answers url attempt next).1 ↔
      if d.rotates attempt (answers next) then d.HandledRotated last (answers (next + 1))
      else d.HandledFirst last (answers next) := by
  rw [policyAttempt, loopAttempt]
  split
  · exact agree_rotated _
  · exact agree_first _

/-- The call keeps to the policy just where every attempt of the policy is handled. -/
theorem keepsPolicy_iff (d : WreqDownloader) (answers : Nat → Except TransportError Response)
    (url : Url) :
    d.KeepsPolicy answers url ↔
      ∀ attempt next, Made (d.policyAttempt answers url) d.maxRetries attempt next →
        d.HandledAttempt answers attempt next := by
  have sends : ∀ k n, n < (d.policyAttempt answers url k n).2 := fun k n => by
    rw [policyAttempt_snd]
    split <;> omega
  have sends' : ∀ k n, n < (d.loopAttempt answers url k n).2 := fun k n => by
    rw [loopAttempt_snd]
    split <;> omega
  have same : ∀ k n,
      (d.policyAttempt answers url k n).2 = (d.loopAttempt answers url k n).2 := fun k n => by
    rw [policyAttempt_snd, loopAttempt_snd]
  calc d.KeepsPolicy answers url
      ↔ run (d.policyAttempt answers url) d.maxRetries 0 0 =
          run (d.loopAttempt answers url) d.maxRetries 0 0 := by
        rw [KeepsPolicy, fetch_eq, policy]
        have bound := fetch_snd_le d answers url
        rw [fetch_eq] at bound
        exact ⟨fun keeps => keeps.2.symm, fun equal => ⟨bound, equal.symm⟩⟩
    _ ↔ _ := by
        rw [run_eq_iff sends sends' same]
        refine forall_congr' fun attempt => forall_congr' fun next => imp_congr_right fun _ => ?_
        rw [agree_attempt, HandledAttempt]

/-! ## A rotated request -/

/-- `http://a.example/`. -/
def rootUrl : Url where
  asStr := "http://a.example/".toList
  hostStr := some "a.example".toList
  path := ['/']

/-- A downloader with one retry, for a site of one page and no challenges. -/
def plainDownloader : WreqDownloader where
  tools :=
    { inspect := fun _ _ => { isBlocked := false, evidenceChain := "" }
      decode := fun _ bytes => String.ofList (bytes.map fun b => Char.ofNat b.toNat)
      parseUrl := fun _ => .ok rootUrl
      toLowercase := fun text => text.map Char.toLower }
  timeoutSecs := 30
  pinnedUa := none
  maxRetries := 1
  maxPageBytes := 50000000
  ignoreWaf := false

/-- An empty response. -/
def emptyResponse (status : Nat) : Response where
  status := status
  uri := "http://a.example/"
  headers := []
  cookies := []
  chunks := []

/-- A 403, a 404 to the rotated request, and a page to any other. -/
def forbiddenThenMissing : Nat → Except TransportError Response
  | 0 => .ok (emptyResponse 403)
  | 1 => .ok (emptyResponse 404)
  | _ => .ok (emptyResponse 200)

/-- The 404 to the rotated request does not end the call. -/
theorem rotated_missing_is_retried :
    ¬ plainDownloader.KeepsPolicy forbiddenThenMissing rootUrl := by
  intro keeps
  have counts := congrArg Prod.snd keeps.2
  exact absurd counts (by decide)

end Webfang.Wreq.WreqDownloader
