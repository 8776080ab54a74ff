import Webfang.Domain.IpLiterals
import Webfang.Lib.Execution

/-!
# Connections behind the SSRF guard

`domain/ssrf_guard.rs` and `infrastructure/ssrf.rs`: a request is checked at its entry, each
redirect by the policy of the client, and each DNS answer by the client's resolver.  The connector
parses an address in a host by itself and asks the resolver for other hosts only.  Every layer can
be disarmed by its environment variable.
-/

namespace Webfang.Ssrf

open StepSystem

/-! ## The client -/

/-- What a redirect policy does with an attempt. -/
inductive RedirectAction
  | follow
  | stop
  | error (message : String)
  deriving DecidableEq, Repr

/-- What is not the guard's: the connector's parser of an address and `Policy::default`, which
looks at the hosts before and at the next. -/
structure Wreq where
  tryParse : List Char → Option IpAddr
  redirect : List (List Char) → List Char → RedirectAction

/-- The environment variables of the three layers. -/
structure SsrfEnv where
  disableEntryGuard : Option String
  disableRedirectGuard : Option String
  disableResolver : Option String
  deriving DecidableEq, Repr

/-- `redirect_policy`; the guard is disarmed by a variable of any value. -/
def redirectPolicy (checked : Bool) (wreq : Wreq) (env : SsrfEnv) (previous : List (List Char))
    (target : List Char) : Option RedirectAction :=
  (if env.disableRedirectGuard.isNone then isForbiddenLiteralHost checked target
    else some false).map fun forbidden =>
      if forbidden then .stop else wreq.redirect previous target

/-- `ValidatingResolver::resolve`, of an answer of `getaddrinfo`. -/
def resolve (env : SsrfEnv) (host : List Char) (answer : List IpAddr) :
    Except ScanError (List IpAddr) :=
  if env.disableResolver = some "1" then .ok answer
  else (failClosedScan host answer).map fun _ => answer

/-! ## A request -/

inductive FetchOutcome
  | rejected (literal : ForbiddenLiteral)
  | unresolved (error : ScanError)
  /-- the response, which may be a redirect that was not followed -/
  | response
  | redirectError (message : String)
  deriving DecidableEq, Repr

/-- The request is at a host, behind others that redirected it. -/
inductive FetchPhase
  | resolving (previous : List (List Char)) (host : List Char)
  | connecting (previous : List (List Char)) (host : List Char) (addrs : List IpAddr)
  | exchanging (previous : List (List Char)) (host : List Char)
  | ended (outcome : FetchOutcome)
  deriving DecidableEq, Repr

/-- `connections` are the addresses of all sockets that were opened. -/
structure FetchState where
  phase : FetchPhase
  connections : List IpAddr
  deriving DecidableEq, Repr

/-- What the resolver, the network and the server do. -/
inductive FetchAction
  | answer (addrs : List IpAddr)
  /-- a socket to one of the addresses, with or without success -/
  | connect (i : Nat) (success : Bool)
  | respond
  | redirect (target : List Char)
  deriving DecidableEq, Repr

/-- The connector takes up a host. -/
def FetchPhase.enter (wreq : Wreq) (previous : List (List Char)) (host : List Char) : FetchPhase :=
  match wreq.tryParse host with
  | some ip => .connecting previous host [ip]
  | none => .resolving previous host

/-- The entry of a request; `none` where an operation panics. -/
def fetchEntry (checked : Bool) (wreq : Wreq) (env : SsrfEnv) (host : List Char) :
    Option FetchState :=
  (rejectForbiddenLiteralUrl checked env.disableEntryGuard (some host)).map fun
    | .error literal => ⟨.ended (.rejected literal), []⟩
    | .ok () => ⟨.enter wreq [] host, []⟩

def fetchStep (checked : Bool) (wreq : Wreq) (env : SsrfEnv) (s : FetchState) :
    FetchAction → Option FetchState
  | .answer addrs =>
      match s.phase with
      | .resolving previous host =>
          match resolve env host addrs with
          | .ok addrs => some { s with phase := .connecting previous host addrs }
          | .error e => some { s with phase := .ended (.unresolved e) }
      | _ => none
  | .connect i success =>
      match s.phase with
      | .connecting previous host addrs =>
          addrs[i]?.map fun ip =>
            { phase := if success then .exchanging previous host else s.phase
              connections := s.connections ++ [ip] }
      | _ => none
  | .respond =>
      match s.phase with
      | .exchanging _ _ => some { s with phase := .ended .response }
      | _ => none
  | .redirect target =>
      match s.phase with
      | .exchanging previous host =>
          (redirectPolicy checked wreq env (previous ++ [host]) target).map fun
            | .follow => { s with phase := .enter wreq (previous ++ [host]) target }
            | .stop => { s with phase := .ended .response }
            | .error message => { s with phase := .ended (.redirectError message) }
      | _ => none

/-- A request that gets a socket to the address. -/
def Reaches (checked : Bool) (wreq : Wreq) (env : SsrfEnv) (ip : IpAddr) : Prop :=
  ∃ host s as t, fetchEntry checked wreq env host = some s ∧
    execute (fetchStep checked wreq env) s as = some t ∧ ip ∈ t.connections

/-! ## What the layers keep out -/

/-- A layer is disarmed. -/
def Disarmed (env : SsrfEnv) : Prop :=
  env.disableEntryGuard = some "1" ∨ env.disableRedirectGuard ≠ none ∨
    env.disableResolver = some "1"

/-- No socket is to a forbidden address, and none can be. -/
def Clean (s : FetchState) : Prop :=
  (∀ ip ∈ s.connections, isForbiddenIp ip = false) ∧
    ∀ previous host addrs, s.phase = .connecting previous host addrs →
      ∀ ip ∈ addrs, isForbiddenIp ip = false

section Armed

variable {checked : Bool} {wreq : Wreq} {env : SsrfEnv} {host : List Char} {s t : FetchState}

/-- An address that the connector finds in a host is the one that the guard finds. -/
def Wreq.ReadsAsGuard (checked : Bool) (wreq : Wreq) : Prop :=
  ∀ host ip, wreq.tryParse host = some ip → parseIpLiteral checked host = some (some ip)

/-- A host that the guard lets through. -/
theorem Clean.enter (reads : wreq.ReadsAsGuard checked)
    (allowed : isForbiddenLiteralHost checked host = some false)
    (clean : ∀ ip ∈ s.connections, isForbiddenIp ip = false) (previous : List (List Char)) :
    Clean { s with phase := .enter wreq previous host } := by
  refine ⟨clean, fun previous' host' addrs same ip member => ?_⟩
  unfold FetchPhase.enter at same
  split at same
  next literal found =>
      cases same
      rw [isForbiddenLiteralHost, reads host literal found] at allowed
      rw [List.mem_singleton.mp member]
      exact Option.some.inj allowed
  next => cases same

theorem clean_of_entry (reads : wreq.ReadsAsGuard checked) (armed : ¬ Disarmed env)
    (entry : fetchEntry checked wreq env host = some s) : Clean s := by
  obtain ⟨found, read⟩ := parseIpLiteral_total checked host
  have enabled : env.disableEntryGuard ≠ some "1" := fun off => armed (.inl off)
  rw [fetchEntry, rejectForbiddenLiteralUrl, if_neg enabled] at entry
  dsimp only [Option.getD_some] at entry
  rw [read] at entry
  cases found with
  | none =>
      cases entry
      refine Clean.enter (s := ⟨.ended .response, []⟩) reads ?_ (by simp) []
      rw [isForbiddenLiteralHost, read]
      rfl
  | some ip =>
      simp only [Option.map_some] at entry
      split at entry
      next outcome refused =>
          cases entry
          exact ⟨by simp, fun _ _ _ same => by cases same⟩
      next outcome passed =>
          cases entry
          refine Clean.enter (s := ⟨.ended .response, []⟩) reads ?_ (by simp) []
          rw [isForbiddenLiteralHost, read]
          split at passed
          · cases passed
          next allowed => exact congrArg some (Bool.eq_false_iff.mpr allowed)

theorem Clean.step (reads : wreq.ReadsAsGuard checked) (armed : ¬ Disarmed env) (clean : Clean s)
    {a : FetchAction} (step : fetchStep checked wreq env s a = some t) : Clean t := by
  cases a with
  | answer addrs =>
      simp only [fetchStep] at step
      split at step
      next previous host here =>
          have enabled : env.disableResolver ≠ some "1" := fun off => armed (.inr (.inr off))
          rw [resolve, if_neg enabled, failClosedScan] at step
          cases found : addrs.find? isForbiddenIp with
          | some ip =>
              rw [found] at step
              cases step
              exact ⟨clean.1, fun _ _ _ same => by cases same⟩
          | none =>
              rw [found] at step
              dsimp only at step
              split at step
              next given resolved =>
                  cases step
                  refine ⟨clean.1, fun _ _ _ same ip member => ?_⟩
                  cases same
                  have public_ := List.find?_eq_none.mp found ip
                  split at resolved
                  · cases resolved
                  · cases resolved
                    exact Bool.eq_false_iff.mpr (public_ member)
              next =>
                  cases step
                  exact ⟨clean.1, fun _ _ _ same => by cases same⟩
      next => cases step
  | connect i success =>
      simp only [fetchStep] at step
      split at step
      next previous host addrs here =>
          obtain ⟨ip, found, rfl⟩ := Option.map_eq_some_iff.mp step
          have allowed := clean.2 _ _ _ here ip (List.mem_of_getElem? found)
          refine ⟨fun other member => ?_, fun _ _ _ same => ?_⟩
          · rcases List.mem_append.mp member with before | last
            · exact clean.1 other before
            · rwa [List.mem_singleton.mp last]
          · split at same
            · cases same
            · exact clean.2 _ _ _ same
      next => cases step
  | respond =>
      simp only [fetchStep] at step
      split at step
      · cases step
        exact ⟨clean.1, fun _ _ _ same => by cases same⟩
      · cases step
  | redirect target =>
      simp only [fetchStep] at step
      split at step
      next previous host here =>
          have enabled : env.disableRedirectGuard.isNone = true := by
            rw [Option.isNone_iff_eq_none]
            by_contra on
            exact armed (.inr (.inl on))
          rw [redirectPolicy, if_pos enabled, Option.map_map] at step
          obtain ⟨forbidden, guard, rfl⟩ := Option.map_eq_some_iff.mp step
          cases forbidden with
          | true => exact ⟨clean.1, fun _ _ _ same => by cases same⟩
          | false =>
              dsimp only [Function.comp, Bool.false_eq_true, if_false]
              split
              · exact Clean.enter reads guard clean.1 _
              · exact ⟨clean.1, fun _ _ _ same => by cases same⟩
              · exact ⟨clean.1, fun _ _ _ same => by cases same⟩
      next => cases step

/-- However names resolve and servers redirect, no socket is to a forbidden address. -/
theorem not_reaches_of_armed (reads : wreq.ReadsAsGuard checked) (armed : ¬ Disarmed env)
    {ip : IpAddr} (reaches : Reaches checked wreq env ip) : isForbiddenIp ip = false := by
  obtain ⟨host, s, as, t, entry, run, member⟩ := reaches
  have clean := execute_invariant (I := Clean) (fun _ _ _ clean next => clean.step reads armed next)
    run (clean_of_entry reads armed entry)
  exact clean.1 ip member

end Armed

/-! ## What a disarmed layer lets in -/

def localhost : List Char := "127.0.0.1".toList

def publicName : List Char := "example.com".toList

def loopback : IpAddr := .v4 ⟨127, 0, 0, 1⟩

def publicAddr : IpAddr := .v4 ⟨93, 184, 216, 34⟩

section Disarmed

variable {checked : Bool} {wreq : Wreq} {env : SsrfEnv}

theorem parseIpLiteral_publicName (checked : Bool) :
    parseIpLiteral checked publicName = some none := by
  cases checked <;> decide

/-- A name passes the entry guard, armed or not. -/
theorem fetchEntry_publicName (name : wreq.tryParse publicName = none) :
    fetchEntry checked wreq env publicName = some ⟨.resolving [] publicName, []⟩ := by
  rw [fetchEntry, rejectForbiddenLiteralUrl]
  split
  · simp only [Option.map_some, FetchPhase.enter, name]
  · dsimp only [Option.getD_some]
    rw [parseIpLiteral_publicName]
    simp only [Option.map_some, FetchPhase.enter, name]

theorem reaches_of_entry (literal : wreq.tryParse localhost = some loopback)
    (off : env.disableEntryGuard = some "1") : Reaches checked wreq env loopback := by
  refine ⟨localhost, ⟨.connecting [] localhost [loopback], []⟩, [.connect 0 true],
    ⟨.exchanging [] localhost, [loopback]⟩, ?_, rfl, List.mem_singleton_self _⟩
  rw [fetchEntry, rejectForbiddenLiteralUrl, if_pos off]
  simp only [Option.map_some, FetchPhase.enter, literal]

theorem reaches_of_resolver (name : wreq.tryParse publicName = none)
    (off : env.disableResolver = some "1") : Reaches checked wreq env loopback := by
  refine ⟨publicName, _, [.answer [loopback], .connect 0 true],
    ⟨.exchanging [] publicName, [loopback]⟩, fetchEntry_publicName name, ?_,
    List.mem_singleton_self _⟩
  rw [execute_cons]
  simp only [fetchStep, resolve, if_pos off]
  rfl

theorem reaches_of_redirect (literal : wreq.tryParse localhost = some loopback)
    (name : wreq.tryParse publicName = none)
    (follows : wreq.redirect [publicName] localhost = .follow)
    (off : env.disableRedirectGuard ≠ none) : Reaches checked wreq env loopback := by
  have answered : resolve env publicName [publicAddr] = .ok [publicAddr] := by
    rw [resolve]
    split
    · rfl
    · decide
  have redirected : redirectPolicy checked wreq env [publicName] localhost = some .follow := by
    have disarmed : ¬ env.disableRedirectGuard.isNone = true := fun none =>
      off (Option.isNone_iff_eq_none.mp none)
    rw [redirectPolicy, if_neg disarmed]
    simp only [Option.map_some, Bool.false_eq_true, if_false, follows]
  refine ⟨publicName, _, [.answer [publicAddr], .connect 0 true, .redirect localhost,
    .connect 0 true], ⟨.exchanging [publicName] localhost, [publicAddr, loopback]⟩,
    fetchEntry_publicName name, ?_, List.mem_cons_of_mem _ (List.mem_singleton_self _)⟩
  simp only [execute_cons, fetchStep, answered, Option.bind_some, List.getElem?_cons_zero,
    Option.map_some, if_true, List.nil_append, redirected, FetchPhase.enter, literal]
  rfl

end Disarmed

/-- A connector with the parser of the standard library, and a limit of ten redirects. -/
def stdWreq : Wreq where
  tryParse host := parseWith readIpAddr (unbracketed host)
  redirect previous _ := if 10 < previous.length then .error "too many redirects" else .follow

theorem stdWreq_readsAsGuard (checked : Bool) : stdWreq.ReadsAsGuard checked := by
  intro host ip found
  change parseWith readIpAddr (unbracketed host) = some ip at found
  rw [parseIpLiteral, found]

end Webfang.Ssrf
