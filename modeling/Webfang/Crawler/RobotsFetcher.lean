import Mathlib.Data.List.Basic
import Mathlib.Logic.Function.Basic
import Webfang.Http.HttpClient
import Webfang.Lib.Execution
import Webfang.Lib.Parties
import Webfang.Sitemap.RobotsDirective

/-!
# Robots decisions

`RobotsFetcher` of `infrastructure/crawler/robots_utils.rs`, as the crawl tasks call it for the
links that they find.  The calls share a cache with one `OnceCell` for each host; the first call
that comes to a cell fetches the robots.txt of the origin of its own URL, and the others of the
host, whatever their scheme and port, are answered by it.
-/

namespace Webfang

namespace Robots

open StepSystem

/-- `url::Origin` of a URL with a host. -/
structure Origin where
  scheme : List Char
  host : List Char
  port : Nat
  deriving DecidableEq, Repr

/-- What is used of the crates `url` and `robotstxt`, of the SSRF guard and of the standard
library. -/
structure RobotsTools (υ δ : Type) where
  parse : List Char → Option υ
  origin : υ → Origin
  /-- `reject_forbidden_literal_url` -/
  rejectsLiteral : υ → Bool
  toLowercase : List Char → List Char
  parseF64 : List Char → Option δ
  /-- `one_agent_allowed_by_robots`: of a robots.txt, an agent and a URL -/
  oneAgentAllowedByRobots : List Char → List Char → List Char → Bool

/-- What a GET of a robots.txt comes to, with the body unless it cannot be read. -/
inductive RobotsResponse
  | networkError
  | response (status : Nat) (body : Option (List Char))

/-- The reason of a `RobotsFetchFailure`. -/
inductive RobotsFetchFailure
  | networkError
  | httpStatus (code : Nat)
  | bodyReadError
  deriving DecidableEq

structure RobotsRules (δ : Type) where
  content : List Char
  crawlDelaySecs : Option δ

inductive RobotsCacheEntry (δ : Type)
  | rules (rules : RobotsRules δ)
  | allowAll

/-- `OnceCell<Arc<RobotsCacheEntry>>`. -/
inductive Cell (δ : Type)
  | uninit
  /-- a call runs the initializer -/
  | initializing
  | set (entry : RobotsCacheEntry δ)

/-! ## The fetch -/

section Fetch

variable {υ δ : Type} (tools : RobotsTools υ δ)

def parseCrawlDelay (content : List Char) : Option δ :=
  (Sitemap.lines content).findSome? fun line =>
    let trimmed := Http.Response.trim line
    if "crawl-delay:".toList.isPrefixOf (tools.toLowercase trimmed) then
      (trimmed.splitOn ':')[1]?.bind fun val => tools.parseF64 (Http.Response.trim val)
    else none

/-- The origin whose robots.txt is fetched for a page; without a URL that of the domain. -/
def robotsTxtOrigin (url domain : List Char) : Origin :=
  match tools.parse url with
  | some parsed => tools.origin parsed
  | none => ⟨"https".toList, domain, 443⟩

def fetchRobotsContent : RobotsResponse → Except RobotsFetchFailure (List Char)
  | .networkError => .error .networkError
  | .response status body =>
      if ¬ (200 ≤ status ∧ status ≤ 299) then .error (.httpStatus status)
      else
        match body with
        | some content => .ok content
        | none => .error .bodyReadError

def fetchOrAllowAll (response : RobotsResponse) : RobotsCacheEntry δ :=
  match fetchRobotsContent response with
  | .ok content => .rules ⟨content, parseCrawlDelay tools content⟩
  | .error _ => .allowAll

/-- The answer of a cached decision for a URL. -/
def RobotsCacheEntry.allows (entry : RobotsCacheEntry δ) (url : List Char) : Bool :=
  match entry with
  | .rules found => tools.oneAgentAllowedByRobots found.content ['*'] url
  | .allowAll => true

end Fetch

/-! ## Calls -/

inductive Stage
  /-- behind the SSRF guard -/
  | entered
  /-- with the cell of its domain -/
  | holding
  /-- running the initializer of the cell -/
  | fetching
  | answered (allowed : Bool)
  deriving DecidableEq, Repr

/-- A call `is_allowed(url, domain)`. -/
structure Call where
  url : List Char
  domain : List Char
  stage : Stage
  deriving DecidableEq, Repr

/-- The fetcher with the calls made to it; `fetched` are the GETs of a robots.txt, in order. -/
structure Fetcher (δ : Type) where
  cache : List Char → Option (Cell δ)
  calls : List Call
  fetched : List Origin

def Fetcher.new {δ : Type} : Fetcher δ := ⟨fun _ => none, [], []⟩

inductive Action
  /-- a crawl task asks for a link that it has found -/
  | check (link : List Char)
  /-- a call goes on to its next `.await` -/
  | resume (call : Nat)
  deriving DecidableEq, Repr

section Calls

variable {υ δ : Type} (tools : RobotsTools υ δ) (documents : Origin → RobotsResponse)

/-- A crawl task calls for the links that are URLs, with their host; a forbidden literal is denied
at once. -/
def Fetcher.check (s : Fetcher δ) (link : List Char) : Option (Fetcher δ) :=
  (tools.parse link).map fun parsed =>
    let stage := if tools.rejectsLiteral parsed then .answered false else .entered
    { s with calls := s.calls ++ [⟨link, (tools.origin parsed).host, stage⟩] }

/-- The call takes the cell of its domain: `entry(domain).or_insert_with`. -/
def Fetcher.insertCell (s : Fetcher δ) (i : Nat) (call : Call) : Fetcher δ :=
  { s with
    cache := Function.update s.cache call.domain (some ((s.cache call.domain).getD .uninit))
    calls := s.calls.set i { call with stage := .holding } }

def Fetcher.answer (s : Fetcher δ) (i : Nat) (call : Call) (entry : RobotsCacheEntry δ) :
    Fetcher δ :=
  { s with
    calls := s.calls.set i { call with stage := .answered (entry.allows tools call.url) } }

/-- The call runs the initializer: the robots.txt is asked for. -/
def Fetcher.initCell (s : Fetcher δ) (i : Nat) (call : Call) : Fetcher δ where
  cache := Function.update s.cache call.domain (some .initializing)
  calls := s.calls.set i { call with stage := .fetching }
  fetched := s.fetched ++ [robotsTxtOrigin tools call.url call.domain]

/-- The initializer is done: the cell is set, and the call is answered. -/
def Fetcher.finish (s : Fetcher δ) (i : Nat) (call : Call) : Fetcher δ :=
  let entry := fetchOrAllowAll tools (documents (robotsTxtOrigin tools call.url call.domain))
  { s.answer tools i call entry with
    cache := Function.update s.cache call.domain (some (.set entry)) }

/-- What a call does from one point where others may come between to the next. -/
def Fetcher.resumeCall (s : Fetcher δ) (i : Nat) (call : Call) : Option (Fetcher δ) :=
  match call.stage with
  | .entered => some (s.insertCell i call)
  | .holding =>
      match s.cache call.domain with
      | some (.set entry) => some (s.answer tools i call entry)
      | some .uninit => some (s.initCell tools i call)
      -- it waits for the call that runs the initializer
      | some .initializing => none
      | none => none
  | .fetching => some (s.finish tools documents i call)
  | .answered _ => none

def Fetcher.step (s : Fetcher δ) : Action → Option (Fetcher δ)
  | .check link => s.check tools link
  | .resume i => s.calls[i]?.bind (s.resumeCall tools documents i)

/-! ## The law -/

/-- What the robots.txt of an origin says of a URL; where it cannot be fetched the URL is allowed. -/
def decision (origin : Origin) (url : List Char) : Bool :=
  (fetchOrAllowAll tools (documents origin)).allows tools url

/-- What the robots.txt of a call's own origin says. -/
def Call.ownDecision (call : Call) : Bool :=
  decision tools documents (robotsTxtOrigin tools call.url call.domain) call.url

/-- The answers are those of the URLs' own origins, and no robots.txt is fetched twice. -/
structure Fetcher.FollowsOrigins (s : Fetcher δ) : Prop where
  answers : ∀ call ∈ s.calls, ∀ allowed, call.stage = .answered allowed →
    allowed = call.ownDecision tools documents
  once : s.fetched.Nodup

/-- A step that is answered by another robots.txt is answered as by the own one: a literal that is
denied at once, and a call that finds its host's cell initialized. -/
def AnswersAgree (s : Fetcher δ) : Action → Prop
  | .check link => ∀ parsed ∈ tools.parse link, tools.rejectsLiteral parsed →
      decision tools documents (tools.origin parsed) link = false
  | .resume i => ∀ call ∈ s.calls[i]?, call.stage = .holding → ∀ entry,
      s.cache call.domain = some (.set entry) → ∀ origin ∈ s.fetched, origin.host = call.domain →
        decision tools documents origin call.url = call.ownDecision tools documents

variable {tools documents} {s t : Fetcher δ}

/-- What the calls keep: one fetch for each host, and its outcome in the cell. -/
structure Fetcher.Sound (tools : RobotsTools υ δ) (documents : Origin → RobotsResponse)
    (s : Fetcher δ) : Prop where
  hosts : (s.fetched.map Origin.host).Nodup
  /-- the cell of a host whose robots.txt is fetched is in use -/
  begun : ∀ origin ∈ s.fetched, s.cache origin.host = some .initializing ∨
    ∃ entry, s.cache origin.host = some (.set entry)
  entries : ∀ domain entry, s.cache domain = some (.set entry) → ∃ origin ∈ s.fetched,
    origin.host = domain ∧ entry = fetchOrAllowAll tools (documents origin)
  fetching : ∀ call ∈ s.calls, call.stage = .fetching →
    robotsTxtOrigin tools call.url call.domain ∈ s.fetched
  domains : ∀ call ∈ s.calls, (robotsTxtOrigin tools call.url call.domain).host = call.domain

theorem sound_new : (Fetcher.new : Fetcher δ).Sound tools documents where
  hosts := List.nodup_nil
  begun _ known := absurd known List.not_mem_nil
  entries _ _ cached := nomatch cached
  fetching _ known := absurd known List.not_mem_nil
  domains _ known := absurd known List.not_mem_nil

/-- The origin whose robots.txt has been fetched for a host is the only one. -/
theorem Fetcher.Sound.origin_unique (sound : s.Sound tools documents) {o o' : Origin}
    (known : o ∈ s.fetched) (known' : o' ∈ s.fetched) (same : o.host = o'.host) : o = o' :=
  List.inj_on_of_nodup_map sound.hosts known known' same

theorem Fetcher.Sound.check (sound : s.Sound tools documents) {link : List Char}
    (step : s.check tools link = some t) : t.Sound tools documents := by
  obtain ⟨parsed, found, next⟩ := Option.map_eq_some_iff.mp step
  rw [← next]
  exact { sound with
    fetching := by
      apply Parties.forall_mem_concat sound.fetching
      intro fetching
      exfalso
      revert fetching
      cases tools.rejectsLiteral parsed <;> exact nofun
    domains := by
      apply Parties.forall_mem_concat sound.domains
      simp only [robotsTxtOrigin, found] }

theorem Fetcher.Sound.insertCell (sound : s.Sound tools documents) {i : Nat} {call : Call}
    (known : call ∈ s.calls) : (s.insertCell i call).Sound tools documents where
  hosts := sound.hosts
  begun := by
    intro origin fetched
    have begun := sound.begun origin fetched
    simp only [Fetcher.insertCell, Function.update_apply]
    split
    · rename_i same
      rw [same] at begun
      rcases begun with initializing | ⟨entry, cached⟩
      · left
        rw [initializing, Option.getD_some]
      · right
        exact ⟨entry, by rw [cached, Option.getD_some]⟩
    · exact begun
  entries := by
    intro domain entry cached
    simp only [Fetcher.insertCell, Function.update_apply] at cached
    split at cached
    · rename_i same
      apply sound.entries domain entry
      rw [same]
      cases before : s.cache call.domain with
      | none =>
          rw [before] at cached
          cases cached
      | some cell =>
          rw [before] at cached
          exact cached
    · exact sound.entries domain entry cached
  fetching := Parties.forall_mem_set sound.fetching (fun fetching => nomatch fetching)
  domains := Parties.forall_mem_set sound.domains (sound.domains call known)

theorem Fetcher.Sound.answer (sound : s.Sound tools documents) {i : Nat} {call : Call}
    (known : call ∈ s.calls) (entry : RobotsCacheEntry δ) :
    (s.answer tools i call entry).Sound tools documents :=
  { sound with
    fetching := Parties.forall_mem_set sound.fetching (fun fetching => nomatch fetching)
    domains := Parties.forall_mem_set sound.domains (sound.domains call known) }

theorem Fetcher.Sound.initCell (sound : s.Sound tools documents) {i : Nat} {call : Call}
    (known : call ∈ s.calls) (uninit : s.cache call.domain = some .uninit) :
    (s.initCell tools i call).Sound tools documents := by
  have host := sound.domains call known
  have fresh : call.domain ∉ s.fetched.map Origin.host := by
    intro mem
    obtain ⟨origin, fetched, same⟩ := List.mem_map.mp mem
    have begun := sound.begun origin fetched
    rw [same, uninit] at begun
    rcases begun with initializing | ⟨entry, cached⟩
    · cases initializing
    · cases cached
  exact {
    hosts := by
      rw [Fetcher.initCell, List.map_append, List.map_singleton, host,
        ← List.concat_eq_append]
      exact sound.hosts.concat fresh
    begun := by
      intro origin fetched
      simp only [Fetcher.initCell, Function.update_apply]
      split
      · exact Or.inl rfl
      · rename_i other
        rcases List.mem_append.mp fetched with before | last
        · exact sound.begun origin before
        · rw [List.mem_singleton.mp last, host] at other
          exact absurd rfl other
    entries := by
      intro domain entry cached
      simp only [Fetcher.initCell, Function.update_apply] at cached
      split at cached
      · cases cached
      · obtain ⟨origin, fetched, same⟩ := sound.entries domain entry cached
        exact ⟨origin, List.mem_append_left _ fetched, same⟩
    fetching := by
      refine Parties.forall_mem_set ?_ (fun _ => List.mem_concat_self)
      intro other known' fetching
      exact List.mem_append_left _ (sound.fetching other known' fetching)
    domains := Parties.forall_mem_set sound.domains host }

theorem Fetcher.Sound.finish (sound : s.Sound tools documents) {i : Nat} {call : Call}
    (known : call ∈ s.calls) (fetching : call.stage = .fetching) :
    (s.finish tools documents i call).Sound tools documents where
  hosts := sound.hosts
  begun := by
    intro origin fetched
    simp only [Fetcher.finish, Function.update_apply]
    split
    · exact Or.inr ⟨_, rfl⟩
    · exact sound.begun origin fetched
  entries := by
    intro domain entry cached
    simp only [Fetcher.finish, Function.update_apply] at cached
    split at cached
    · rename_i same
      rw [Option.some.injEq, Cell.set.injEq] at cached
      refine ⟨_, sound.fetching call known fetching, ?_, cached.symm⟩
      rw [same]
      exact sound.domains call known
    · exact sound.entries domain entry cached
  fetching := Parties.forall_mem_set sound.fetching (fun fetching => nomatch fetching)
  domains := Parties.forall_mem_set sound.domains (sound.domains call known)

/-- What a call that goes on does. -/
theorem resumeCall_cases {i : Nat} {call : Call}
    (step : s.resumeCall tools documents i call = some t) :
    call.stage = .entered ∧ t = s.insertCell i call ∨
      (∃ entry, call.stage = .holding ∧ s.cache call.domain = some (.set entry) ∧
        t = s.answer tools i call entry) ∨
      call.stage = .holding ∧ s.cache call.domain = some .uninit ∧ t = s.initCell tools i call ∨
      call.stage = .fetching ∧ t = s.finish tools documents i call := by
  unfold Fetcher.resumeCall at step
  split at step
  · rename_i stage
    exact Or.inl ⟨stage, (Option.some.inj step).symm⟩
  · rename_i stage
    split at step
    · rename_i entry cached
      exact Or.inr (Or.inl ⟨entry, stage, cached, (Option.some.inj step).symm⟩)
    · rename_i cached
      exact Or.inr (Or.inr (Or.inl ⟨stage, cached, (Option.some.inj step).symm⟩))
    · cases step
    · cases step
  · rename_i stage
    exact Or.inr (Or.inr (Or.inr ⟨stage, (Option.some.inj step).symm⟩))
  · cases step

theorem Fetcher.Sound.step (sound : s.Sound tools documents) {a : Action}
    (step : s.step tools documents a = some t) : t.Sound tools documents := by
  cases a with
  | check link => exact sound.check step
  | resume i =>
      obtain ⟨call, found, next⟩ := Option.bind_eq_some_iff.mp step
      have known := List.mem_of_getElem? found
      rcases resumeCall_cases next with ⟨_, rfl⟩ | ⟨entry, _, _, rfl⟩ | ⟨_, uninit, rfl⟩ |
        ⟨fetching, rfl⟩
      · exact sound.insertCell known
      · exact sound.answer known entry
      · exact sound.initCell known uninit
      · exact sound.finish known fetching

/-! ## The answers -/

/-- A call that moves on keeps the law exactly if the answer it gets, if any, is the own one. -/
theorem followsOrigins_moved_iff (follows : s.FollowsOrigins tools documents)
    (sound : t.Sound tools documents) {i : Nat} {call : Call} {stage : Stage}
    (found : s.calls[i]? = some call) (moved : t.calls = s.calls.set i { call with stage }) :
    t.FollowsOrigins tools documents ↔
      ∀ allowed, stage = .answered allowed → allowed = call.ownDecision tools documents := by
  constructor
  · intro law allowed answered
    apply law.answers { call with stage } _ allowed answered
    rw [moved]
    exact Parties.mem_set_self found _
  · intro own
    refine ⟨?_, sound.hosts.of_map⟩
    rw [moved]
    exact Parties.forall_mem_set follows.answers own

theorem followsOrigins_check_iff (follows : s.FollowsOrigins tools documents) {link : List Char}
    (step : s.check tools link = some t) :
    t.FollowsOrigins tools documents ↔ AnswersAgree tools documents s (.check link) := by
  obtain ⟨parsed, found, next⟩ := Option.map_eq_some_iff.mp step
  have origin : ∀ domain, robotsTxtOrigin tools link domain = tools.origin parsed := by
    intro domain
    rw [robotsTxtOrigin, found]
  rw [← next]
  constructor
  · intro law parsed' found' rejected
    rw [found, Option.mem_some_iff] at found'
    rw [← found'] at rejected ⊢
    have answer := law.answers _ List.mem_concat_self false (by rw [if_pos rejected])
    rw [Call.ownDecision, origin] at answer
    exact answer.symm
  · intro agree
    refine ⟨?_, follows.once⟩
    apply Parties.forall_mem_concat follows.answers
    intro allowed answered
    rw [Call.ownDecision, origin]
    by_cases rejected : tools.rejectsLiteral parsed
    · simp only [rejected, if_true, Stage.answered.injEq] at answered
      rw [← answered]
      exact (agree parsed found rejected).symm
    · simp only [rejected] at answered
      cases answered

/-- A step keeps the law exactly if it meets the condition. -/
theorem followsOrigins_step_iff (sound : s.Sound tools documents)
    (follows : s.FollowsOrigins tools documents) {a : Action}
    (step : s.step tools documents a = some t) :
    t.FollowsOrigins tools documents ↔ AnswersAgree tools documents s a := by
  have sound' := sound.step step
  cases a with
  | check link => exact followsOrigins_check_iff follows step
  | resume i =>
      obtain ⟨call, found, next⟩ := Option.bind_eq_some_iff.mp step
      have condition : AnswersAgree tools documents s (.resume i) ↔ (call.stage = .holding →
          ∀ entry, s.cache call.domain = some (.set entry) → ∀ origin ∈ s.fetched,
            origin.host = call.domain →
              decision tools documents origin call.url = call.ownDecision tools documents) := by
        constructor
        · exact fun agree => agree call found
        · intro agree other found'
          rw [found, Option.mem_some_iff] at found'
          rw [← found']
          exact agree
      rw [condition]
      rcases resumeCall_cases next with ⟨stage, rfl⟩ | ⟨entry, stage, cached, rfl⟩ |
        ⟨stage, uninit, rfl⟩ | ⟨stage, rfl⟩
      · rw [followsOrigins_moved_iff follows sound' found rfl]
        exact iff_of_true (fun _ answered => nomatch answered)
          (fun holding => nomatch stage.symm.trans holding)
      · rw [followsOrigins_moved_iff follows sound' found rfl]
        obtain ⟨origin, fetched, host, outcome⟩ := sound.entries call.domain entry cached
        have answer : entry.allows tools call.url = decision tools documents origin call.url := by
          rw [outcome, decision]
        constructor
        · intro own _ _ _ origin' fetched' host'
          rw [sound.origin_unique fetched' fetched (host'.trans host.symm), ← answer]
          exact own _ rfl
        · intro agree allowed answered
          rw [← Stage.answered.inj answered, answer]
          exact agree stage entry cached origin fetched host
      · rw [followsOrigins_moved_iff follows sound' found rfl]
        refine iff_of_true (fun _ answered => nomatch answered) ?_
        intro _ entry cached
        rw [uninit] at cached
        cases cached
      · rw [followsOrigins_moved_iff follows sound' found rfl]
        refine iff_of_true ?_ (fun holding => nomatch stage.symm.trans holding)
        intro allowed answered
        exact (Stage.answered.inj answered).symm

theorem answersAgree_of_refused {a : Action} (refused : s.step tools documents a = none) :
    AnswersAgree tools documents s a := by
  cases a with
  | check link =>
      intro parsed found
      rw [Fetcher.step, Fetcher.check, found] at refused
      cases refused
  | resume i =>
      intro call found holding entry cached
      rw [Fetcher.step, found, Option.bind_some, Fetcher.resumeCall, holding] at refused
      simp only [cached] at refused
      cases refused

/-- In every state of a run the answers are those of the URLs' own origins, exactly if at each step
an answer that comes from another robots.txt, or from none, is the own one. -/
theorem run_followsOrigins_iff (tools : RobotsTools υ δ) (documents : Origin → RobotsResponse)
    (run : List Action) :
    (∀ s, Reached (Fetcher.step tools documents) .new run s → s.FollowsOrigins tools documents) ↔
      Along (Fetcher.step tools documents) (AnswersAgree tools documents) .new run := by
  apply reached_good_iff (I := Fetcher.Sound tools documents)
  · exact fun s a t sound step => sound.step step
  · exact fun s a t sound follows step => followsOrigins_step_iff sound follows step
  · exact fun s a refused => answersAgree_of_refused refused
  · exact sound_new
  · exact ⟨fun _ known => absurd known List.not_mem_nil, List.nodup_nil⟩

end Calls

/-! ## Two origins of one host -/

/-- The site at the default port and another one at port 8080. -/
def sampleTools : RobotsTools Origin Nat where
  parse url :=
    if url = "https://h/".toList then some ⟨"https".toList, ['h'], 443⟩
    else if url = "http://h:8080/".toList then some ⟨"http".toList, ['h'], 8080⟩
    else none
  origin := id
  rejectsLiteral _ := false
  toLowercase text := text.map Char.toLower
  parseF64 _ := none
  oneAgentAllowedByRobots content _ _ := content ≠ "User-agent: *\nDisallow: /".toList

/-- Only the site at port 8080 has a robots.txt, which forbids everything. -/
def sampleDocuments (origin : Origin) : RobotsResponse :=
  if origin.port = 8080 then .response 200 (some "User-agent: *\nDisallow: /".toList)
  else .response 404 none

/-- The link to the first site is checked, and then the link to the second. -/
def sampleRun : List Action :=
  [.check "https://h/".toList, .resume 0, .resume 0, .resume 0,
    .check "http://h:8080/".toList, .resume 1, .resume 1]

/-- The second site is allowed by the missing robots.txt of the first. -/
theorem second_origin_allowed :
    ¬ ∀ s, Reached (Fetcher.step sampleTools sampleDocuments) .new sampleRun s →
      s.FollowsOrigins sampleTools sampleDocuments := by
  intro law
  have runs : (execute (Fetcher.step sampleTools sampleDocuments) .new sampleRun).isSome := by
    decide +kernel
  obtain ⟨s, run⟩ := Option.isSome_iff_exists.mp runs
  have calls : (execute (Fetcher.step sampleTools sampleDocuments) .new sampleRun).map
      Fetcher.calls = some [⟨"https://h/".toList, ['h'], .answered true⟩,
        ⟨"http://h:8080/".toList, ['h'], .answered true⟩] := by
    decide +kernel
  rw [run, Option.map_some, Option.some.injEq] at calls
  have follows := law s ⟨sampleRun, List.prefix_rfl, run⟩
  have answer := follows.answers ⟨"http://h:8080/".toList, ['h'], .answered true⟩
    (by rw [calls]; exact List.mem_cons_of_mem _ List.mem_cons_self) true rfl
  revert answer
  decide +kernel

end Robots

end Webfang
