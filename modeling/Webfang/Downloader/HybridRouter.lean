import Webfang.Downloader.RenderGate
import Webfang.Downloader.WreqDownloader
import Webfang.Http.WafCompleteness

/-!
# The three layers of the hybrid router

`infrastructure/downloader/hybrid_router.rs` and `spa_detector.rs`: a page of layer 1 is looked at,
and what is no static page is fetched again by layer 2 and then by layer 3.  The pages of the later
layers are not looked at.  The answers of the layers and of the governor are given beforehand, and a
result stands before the layers that were asked.
-/

namespace Webfang.Hybrid

open Wreq (DownloadError FetchedPage)
open Downloader (ResourceError)

/-! ## The signal of a page -/

inductive SpaReason
  | mountPoint (description : String)
  | insufficientText (chars : Nat)
  | boilerplateOnlyText (totalChars contentChars : Nat)
  deriving DecidableEq

inductive SpaSignal
  | staticContent
  | spaDetected (reason : SpaReason)
  | wafBlocked
  deriving DecidableEq

def minVisibleChars : Nat := 50

def spaMarkers : List (String × String) :=
  [("id=\"root\"", "React #root"), ("id=\"app\"", "Vue/React #app"), ("__NEXT_DATA__", "Next.js"),
    ("__NUXT__", "Nuxt.js"), ("id=\"app\"", "Vue #app"), ("<app-root>", "Angular app-root"),
    ("__REMIX_DATA__", "Remix")]

def invisibleTextTags : List String := ["script", "style", "noscript", "template"]

def boilerplateTags : List String := ["nav", "header", "footer", "aside"]

def anchorTag : String := "a"

/-- The parser of documents: the text nodes of one, each with the elements around it.  An empty
document has no text. -/
structure DocumentParser where
  textNodes : String → List (List String × List Char)
  empty : textNodes "" = []

structure VisibleTextCount where
  charsTotal : Nat
  charsContent : Nat

def isContained (html marker : String) : Bool :=
  html.toList.tails.any marker.toList.isPrefixOf

/-- One text node is counted. -/
def countNode (count : VisibleTextCount) (node : List String × List Char) : VisibleTextCount :=
  if node.1.any invisibleTextTags.contains then count
  else
    let n := (node.2.filter fun c => !isWhitespace c).length
    let boilerplate := node.1.any fun name => boilerplateTags.contains name || name == anchorTag
    ⟨count.charsTotal + n, if boilerplate then count.charsContent else count.charsContent + n⟩

/-- `HybridRouter`, with the parser that is used and the bodies whose entropy is high. -/
structure HybridRouter where
  parser : DocumentParser
  highEntropy : List UInt8 → Bool
  ignoreWaf : Bool

namespace HybridRouter

variable (router : HybridRouter)

def countVisibleText (html : String) : VisibleTextCount :=
  (router.parser.textNodes html).foldl countNode ⟨0, 0⟩

/-- The verdict on a page of which neither status nor headers are known. -/
def verdict (html : String) : Http.WafVerdict :=
  Waf.inspect router.highEntropy (Waf.asBytes html) ⟨none, none, ∅, router.ignoreWaf⟩

def detectSpa (html : String) : SpaSignal :=
  if (router.verdict html).isBlocked then .wafBlocked
  else
    let text := router.countVisibleText html
    if minVisibleChars ≤ text.charsContent then .staticContent
    else
      match spaMarkers.find? fun marker => isContained html marker.1 with
      | some marker => .spaDetected (.mountPoint marker.2)
      | none =>
          if minVisibleChars ≤ text.charsTotal then
            .spaDetected (.boilerplateOnlyText text.charsTotal text.charsContent)
          else .spaDetected (.insufficientText text.charsContent)

def evaluateFetch (page : FetchedPage) : Except DownloadError (Option FetchedPage) :=
  match router.detectSpa page.html with
  | .staticContent => .ok (some page)
  | .wafBlocked => .error (.wafChallenge "WAF challenge detected in response")
  | .spaDetected _ => .ok none

end HybridRouter

/-! ## The layers -/

inductive Layer
  | layer1
  | layer2
  | layer3
  deriving DecidableEq

/-- What the layers would answer to a fetch, and the governor before the second and the third. -/
structure Answers where
  fetch : Layer → Except DownloadError FetchedPage
  beforeLayer2 : Except ResourceError Nat
  beforeLayer3 : Except ResourceError Nat

def resourceError : ResourceError → DownloadError
  | .ramTooHigh usage =>
      .resourceExhausted s!"RAM usage too high ({usage}%): new Chrome instances denied"

namespace HybridRouter

variable (router : HybridRouter) (answers : Answers)

/-- The end of `fetch_inner`, behind layer 2. -/
def fetchLayer3 : Except DownloadError FetchedPage × List Layer :=
  match answers.beforeLayer3 with
  | .error e => (.error (resourceError e), [.layer1, .layer2])
  | .ok _ => (answers.fetch .layer3, [.layer1, .layer2, .layer3])

/-- `fetch_inner` behind layer 1. -/
def fetchLayer2 : Except DownloadError FetchedPage × List Layer :=
  match answers.beforeLayer2 with
  | .error e => (.error (resourceError e), [.layer1])
  | .ok _ =>
      match answers.fetch .layer2 with
      | .ok page =>
          if page.html ≠ "" then (.ok page, [.layer1, .layer2]) else fetchLayer3 answers
      | .error (.wafChallenge msg) => (.error (.wafChallenge msg), [.layer1, .layer2])
      | .error _ => fetchLayer3 answers

def fetchInner : Except DownloadError FetchedPage × List Layer :=
  match answers.fetch .layer1 with
  | .error e => (.error e, [.layer1])
  | .ok page =>
      match router.evaluateFetch page with
      | .error e => (.error e, [.layer1])
      | .ok (some page) => (.ok page, [.layer1])
      | .ok none => fetchLayer2 answers

/-! ## What is promised -/

/-- An answer that is a challenge, as an error or as a page. -/
def IsChallenge : Except DownloadError FetchedPage → Prop
  | .error e => ∃ msg, e = .wafChallenge msg
  | .ok page => router.detectSpa page.html = .wafBlocked

/-- A challenge of a layer that is asked is the result, and no later layer is asked; and a page that
is returned is no challenge, and is not empty unless it is that of the last layer. -/
structure ShortCircuits (outcome : Except DownloadError FetchedPage × List Layer) : Prop where
  aborts : ∀ layer ∈ outcome.2, router.IsChallenge (answers.fetch layer) →
    (∃ msg, outcome.1 = .error (.wafChallenge msg)) ∧ outcome.2.getLast? = some layer
  clean : ∀ page, outcome.1 = .ok page → router.detectSpa page.html ≠ .wafBlocked
  nonempty : ∀ page, outcome.1 = .ok page → page.html ≠ "" ∨ outcome.2.getLast? = some .layer3

/-- Layer 2 is asked. -/
def Escalates : Prop :=
  (∃ page reason, answers.fetch .layer1 = .ok page ∧
    router.detectSpa page.html = .spaDetected reason) ∧ ∃ permits, answers.beforeLayer2 = .ok permits

/-- Layer 3 is asked, if layer 2 is. -/
def Renders : Prop :=
  ((∃ page, answers.fetch .layer2 = .ok page ∧ page.html = "") ∨
    ∃ e, answers.fetch .layer2 = .error e ∧ ∀ msg, e ≠ .wafChallenge msg) ∧
    ∃ permits, answers.beforeLayer3 = .ok permits

/-- No layer that is asked behind the first one answers with the page of a challenge. -/
structure CleanPages : Prop where
  layer2 : router.Escalates answers → ∀ page, answers.fetch .layer2 = .ok page →
    router.detectSpa page.html ≠ .wafBlocked
  layer3 : router.Escalates answers → Renders answers → ∀ page, answers.fetch .layer3 = .ok page →
    router.detectSpa page.html ≠ .wafBlocked

/-! ## The signal of an empty page -/

theorem detectSpa_empty : ∃ reason, router.detectSpa "" = .spaDetected reason := by
  have passed : (router.verdict "").isBlocked = false := by
    rw [verdict]
    cases router.ignoreWaf with
    | true => rfl
    | false => rfl
  have none : router.countVisibleText "" = ⟨0, 0⟩ := by
    rw [countVisibleText, router.parser.empty]
    rfl
  rw [detectSpa, passed, none]
  exact ⟨_, rfl⟩

theorem not_isChallenge_empty {page : FetchedPage} (empty : page.html = "") :
    ¬ router.IsChallenge (.ok page) := by
  intro challenge
  obtain ⟨reason, signal⟩ := router.detectSpa_empty
  rw [IsChallenge, empty, signal] at challenge
  cases challenge

/-! ## The outcome -/

variable {router answers}

/-- No layer before the last one that is asked answered with a challenge. -/
theorem shortCircuits_iff {front : List Layer} {last : Layer}
    {result : Except DownloadError FetchedPage}
    (earlier : ∀ layer ∈ front, ¬ router.IsChallenge (answers.fetch layer)) :
    router.ShortCircuits answers (result, front ++ [last]) ↔
      (router.IsChallenge (answers.fetch last) → ∃ msg, result = .error (.wafChallenge msg)) ∧
        ∀ page, result = .ok page → router.detectSpa page.html ≠ .wafBlocked ∧
          (page.html ≠ "" ∨ last = .layer3) := by
  have final : (front ++ [last]).getLast? = some last := List.getLast?_concat
  constructor
  · intro ⟨aborts, clean, nonempty⟩
    refine ⟨fun challenge => ?_, fun page is => ⟨clean page is, ?_⟩⟩
    · exact (aborts last (List.mem_append_right _ List.mem_cons_self) challenge).1
    · refine (nonempty page is).imp id fun there => ?_
      exact Option.some.inj (final.symm.trans there)
  · intro ⟨aborts, page⟩
    refine ⟨?_, fun p is => (page p is).1, fun p is => (page p is).2.imp id fun there => ?_⟩
    · intro layer member challenge
      obtain before | here := List.mem_append.mp member
      · exact absurd challenge (earlier layer before)
      · obtain rfl := List.mem_singleton.mp here
        exact ⟨aborts challenge, final⟩
    · rw [← there]
      exact final

/-- An error that ends the fetch, behind a layer whose challenge it would be. -/
theorem shortCircuits_error {front : List Layer} {last : Layer} {e : DownloadError}
    (earlier : ∀ layer ∈ front, ¬ router.IsChallenge (answers.fetch layer))
    (told : router.IsChallenge (answers.fetch last) → ∃ msg, e = .wafChallenge msg) :
    router.ShortCircuits answers (.error e, front ++ [last]) := by
  refine (shortCircuits_iff earlier).mpr ⟨fun challenge => ?_, fun page is => ?_⟩
  · obtain ⟨msg, rfl⟩ := told challenge
    exact ⟨msg, rfl⟩
  · cases is

/-- A page of the last layer that is asked. -/
theorem shortCircuits_page {front : List Layer} {last : Layer} {page : FetchedPage}
    (earlier : ∀ layer ∈ front, ¬ router.IsChallenge (answers.fetch layer))
    (is : answers.fetch last = .ok page) (nonempty : page.html ≠ "" ∨ last = .layer3) :
    router.ShortCircuits answers (.ok page, front ++ [last]) ↔
      router.detectSpa page.html ≠ .wafBlocked := by
  rw [shortCircuits_iff earlier, is]
  constructor
  · exact fun ⟨_, clean⟩ => (clean page rfl).1
  · intro clean
    refine ⟨fun challenge => absurd challenge clean, fun other same => ?_⟩
    rw [← Except.ok.inj same]
    exact ⟨clean, nonempty⟩

theorem shortCircuits_layer3 (first : ¬ router.IsChallenge (answers.fetch .layer1))
    (second : ¬ router.IsChallenge (answers.fetch .layer2)) :
    router.ShortCircuits answers (fetchLayer3 answers) ↔
      ((∃ permits, answers.beforeLayer3 = .ok permits) → ∀ page,
        answers.fetch .layer3 = .ok page → router.detectSpa page.html ≠ .wafBlocked) := by
  rw [fetchLayer3]
  cases answers.beforeLayer3 with
  | error e =>
      have earlier : ∀ layer ∈ [Layer.layer1], ¬ router.IsChallenge (answers.fetch layer) :=
        List.forall_mem_singleton.mpr first
      refine iff_of_true (shortCircuits_error earlier fun challenge => absurd challenge second) ?_
      exact fun ⟨permits, granted⟩ => by cases granted
  | ok permits =>
      have earlier : ∀ layer ∈ [Layer.layer1, .layer2],
          ¬ router.IsChallenge (answers.fetch layer) :=
        List.forall_mem_cons.mpr ⟨first, List.forall_mem_singleton.mpr second⟩
      rw [imp_iff_right ⟨permits, rfl⟩]
      cases answer : answers.fetch .layer3 with
      | error e =>
          refine iff_of_true (shortCircuits_error earlier fun challenge => ?_) fun page is => ?_
          · rwa [answer] at challenge
          · cases is
      | ok page =>
          have page' := shortCircuits_page earlier answer (.inr rfl)
          refine page'.trans ⟨fun clean other same => ?_, fun clean => clean page rfl⟩
          rwa [← Except.ok.inj same]

/-- Behind an answer of layer 2 that is no challenge and has no content. -/
theorem shortCircuits_behind (first : ¬ router.IsChallenge (answers.fetch .layer1))
    (second : ¬ router.IsChallenge (answers.fetch .layer2))
    (without : (∃ page, answers.fetch .layer2 = .ok page ∧ page.html = "") ∨
      ∃ e, answers.fetch .layer2 = .error e ∧ ∀ msg, e ≠ .wafChallenge msg) :
    router.ShortCircuits answers (fetchLayer3 answers) ↔
      (∀ page, answers.fetch .layer2 = .ok page → router.detectSpa page.html ≠ .wafBlocked) ∧
        (Renders answers → ∀ page, answers.fetch .layer3 = .ok page →
          router.detectSpa page.html ≠ .wafBlocked) := by
  have clean : ∀ page, answers.fetch .layer2 = .ok page →
      router.detectSpa page.html ≠ .wafBlocked := by
    intro page is challenge
    rw [is] at second
    exact second challenge
  rw [shortCircuits_layer3 first second, Renders, and_iff_right without, and_iff_right clean]

theorem shortCircuits_layer2 (first : ¬ router.IsChallenge (answers.fetch .layer1)) :
    router.ShortCircuits answers (fetchLayer2 answers) ↔
      ((∃ permits, answers.beforeLayer2 = .ok permits) →
        (∀ page, answers.fetch .layer2 = .ok page → router.detectSpa page.html ≠ .wafBlocked) ∧
          (Renders answers → ∀ page, answers.fetch .layer3 = .ok page →
            router.detectSpa page.html ≠ .wafBlocked)) := by
  have none : ∀ layer ∈ ([] : List Layer), ¬ router.IsChallenge (answers.fetch layer) :=
    List.forall_mem_nil _
  have earlier : ∀ layer ∈ [Layer.layer1], ¬ router.IsChallenge (answers.fetch layer) :=
    List.forall_mem_singleton.mpr first
  rw [fetchLayer2]
  cases answers.beforeLayer2 with
  | error e =>
      refine iff_of_true (shortCircuits_error none fun challenge => absurd challenge first) ?_
      exact fun ⟨permits, granted⟩ => by cases granted
  | ok permits =>
      rw [imp_iff_right ⟨permits, rfl⟩]
      cases answer : answers.fetch .layer2 with
      | ok page =>
          dsimp only
          split
          case isTrue nonempty =>
            refine (shortCircuits_page earlier answer (.inl nonempty)).trans ⟨?_, ?_⟩
            · intro clean
              refine ⟨fun other same => Except.ok.inj same ▸ clean, ?_⟩
              rintro ⟨⟨other, same, empty⟩ | ⟨e, failed, -⟩, -⟩
              · rw [Except.ok.inj (answer.symm.trans same)] at nonempty
                exact absurd empty nonempty
              · cases answer.symm.trans failed
            · exact fun clean => clean.1 page rfl
          case isFalse empty =>
            have second : ¬ router.IsChallenge (answers.fetch .layer2) :=
              answer ▸ router.not_isChallenge_empty (not_not.mp empty)
            rw [shortCircuits_behind first second (.inl ⟨page, answer, not_not.mp empty⟩), answer]
      | error e =>
          dsimp only
          split
          case h_1 is => cases is
          case h_2 msg is =>
            refine iff_of_true (shortCircuits_error earlier fun _ => ⟨msg, rfl⟩) ⟨?_, ?_⟩
            · exact fun page other => by cases other
            · rintro ⟨⟨page, same, -⟩ | ⟨other, same, plain⟩, -⟩
              · cases answer.symm.trans same
              · exact absurd (Except.error.inj ((same.symm.trans answer).trans is)) (plain msg)
          case h_3 same plain is =>
            have other : ∀ msg, e ≠ .wafChallenge msg :=
              fun msg waf => plain msg ((Except.error.inj is).symm.trans waf)
            have second : ¬ router.IsChallenge (answers.fetch .layer2) := by
              rw [answer]
              exact fun ⟨msg, is⟩ => other msg is
            rw [shortCircuits_behind first second (.inr ⟨e, answer, other⟩), answer]

/-- A challenge ends the fetch just when none comes as a page of a layer behind the first one. -/
theorem shortCircuits_fetchInner_iff (router : HybridRouter) (answers : Answers) :
    router.ShortCircuits answers (router.fetchInner answers) ↔ router.CleanPages answers := by
  have none : ∀ layer ∈ ([] : List Layer), ¬ router.IsChallenge (answers.fetch layer) :=
    List.forall_mem_nil _
  have stays (unescalated : ¬ router.Escalates answers) : router.CleanPages answers :=
    ⟨fun escalates => absurd escalates unescalated, fun escalates => absurd escalates unescalated⟩
  rw [fetchInner]
  cases answer : answers.fetch .layer1 with
  | error e =>
      refine iff_of_true (shortCircuits_error none fun challenge => ?_) (stays ?_)
      · rwa [answer] at challenge
      · rintro ⟨⟨page, reason, is, -⟩, -⟩
        cases answer.symm.trans is
  | ok page =>
      have same {other : FetchedPage} (is : answers.fetch .layer1 = .ok other) : page = other :=
        Except.ok.inj (answer.symm.trans is)
      dsimp only
      rw [evaluateFetch]
      cases signal : router.detectSpa page.html with
      | staticContent =>
          have nonempty : page.html ≠ "" := by
            intro empty
            obtain ⟨reason, other⟩ := router.detectSpa_empty
            rw [empty, other] at signal
            cases signal
          refine iff_of_true ((shortCircuits_page none answer (.inl nonempty)).mpr ?_) (stays ?_)
          · rw [signal]
            exact fun blocked => by cases blocked
          · rintro ⟨⟨other, reason, is, found⟩, -⟩
            rw [← same is, signal] at found
            cases found
      | wafBlocked =>
          refine iff_of_true (shortCircuits_error none fun _ => ⟨_, rfl⟩) (stays ?_)
          rintro ⟨⟨other, reason, is, found⟩, -⟩
          rw [← same is, signal] at found
          cases found
      | spaDetected reason =>
          have first : ¬ router.IsChallenge (answers.fetch .layer1) := by
            rw [answer, IsChallenge, signal]
            exact fun blocked => by cases blocked
          have shell : ∃ page reason, answers.fetch .layer1 = .ok page ∧
              router.detectSpa page.html = .spaDetected reason := ⟨page, reason, answer, signal⟩
          refine (shortCircuits_layer2 first).trans ⟨fun clean => ⟨?_, ?_⟩, fun clean => ?_⟩
          · exact fun escalates => (clean escalates.2).1
          · exact fun escalates => (clean escalates.2).2
          · exact fun granted => ⟨clean.layer2 ⟨shell, granted⟩, clean.layer3 ⟨shell, granted⟩⟩

/-- A parser that finds no text, and no body of high entropy. -/
def plainRouter : HybridRouter := ⟨⟨fun _ => [], rfl⟩, fun _ => false, false⟩

/-- A page without anything but its text. -/
def pageOf (html : String) : FetchedPage := ⟨⟨[], none, []⟩, html, 200, ∅, []⟩

/-- Layer 2 answers with the page of a challenge. -/
def challengeAnswers : Answers where
  fetch
    | .layer1 => .ok (pageOf "<p>")
    | .layer2 => .ok (pageOf "h-captcha")
    | .layer3 => .ok (pageOf "")
  beforeLayer2 := .ok 1
  beforeLayer3 := .ok 1

/-- The page of a challenge is returned. -/
theorem challenge_returned :
    ¬ plainRouter.ShortCircuits challengeAnswers (plainRouter.fetchInner challengeAnswers) := by
  have shell : plainRouter.detectSpa (pageOf "<p>").html = .spaDetected (.insufficientText 0) := by
    decide +kernel
  have blocked : plainRouter.detectSpa (pageOf "h-captcha").html = .wafBlocked := by
    decide +kernel
  have returned : (plainRouter.fetchInner challengeAnswers).1 = .ok (pageOf "h-captcha") := by
    rw [fetchInner]
    simp only [challengeAnswers, evaluateFetch, shell]
    rfl
  exact fun circuits => circuits.clean _ returned blocked

end HybridRouter

end Webfang.Hybrid
