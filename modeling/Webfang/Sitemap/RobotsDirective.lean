import Webfang.Http.HttpClient
import Webfang.Lib.Utf8

/-!
# The sitemap directive of robots.txt

`fetch_robots_sitemap` of `application/crawler/sitemap_discovery.rs`: the body of a robots.txt is
inspected, logged and searched for a line that names a sitemap.  Texts are lists of characters; the
parsing of URLs, the transport and the inspector are arguments.
-/

namespace Webfang

namespace Sitemap

/-- A base URL: `Url::parse`, and `Url::join` on it, both followed by `to_string`. -/
structure BaseUrl where
  parse : List Char → Option (List Char)
  join : List Char → Option (List Char)

/-- What a call comes to. -/
inductive Outcome (α : Type)
  | returned (result : α)
  | panicked
  deriving DecidableEq, Repr

/-- `CrawlError::WafChallenge`, of the kind `BodySignature`. -/
structure WafChallenge where
  provider : String
  url : List Char
  deriving DecidableEq, Repr

structure RobotsResponse where
  status : Nat
  /-- the `content-type` header, where it is text -/
  contentType : Option String
  /-- `Response::text` -/
  text : Option (List Char)

/-! ## Texts -/

/-- The slice of the first `n` bytes; there is none where a character is cut. -/
def sliceTo : List Char → Nat → Option (List Char)
  | _, 0 => some []
  | [], _ + 1 => none
  | c :: text, n + 1 =>
      let width := (String.utf8EncodeChar c).length
      if width ≤ n + 1 then (sliceTo text (n + 1 - width)).map (c :: ·) else none

/-- A line without the carriage return that ends it. -/
def stripCr (line : List Char) : List Char :=
  if line.getLast? = some '\x0d' then line.dropLast else line

/-- `str::lines`: a carriage return counts as part of a newline only. -/
def lines (text : List Char) : List (List Char) :=
  let parts := text.splitOn '\n'
  parts.dropLast.map stripCr ++ parts.getLast?.toList.filter (· ≠ [])

def stripPrefix (pattern line : List Char) : Option (List Char) :=
  if pattern.isPrefixOf line then some (line.drop pattern.length) else none

/-- The field name, in the spelling that a line is compared with. -/
def fieldName : List Char := "sitemap:".toList

def capitalFieldName : List Char := "Sitemap:".toList

/-- `line.to_lowercase().starts_with("sitemap:")`: no character outside ASCII has a lower case that
is one of these letters. -/
def isSitemapDirective (line : List Char) : Bool := fieldName.isPrefixOf (line.map Char.toLower)

/-! ## The search -/

def resolve (base : BaseUrl) (sitemap : List Char) : Option (List Char) :=
  if "http://".toList.isPrefixOf sitemap || "https://".toList.isPrefixOf sitemap then
    base.parse sitemap
  else base.join sitemap

/-- What the loop takes from a line. -/
def directiveOf (base : BaseUrl) (line : List Char) : Option (List Char) :=
  if isSitemapDirective line then
    ((stripPrefix capitalFieldName line).or (stripPrefix fieldName line)).bind
      fun directive => resolve base (Http.Response.trim directive)
  else none

def extractRobotsSitemapDirective (content : List Char) (base : BaseUrl) : Option (List Char) :=
  (lines content).findSome? (directiveOf base)

/-- Whether `log_robots_content` panics; its argument is computed where the event is enabled. -/
def logRobotsContentPanics (infoEnabled : Bool) (content : List Char) : Bool :=
  infoEnabled && (sliceTo content (min (Utf8.encode content).length 500)).isNone

/-- What the inspector is told of a robots.txt. -/
def robotsContext (response : RobotsResponse) : Http.InspectionContext :=
  let contentType := response.contentType.getD ""
  ⟨some response.status, if contentType = "" then none else some contentType, ∅, false⟩

def fetchRobotsSitemap (infoEnabled : Bool)
    (inspect : String → Http.InspectionContext → Http.WafVerdict) (base : BaseUrl)
    (send : List Char → Option RobotsResponse) :
    Outcome (Except WafChallenge (Option (List Char))) :=
  match base.join "/robots.txt".toList with
  | none => .returned (.ok none)
  | some robotsUrl =>
      match send robotsUrl with
      | none => .returned (.ok none)
      | some response =>
          if ¬ (200 ≤ response.status ∧ response.status ≤ 299) then .returned (.ok none)
          else
            match response.text with
            | none => .returned (.ok none)
            | some content =>
                let verdict := inspect (String.ofList content) (robotsContext response)
                if verdict.isBlocked then .returned (.error ⟨verdict.evidenceChain, robotsUrl⟩)
                else if logRobotsContentPanics infoEnabled content then .panicked
                else .returned (.ok (extractRobotsSitemapDirective content base))

/-! ## Slices -/

theorem encodeChar_length_pos (c : Char) : 0 < (String.utf8EncodeChar c).length :=
  List.length_pos_iff.mpr (Utf8.encodeChar_ne_nil c)

/-- The slices of a text are its beginnings, by their length in bytes. -/
theorem sliceTo_eq_some {text : List Char} {n : Nat} {slice : List Char} :
    sliceTo text n = some slice ↔ slice <+: text ∧ (Utf8.encode slice).length = n := by
  induction text generalizing n slice with
  | nil =>
      rw [List.prefix_nil]
      cases n with
      | zero =>
          rw [sliceTo, Option.some.injEq]
          constructor
          · intro same
            exact ⟨same.symm, by rw [← same]; rfl⟩
          · intro both
            exact both.1.symm
      | succ n =>
          refine iff_of_false (fun same => nomatch same) ?_
          intro ⟨empty, length⟩
          rw [empty] at length
          cases length
  | cons c text ih =>
      have width := encodeChar_length_pos c
      cases n with
      | zero =>
          rw [sliceTo, Option.some.injEq]
          constructor
          · intro same
            exact ⟨same ▸ List.nil_prefix, same ▸ rfl⟩
          · intro ⟨_, length⟩
            cases slice with
            | nil => rfl
            | cons d slice =>
                have wide := encodeChar_length_pos d
                rw [Utf8.encode_cons, List.length_append] at length
                omega
      | succ n =>
          rw [sliceTo]
          cases slice with
          | nil =>
              refine iff_of_false ?_ (fun both => nomatch both.2)
              split <;> simp
          | cons d slice =>
              rw [List.cons_prefix_cons, Utf8.encode_cons, List.length_append]
              split
              · rename_i fits
                rw [Option.map_eq_some_iff]
                constructor
                · intro ⟨rest, cut, same⟩
                  cases same
                  obtain ⟨within, length⟩ := ih.mp cut
                  exact ⟨⟨rfl, within⟩, by omega⟩
                · intro ⟨⟨same, within⟩, length⟩
                  subst same
                  exact ⟨slice, ih.mpr ⟨within, by omega⟩, rfl⟩
              · rename_i cut
                refine iff_of_false (fun same => nomatch same) ?_
                intro ⟨⟨same, _⟩, length⟩
                subst same
                omega

/-! ## Directives -/

/-- The field name in the spellings that the loop can strip. -/
def isSpelled (line : List Char) : Bool :=
  capitalFieldName.isPrefixOf line || fieldName.isPrefixOf line

/-- The URL that a line names, if it is a directive and its value resolves to one. -/
def directiveUrl (base : BaseUrl) (line : List Char) : Option (List Char) :=
  if isSitemapDirective line then resolve base (Http.Response.trim (line.drop fieldName.length))
  else none

/-- Whenever the first directive that resolves is spelled in another way than `Sitemap:` or
`sitemap:`, the first one behind it that resolves and is spelled so names the same URL. -/
def SpelledAlike (base : BaseUrl) (content : List Char) : Prop :=
  ∀ before line after url, lines content = before ++ line :: after →
    (∀ earlier ∈ before, directiveUrl base earlier = none) → directiveUrl base line = some url →
    isSpelled line = false → (after.filter isSpelled).findSome? (directiveUrl base) = some url

theorem isSitemapDirective_of_isSpelled {line : List Char} (spelled : isSpelled line = true) :
    isSitemapDirective line = true := by
  rw [isSpelled, Bool.or_eq_true, List.isPrefixOf_iff_prefix, List.isPrefixOf_iff_prefix] at spelled
  rw [isSitemapDirective, List.isPrefixOf_iff_prefix]
  rcases spelled with ⟨rest, rfl⟩ | ⟨rest, rfl⟩
  · rw [List.map_append]
    exact ⟨rest.map Char.toLower, rfl⟩
  · rw [List.map_append]
    exact ⟨rest.map Char.toLower, rfl⟩

/-- The loop takes from a line what it names, if it can strip the field name. -/
theorem directiveOf_eq (base : BaseUrl) (line : List Char) :
    directiveOf base line = if isSpelled line then directiveUrl base line else none := by
  unfold directiveOf directiveUrl
  cases spelled : isSpelled line with
  | true =>
      have same : capitalFieldName.length = fieldName.length := by decide +kernel
      rw [isSitemapDirective_of_isSpelled spelled, if_pos rfl, if_pos rfl, if_pos rfl]
      rw [isSpelled, Bool.or_eq_true] at spelled
      rcases spelled with capital | small
      · rw [stripPrefix, if_pos capital, Option.some_or, Option.bind_some, same]
      · rw [stripPrefix, stripPrefix, if_pos small, same]
        split
        · rw [Option.some_or, Option.bind_some]
        · rw [Option.none_or, Option.bind_some]
  | false =>
      rw [isSpelled, Bool.or_eq_false_iff] at spelled
      rw [stripPrefix, stripPrefix, spelled.1, spelled.2]
      split <;> rfl

theorem findSome_directiveOf (base : BaseUrl) (found : List (List Char)) :
    found.findSome? (directiveOf base) = (found.filter isSpelled).findSome? (directiveUrl base) := by
  induction found with
  | nil => rfl
  | cons line found ih =>
      rw [List.findSome?_cons, directiveOf_eq, ih]
      cases spelled : isSpelled line with
      | true => rw [if_pos rfl, List.filter_cons_of_pos spelled, List.findSome?_cons]
      | false => rw [List.filter_cons_of_neg (Bool.eq_false_iff.mp spelled), if_neg (by decide)]

/-- The loop finds the first directive exactly where the spelling of those before it does not
matter. -/
theorem extract_eq_iff (base : BaseUrl) (content : List Char) :
    extractRobotsSitemapDirective content base = (lines content).findSome? (directiveUrl base) ↔
      SpelledAlike base content := by
  rw [extractRobotsSitemapDirective, findSome_directiveOf]
  constructor
  · intro same before line after url cut silent here other
    rw [cut, List.filter_append, List.filter_cons, other, List.findSome?_append,
      List.findSome?_append, List.findSome?_cons, here, List.findSome?_eq_none_iff.mpr silent] at same
    have quiet : (before.filter isSpelled).findSome? (directiveUrl base) = none :=
      List.findSome?_eq_none_iff.mpr fun earlier member => silent earlier (List.mem_of_mem_filter member)
    rw [quiet] at same
    exact same
  · intro alike
    cases first : (lines content).findSome? (directiveUrl base) with
    | none =>
        refine List.findSome?_eq_none_iff.mpr fun line member => ?_
        exact List.findSome?_eq_none_iff.mp first line (List.mem_of_mem_filter member)
    | some url =>
        obtain ⟨before, line, after, cut, here, silent⟩ := List.findSome?_eq_some_iff.mp first
        have quiet : (before.filter isSpelled).findSome? (directiveUrl base) = none :=
          List.findSome?_eq_none_iff.mpr fun earlier member =>
            silent earlier (List.mem_of_mem_filter member)
        rw [cut, List.filter_append, List.findSome?_append, quiet, List.filter_cons]
        cases spelled : isSpelled line with
        | true =>
            rw [if_pos rfl, List.findSome?_cons, here]
            rfl
        | false => exact alike before line after url cut silent here spelled

/-- The body has a slice of its first 500 bytes, or none is taken. -/
def LogsWhole (infoEnabled : Bool) (content : List Char) : Prop :=
  infoEnabled = true → (Utf8.encode content).length ≤ 500 ∨
    ∃ slice, slice <+: content ∧ (Utf8.encode slice).length = 500

theorem logRobotsContentPanics_eq_false {infoEnabled : Bool} {content : List Char} :
    logRobotsContentPanics infoEnabled content = false ↔ LogsWhole infoEnabled content := by
  rw [logRobotsContentPanics, LogsWhole, Bool.and_eq_false_imp]
  refine forall_congr' fun _ => ?_
  rw [Option.isNone_eq_false_iff, Option.isSome_iff_exists]
  simp only [sliceTo_eq_some]
  by_cases short : (Utf8.encode content).length ≤ 500
  · rw [Nat.min_eq_left short]
    exact iff_of_true ⟨content, List.prefix_rfl, rfl⟩ (.inl short)
  · rw [Nat.min_eq_right (by omega), or_iff_right short]

/-- For every robots.txt that is served with success and is no challenge, the call returns the first
directive that resolves, however it is spelled, exactly where the logged slice cuts no character
and directives in another spelling do not matter. -/
theorem fetchRobotsSitemap_eq_iff {infoEnabled : Bool}
    {inspect : String → Http.InspectionContext → Http.WafVerdict} {base : BaseUrl}
    {send : List Char → Option RobotsResponse} {robotsUrl content : List Char}
    {response : RobotsResponse} (joined : base.join "/robots.txt".toList = some robotsUrl)
    (answered : send robotsUrl = some response)
    (success : 200 ≤ response.status ∧ response.status ≤ 299)
    (body : response.text = some content)
    (passed : (inspect (String.ofList content) (robotsContext response)).isBlocked = false) :
    fetchRobotsSitemap infoEnabled inspect base send =
        .returned (.ok ((lines content).findSome? (directiveUrl base))) ↔
      LogsWhole infoEnabled content ∧ SpelledAlike base content := by
  have fetched : fetchRobotsSitemap infoEnabled inspect base send =
      if logRobotsContentPanics infoEnabled content then .panicked
      else .returned (.ok (extractRobotsSitemapDirective content base)) := by
    simp only [fetchRobotsSitemap, joined, answered, success, body, passed, and_self,
      not_true_eq_false, if_false, Bool.false_eq_true]
  rw [fetched, ← extract_eq_iff, ← logRobotsContentPanics_eq_false]
  cases logRobotsContentPanics infoEnabled content with
  | true => simp
  | false => simp

/-- A site whose URLs are joined as they are, and an inspector that lets everything pass. -/
def plainSite : BaseUrl := ⟨some, fun path => some ("https://a.b".toList ++ path)⟩

def lenient (_ : String) (_ : Http.InspectionContext) : Http.WafVerdict := ⟨false, ""⟩

def serves (body : String) : List Char → Option RobotsResponse :=
  fun _ => some ⟨200, some "text/plain", some body.toList⟩

theorem fetchRobotsSitemap_small_spelling :
    fetchRobotsSitemap true lenient plainSite (serves "sitemap: /s.xml") =
        .returned (.ok ((lines "sitemap: /s.xml".toList).findSome? (directiveUrl plainSite))) ↔
      LogsWhole true "sitemap: /s.xml".toList ∧ SpelledAlike plainSite "sitemap: /s.xml".toList :=
  fetchRobotsSitemap_eq_iff rfl rfl (by decide) rfl rfl

/-- A directive in capitals is not found. -/
theorem capitals_not_found :
    fetchRobotsSitemap false lenient plainSite (serves "SITEMAP: /s.xml") = .returned (.ok none) ∧
      (lines "SITEMAP: /s.xml".toList).findSome? (directiveUrl plainSite) =
        some "https://a.b/s.xml".toList := by
  decide +kernel

end Sitemap

end Webfang
