import Webfang.Lib.Execution
import Webfang.Lib.Parties
import Webfang.Sitemap.SitemapOrder

/-!
# Sitemap indexes

`SitemapParser::parse_with_depth` and `parse_sitemap_index` of
`infrastructure/crawler/sitemap_parser.rs`, with `apply_crawl_budget` of `batch_processor.rs`.  The
calls of one `parse_from_url` are a list, each with the places of the calls for the documents that
its index names; they share the set of visited documents, and a call goes on from one `.await` to
the next without a break.  At most `concurrency` calls of an index are under way at a time.
-/

namespace Webfang

namespace Sitemap

/-- `SitemapError`; the variants that no code of the recursion looks at are their texts. -/
inductive SitemapError
  | maxDepthExceeded
  | invalidStructure
  | noUrlsFound
  | allChildrenFailed (count : Nat) (messages : List Char)
  | wafChallenge (url provider : List Char)
  | other (message : List Char)
  deriving DecidableEq

/-- The `#[error]` texts. -/
def SitemapError.display : SitemapError → List Char
  | .maxDepthExceeded => "maximum recursion depth exceeded".toList
  | .invalidStructure => "invalid sitemap structure".toList
  | .noUrlsFound => "no URLs found in sitemap".toList
  | .allChildrenFailed count messages =>
      "all ".toList ++ count.repr.toList ++ " child sitemaps failed: ".toList ++ messages
  | .wafChallenge url provider =>
      "waf challenge detected at ".toList ++ url ++ ": ".toList ++ provider
  | .other message => message

def SitemapError.isWafChallenge : SitemapError → Bool
  | .wafChallenge _ _ => true
  | _ => false

/-- What a request for a document comes to. -/
inductive SitemapAnswer (υ τ : Type)
  /-- no response, or one that is refused -/
  | failed (error : SitemapError)
  /-- a body that is too large, cannot be read or decompressed, is a challenge, is no sitemap, has
  no entries, or exceeds the memory limit -/
  | unreadable (error : SitemapError)
  /-- the sorted entries, and whether they are those of an index -/
  | parsed (urls : List (SitemapUrl υ τ)) (isIndex : Bool)

/-- The fields of `SitemapConfig` that the recursion reads. -/
structure IndexConfig where
  maxDepth : Nat
  concurrency : Nat
  crawlBudgetEnabled : Bool

/-- The parser's configuration and what it calls. -/
structure SitemapParser (υ τ : Type) where
  config : IndexConfig
  answer : υ → SitemapAnswer υ τ
  sortBy : SortBy (SitemapUrl υ τ)
  asStr : υ → List Char
  /-- `query_pairs().count()` -/
  queryPairs : υ → Nat
  /-- `normalize_url` without `www` and query -/
  dedupKey : υ → List Char

/-! ## Results -/

section Results

variable {υ τ : Type} [LinearOrder υ] [LinearOrder τ] (parser : SitemapParser υ τ)

/-- The entries whose key has not been seen. -/
def deduplicateUrls : List (List Char) → List (SitemapUrl υ τ) → List (SitemapUrl υ τ)
  | _, [] => []
  | seen, e :: entries =>
      let key := parser.dedupKey e.url
      if seen.contains key then deduplicateUrls seen entries
      else e :: deduplicateUrls (key :: seen) entries

def applyCrawlBudget (urls : List (SitemapUrl υ τ)) : List (SitemapUrl υ τ) :=
  if parser.config.crawlBudgetEnabled then
    parser.sortBy compareEntries
      (deduplicateUrls parser [] (urls.filter fun e => parser.queryPairs e.url ≤ 5))
  else urls

/-- What a call returns. -/
abbrev ParseResult (υ τ : Type) := Except SitemapError (List (SitemapUrl υ τ))

def failureOf (child : υ × ParseResult υ τ) : Option (υ × SitemapError) :=
  match child.2 with
  | .ok _ => none
  | .error e => some (child.1, e)

/-- The end of `parse_sitemap_index`: the results of the children, in their order. -/
def collectChildren (results : List (υ × ParseResult υ τ)) : ParseResult υ τ :=
  let allUrls := results.flatMap fun child => child.2.toOption.getD []
  let failures := results.filterMap failureOf
  match failures.find? fun failure => failure.2.isWafChallenge with
  | some challenge => .error challenge.2
  | none =>
      if allUrls.isEmpty then
        let realFailures := failures.filter fun failure => failure.2 ≠ .noUrlsFound
        if realFailures.isEmpty then .error .noUrlsFound
        else
          .error (.allChildrenFailed realFailures.length (("; ".toList).intercalate
            (realFailures.map fun failure =>
              parser.asStr failure.1 ++ ": ".toList ++ failure.2.display)))
      else .ok (dedupAndSortSitemapUrls parser.sortBy allUrls)

end Results

/-! ## Calls -/

inductive CallStage (υ τ : Type)
  /-- not polled yet -/
  | waiting
  /-- its request is under way -/
  | fetching
  /-- the body is being read -/
  | reading
  /-- the children are under way -/
  | joining
  | finished (result : ParseResult υ τ)

/-- A call of `parse_with_depth`. -/
structure SitemapCall (υ τ : Type) where
  url : υ
  depth : Nat
  /-- the place of the call for the index that names the document -/
  parent : Option Nat
  /-- the places of the calls for the documents that it names, in order -/
  children : List Nat
  stage : CallStage υ τ

def SitemapCall.result? {υ τ : Type} (call : SitemapCall υ τ) : Option (ParseResult υ τ) :=
  match call.stage with
  | .finished result => some result
  | _ => none

/-- The calls, the documents that are visited, and the requests made, with the remaining depth. -/
structure Recursion (υ τ : Type) where
  calls : List (SitemapCall υ τ)
  visited : List υ
  fetched : List (υ × Nat)

section Calls

variable {υ τ : Type} [LinearOrder υ] [LinearOrder τ] (parser : SitemapParser υ τ)

/-- `parse_from_url`, before its first poll. -/
def Recursion.start (root : υ) : Recursion υ τ :=
  ⟨[⟨root, parser.config.maxDepth, none, [], .waiting⟩], [], []⟩

variable (s : Recursion υ τ)

def Recursion.resultAt (i : Nat) : Option (υ × ParseResult υ τ) :=
  s.calls[i]?.bind fun call => call.result?.map (call.url, ·)

def Recursion.isFinished (i : Nat) : Bool := (s.resultAt i).isSome

/-- `buffered`: a call is polled once less than `concurrency` others are ahead of it, after those
whose results have been taken in order. -/
def Recursion.mayStart (i : Nat) (call : SitemapCall υ τ) : Bool :=
  match call.parent with
  | none => true
  | some p =>
      s.calls[p]?.any fun parent =>
        parent.children.idxOf i <
          (parent.children.takeWhile s.isFinished).length + parser.config.concurrency

/-- The results of the children, in order, once they are all there. -/
def Recursion.results (call : SitemapCall υ τ) : Option (List (υ × ParseResult υ τ)) :=
  if call.children.all s.isFinished then some (call.children.filterMap s.resultAt) else none

/-- The call moves to another stage. -/
def Recursion.moveTo (i : Nat) (call : SitemapCall υ τ) (stage : CallStage υ τ) : Recursion υ τ :=
  { s with calls := s.calls.set i { call with stage } }

/-- The calls for the documents of an index are appended. -/
def Recursion.fork (i : Nat) (call : SitemapCall υ τ) (urls : List (SitemapUrl υ τ)) :
    Recursion υ τ :=
  { s with
    calls := s.calls.set i { call with
        children := List.range' s.calls.length urls.length
        stage := .joining } ++
      urls.map fun e => ⟨e.url, call.depth - 1, some i, [], .waiting⟩ }

/-- What a call does from one `.await` to the next. -/
def Recursion.resume (i : Nat) (call : SitemapCall υ τ) : Option (Recursion υ τ) :=
  match call.stage with
  | .waiting =>
      if ¬ s.mayStart parser i call then none
      else if call.depth = 0 then some (s.moveTo i call (.finished (.error .maxDepthExceeded)))
      else if s.visited.contains call.url then
        some (s.moveTo i call (.finished (.error .invalidStructure)))
      else
        some { s.moveTo i call .fetching with fetched := s.fetched ++ [(call.url, call.depth)] }
  | .fetching =>
      match parser.answer call.url with
      | .failed e => some (s.moveTo i call (.finished (.error e)))
      | _ => some { s.moveTo i call .reading with visited := call.url :: s.visited }
  | .reading =>
      match parser.answer call.url with
      | .failed e | .unreadable e => some (s.moveTo i call (.finished (.error e)))
      | .parsed urls isIndex =>
          if isIndex then some (s.fork i call urls)
          else some (s.moveTo i call (.finished (.ok (applyCrawlBudget parser urls))))
  | .joining =>
      (s.results call).map fun results =>
        s.moveTo i call (.finished (collectChildren parser results))
  | .finished _ => none

/-- A call goes on. -/
def Recursion.step (i : Nat) : Option (Recursion υ τ) := s.calls[i]?.bind (s.resume parser i)

/-- `parse_from_url`, with the order in which its calls go on. -/
def parseFromUrl (root : υ) (order : List Nat) : Option (Recursion υ τ) :=
  StepSystem.execute (fun s i => s.step parser i) (.start parser root) order

/-- What `parse_from_url` has returned. -/
def Recursion.returned : Option (ParseResult υ τ) := (s.resultAt 0).map (·.2)

end Calls

end Sitemap

end Webfang
