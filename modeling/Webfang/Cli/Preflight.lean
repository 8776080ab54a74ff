import Webfang.Cli.Budget
import Webfang.Lib.Ranked
import Webfang.Mcp.ExportRoots
import Webfang.Output.UrlPath
import Webfang.Scrape.ExitCodes

/-!
# Configuration of a run

`normalize` of `cli/preflight.rs`: defaults, the configuration file, and the environment and command
line, each written where it outranks what is there; then the assembly of the options in `__main` of
the `webfang` binary, over `CrawlOptions::from(Args)`.  Of the options, those are modelled that more
than one source can set, with the budget overrides; the others are copied from the arguments.
-/

namespace Webfang.Cli

open Ranked ScrapeRun
open Mcp (ExportFormat)
open Output (OutputFormat)

/-! ## Sources -/

/-- `ConfigSource`, of which the order of the variants is the precedence. -/
inductive ConfigSource
  | default
  | configFile
  | environment
  | cli
  deriving DecidableEq

namespace ConfigSource

def rank : ConfigSource → Nat
  | default => 0
  | configFile => 1
  | environment => 2
  | cli => 3

theorem rank_injective : Function.Injective rank := by
  intro a b same
  cases a <;> cases b <;> first | rfl | cases same

instance : LinearOrder ConfigSource := LinearOrder.lift' rank rank_injective

end ConfigSource

/-- `ConfigValue`. -/
abbrev ConfigValue (α : Type) := Slot ConfigSource α

/-- `clap::parser::ValueSource`. -/
inductive ValueSource
  | defaultValue
  | envVariable
  | commandLine
  deriving DecidableEq

/-- The options of `ArgSources::capture`. -/
def contested : List String :=
  ["url", "selector", "delay_ms", "max_pages", "concurrency", "use_sitemap", "sitemap_url",
    "max_depth", "timeout_secs", "format", "export_format", "output", "obsidian_tags",
    "obsidian_wiki_links", "obsidian_relative_assets", "obsidian_rich_metadata", "vault",
    "quick_save", "ignore_waf", "rate_limit_burst"]

/-- `ArgSources`, read with `source_of`. -/
abbrev ArgSources := String → Option ConfigSource

/-- From where the parser had the values that it gave. -/
def ArgSources.capture (found : String → Option ValueSource) : ArgSources := fun id =>
  if contested.contains id then
    match found id with
    | some .commandLine => some .cli
    | some .envVariable => some .environment
    | _ => none
  else none

/-- The parsed arguments, so far as they are contested or set budgets. -/
structure Args where
  maxPages : Nat
  maxDepth : Nat
  sitemapUrl : Option (List Char)
  useSitemap : Bool
  selector : List Char
  delayMs : Nat
  timeoutSecs : Nat
  concurrency : ConcurrencyConfig
  output : List Char
  format : OutputFormat
  exportFormat : ExportFormat
  obsidianTags : Option (List (List Char))
  obsidianWikiLinks : Bool
  obsidianRelativeAssets : Bool
  obsidianRichMetadata : Bool
  vault : Option (List Char)
  quickSave : Bool
  ignoreWaf : Bool
  rateLimitBurst : Option (List Char)
  batchConcurrency : Option Nat
  downloadConcurrency : Option Nat

/-- The configuration file. -/
structure ConfigDefaults where
  format : Option (List Char)
  exportFormat : Option (List Char)
  concurrency : Option (List Char)
  selector : Option (List Char)
  maxPages : Option Nat
  delayMs : Option Nat
  useSitemap : Option Bool
  obsidianWikiLinks : Option Bool
  obsidianTags : Option (List Char)
  obsidianRelativeAssets : Option Bool
  vaultPath : Option (List Char)
  ignoreWaf : Option Bool
  rateLimitBurst : Option Nat

/-! ## The burst -/

/-- `looks_like_integer`: an optional sign and digits. -/
def looksLikeInteger (text : List Char) : Bool :=
  let digits := if text.head? = some '+' || text.head? = some '-' then text.tail else text
  !digits.isEmpty && digits.all (Numerals.isDigit 10)

def zeroBurst : String :=
  "--rate-limit-burst debe ser >= 1 (0 no permite ningún request en ráfaga)"

def burstOutOfRange (text : List Char) : String :=
  let value := String.ofList text
  s!"--rate-limit-burst «{value}» está fuera del rango admitido (debe estar entre 1 y 4294967295)"

/-- `parse_rate_limit_burst`; what is no number is a warning. -/
def parseRateLimitBurst (raw : List Char) : Except String (Option Nat) :=
  let text := trim raw
  if text.isEmpty then .ok none
  else
    match parseUnsigned 32 text with
    | some 0 => .error zeroBurst
    | some v => .ok (some v)
    | none => if looksLikeInteger text then .error (burstOutOfRange text) else .ok none

/-- `budget_override`. -/
def budgetOverride (v : Nat) : Except CliExit BudgetOverrides :=
  match NonZero.new v with
  | none => .error (.configError zeroBurst)
  | some rateBurst => .ok { BudgetOverrides.unset with rateBurst := some rateBurst }

/-! ## Stages -/

/-- The slots of `FieldBook`; `NormalizedConfig` has the same. -/
structure FieldBook where
  maxPages : ConfigValue Nat
  maxDepth : ConfigValue Nat
  sitemapDepth : ConfigValue Nat
  sitemapUrl : ConfigValue (Option (List Char))
  useSitemap : ConfigValue Bool
  selector : ConfigValue (List Char)
  delayMs : ConfigValue Nat
  timeoutSecs : ConfigValue Nat
  concurrency : ConfigValue ConcurrencyConfig
  output : ConfigValue (List Char)
  format : ConfigValue OutputFormat
  exportFormat : ConfigValue ExportFormat
  obsidianTags : ConfigValue (List (List Char))
  obsidianWikiLinks : ConfigValue Bool
  obsidianRelativeAssets : ConfigValue Bool
  obsidianRichMetadata : ConfigValue Bool
  vault : ConfigValue (Option (List Char))
  quickSave : ConfigValue Bool
  ignoreWaf : ConfigValue Bool
  budgetOverrides : ConfigValue BudgetOverrides

def stageDefaults : FieldBook where
  maxPages := ⟨10, .default⟩
  maxDepth := ⟨2, .default⟩
  sitemapDepth := ⟨1, .default⟩
  sitemapUrl := ⟨none, .default⟩
  useSitemap := ⟨false, .default⟩
  selector := ⟨"body".toList, .default⟩
  delayMs := ⟨1000, .default⟩
  timeoutSecs := ⟨30, .default⟩
  concurrency := ⟨.auto, .default⟩
  output := ⟨"output".toList, .default⟩
  format := ⟨.markdown, .default⟩
  exportFormat := ⟨.jsonl, .default⟩
  obsidianTags := ⟨[], .default⟩
  obsidianWikiLinks := ⟨false, .default⟩
  obsidianRelativeAssets := ⟨false, .default⟩
  obsidianRichMetadata := ⟨false, .default⟩
  vault := ⟨none, .default⟩
  quickSave := ⟨false, .default⟩
  ignoreWaf := ⟨false, .default⟩
  budgetOverrides := ⟨.unset, .default⟩

/-- `try_write`. -/
def tryWrite {α : Type} (slot : ConfigValue α) (incoming : α) (source : ConfigSource) :
    ConfigValue α := write slot ⟨incoming, source⟩

/-- `try_write` of what the configuration file has. -/
def tryFile {α : Type} (slot : ConfigValue α) (incoming : Option α) : ConfigValue α :=
  match incoming with
  | some v => tryWrite slot v .configFile
  | none => slot

/-- `try_write` of an argument that the environment or the command line has set. -/
def tryArg {α : Type} (slot : ConfigValue α) (incoming : α) (source : Option ConfigSource) :
    ConfigValue α :=
  match source with
  | some source => tryWrite slot incoming source
  | none => slot

def outputFormatOf (text : List Char) : OutputFormat :=
  let lowered := text.map Char.toLower
  if lowered = "json".toList then .json else if lowered = "text".toList then .text else .markdown

def exportFormatOf (text : List Char) : ExportFormat :=
  let lowered := text.map Char.toLower
  if lowered = "vector".toList then .vector else if lowered = "auto".toList then .auto else .jsonl

def splitTags (text : List Char) : List (List Char) :=
  ((text.splitOn ',').map trim).filter fun tag => !tag.isEmpty

def stageConfigFile (book : FieldBook) (config : ConfigDefaults) : FieldBook :=
  { book with
    maxPages := tryFile book.maxPages config.maxPages
    delayMs := tryFile book.delayMs config.delayMs
    selector := tryFile book.selector config.selector
    useSitemap := tryFile book.useSitemap config.useSitemap
    ignoreWaf := tryFile book.ignoreWaf config.ignoreWaf
    concurrency := tryFile book.concurrency (config.concurrency.map .ofStr)
    format := tryFile book.format (config.format.map outputFormatOf)
    exportFormat := tryFile book.exportFormat (config.exportFormat.map exportFormatOf)
    obsidianWikiLinks := tryFile book.obsidianWikiLinks config.obsidianWikiLinks
    obsidianRelativeAssets := tryFile book.obsidianRelativeAssets config.obsidianRelativeAssets
    vault := tryFile book.vault (config.vaultPath.map some)
    obsidianTags := tryFile book.obsidianTags (config.obsidianTags.map splitTags) }

def stageEnvCli (book : FieldBook) (args : Args) (sources : ArgSources) : FieldBook :=
  { book with
    maxPages := tryArg book.maxPages args.maxPages (sources "max_pages")
    maxDepth := tryArg book.maxDepth args.maxDepth (sources "max_depth")
    delayMs := tryArg book.delayMs args.delayMs (sources "delay_ms")
    timeoutSecs := tryArg book.timeoutSecs args.timeoutSecs (sources "timeout_secs")
    selector := tryArg book.selector args.selector (sources "selector")
    concurrency := tryArg book.concurrency args.concurrency (sources "concurrency")
    sitemapUrl := tryArg book.sitemapUrl args.sitemapUrl (sources "sitemap_url")
    useSitemap := tryArg book.useSitemap args.useSitemap (sources "use_sitemap")
    output := tryArg book.output args.output (sources "output")
    format := tryArg book.format args.format (sources "format")
    exportFormat := tryArg book.exportFormat args.exportFormat (sources "export_format")
    obsidianTags :=
      tryArg book.obsidianTags (args.obsidianTags.getD []) (sources "obsidian_tags")
    obsidianWikiLinks :=
      tryArg book.obsidianWikiLinks args.obsidianWikiLinks (sources "obsidian_wiki_links")
    obsidianRelativeAssets :=
      tryArg book.obsidianRelativeAssets args.obsidianRelativeAssets
        (sources "obsidian_relative_assets")
    vault := tryArg book.vault args.vault (sources "vault")
    quickSave := tryArg book.quickSave args.quickSave (sources "quick_save")
    ignoreWaf := tryArg book.ignoreWaf args.ignoreWaf (sources "ignore_waf") }

/-- The tags that have not been seen. -/
def retainFirst : List (List Char) → List (List Char) → List (List Char)
  | _, [] => []
  | seen, tag :: tags =>
      if seen.contains tag then retainFirst seen tags
      else tag :: retainFirst (tag :: seen) tags

def cleanTags (tags : List (List Char)) : List (List Char) :=
  retainFirst [] ((tags.map trim).filter fun tag => !tag.isEmpty)

def applyCrossFieldRules (book : FieldBook) : FieldBook :=
  { book with
    useSitemap :=
      if book.sitemapUrl.value.isSome && !book.useSitemap.value then
        ⟨true, max book.sitemapUrl.source book.useSitemap.source⟩
      else book.useSitemap
    obsidianTags := ⟨cleanTags book.obsidianTags.value, book.obsidianTags.source⟩ }

/-- The burst of the configuration file, checked even where it will not be used. -/
def stageBurstFile (slot : ConfigValue BudgetOverrides) (config : ConfigDefaults) :
    Except CliExit (ConfigValue BudgetOverrides) :=
  match config.rateLimitBurst with
  | none => .ok slot
  | some v =>
      match budgetOverride v with
      | .error e => .error e
      | .ok overrides => .ok (tryWrite slot overrides .configFile)

def stageBurstArg (slot : ConfigValue BudgetOverrides) (args : Args) (sources : ArgSources) :
    Except CliExit (ConfigValue BudgetOverrides) :=
  match sources "rate_limit_burst", args.rateLimitBurst with
  | some source, some raw =>
      match parseRateLimitBurst raw with
      | .error message => .error (.configError message)
      | .ok none => .ok slot
      | .ok (some v) =>
          match budgetOverride v with
          | .error e => .error e
          | .ok overrides => .ok (tryWrite slot overrides source)
  | _, _ => .ok slot

def stageBudgetOverrides (book : FieldBook) (args : Args) (sources : ArgSources)
    (config : ConfigDefaults) : Except CliExit FieldBook :=
  match stageBurstFile book.budgetOverrides config with
  | .error e => .error e
  | .ok slot =>
      match stageBurstArg slot args sources with
      | .error e => .error e
      | .ok slot => .ok { book with budgetOverrides := slot }

def validateStage (book : FieldBook) : Except CliExit FieldBook :=
  if book.maxPages.value = 0 then .error (.configError "max_pages debe ser mayor que 0")
  else .ok book

def normalize (args : Args) (sources : ArgSources) (config : ConfigDefaults) :
    Except CliExit FieldBook :=
  let staged := stageEnvCli (stageConfigFile stageDefaults config) args sources
  match stageBudgetOverrides (applyCrossFieldRules staged) args sources config with
  | .error e => .error e
  | .ok book => validateStage book

/-! ## Assembly -/

/-- The contested fields of `CrawlOptions`, and its budget overrides. -/
structure CrawlOptions where
  maxPages : Nat
  maxDepth : Nat
  sitemapUrl : Option (List Char)
  useSitemap : Bool
  selector : List Char
  delayMs : Nat
  timeoutSecs : Nat
  concurrency : ConcurrencyConfig
  outputDir : List Char
  outputFormat : OutputFormat
  exportFormat : ExportFormat
  obsidianTags : List (List Char)
  obsidianWikiLinks : Bool
  obsidianRelativeAssets : Bool
  obsidianRichMetadata : Bool
  obsidianVault : Option (List Char)
  quickSave : Bool
  ignoreWaf : Bool
  budgetOverrides : BudgetOverrides

def intoCrawlOptions (book : FieldBook) : CrawlOptions where
  maxPages := book.maxPages.value
  maxDepth := book.maxDepth.value
  sitemapUrl := book.sitemapUrl.value
  useSitemap := if book.sitemapUrl.value.isSome then true else book.useSitemap.value
  selector := book.selector.value
  delayMs := book.delayMs.value
  timeoutSecs := book.timeoutSecs.value
  concurrency := book.concurrency.value
  outputDir := book.output.value
  outputFormat := book.format.value
  exportFormat := book.exportFormat.value
  obsidianTags := book.obsidianTags.value
  obsidianWikiLinks := book.obsidianWikiLinks.value
  obsidianRelativeAssets := book.obsidianRelativeAssets.value
  obsidianRichMetadata := book.obsidianRichMetadata.value
  obsidianVault := book.vault.value
  quickSave := book.quickSave.value
  ignoreWaf := book.ignoreWaf.value
  budgetOverrides :=
    match book.concurrency.value.get with
    | some explicit => { book.budgetOverrides.value with crawl := NonZero.new explicit }
    | none => book.budgetOverrides.value

/-- The burst of `CrawlOptions::from(Args)`; an error is the message of a panic. -/
def burstOfArgs (args : Args) : Except String (Option NonZero) :=
  match args.rateLimitBurst with
  | none => .ok none
  | some raw =>
      match parseRateLimitBurst raw with
      | .error message => .error message
      | .ok none => .ok none
      | .ok (some v) =>
          match NonZero.new v with
          | some burst => .ok (some burst)
          | none => .error s!"--rate-limit-burst debe ser >= 1 (recibido {v})"

/-- `CrawlOptions::from(Args)`. -/
def optionsOfArgs (args : Args) : Except String CrawlOptions :=
  match burstOfArgs args with
  | .error message => .error message
  | .ok rateBurst =>
      .ok {
        maxPages := args.maxPages
        maxDepth := args.maxDepth
        sitemapUrl := args.sitemapUrl
        useSitemap := args.useSitemap
        selector := args.selector
        delayMs := args.delayMs
        timeoutSecs := args.timeoutSecs
        concurrency := args.concurrency
        outputDir := args.output
        outputFormat := args.format
        exportFormat := args.exportFormat
        obsidianTags := args.obsidianTags.getD []
        obsidianWikiLinks := args.obsidianWikiLinks
        obsidianRelativeAssets := args.obsidianRelativeAssets
        obsidianRichMetadata := args.obsidianRichMetadata
        obsidianVault := args.vault
        quickSave := args.quickSave
        ignoreWaf := args.ignoreWaf
        budgetOverrides :=
          { rateBurst := rateBurst
            crawl := args.concurrency.get.bind NonZero.new
            batch := args.batchConcurrency.bind NonZero.new
            asset := args.downloadConcurrency.bind NonZero.new } }

def mergeBudgetOverrides (cliCapture staged : BudgetOverrides) : BudgetOverrides where
  crawl := staged.crawl <|> cliCapture.crawl
  rateBurst := cliCapture.rateBurst <|> staged.rateBurst
  batch := cliCapture.batch <|> staged.batch
  asset := cliCapture.asset <|> staged.asset

/-- The assignments of `__main` to the options of the arguments. -/
def assemble (base projected : CrawlOptions) : CrawlOptions :=
  { base with
    maxPages := projected.maxPages
    maxDepth := projected.maxDepth
    sitemapUrl := projected.sitemapUrl
    useSitemap := projected.useSitemap
    selector := projected.selector
    delayMs := projected.delayMs
    timeoutSecs := projected.timeoutSecs
    concurrency := projected.concurrency
    outputDir := projected.outputDir
    outputFormat := projected.outputFormat
    exportFormat := projected.exportFormat
    obsidianTags := projected.obsidianTags
    obsidianWikiLinks := projected.obsidianWikiLinks
    obsidianRelativeAssets := projected.obsidianRelativeAssets
    obsidianRichMetadata := projected.obsidianRichMetadata
    obsidianVault := projected.obsidianVault
    quickSave := projected.quickSave
    ignoreWaf := projected.ignoreWaf
    budgetOverrides := mergeBudgetOverrides base.budgetOverrides projected.budgetOverrides }

/-- What comes of the arguments before the gates of the binary. -/
inductive Configured
  | exit (exit : CliExit)
  | panicked (message : String)
  | run (options : CrawlOptions)

def configure (args : Args) (sources : ArgSources) (config : ConfigDefaults) : Configured :=
  match normalize args sources config with
  | .error exit => .exit exit
  | .ok book =>
      match optionsOfArgs args with
      | .error message => .panicked message
      | .ok base => .run (assemble base (intoCrawlOptions book))

end Webfang.Cli
