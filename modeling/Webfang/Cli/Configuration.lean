import Webfang.Cli.Preflight

/-!
# What a run is configured with

Every contested option takes the value of the highest of its sources, but for the one that no stage
writes; the conversion of the arguments does not panic once they have been normalised; and the
budgets agree with the options that they are derived from.
-/

namespace Webfang.Cli

open Ranked ScrapeRun

/-! ## Offers -/

section Offers

variable {α : Type} {slot : ConfigValue α} {incoming given : α} {file : Option α}
  {source : ConfigSource}

/-- What the sources have for an option, in the order of the stages. -/
def offers (default_ : α) (file : Option α) (source : Option ConfigSource) (given : α) :
    List (ConfigValue α) :=
  ⟨default_, .default⟩ ::
    ((file.map fun v => ⟨v, .configFile⟩).toList ++ (source.map fun s => ⟨given, s⟩).toList)

/-- The value of the highest source. -/
def Takes (offers : List (ConfigValue α)) (value : α) : Prop :=
  ∃ source, Prevails offers ⟨value, source⟩

theorem takes_staged (default_ : α) (file : Option α) (source : Option ConfigSource) (given : α) :
    Takes (offers default_ file source given)
      (tryArg (tryFile ⟨default_, .default⟩ file) given source).value := by
  have staged : tryArg (tryFile ⟨default_, .default⟩ file) given source =
      (offers default_ file source given).tail.foldl write ⟨default_, .default⟩ := by
    cases file <;> cases source <;> rfl
  rw [staged]
  exact ⟨_, prevails_foldl _ _⟩

theorem source_tryFile (default_ : α) (file : Option α) :
    (tryFile ⟨default_, .default⟩ file : ConfigValue α).source ≤ .configFile := by
  cases file with
  | none => exact Nat.zero_le _
  | some v =>
      rw [tryFile, tryWrite, write]
      split
      · exact le_refl _
      · exact Nat.zero_le _

theorem tryArg_above (low : slot.source ≤ .configFile) (above : ConfigSource.configFile < source) :
    tryArg slot given (some source) = ⟨given, source⟩ :=
  if_pos (lt_of_le_of_lt low above)

/-- The environment and the command line outrank the file. -/
theorem configFile_lt_of_capture {found : String → Option ValueSource} {id : String}
    (captured : ArgSources.capture found id = some source) : ConfigSource.configFile < source := by
  unfold ArgSources.capture at captured
  split at captured
  · split at captured
    · rw [← Option.some.inj captured]
      decide
    · rw [← Option.some.inj captured]
      decide
    · cases captured
  · cases captured

end Offers

/-! ## Tags -/

section Tags

variable {seen tags : List (List Char)}

theorem mem_retainFirst {tag : List Char} :
    tag ∈ retainFirst seen tags ↔ tag ∈ tags ∧ tag ∉ seen := by
  induction tags generalizing seen with
  | nil => simp [retainFirst]
  | cons first tags ih =>
      rw [retainFirst]
      by_cases old : first ∈ seen
      · rw [if_pos (List.contains_iff_mem.mpr old), ih, List.mem_cons]
        refine and_congr_left fun new => ⟨.inr, fun either => either.resolve_left ?_⟩
        rintro rfl
        exact new old
      · rw [if_neg (fun c => old (List.contains_iff_mem.mp c)), List.mem_cons, ih, List.mem_cons,
          List.mem_cons, not_or]
        by_cases same : tag = first
        · simp [same, old]
        · simp [same]

theorem nodup_retainFirst : (retainFirst seen tags).Nodup := by
  induction tags generalizing seen with
  | nil => exact List.nodup_nil
  | cons first tags ih =>
      rw [retainFirst]
      split
      · exact ih
      · refine List.nodup_cons.mpr ⟨fun later => ?_, ih⟩
        exact (mem_retainFirst.mp later).2 List.mem_cons_self

theorem retainFirst_sublist : (retainFirst seen tags).Sublist tags := by
  induction tags generalizing seen with
  | nil => exact List.Sublist.refl []
  | cons first tags ih =>
      rw [retainFirst]
      split
      · exact ih.cons first
      · exact ih.cons_cons first

/-- The tags of a list, trimmed, each once and in their order. -/
structure Cleaned (stated tags : List (List Char)) : Prop where
  nodup : tags.Nodup
  sublist : tags.Sublist (stated.map trim)
  mem_iff : ∀ tag, tag ∈ tags ↔ tag ≠ [] ∧ ∃ t ∈ stated, trim t = tag

theorem cleaned_cleanTags (stated : List (List Char)) : Cleaned stated (cleanTags stated) where
  nodup := nodup_retainFirst
  sublist := retainFirst_sublist.trans List.filter_sublist
  mem_iff tag := by
    rw [cleanTags, mem_retainFirst, List.mem_filter, List.mem_map]
    simp [and_comm]

end Tags

/-! ## The burst -/

section Burst

variable {args : Args} {sources : ArgSources} {config : ConfigDefaults}

/-- The number that the arguments state. -/
def statedBurst (args : Args) : Option Nat :=
  args.rateLimitBurst.bind fun raw => (parseRateLimitBurst raw).toOption.join

theorem parseRateLimitBurst_ne_zero {raw : List Char} {v : Nat}
    (parsed : parseRateLimitBurst raw = .ok (some v)) : 0 < v := by
  unfold parseRateLimitBurst at parsed
  dsimp only at parsed
  split at parsed
  · cases parsed
  · split at parsed
    next => cases parsed
    next number nonzero _ =>
        cases parsed
        exact Nat.pos_of_ne_zero nonzero
    next =>
        split at parsed
        · cases parsed
        · cases parsed

/-- The overrides that only set the burst. -/
def BudgetOverrides.ofBurst (burst : Option NonZero) : BudgetOverrides :=
  { BudgetOverrides.unset with rateBurst := burst }

theorem budgetOverride_eq {v : Nat} (pos : 0 < v) :
    budgetOverride v = .ok (.ofBurst (some ⟨v, pos⟩)) := by
  rw [budgetOverride, NonZero.new_eq_some pos]
  rfl

/-- The arguments state no burst that is refused. -/
def ArgBurstAccepted (args : Args) : Prop :=
  ∀ raw, args.rateLimitBurst = some raw → ∃ number, parseRateLimitBurst raw = .ok number

theorem stageBurstFile_eq_ok_iff {slot slot' : ConfigValue BudgetOverrides} :
    stageBurstFile slot config = .ok slot' ↔
      config.rateLimitBurst ≠ some 0 ∧
        slot' = tryFile slot (config.rateLimitBurst.map fun v => .ofBurst (NonZero.new v)) := by
  unfold stageBurstFile
  cases config.rateLimitBurst with
  | none => simp [tryFile, eq_comm]
  | some v =>
      rcases Nat.eq_zero_or_pos v with rfl | pos
      · exact iff_of_false (by simp [budgetOverride, NonZero.new]) (by simp)
      · dsimp only
        rw [budgetOverride_eq pos]
        simp [tryFile, NonZero.new_eq_some pos, Nat.pos_iff_ne_zero.mp pos, eq_comm]

/-- Where the source of a stated burst is known, it is staged. -/
theorem stageBurstArg_eq_ok_iff {slot slot' : ConfigValue BudgetOverrides}
    (known : args.rateLimitBurst ≠ none → ∃ source, sources "rate_limit_burst" = some source) :
    stageBurstArg slot args sources = .ok slot' ↔
      ArgBurstAccepted args ∧
        slot' = (statedBurst args).elim slot fun v =>
          tryArg slot (.ofBurst (NonZero.new v)) (sources "rate_limit_burst") := by
  unfold stageBurstArg ArgBurstAccepted statedBurst
  cases given : args.rateLimitBurst with
  | none => cases sources "rate_limit_burst" <;> simp [eq_comm]
  | some raw =>
      obtain ⟨source, from_⟩ := known (by simp [given])
      rw [from_]
      dsimp only [Option.bind_some]
      cases read : parseRateLimitBurst raw with
      | error message => exact iff_of_false (by simp) (by simp [read])
      | ok number =>
          cases number with
          | none => simp [read, Except.toOption, eq_comm]
          | some v =>
              have pos := parseRateLimitBurst_ne_zero read
              dsimp only
              rw [budgetOverride_eq pos]
              simp [read, Except.toOption, NonZero.new_eq_some pos, tryArg, eq_comm]

theorem burstOfArgs_eq_ok_iff {burst : Option NonZero} :
    burstOfArgs args = .ok burst ↔
      ArgBurstAccepted args ∧ burst = (statedBurst args).bind NonZero.new := by
  unfold burstOfArgs ArgBurstAccepted statedBurst
  cases args.rateLimitBurst with
  | none => simp [eq_comm]
  | some raw =>
      dsimp only [Option.bind_some]
      cases read : parseRateLimitBurst raw with
      | error message => exact iff_of_false (by simp) (by simp [read])
      | ok number =>
          cases number with
          | none => simp [read, Except.toOption, eq_comm]
          | some v =>
              have pos := parseRateLimitBurst_ne_zero read
              simp [read, Except.toOption, NonZero.new_eq_some pos, eq_comm]

end Burst

/-! ## Normalisation -/

section Normalisation

/-- What the parser of the arguments does: it knows where a stated burst comes from, and the
concurrency is `auto` where neither the environment nor the command line has set it. -/
structure Parsed (found : String → Option ValueSource) (args : Args) : Prop where
  burst : args.rateLimitBurst ≠ none →
    found "rate_limit_burst" = some .commandLine ∨ found "rate_limit_burst" = some .envVariable
  concurrency : found "concurrency" ≠ some .commandLine → found "concurrency" ≠ some .envVariable →
    args.concurrency = .auto

variable {found : String → Option ValueSource} {args : Args} {sources : ArgSources}
  {config : ConfigDefaults} {book : FieldBook} {options : CrawlOptions}

theorem Parsed.burst_captured (parsed : Parsed found args) (stated : args.rateLimitBurst ≠ none) :
    ∃ source, ArgSources.capture found "rate_limit_burst" = some source := by
  rcases parsed.burst stated with line | variable_
  · exact ⟨.cli, by simp [ArgSources.capture, contested, line]⟩
  · exact ⟨.environment, by simp [ArgSources.capture, contested, variable_]⟩

theorem Parsed.concurrency_captured (parsed : Parsed found args)
    (unknown : ArgSources.capture found "concurrency" = none) : args.concurrency = .auto := by
  apply parsed.concurrency
  · intro line
    simp [ArgSources.capture, contested, line] at unknown
  · intro variable_
    simp [ArgSources.capture, contested, variable_] at unknown

/-- The book behind the stages that cannot fail. -/
def stagedBook (args : Args) (sources : ArgSources) (config : ConfigDefaults) : FieldBook :=
  applyCrossFieldRules (stageEnvCli (stageConfigFile stageDefaults config) args sources)

/-- The slot of the budget overrides behind their stage. -/
def stagedBurst (args : Args) (sources : ArgSources) (config : ConfigDefaults) :
    ConfigValue BudgetOverrides :=
  let filed := tryFile ⟨.unset, .default⟩
    (config.rateLimitBurst.map fun v => BudgetOverrides.ofBurst (NonZero.new v))
  (statedBurst args).elim filed fun v =>
    tryArg filed (.ofBurst (NonZero.new v)) (sources "rate_limit_burst")

/-- What the sources say is accepted. -/
structure Accepted (args : Args) (sources : ArgSources) (config : ConfigDefaults) : Prop where
  fileBurst : config.rateLimitBurst ≠ some 0
  argBurst : ArgBurstAccepted args
  maxPages : ¬ Takes (offers 10 config.maxPages (sources "max_pages") args.maxPages) 0

theorem takes_maxPages_iff {n : Nat} :
    Takes (offers 10 config.maxPages (sources "max_pages") args.maxPages) n ↔
      (stagedBook args sources config).maxPages.value = n := by
  have staged := takes_staged 10 config.maxPages (sources "max_pages") args.maxPages
  refine ⟨fun takes => ?_, fun same => ?_⟩
  · obtain ⟨source, prevails⟩ := takes
    obtain ⟨source', prevails'⟩ := staged
    exact congrArg Slot.value (prevails'.unique prevails)
  · rw [← same]
    exact staged

theorem stageBudgetOverrides_eq_ok_iff {book' : FieldBook}
    (plain : book.budgetOverrides = ⟨.unset, .default⟩)
    (known : args.rateLimitBurst ≠ none → ∃ source, sources "rate_limit_burst" = some source) :
    stageBudgetOverrides book args sources config = .ok book' ↔
      (config.rateLimitBurst ≠ some 0 ∧ ArgBurstAccepted args) ∧
        book' = { book with budgetOverrides := stagedBurst args sources config } := by
  unfold stageBudgetOverrides
  constructor
  · intro staged
    split at staged
    next => cases staged
    next slot filed =>
        split at staged
        next => cases staged
        next slot' argued =>
            obtain ⟨file, rfl⟩ := stageBurstFile_eq_ok_iff.mp filed
            obtain ⟨arg, rfl⟩ := (stageBurstArg_eq_ok_iff known).mp argued
            rw [plain] at staged
            exact ⟨⟨file, arg⟩, (Except.ok.inj staged).symm⟩
  · intro accepted
    obtain ⟨⟨file, arg⟩, rfl⟩ := accepted
    rw [stageBurstFile_eq_ok_iff.mpr ⟨file, rfl⟩]
    dsimp only
    rw [(stageBurstArg_eq_ok_iff known).mpr ⟨arg, rfl⟩, plain]
    rfl

theorem normalize_eq_ok_iff
    (known : args.rateLimitBurst ≠ none → ∃ source, sources "rate_limit_burst" = some source) :
    normalize args sources config = .ok book ↔
      Accepted args sources config ∧
        book = { stagedBook args sources config with
          budgetOverrides := stagedBurst args sources config } := by
  have positive : ¬ Takes (offers 10 config.maxPages (sources "max_pages") args.maxPages) 0 ↔
      (stagedBook args sources config).maxPages.value ≠ 0 :=
    not_congr takes_maxPages_iff
  have stages (book' : FieldBook) :
      stageBudgetOverrides (stagedBook args sources config) args sources config = .ok book' ↔ _ :=
    stageBudgetOverrides_eq_ok_iff rfl known
  unfold normalize
  constructor
  · intro normal
    dsimp only at normal
    split at normal
    next => cases normal
    next staged ok =>
        obtain ⟨bursts, rfl⟩ := (stages staged).mp ok
        unfold validateStage at normal
        split at normal
        next => cases normal
        next pages =>
            exact ⟨⟨bursts.1, bursts.2, positive.mpr pages⟩, (Except.ok.inj normal).symm⟩
  · intro accepted
    obtain ⟨⟨file, arg, pages⟩, rfl⟩ := accepted
    have ok := (stages _).mpr ⟨⟨file, arg⟩, rfl⟩
    rw [stagedBook] at ok
    dsimp only
    rw [ok]
    exact if_neg (positive.mp pages)

end Normalisation

/-! ## Options -/

/-- The options take the values of their highest sources, but for the rich metadata of Obsidian,
which no stage writes; a sitemap that is named is used, and the tags are cleaned. -/
structure Settled (args : Args) (sources : ArgSources) (config : ConfigDefaults)
    (options : CrawlOptions) : Prop where
  maxPages : Takes (offers 10 config.maxPages (sources "max_pages") args.maxPages) options.maxPages
  maxDepth : Takes (offers 2 none (sources "max_depth") args.maxDepth) options.maxDepth
  sitemapUrl :
    Takes (offers none none (sources "sitemap_url") args.sitemapUrl) options.sitemapUrl
  useSitemap : ∃ asked,
    Takes (offers false config.useSitemap (sources "use_sitemap") args.useSitemap) asked ∧
      options.useSitemap = (asked || options.sitemapUrl.isSome)
  selector :
    Takes (offers "body".toList config.selector (sources "selector") args.selector) options.selector
  delayMs : Takes (offers 1000 config.delayMs (sources "delay_ms") args.delayMs) options.delayMs
  timeoutSecs :
    Takes (offers 30 none (sources "timeout_secs") args.timeoutSecs) options.timeoutSecs
  concurrency :
    Takes (offers .auto (config.concurrency.map .ofStr) (sources "concurrency") args.concurrency)
      options.concurrency
  outputDir :
    Takes (offers "output".toList none (sources "output") args.output) options.outputDir
  outputFormat :
    Takes (offers .markdown (config.format.map outputFormatOf) (sources "format") args.format)
      options.outputFormat
  exportFormat :
    Takes (offers .jsonl (config.exportFormat.map exportFormatOf) (sources "export_format")
      args.exportFormat) options.exportFormat
  obsidianTags : ∃ stated,
    Takes (offers [] (config.obsidianTags.map splitTags) (sources "obsidian_tags")
      (args.obsidianTags.getD [])) stated ∧ Cleaned stated options.obsidianTags
  obsidianWikiLinks :
    Takes (offers false config.obsidianWikiLinks (sources "obsidian_wiki_links")
      args.obsidianWikiLinks) options.obsidianWikiLinks
  obsidianRelativeAssets :
    Takes (offers false config.obsidianRelativeAssets (sources "obsidian_relative_assets")
      args.obsidianRelativeAssets) options.obsidianRelativeAssets
  obsidianRichMetadata : options.obsidianRichMetadata = false
  obsidianVault :
    Takes (offers none (config.vaultPath.map some) (sources "vault") args.vault)
      options.obsidianVault
  quickSave : Takes (offers false none (sources "quick_save") args.quickSave) options.quickSave
  ignoreWaf :
    Takes (offers false config.ignoreWaf (sources "ignore_waf") args.ignoreWaf) options.ignoreWaf

section Options

variable {found : String → Option ValueSource} {args : Args} {sources : ArgSources}
  {config : ConfigDefaults} {options : CrawlOptions}

/-- The overrides of `CrawlOptions::from(Args)`. -/
def argOverrides (args : Args) : BudgetOverrides where
  rateBurst := (statedBurst args).bind NonZero.new
  crawl := args.concurrency.get.bind NonZero.new
  batch := args.batchConcurrency.bind NonZero.new
  asset := args.downloadConcurrency.bind NonZero.new

theorem exists_optionsOfArgs (accepted : ArgBurstAccepted args) :
    ∃ base, optionsOfArgs args = .ok base ∧ base.budgetOverrides = argOverrides args := by
  rw [optionsOfArgs, burstOfArgs_eq_ok_iff.mpr ⟨accepted, rfl⟩]
  exact ⟨_, rfl, rfl⟩

/-- The book of an accepted run. -/
def acceptedBook (args : Args) (sources : ArgSources) (config : ConfigDefaults) : FieldBook :=
  { stagedBook args sources config with budgetOverrides := stagedBurst args sources config }

theorem configure_of_accepted
    (known : args.rateLimitBurst ≠ none → ∃ source, sources "rate_limit_burst" = some source)
    (accepted : Accepted args sources config) :
    ∃ base, base.budgetOverrides = argOverrides args ∧
      configure args sources config =
        .run (assemble base (intoCrawlOptions (acceptedBook args sources config))) := by
  obtain ⟨base, converted, overrides⟩ := exists_optionsOfArgs accepted.argBurst
  refine ⟨base, overrides, ?_⟩
  rw [configure, (normalize_eq_ok_iff known).mpr ⟨accepted, rfl⟩]
  dsimp only
  rw [converted]
  rfl

theorem exists_exit_of_refused
    (known : args.rateLimitBurst ≠ none → ∃ source, sources "rate_limit_burst" = some source)
    (refused : ¬ Accepted args sources config) :
    ∃ exit, configure args sources config = .exit exit := by
  rw [configure]
  cases normal : normalize args sources config with
  | error exit => exact ⟨exit, rfl⟩
  | ok book => exact absurd ((normalize_eq_ok_iff known).mp normal).1 refused

theorem useSitemap_eq (asked named : ConfigValue Bool) (url : ConfigValue (Option (List Char))) :
    (if url.value.isSome then true
      else (if url.value.isSome && !asked.value then named else asked).value) =
        (asked.value || url.value.isSome) := by
  cases url.value <;> simp

theorem settled_assemble (base : CrawlOptions) :
    Settled args sources config
      (assemble base (intoCrawlOptions (acceptedBook args sources config))) where
  maxPages := takes_staged _ _ _ _
  maxDepth := takes_staged _ none _ _
  sitemapUrl := takes_staged _ none _ _
  useSitemap := ⟨_, takes_staged _ _ _ _, useSitemap_eq _ _ _⟩
  selector := takes_staged _ _ _ _
  delayMs := takes_staged _ _ _ _
  timeoutSecs := takes_staged _ none _ _
  concurrency := takes_staged _ _ _ _
  outputDir := takes_staged _ none _ _
  outputFormat := takes_staged _ _ _ _
  exportFormat := takes_staged _ _ _ _
  obsidianTags := ⟨_, takes_staged _ _ _ _, cleaned_cleanTags _⟩
  obsidianWikiLinks := takes_staged _ _ _ _
  obsidianRelativeAssets := takes_staged _ _ _ _
  obsidianRichMetadata := rfl
  obsidianVault := takes_staged _ _ _ _
  quickSave := takes_staged _ none _ _
  ignoreWaf := takes_staged _ _ _ _

/-- The conversion of the arguments never panics; a run is made of what is accepted, and its
options are settled. -/
theorem configure_settles (parsed : Parsed found args) (config : ConfigDefaults) :
    (∀ message, configure args (.capture found) config ≠ .panicked message) ∧
      ((∃ options, configure args (.capture found) config = .run options) ↔
        Accepted args (.capture found) config) ∧
      ∀ options, configure args (.capture found) config = .run options →
        Settled args (.capture found) config options := by
  by_cases accepted : Accepted args (.capture found) config
  · obtain ⟨base, _, run⟩ := configure_of_accepted parsed.burst_captured accepted
    rw [run]
    refine ⟨fun message => by simp, iff_of_true ⟨_, rfl⟩ accepted, fun options same => ?_⟩
    rw [← Configured.run.inj same]
    exact settled_assemble base
  · obtain ⟨exit, out⟩ := exists_exit_of_refused parsed.burst_captured accepted
    rw [out]
    exact ⟨fun message => by simp, iff_of_false (by simp) accepted, fun options same => by cases same⟩

/-- A run with a burst and rich metadata on the command line, and a number of pages in the
environment. -/
def sampleFound (id : String) : Option ValueSource :=
  if id = "rate_limit_burst" ∨ id = "obsidian_rich_metadata" then some .commandLine
  else if id = "max_pages" then some .envVariable
  else some .defaultValue

def sampleArgs : Args where
  maxPages := 25
  maxDepth := 2
  sitemapUrl := none
  useSitemap := false
  selector := "body".toList
  delayMs := 1000
  timeoutSecs := 30
  concurrency := .auto
  output := "output".toList
  format := .markdown
  exportFormat := .jsonl
  obsidianTags := none
  obsidianWikiLinks := false
  obsidianRelativeAssets := false
  obsidianRichMetadata := true
  vault := none
  quickSave := false
  ignoreWaf := false
  rateLimitBurst := some "12".toList
  batchConcurrency := none
  downloadConcurrency := none

def sampleConfig : ConfigDefaults where
  format := none
  exportFormat := none
  concurrency := some "4".toList
  selector := none
  maxPages := some 50
  delayMs := none
  useSitemap := none
  obsidianWikiLinks := none
  obsidianTags := none
  obsidianRelativeAssets := none
  vaultPath := none
  ignoreWaf := none
  rateLimitBurst := some 7

theorem sample_parsed : Parsed sampleFound sampleArgs where
  burst _ := .inl (by decide)
  concurrency _ _ := rfl

theorem sample_burst : parseRateLimitBurst "12".toList = .ok (some 12) := by rfl

theorem sample_accepted : Accepted sampleArgs (.capture sampleFound) sampleConfig where
  fileBurst := by decide
  argBurst raw stated := by
    rw [← Option.some.inj stated]
    exact ⟨_, sample_burst⟩
  maxPages zero := absurd (takes_maxPages_iff.mp zero) (by decide)

theorem configure_settles_sample :
    ∃ options, configure sampleArgs (.capture sampleFound) sampleConfig = .run options ∧
      options.obsidianRichMetadata = false := by
  obtain ⟨_, runs, settles⟩ := configure_settles sample_parsed sampleConfig
  obtain ⟨options, run⟩ := runs.mpr sample_accepted
  exact ⟨options, run, (settles options run).obsidianRichMetadata⟩

end Options

/-! ## Budgets -/

section Budgets

variable {found : String → Option ValueSource} {args : Args} {config : ConfigDefaults}
  {options : CrawlOptions}

theorem stagedBurst_value (parsed : Parsed found args) (config : ConfigDefaults) :
    (stagedBurst args (.capture found) config).value =
      .ofBurst (((statedBurst args).or config.rateLimitBurst).bind NonZero.new) := by
  rw [stagedBurst]
  cases stated : statedBurst args with
  | none =>
      cases config.rateLimitBurst with
      | none => rfl
      | some v => rfl
  | some v =>
      have given : args.rateLimitBurst ≠ none := by
        intro absent
        rw [statedBurst, absent] at stated
        cases stated
      obtain ⟨source, captured⟩ := parsed.burst_captured given
      dsimp only [Option.elim_some]
      rw [captured, tryArg_above (source_tryFile _ _) (configFile_lt_of_capture captured)]
      rfl

/-- The concurrency of the arguments is explicit only where it is the one that is settled. -/
theorem concurrency_get_eq_none (parsed : Parsed found args)
    (auto : (stagedBook args (.capture found) config).concurrency.value.get = none) :
    args.concurrency.get = none := by
  cases captured : ArgSources.capture found "concurrency" with
  | none => rw [parsed.concurrency_captured captured]; rfl
  | some source =>
      have staged : (stagedBook args (.capture found) config).concurrency =
          tryArg (tryFile ⟨.auto, .default⟩ (config.concurrency.map .ofStr)) args.concurrency
            (ArgSources.capture found "concurrency") := rfl
      rwa [staged, captured,
        tryArg_above (source_tryFile _ _) (configFile_lt_of_capture captured)] at auto

theorem map_get_bind_new {setting : Option Nat} (positive : ∀ v ∈ setting, 0 < v) :
    (setting.bind NonZero.new).map NonZero.get = setting := by
  cases setting with
  | none => rfl
  | some v =>
      rw [Option.bind_some, NonZero.new_eq_some (positive v rfl)]
      rfl

theorem get_getD_bind_new (setting : Option Nat) (default_ : NonZero) :
    ((setting.bind NonZero.new).getD default_).get =
      (setting.filter (0 < ·)).getD default_.get := by
  cases setting with
  | none => rfl
  | some v =>
      rcases Nat.eq_zero_or_pos v with rfl | positive
      · rfl
      · have kept : (some v).filter (0 < ·) = some v := if_pos (decide_eq_true positive)
        rw [Option.bind_some, NonZero.new_eq_some positive, kept]
        rfl

theorem statedBurst_pos {v : Nat} (stated : statedBurst args = some v) : 0 < v := by
  rw [statedBurst, Option.bind_eq_some_iff] at stated
  obtain ⟨raw, _, stated⟩ := stated
  cases read : parseRateLimitBurst raw with
  | error message => rw [read] at stated; cases stated
  | ok number =>
      rw [read] at stated
      exact parseRateLimitBurst_ne_zero (read.trans (congrArg Except.ok stated))

/-- The crawl tier of the merged overrides is the concurrency of the options. -/
theorem crawl_mergeBudgetOverrides (parsed : Parsed found args) (config : ConfigDefaults) :
    (mergeBudgetOverrides (argOverrides args)
        (intoCrawlOptions (acceptedBook args (.capture found) config)).budgetOverrides).crawl =
      (intoCrawlOptions (acceptedBook args (.capture found) config)).concurrency.get.bind
        NonZero.new := by
  rw [mergeBudgetOverrides, intoCrawlOptions]
  dsimp only
  cases explicit : (acceptedBook args (.capture found) config).concurrency.value.get with
  | none =>
      have none_ := concurrency_get_eq_none parsed explicit
      have staged : (acceptedBook args (.capture found) config).budgetOverrides.value.crawl = none := by
        rw [acceptedBook]
        dsimp only
        rw [stagedBurst_value parsed config]
        rfl
      dsimp only
      rw [staged, argOverrides, none_]
      rfl
  | some v =>
      have positive : 0 < v :=
        ((acceptedBook args (.capture found) config).concurrency.value.clamped v explicit).1
      dsimp only [Option.bind_some]
      rw [NonZero.new_eq_some positive]
      rfl

theorem orElse_none (explicit : Option NonZero) : (explicit <|> none) = explicit := by
  cases explicit <;> rfl

theorem rateBurst_intoCrawlOptions (book : FieldBook) :
    (intoCrawlOptions book).budgetOverrides.rateBurst = book.budgetOverrides.value.rateBurst := by
  rw [intoCrawlOptions]
  dsimp only
  cases book.concurrency.value.get <;> rfl

theorem batch_intoCrawlOptions (book : FieldBook) :
    (intoCrawlOptions book).budgetOverrides.batch = book.budgetOverrides.value.batch := by
  rw [intoCrawlOptions]
  dsimp only
  cases book.concurrency.value.get <;> rfl

theorem asset_intoCrawlOptions (book : FieldBook) :
    (intoCrawlOptions book).budgetOverrides.asset = book.budgetOverrides.value.asset := by
  rw [intoCrawlOptions]
  dsimp only
  cases book.concurrency.value.get <;> rfl

theorem rateBurst_mergeBudgetOverrides (parsed : Parsed found args)
    (positive : config.rateLimitBurst ≠ some 0) :
    (mergeBudgetOverrides (argOverrides args) (intoCrawlOptions
        (acceptedBook args (.capture found) config)).budgetOverrides).rateBurst.map NonZero.get =
      (statedBurst args).or config.rateLimitBurst := by
  have filed : ∀ v ∈ config.rateLimitBurst, 0 < v := fun v given =>
    Nat.pos_of_ne_zero fun zero => positive (by rw [given, zero])
  rw [mergeBudgetOverrides]
  dsimp only
  rw [rateBurst_intoCrawlOptions, acceptedBook]
  dsimp only
  rw [stagedBurst_value parsed config]
  cases stated : statedBurst args with
  | none =>
      rw [argOverrides, stated]
      exact map_get_bind_new filed
  | some v =>
      rw [argOverrides, stated, Option.bind_some, NonZero.new_eq_some (statedBurst_pos stated)]
      rfl

/-- The overrides of an assembled run. -/
theorem overrides_of_configure (parsed : Parsed found args)
    (run : configure args (.capture found) config = .run options) :
    options.budgetOverrides.crawl.map NonZero.get = options.concurrency.get ∧
      options.budgetOverrides.rateBurst.map NonZero.get =
        (statedBurst args).or config.rateLimitBurst ∧
      options.budgetOverrides.batch = args.batchConcurrency.bind NonZero.new ∧
      options.budgetOverrides.asset = args.downloadConcurrency.bind NonZero.new := by
  have accepted := ((configure_settles parsed config).2.1).mp ⟨options, run⟩
  obtain ⟨base, overrides, assembled⟩ := configure_of_accepted parsed.burst_captured accepted
  obtain rfl := Configured.run.inj (assembled.symm.trans run)
  rw [assemble]
  dsimp only
  rw [overrides]
  refine ⟨?_, rateBurst_mergeBudgetOverrides parsed accepted.fileBurst, ?_, ?_⟩
  · rw [crawl_mergeBudgetOverrides parsed config]
    exact map_get_bind_new fun v explicit =>
      ((intoCrawlOptions (acceptedBook args (.capture found) config)).concurrency.clamped v
        explicit).1
  · rw [mergeBudgetOverrides]
    dsimp only
    rw [batch_intoCrawlOptions, acceptedBook]
    dsimp only
    rw [stagedBurst_value parsed config]
    exact orElse_none _
  · rw [mergeBudgetOverrides]
    dsimp only
    rw [asset_intoCrawlOptions, acceptedBook]
    dsimp only
    rw [stagedBurst_value parsed config]
    exact orElse_none _

theorem resolve_le (setting : ConcurrencyConfig) (cores : NonZero) :
    1 ≤ setting.resolve cores ∧ setting.resolve cores ≤ maxConcurrencyCeiling := by
  rw [ConcurrencyConfig.resolve]
  split
  next v explicit => exact setting.clamped v explicit
  next => exact get_clampBudget _

/-- On every machine the crawl tier is what the concurrency of the options resolves to there, within
1 and 16; the burst is that of the arguments, else of the file, else of the machine alone. -/
theorem budgets_of_configure (parsed : Parsed found args)
    (run : configure args (.capture found) config = .run options) (cores : NonZero) :
    scrapeConcurrency options.budgetOverrides cores = options.concurrency.resolve cores ∧
      1 ≤ scrapeConcurrency options.budgetOverrides cores ∧
      scrapeConcurrency options.budgetOverrides cores ≤ maxConcurrencyCeiling ∧
      (BudgetModel.build options.budgetOverrides cores).burst.get =
        ((statedBurst args).or config.rateLimitBurst).getD (autoCrawlTable cores) ∧
      (BudgetModel.build options.budgetOverrides cores).batch.get =
        (args.batchConcurrency.filter (0 < ·)).getD 5 ∧
      (BudgetModel.build options.budgetOverrides cores).asset.get =
        (args.downloadConcurrency.filter (0 < ·)).getD 3 := by
  obtain ⟨crawl, rateBurst, batch, asset⟩ := overrides_of_configure parsed run
  have resolved := scrapeConcurrency_eq_resolve crawl cores
  refine ⟨resolved, ?_, ?_, ?_, ?_, ?_⟩
  · rw [resolved]
    exact (resolve_le _ _).1
  · rw [resolved]
    exact (resolve_le _ _).2
  · rw [← rateBurst, BudgetModel.build, deriveBurst]
    dsimp only
    cases options.budgetOverrides.rateBurst <;> rfl
  · rw [BudgetModel.build, batch]
    exact get_getD_bind_new _ _
  · rw [BudgetModel.build, asset]
    exact get_getD_bind_new _ _

theorem sample_budgets :
    ∃ options, configure sampleArgs (.capture sampleFound) sampleConfig = .run options ∧
      scrapeConcurrency options.budgetOverrides ⟨8, Nat.zero_lt_succ 7⟩ =
        options.concurrency.resolve ⟨8, Nat.zero_lt_succ 7⟩ ∧
      (BudgetModel.build options.budgetOverrides ⟨8, Nat.zero_lt_succ 7⟩).burst.get = 12 := by
  obtain ⟨base, _, run⟩ := configure_of_accepted sample_parsed.burst_captured sample_accepted
  have budgets := budgets_of_configure sample_parsed run ⟨8, Nat.zero_lt_succ 7⟩
  refine ⟨_, run, budgets.1, budgets.2.2.2.1.trans ?_⟩
  have stated : statedBurst sampleArgs = some 12 := by rfl
  rw [stated]
  rfl

end Budgets

end Webfang.Cli
