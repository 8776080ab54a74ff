import Webfang.Llm.MergedRecords

/-!
# The law of extraction

`Lawful` is what a caller may rely on: nothing is sent before every gate has passed, and what is
returned was asked for once a piece and satisfies the schema.  It holds of every run in which what
`validateRecord` lets through satisfies the schema, and in which equal records are the same.
-/

namespace Webfang.Llm

open JsonTree JsonSchema SchemaValidation FirstSeen Traversal

variable {η σ ε : Type} (process : Process) (service : LlmExtractionService η σ ε) (url : Url)
  (schema : Value) (model : List Char) (config : LlmConfig)

/-! ## Gates -/

/-- The sub-chunks of these chunks. -/
def CutInto (chunks : List DocumentChunk) (subChunks : List (List Char)) : Prop :=
  ∃ parts, subChunks = parts.flatten ∧
    List.Forall₂ (fun chunk part => service.chunkText chunk.content = .ok part) chunks parts

/-- All gates have passed, and the page is cut into these sub-chunks. -/
structure Prepared (subChunks : List (List Char)) : Prop where
  schema : validateSchema schema = .ok ()
  ssrf : ssrfGate (σ := σ) (ε := ε) process config.baseUrl = some (.ok ())
  robots : enforceRobotsPolicy (σ := σ) (ε := ε) url service.robots false = .ok ()
  page : ∃ html chunks, fetchPage service url = .ok html ∧
    service.clean url.text html = .ok chunks ∧ CutInto service chunks subChunks
  size : ∀ subChunk ∈ subChunks, (Utf8.encode subChunk).length ≤ charBudget config

/-- All calls are answered, with these records. -/
structure Answered (port : Nat → Except (ScraperError σ ε) LlmResponse) (n : Nat)
    (responses : List LlmResponse) (batches : List (List Value)) : Prop where
  answers : List.Forall₂ (fun i response => port i = .ok response) (List.range n) responses
  read : List.Forall₂ (HasBatch process) responses batches

/-! ## The law -/

/-- The envelope has what the responses say. -/
structure Faithful (chunks : Nat) (responses : List LlmResponse) (batches : List (List Value))
    (extraction : LlmExtraction) : Prop where
  records : extraction.records = firsts Value.Same [] batches.flatten
  satisfied : ∀ record ∈ extraction.records, Satisfies schema record
  inputTokens : extraction.inputTokens.toNat =
    min (responses.map fun r => r.inputTokens.toNat).sum 4294967295
  outputTokens : extraction.outputTokens.toNat =
    min (responses.map fun r => r.outputTokens.toNat).sum 4294967295
  source : extraction.url = url.text ∧ extraction.model = model ∧ extraction.chunks = chunks

/-- The run ends with an error. -/
def Fails (run : Run σ ε) : Prop := ∃ e, run.outcome = .returned (.error e)

structure Lawful (run : Run σ ε) : Prop where
  gated : run.sent ≠ [] → ∃ subChunks, Prepared process service url schema config subChunks
  complete : ∀ extraction, run.outcome = .returned (.ok extraction) →
    ∃ port subChunks responses batches, service.llmPort = some port ∧
      Prepared process service url schema config subChunks ∧
      Answered process port subChunks.length responses batches ∧
      run.sent = subChunks.map (buildRequest process schema model config) ∧
      Faithful url schema model subChunks.length responses batches extraction
  malformed : ∀ port i response, service.llmPort = some port → i < run.sent.length →
    port i = .ok response → (¬ ∃ batch, HasBatch process response batch) → Fails run
  violated : ∀ port i response batch record, service.llmPort = some port → i < run.sent.length →
    port i = .ok response → HasBatch process response batch → record ∈ batch →
    ¬ Satisfies schema record → Fails run

/-- Where all gates pass and all calls are answered with records that have no flaw outside the items
of arrays: they satisfy the schema, and those that are equal are the same. -/
def Discerned : Prop :=
  ∀ port subChunks responses batches, service.llmPort = some port →
    Prepared process service url schema config subChunks →
    Answered process port subChunks.length responses batches →
    (∀ record ∈ batches.flatten, ¬ Flawed schema record) →
    (∀ record ∈ batches.flatten, Satisfies schema record) ∧
      ∀ a ∈ batches.flatten, ∀ b ∈ batches.flatten, a.Same b → a = b

/-! ## Before the first call -/

variable {process service url schema model config}

theorem semantic_ok_iff {α : Type} {x : Except σ α} {a : α} :
    semantic (ε := ε) x = .ok a ↔ x = .ok a := by
  cases x with
  | error e =>
      refine iff_of_false ?_ ?_
      · intro ok
        cases ok
      · intro ok
        cases ok
  | ok b => rw [semantic, Except.ok.injEq, Except.ok.injEq]

theorem checkBudget_ok_iff {index budget : Nat} {subChunks : List (List Char)} :
    checkBudget (σ := σ) (ε := ε) index budget subChunks = .ok () ↔
      ∀ subChunk ∈ subChunks, (Utf8.encode subChunk).length ≤ budget := by
  have fits : (∀ subChunk ∈ subChunks, (Utf8.encode subChunk).length ≤ budget) ↔
      subChunks.all (withinBudget budget) = true := by
    simp only [List.all_eq_true, withinBudget, decide_eq_true_iff]
  rw [checkBudget, fits]
  by_cases all : subChunks.all (withinBudget budget) = true
  · rw [if_pos all]
    exact iff_of_true rfl all
  · rw [if_neg all]
    refine iff_of_false ?_ all
    intro ok
    cases ok

theorem buildSubChunks_ok_iff {budget index : Nat} {chunks : List DocumentChunk}
    {subChunks : List (List Char)} :
    buildSubChunks service budget index chunks = .ok subChunks ↔
      CutInto service chunks subChunks ∧
        ∀ subChunk ∈ subChunks, (Utf8.encode subChunk).length ≤ budget := by
  induction chunks generalizing index subChunks with
  | nil =>
      rw [buildSubChunks]
      constructor
      · intro ok
        cases ok
        exact ⟨⟨[], rfl, .nil⟩, fun _ inside => absurd inside List.not_mem_nil⟩
      · intro both
        rcases both with ⟨⟨parts, rfl, cut⟩, -⟩
        cases cut
        rfl
  | cons chunk rest ih =>
      rw [buildSubChunks]
      constructor
      · intro ok
        rcases bind_eq_ok_iff.mp ok with ⟨part, first, ok⟩
        rcases bind_eq_ok_iff.mp ok with ⟨_, fits, ok⟩
        rcases bind_eq_ok_iff.mp ok with ⟨later, made, equal⟩
        rcases ih.mp made with ⟨⟨parts, rfl, cut⟩, small⟩
        cases equal
        refine ⟨⟨part :: parts, rfl, .cons (semantic_ok_iff.mp first) cut⟩, ?_⟩
        intro subChunk member
        rcases List.mem_append.mp member with here | there
        · exact checkBudget_ok_iff.mp fits subChunk here
        · exact small subChunk there
      · intro both
        rcases both with ⟨⟨parts, rfl, cut⟩, small⟩
        cases cut with
        | cons here cut =>
            rename_i part parts
            rw [List.flatten_cons] at small
            have later : buildSubChunks service budget (index + 1) rest = .ok parts.flatten :=
              ih.mpr ⟨⟨parts, rfl, cut⟩, fun s inside => small s (List.mem_append_right _ inside)⟩
            have fits : checkBudget (σ := σ) (ε := ε) index budget part = .ok () :=
              checkBudget_ok_iff.mpr fun s inside => small s (List.mem_append_left _ inside)
            rw [semantic_ok_iff.mpr here]
            refine bind_eq_ok_iff.mpr ⟨part, rfl, ?_⟩
            refine bind_eq_ok_iff.mpr ⟨(), fits, ?_⟩
            exact bind_eq_ok_iff.mpr ⟨_, later, rfl⟩

theorem prepare_ok_iff {subChunks : List (List Char)} :
    prepare process service url schema config = some (.ok subChunks) ↔
      Prepared process service url schema config subChunks := by
  rw [prepare]
  cases accepted : validateSchema schema with
  | error e =>
      refine iff_of_false ?_ ?_
      · intro ok
        cases ok
      · intro prepared
        have both := accepted.symm.trans prepared.schema
        cases both
  | ok u =>
      dsimp only
      rw [Option.map_eq_some_iff]
      constructor
      · intro found
        rcases found with ⟨gate, ssrf, ok⟩
        rcases bind_eq_ok_iff.mp ok with ⟨_, passed, ok⟩
        rcases bind_eq_ok_iff.mp ok with ⟨_, robots, ok⟩
        rcases bind_eq_ok_iff.mp ok with ⟨html, fetched, ok⟩
        rcases bind_eq_ok_iff.mp ok with ⟨chunks, cleaned, ok⟩
        rcases buildSubChunks_ok_iff.mp ok with ⟨cut, small⟩
        rw [passed] at ssrf
        have cleaned' := semantic_ok_iff.mp cleaned
        exact ⟨accepted, ssrf, robots, ⟨html, chunks, fetched, cleaned', cut⟩, small⟩
      · intro prepared
        rcases prepared with ⟨_, ssrf, robots, ⟨html, chunks, fetched, cleaned, cut⟩, small⟩
        refine ⟨.ok (), ssrf, ?_⟩
        refine bind_eq_ok_iff.mpr ⟨(), rfl, ?_⟩
        refine bind_eq_ok_iff.mpr ⟨(), robots, ?_⟩
        refine bind_eq_ok_iff.mpr ⟨html, fetched, ?_⟩
        refine bind_eq_ok_iff.mpr ⟨chunks, semantic_ok_iff.mpr cleaned, ?_⟩
        exact buildSubChunks_ok_iff.mpr ⟨cut, small⟩

theorem Prepared.unique {subChunks subChunks' : List (List Char)}
    (first : Prepared process service url schema config subChunks)
    (second : Prepared process service url schema config subChunks') : subChunks = subChunks' := by
  have both := (prepare_ok_iff.mpr first).symm.trans (prepare_ok_iff.mpr second)
  cases both
  rfl

theorem Answered.unique {port : Nat → Except (ScraperError σ ε) LlmResponse} {n : Nat}
    {responses responses' : List LlmResponse} {batches batches' : List (List Value)}
    (first : Answered process port n responses batches)
    (second : Answered process port n responses' batches') :
    responses = responses' ∧ batches = batches' := by
  have functional : Relator.RightUnique fun i response => port i = Except.ok response := by
    intro i response response' here there
    exact Except.ok.inj (here.symm.trans there)
  have same : responses = responses' :=
    List.right_unique_forall₂' functional first.answers second.answers
  subst same
  exact ⟨rfl, List.right_unique_forall₂' (hasBatch_unique process) first.read second.read⟩

/-! ## Runs -/

theorem validateAll_ok_iff {records : List Value} :
    validateAll (σ := σ) (ε := ε) schema records = .ok () ↔
      ∀ record ∈ records, validateRecord record schema = .ok () := by
  rw [validateAll, forM_eq_ok_iff]
  refine forall₂_congr fun record _ => ?_
  cases validateRecord record schema with
  | error e =>
      refine iff_of_false ?_ ?_
      · intro ok
        cases ok
      · intro ok
        cases ok
  | ok u => exact iff_of_true rfl rfl

theorem envelope_ok_iff {chunks : Nat} {merged : Merged} {extraction : LlmExtraction} :
    envelope (σ := σ) (ε := ε) url schema model chunks merged = .ok extraction ↔
      (∀ record ∈ merged.records, validateRecord record schema = .ok ()) ∧
        merged.enclose url model chunks = extraction := by
  rw [envelope, ← validateAll_ok_iff (σ := σ) (ε := ε)]
  cases validateAll (σ := σ) (ε := ε) schema merged.records with
  | error e =>
      refine iff_of_false ?_ ?_
      · intro ok
        cases ok
      · intro both
        cases both.1
  | ok u =>
      constructor
      · intro ok
        exact ⟨rfl, Except.ok.inj ok⟩
      · intro both
        exact congrArg Except.ok both.2

variable {port : Nat → Except (ScraperError σ ε) LlmResponse} {subChunks : List (List Char)}
  {responses : List LlmResponse} {batches : List (List Value)} {extraction : LlmExtraction}

theorem extract_of_prepared (provider : service.llmPort = some port)
    (prepared : Prepared process service url schema config subChunks) :
    extract process service url schema model config =
      ⟨(completeAll process port (buildRequest process schema model config) 0 .empty subChunks).1,
        .returned ((completeAll process port (buildRequest process schema model config) 0 .empty
          subChunks).2 >>= envelope url schema model subChunks.length)⟩ := by
  rw [extract, provider]
  dsimp only
  rw [prepare_ok_iff.mpr prepared]

/-- Without a provider, or where a gate does not pass, nothing is sent and nothing returned. -/
theorem extract_of_unprepared (unprepared : ∀ port subChunks, service.llmPort = some port →
      ¬ Prepared process service url schema config subChunks) :
    (extract process service url schema model config).sent = [] ∧ ∀ extraction,
      (extract process service url schema model config).outcome ≠ .returned (.ok extraction) := by
  rw [extract]
  cases provider : service.llmPort with
  | none =>
      refine ⟨rfl, ?_⟩
      intro extraction ok
      cases ok
  | some port =>
      dsimp only
      cases before : prepare process service url schema config with
      | none =>
          refine ⟨rfl, ?_⟩
          intro extraction ok
          cases ok
      | some result =>
          cases result with
          | error e =>
              refine ⟨rfl, ?_⟩
              intro extraction ok
              cases ok
          | ok subChunks =>
              exact absurd (prepare_ok_iff.mp before) (unprepared port subChunks provider)

/-- A run that is prepared and returns an envelope: what it sent, what it was answered, and what
it kept. -/
theorem kept_of_ok (laws : FloatLaws process.floatText) (provider : service.llmPort = some port)
    (prepared : Prepared process service url schema config subChunks)
    (ok : (extract process service url schema model config).outcome = .returned (.ok extraction)) :
    (extract process service url schema model config).sent =
        subChunks.map (buildRequest process schema model config) ∧
      ∃ responses batches merged, Answered process port subChunks.length responses batches ∧
        Absorbed process .empty [] responses batches merged ∧
        (∀ record ∈ merged.records, validateRecord record schema = .ok ()) ∧
        merged.enclose url model subChunks.length = extraction := by
  rw [extract_of_prepared provider prepared] at ok ⊢
  rcases bind_eq_ok_iff.mp (Outcome.returned.inj ok) with ⟨merged, completed, made⟩
  refine ⟨completeAll_sent completed, ?_⟩
  rcases completeAll_ok_iff.mp completed with ⟨responses, answers, absorbed⟩
  rcases absorbed_of_ok laws known_empty absorbed with ⟨batches, read, kept⟩
  rw [← List.range_eq_range'] at answers
  exact ⟨responses, batches, merged, ⟨answers, read⟩, kept, envelope_ok_iff.mp made⟩

/-- Answers that are all read and valid make an envelope of the first of each record. -/
theorem ok_of_answered (laws : FloatLaws process.floatText) (provider : service.llmPort = some port)
    (prepared : Prepared process service url schema config subChunks)
    (answered : Answered process port subChunks.length responses batches)
    (valid : ∀ record ∈ batches.flatten, validateRecord record schema = .ok ()) :
    ∃ extraction, (extract process service url schema model config).outcome =
      .returned (.ok extraction) := by
  rcases exists_absorbed (σ := σ) (ε := ε) answered.read .empty with ⟨merged, absorbed⟩
  have answers := answered.answers
  rw [List.range_eq_range'] at answers
  have completed : (completeAll process port (buildRequest process schema model config) 0 .empty
      subChunks).2 = .ok merged := completeAll_ok_iff.mpr ⟨responses, answers, absorbed⟩
  rcases absorbed_of_ok laws known_empty absorbed with ⟨batches', read, kept⟩
  rw [← List.right_unique_forall₂' (hasBatch_unique process) answered.read read] at kept
  have validated : ∀ record ∈ merged.records, validateRecord record schema = .ok () := by
    rw [kept.records]
    intro record member
    exact valid record (mem_of_mem_firsts member)
  rw [extract_of_prepared provider prepared, completed]
  refine ⟨merged.enclose url model subChunks.length, congrArg Outcome.returned ?_⟩
  exact envelope_ok_iff.mpr ⟨validated, rfl⟩

theorem validateRecord_ok_iff {record : Value} (accepted : validateSchema schema = .ok ()) :
    validateRecord record schema = .ok () ↔ ¬ Flawed schema record :=
  walkRecord_ok_iff ⟨_, accepted⟩

theorem fails_of_not_ok (provider : service.llmPort = some port)
    (prepared : Prepared process service url schema config subChunks)
    (notOk : ∀ extraction,
      (extract process service url schema model config).outcome ≠ .returned (.ok extraction)) :
    Fails (extract process service url schema model config) := by
  rw [extract_of_prepared provider prepared] at notOk ⊢
  cases result : (completeAll process port (buildRequest process schema model config) 0 .empty
      subChunks).2 >>= envelope url schema model subChunks.length with
  | error e => exact ⟨e, rfl⟩
  | ok extraction => exact absurd (congrArg Outcome.returned result) (notOk extraction)

/-- What a run that returns keeps, when it is discerned. -/
theorem faithful_of_ok (laws : FloatLaws process.floatText) (provider : service.llmPort = some port)
    (prepared : Prepared process service url schema config subChunks)
    (discerned : Discerned process service url schema config)
    (ok : (extract process service url schema model config).outcome = .returned (.ok extraction)) :
    ∃ responses batches, Answered process port subChunks.length responses batches ∧
      Faithful url schema model subChunks.length responses batches extraction ∧
      ∀ record ∈ batches.flatten, Satisfies schema record := by
  rcases (kept_of_ok laws provider prepared ok).2 with
    ⟨responses, batches, merged, answered, kept, valid, made⟩
  have first : merged.records = firsts Eq [] batches.flatten := kept.records
  have unflawed : ∀ record ∈ batches.flatten, ¬ Flawed schema record := by
    intro record member
    rw [← validateRecord_ok_iff prepared.schema]
    apply valid
    rw [first]
    exact mem_firsts_iff.mpr member
  rcases discerned port subChunks responses batches provider prepared answered unflawed with
    ⟨satisfied, same⟩
  refine ⟨responses, batches, answered, ?_, satisfied⟩
  subst made
  refine ⟨?_, ?_, ?_, ?_, ⟨rfl, rfl, rfl⟩⟩
  · rw [← (firsts_same_iff (sorted_of_hasBatches answered.read)).mpr same]
    exact first
  · intro record member
    have keptRecord : record ∈ firsts Eq [] batches.flatten := first ▸ member
    exact satisfied record (mem_firsts_iff.mp keptRecord)
  · have total := kept.inputTokens
    rw [Merged.empty, UInt32.toNat_zero, Nat.zero_add] at total
    exact total
  · have total := kept.outputTokens
    rw [Merged.empty, UInt32.toNat_zero, Nat.zero_add] at total
    exact total

/-- Each call that is answered has its records in the answers. -/
theorem exists_answer {n i : Nat} {response : LlmResponse}
    (answered : Answered process port n responses batches) (small : i < n)
    (answer : port i = .ok response) : ∃ batch ∈ batches, HasBatch process response batch := by
  rcases exists_of_mem_left answered.answers (List.mem_range.mpr small) with
    ⟨response', member, answer'⟩
  rw [answer] at answer'
  cases answer'
  exact exists_of_mem_left answered.read member

/-- A response without records, or with one that violates the schema, makes the run fail. -/
theorem fails_of_answer (laws : FloatLaws process.floatText)
    (provider : service.llmPort = some port)
    (prepared : Prepared process service url schema config subChunks)
    (discerned : Discerned process service url schema config) {i : Nat} {response : LlmResponse}
    (sent : i < (extract process service url schema model config).sent.length)
    (answer : port i = .ok response)
    (bad : ∀ batch, HasBatch process response batch →
      ∃ record ∈ batch, ¬ Satisfies schema record) :
    Fails (extract process service url schema model config) := by
  apply fails_of_not_ok provider prepared
  intro extraction ok
  rcases faithful_of_ok laws provider prepared discerned ok with
    ⟨responses, batches, answered, -, satisfied⟩
  rw [(kept_of_ok laws provider prepared ok).1, List.length_map] at sent
  rcases exists_answer answered sent answer with ⟨batch, member, has⟩
  rcases bad batch has with ⟨record, inside, violates⟩
  exact violates (satisfied record (List.mem_flatten.mpr ⟨batch, member, inside⟩))

theorem lawful_of_discerned (laws : FloatLaws process.floatText)
    (discerned : Discerned process service url schema config) :
    Lawful process service url schema model config
      (extract process service url schema model config) := by
  by_cases ready : ∃ port subChunks, service.llmPort = some port ∧
      Prepared process service url schema config subChunks
  · rcases ready with ⟨port, subChunks, provider, prepared⟩
    refine ⟨fun _ => ⟨subChunks, prepared⟩, ?_, ?_, ?_⟩
    · intro extraction ok
      rcases faithful_of_ok laws provider prepared discerned ok with
        ⟨responses, batches, answered, faithful, -⟩
      exact ⟨port, subChunks, responses, batches, provider, prepared, answered,
        (kept_of_ok laws provider prepared ok).1, faithful⟩
    · intro port' i response provider' sent answer malformed
      rw [provider] at provider'
      cases provider'
      apply fails_of_answer laws provider prepared discerned sent answer
      intro batch has
      exact absurd ⟨batch, has⟩ malformed
    · intro port' i response batch record provider' sent answer has inside violates
      rw [provider] at provider'
      cases provider'
      apply fails_of_answer laws provider prepared discerned sent answer
      intro batch' has'
      rw [hasBatch_unique process has' has]
      exact ⟨record, inside, violates⟩
  · have unprepared : ∀ port subChunks, service.llmPort = some port →
        ¬ Prepared process service url schema config subChunks :=
      fun port subChunks provider prepared => ready ⟨port, subChunks, provider, prepared⟩
    have idle : (extract process service url schema model config).sent = [] ∧ ∀ extraction,
        (extract process service url schema model config).outcome ≠ .returned (.ok extraction) :=
      extract_of_unprepared unprepared
    refine ⟨?_, ?_, ?_, ?_⟩
    · intro sent
      exact absurd idle.1 sent
    · intro extraction ok
      exact absurd ok (idle.2 extraction)
    · intro port i response provider sent answer malformed
      rw [idle.1] at sent
      exact absurd sent (Nat.not_lt_zero i)
    · intro port i response batch record provider sent answer has inside violates
      rw [idle.1] at sent
      exact absurd sent (Nat.not_lt_zero i)

theorem discerned_of_lawful (laws : FloatLaws process.floatText)
    (lawful : Lawful process service url schema model config
      (extract process service url schema model config)) :
    Discerned process service url schema config := by
  intro port subChunks responses batches provider prepared answered unflawed
  have valid : ∀ record ∈ batches.flatten, validateRecord record schema = .ok () :=
    fun record member => (validateRecord_ok_iff prepared.schema).mpr (unflawed record member)
  have returns : ∃ extraction, (extract process service url schema model config).outcome =
      .returned (.ok extraction) := ok_of_answered laws provider prepared answered valid
  rcases returns with ⟨extraction, ok⟩
  rcases (kept_of_ok laws provider prepared ok).2 with
    ⟨responses', batches', merged, answered', kept, -, made⟩
  rcases answered.unique answered' with ⟨rfl, rfl⟩
  rcases lawful.complete extraction ok with
    ⟨port', subChunks', responses', batches', provider', prepared', answered'', -, faithful⟩
  rw [provider] at provider'
  cases provider'
  cases prepared.unique prepared'
  rcases answered.unique answered'' with ⟨rfl, rfl⟩
  have first : extraction.records = firsts Eq [] batches.flatten := by
    rw [← made]
    exact kept.records
  constructor
  · intro record member
    apply faithful.satisfied
    rw [first]
    exact mem_firsts_iff.mpr member
  · rw [← firsts_same_iff (sorted_of_hasBatches answered.read), ← first]
    exact faithful.records

/-- Extraction keeps its law just when what the validator lets through satisfies the schema and
equal records are the same. -/
theorem extraction_lawful_iff (laws : FloatLaws process.floatText) :
    Lawful process service url schema model config
        (extract process service url schema model config) ↔
      Discerned process service url schema config :=
  ⟨discerned_of_lawful laws, lawful_of_discerned laws⟩

/-! ## Zeros of both signs -/

def negativeZero : Double := ⟨0x8000000000000000, by decide⟩

/-- A text of doubles that is right for the zeros. -/
def sampleFloatText (d : Double) : List Char :=
  if d = .zero then "0.0".toList
  else if d = negativeZero then "-0.0".toList
  else Json.ofNat d.bits.toNat ++ "e0".toList

theorem sampleFloatText_cases (d : Double) :
    (d = .zero ∧ sampleFloatText d = "0.0".toList) ∨
    (d = negativeZero ∧ sampleFloatText d = "-0.0".toList) ∨
    sampleFloatText d = Json.ofNat d.bits.toNat ++ "e0".toList := by
  unfold sampleFloatText
  split_ifs with zero negative
  · exact .inl ⟨zero, rfl⟩
  · exact .inr (.inl ⟨negative, rfl⟩)
  · exact .inr (.inr rfl)

theorem dot_notMem (n : Nat) : '.' ∉ Json.ofNat n ++ "e0".toList := by
  intro member
  rcases List.mem_append.mp member with digit | exponent
  · cases Json.isDigit_of_mem_ofNat digit
  · exact absurd exponent (by decide)

theorem sampleFloatText_injective {a b : Double} (same : sampleFloatText a = sampleFloatText b) :
    a = b := by
  have dots : ∀ {text : List Char} {n : Nat}, '.' ∈ text →
      text ≠ Json.ofNat n ++ "e0".toList := by
    intro text n member equal
    rw [equal] at member
    exact dot_notMem n member
  rcases sampleFloatText_cases a with ⟨rfl, left⟩ | ⟨rfl, left⟩ | left
  · rcases sampleFloatText_cases b with ⟨rfl, right⟩ | ⟨rfl, right⟩ | right
    · rfl
    · rw [left, right] at same
      exact absurd same (by decide)
    · rw [left, right] at same
      exact absurd same (dots (by decide))
  · rcases sampleFloatText_cases b with ⟨rfl, right⟩ | ⟨rfl, right⟩ | right
    · rw [left, right] at same
      exact absurd same (by decide)
    · rfl
    · rw [left, right] at same
      exact absurd same (dots (by decide))
  · rcases sampleFloatText_cases b with ⟨rfl, right⟩ | ⟨rfl, right⟩ | right
    · rw [left, right] at same
      exact absurd same.symm (dots (by decide))
    · rw [left, right] at same
      exact absurd same.symm (dots (by decide))
    · rw [left, right] at same
      have bits := UInt64.toNat_inj.mp (ofNat_injective (List.append_cancel_right same))
      obtain ⟨bits', finite⟩ := a
      obtain ⟨bits'', finite'⟩ := b
      cases bits
      rfl

theorem sampleFloatText_laws : FloatLaws sampleFloatText := by
  refine ⟨fun a b => sampleFloatText_injective, ?_, ?_⟩
  · intro d c member
    rcases sampleFloatText_cases d with ⟨-, text⟩ | ⟨-, text⟩ | text
    · have all : "0.0".toList.all Json.isNumberChar = true := rfl
      rw [text] at member
      exact List.all_eq_true.mp all c member
    · have all : "-0.0".toList.all Json.isNumberChar = true := rfl
      rw [text] at member
      exact List.all_eq_true.mp all c member
    · have all : "e0".toList.all Json.isNumberChar = true := rfl
      rw [text] at member
      rcases List.mem_append.mp member with digit | exponent
      · exact isNumberChar_of_mem_ofNat digit
      · exact List.all_eq_true.mp all c exponent
  · intro d
    rcases sampleFloatText_cases d with ⟨-, text⟩ | ⟨-, text⟩ | text
    · exact ⟨'.', by rw [text]; decide, .inl rfl⟩
    · exact ⟨'.', by rw [text]; decide, .inl rfl⟩
    · refine ⟨'e', ?_, .inr rfl⟩
      rw [text]
      exact List.mem_append_right _ (by decide)

def zeroRecord (d : Double) : Value := .object [("x".toList, .number (.float d))]

def zerosText : List Char := "[\x7b\"x\":0.0\x7d,\x7b\"x\":-0.0\x7d]".toList

/-- A reader that knows this response. -/
def sampleProcess : Process where
  disableSsrf := false
  checked := false
  floatText := sampleFloatText
  fromStr text :=
    if text = zerosText then
      .ok ⟨.array [zeroRecord .zero, zeroRecord negativeZero], by
        simp [zeroRecord, Value.Sorted, SortedElements, SortedMembers]⟩
    else .error "expected value at line 1 column 1".toList

def sampleUrl : Url := ⟨"https://example.com/".toList, "https".toList, some "example.com".toList⟩

def sampleConfig : LlmConfig where
  baseUrl := ⟨"https://llm.example/v1".toList, "https".toList, some "llm.example".toList⟩
  maxTokens := 100

def sampleService : LlmExtractionService Unit Unit Unit where
  get _ := .ok ⟨200, "x".toList⟩
  scraperErrorFromHttp _ url := .http 500 url
  clean _ html := .ok [⟨html⟩]
  chunkText text := .ok [text]
  robots := none
  llmPort := some fun _ => .ok ⟨zerosText, 1, 1⟩

def objectSchema : Value := .object [("type".toList, .string "object".toList)]

theorem sample_prepared :
    Prepared sampleProcess sampleService sampleUrl objectSchema sampleConfig ["x".toList] := by
  refine ⟨?_, ?_, rfl, ?_, ?_⟩
  · rw [validateSchema, walkSchema]
    rfl
  · rfl
  · exact ⟨"x".toList, [⟨"x".toList⟩], rfl, rfl, [["x".toList]], rfl, .cons rfl .nil⟩
  · intro subChunk member
    rw [List.mem_singleton.mp member]
    decide

theorem sample_lawful_iff :
    Lawful sampleProcess sampleService sampleUrl objectSchema "m".toList sampleConfig
        (extract sampleProcess sampleService sampleUrl objectSchema "m".toList sampleConfig) ↔
      Discerned sampleProcess sampleService sampleUrl objectSchema sampleConfig :=
  extraction_lawful_iff sampleFloatText_laws

/-- Two records that are equal are both returned. -/
theorem zeros_kept_apart :
    (zeroRecord .zero).Same (zeroRecord negativeZero) ∧
      (extract sampleProcess sampleService sampleUrl objectSchema "m".toList sampleConfig).outcome =
        .returned (.ok ⟨"https://example.com/".toList, "m".toList,
          [zeroRecord .zero, zeroRecord negativeZero], 1, 1, 1⟩) ∧
      ¬ Lawful sampleProcess sampleService sampleUrl objectSchema "m".toList sampleConfig
        (extract sampleProcess sampleService sampleUrl objectSchema "m".toList sampleConfig) := by
  have same : (zeroRecord .zero).Same (zeroRecord negativeZero) := by
    refine ⟨⟨⟨_, rfl, rfl⟩, trivial⟩, ?_⟩
    intro key member
    exact member
  have different : zeroRecord .zero ≠ zeroRecord negativeZero := by
    intro equal
    simp [zeroRecord, Double.zero, negativeZero] at equal
  have answered : Answered sampleProcess (fun _ => Except.ok (ε := ScraperError Unit Unit)
      ⟨zerosText, 1, 1⟩) 1 [⟨zerosText, 1, 1⟩] [[zeroRecord .zero, zeroRecord negativeZero]] :=
    ⟨.cons rfl .nil, .cons ⟨_, rfl, rfl⟩ .nil⟩
  have valid : ∀ record ∈ [zeroRecord .zero, zeroRecord negativeZero],
      validateRecord record objectSchema = .ok () := by
    intro record member
    rcases List.mem_cons.mp member with rfl | member
    · rw [validateRecord, walkRecord]
      rfl
    · rw [List.mem_singleton.mp member, validateRecord, walkRecord]
      rfl
  refine ⟨same, ?_, ?_⟩
  · rw [extract_of_prepared rfl sample_prepared]
    apply congrArg Outcome.returned
    refine bind_eq_ok_iff.mpr ⟨⟨[zeroRecord .zero, zeroRecord negativeZero], _, 1, 1⟩, rfl, ?_⟩
    exact envelope_ok_iff.mpr ⟨valid, rfl⟩
  · intro lawful
    have unflawed : ∀ record ∈ [zeroRecord .zero, zeroRecord negativeZero],
        ¬ Flawed objectSchema record := by
      intro record member
      exact (validateRecord_ok_iff sample_prepared.schema).mp (valid record member)
    have distinct := (discerned_of_lawful sampleFloatText_laws lawful _ _ _ _ rfl sample_prepared
      answered unflawed).2
    exact different (distinct _ List.mem_cons_self _
      (List.mem_cons_of_mem _ List.mem_cons_self) same)

end Webfang.Llm
