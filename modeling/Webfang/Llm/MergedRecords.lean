import Webfang.Llm.LlmExtraction
import Webfang.Lib.FirstSeen
import Mathlib.Algebra.GroupWithZero.Nat
import Mathlib.Data.List.Forall2

/-!
# What a run of calls merges

The texts seen stand for the records seen, since values with the same text are the same.  So what is
kept of all the answers is the first of each record, and the tokens are their sums, capped.
-/

namespace Webfang.Llm

open JsonTree SchemaValidation FirstSeen Traversal

variable {η σ ε : Type} {process : Process} {merged merged' : Merged} {before : List Value}

/-! ## Records -/

/-- The texts seen are those of the records seen. -/
def Known (process : Process) (seen : List (List Char)) (before : List Value) : Prop :=
  ∀ t, t ∈ seen ↔ ∃ y ∈ before, y.text process.floatText = t

theorem known_empty : Known process Merged.empty.seen [] := by
  intro t
  simp [Merged.empty]

theorem known_cons {seen : List (List Char)} (known : Known process seen before) (record : Value) :
    Known process (record.text process.floatText :: seen) (record :: before) := by
  intro t
  rw [List.mem_cons, known t]
  simp only [List.exists_mem_cons_iff]
  exact or_congr eq_comm Iff.rfl

theorem known_cons_of_mem {seen : List (List Char)} (known : Known process seen before)
    {record : Value} (old : record.text process.floatText ∈ seen) :
    Known process seen (record :: before) := by
  intro t
  rw [known t]
  simp only [List.exists_mem_cons_iff]
  constructor
  · exact .inr
  · intro either
    rcases either with same | stood
    · rw [← same]
      exact (known _).mp old
    · exact stood

/-- A batch adds its records that are new. -/
theorem mergeBatch_eq (laws : FloatLaws process.floatText) {seen : List (List Char)}
    (known : Known process seen before) (records batch : List Value) :
    (mergeBatch process records seen batch).1 = records ++ firsts Eq before batch ∧
      Known process (mergeBatch process records seen batch).2 (batch.reverse ++ before) := by
  induction batch generalizing records seen before with
  | nil =>
      refine ⟨?_, known⟩
      rw [firsts, List.append_nil]
      rfl
  | cons record rest ih =>
      have isSeen : (seen.any fun t => decide (t = record.text process.floatText)) = true ↔
          record.text process.floatText ∈ seen := by
        simp only [List.any_eq_true, decide_eq_true_iff, exists_eq_right]
      have isOld : record.text process.floatText ∈ seen ↔ ∃ y ∈ before, y = record := by
        rw [known]
        refine exists_congr fun y => and_congr_right fun _ => ?_
        exact ⟨text_injective laws, congrArg _⟩
      rw [List.reverse_cons, List.append_assoc, mergeBatch]
      by_cases old : record.text process.floatText ∈ seen
      · rw [if_pos (isSeen.mpr old), firsts_cons_old (isOld.mp old)]
        exact ih (known_cons_of_mem known old) records
      · have later := ih (known_cons known record) (records ++ [record])
        rw [List.append_assoc] at later
        rw [if_neg fun any => old (isSeen.mp any),
          firsts_cons_new fun stood => old (isOld.mpr stood)]
        exact later

/-! ## Responses -/

/-- The response is an object or an array, with these records. -/
def HasBatch (process : Process) (response : LlmResponse) (batch : List Value) : Prop :=
  ∃ parsed, process.fromStr response.content = .ok parsed ∧ recordsOf parsed.value = some batch

theorem hasBatch_unique (process : Process) : Relator.RightUnique (HasBatch process) := by
  intro response batch batch' first second
  rcases first with ⟨parsed, read, records⟩
  rcases second with ⟨parsed', read', records'⟩
  rw [read] at read'
  cases read'
  rw [records] at records'
  exact Option.some.inj records'

theorem sorted_of_hasBatch {response : LlmResponse} {batch : List Value}
    (has : HasBatch process response batch) : ∀ record ∈ batch, record.Sorted := by
  rcases has with ⟨⟨value, sorted⟩, -, records⟩
  cases value with
  | array elements =>
      cases records
      exact sortedElements_iff.mp sorted
  | object members =>
      cases records
      intro record member
      rw [List.mem_singleton.mp member]
      exact sorted
  | null => cases records
  | bool b => cases records
  | number n => cases records
  | string text => cases records

theorem sorted_of_hasBatches {responses : List LlmResponse} {batches : List (List Value)}
    (has : List.Forall₂ (HasBatch process) responses batches) :
    ∀ record ∈ batches.flatten, record.Sorted := by
  induction has with
  | nil => exact fun _ inside => absurd inside List.not_mem_nil
  | cons here _ ih =>
      intro record member
      rw [List.flatten_cons] at member
      rcases List.mem_append.mp member with front | behind
      · exact sorted_of_hasBatch here record front
      · exact ih record behind

/-- The first of each record are the first of each group just when records that are equal are the
same. -/
theorem firsts_same_iff {records : List Value} (sorted : ∀ record ∈ records, record.Sorted) :
    firsts Eq [] records = firsts Value.Same [] records ↔
      ∀ a ∈ records, ∀ b ∈ records, a.Same b → a = b := by
  have agree : ∀ a ∈ records, ∀ b ∈ records, (a.beq b = true ↔ a.Same b) :=
    fun a left b right => Value.beq_iff_same a b (sorted a left) (sorted b right)
  have kept : firsts Value.Same [] records = firsts (fun a b => a.beq b = true) [] records := by
    apply firsts_congr
    rw [List.append_nil]
    exact fun a left b right => (agree a left b right).symm
  have symmetric : ∀ a b : Value, a.beq b = true → b.beq a = true := by
    intro a b same
    rw [Value.beq_comm]
    exact same
  rw [kept, firsts_eq_iff Value.beq_refl symmetric]
  refine forall₂_congr fun a left => forall₂_congr fun b right => ?_
  exact imp_congr (agree a left b right) Iff.rfl

theorem mergeRecords_ok_iff {records : List Value} {seen : List (List Char)}
    {response : LlmResponse} {both : List Value × List (List Char)} :
    mergeRecords (σ := σ) (ε := ε) process records seen response = .ok both ↔
      ∃ batch, HasBatch process response batch ∧ mergeBatch process records seen batch = both := by
  rw [mergeRecords]
  cases read : process.fromStr response.content with
  | error e =>
      refine iff_of_false (by intro ok; cases ok) ?_
      intro found
      rcases found with ⟨batch, ⟨parsed, read', -⟩, -⟩
      rw [read] at read'
      cases read'
  | ok parsed =>
      dsimp only
      cases batch : recordsOf parsed.value with
      | none =>
          refine iff_of_false (by intro ok; cases ok) ?_
          intro found
          rcases found with ⟨batch', ⟨parsed', read', batch''⟩, -⟩
          rw [read] at read'
          cases read'
          rw [batch] at batch''
          cases batch''
      | some records =>
          constructor
          · intro ok
            cases ok
            exact ⟨records, ⟨parsed, read, batch⟩, rfl⟩
          · intro found
            rcases found with ⟨batch', has, merged⟩
            rw [hasBatch_unique process has ⟨parsed, read, batch⟩] at merged
            rw [← merged]

theorem saturatingAdd_toNat (a b : UInt32) :
    (saturatingAdd a b).toNat = min (a.toNat + b.toNat) 4294967295 := by
  rw [saturatingAdd]
  split_ifs with small
  · rw [UInt32.toNat_add, Nat.mod_eq_of_lt small]
    omega
  · have cap : (4294967295 : UInt32).toNat = 4294967295 := rfl
    omega

/-- What the records and the tokens are after some responses. -/
structure Absorbed (process : Process) (merged : Merged) (before : List Value)
    (responses : List LlmResponse) (batches : List (List Value)) (merged' : Merged) : Prop where
  records : merged'.records = merged.records ++ firsts Eq before batches.flatten
  inputTokens : merged'.inputTokens.toNat = min
    (merged.inputTokens.toNat + (responses.map fun r => r.inputTokens.toNat).sum) 4294967295
  outputTokens : merged'.outputTokens.toNat = min
    (merged.outputTokens.toNat + (responses.map fun r => r.outputTokens.toNat).sum) 4294967295

theorem absorb_ok_iff {response : LlmResponse} :
    merged.absorb (σ := σ) (ε := ε) process response = .ok merged' ↔
      ∃ batch, HasBatch process response batch ∧
        merged' =
          { records := (mergeBatch process merged.records merged.seen batch).1
            seen := (mergeBatch process merged.records merged.seen batch).2
            inputTokens := saturatingAdd merged.inputTokens response.inputTokens
            outputTokens := saturatingAdd merged.outputTokens response.outputTokens } := by
  rw [Merged.absorb]
  cases step : mergeRecords (σ := σ) (ε := ε) process merged.records merged.seen response with
  | error e =>
      refine iff_of_false (by intro ok; cases ok) ?_
      intro found
      rcases found with ⟨batch, has, -⟩
      rw [mergeRecords_ok_iff.mpr ⟨batch, has, rfl⟩] at step
      cases step
  | ok both =>
      rcases mergeRecords_ok_iff.mp step with ⟨batch, has, made⟩
      constructor
      · intro ok
        cases ok
        exact ⟨batch, has, by rw [made]⟩
      · intro found
        rcases found with ⟨batch', has', equal⟩
        rw [equal, hasBatch_unique process has' has, made]
        rfl

/-- Responses that are all objects or arrays are all merged. -/
theorem exists_absorbed {responses : List LlmResponse} {batches : List (List Value)}
    (has : List.Forall₂ (HasBatch process) responses batches) (merged : Merged) :
    ∃ merged', responses.foldlM (Merged.absorb (σ := σ) (ε := ε) process) merged = .ok merged' := by
  induction has generalizing merged with
  | nil => exact ⟨merged, rfl⟩
  | cons here _ ih =>
      rw [List.foldlM_cons, absorb_ok_iff.mpr ⟨_, here, rfl⟩]
      exact ih _

theorem absorbed_of_ok (laws : FloatLaws process.floatText) {responses : List LlmResponse}
    (known : Known process merged.seen before)
    (ok : responses.foldlM (Merged.absorb (σ := σ) (ε := ε) process) merged = .ok merged') :
    ∃ batches, List.Forall₂ (HasBatch process) responses batches ∧
      Absorbed process merged before responses batches merged' := by
  induction responses generalizing merged before with
  | nil =>
      cases ok
      have input := merged'.inputTokens.toNat_lt
      have output := merged'.outputTokens.toNat_lt
      refine ⟨[], .nil, ?_, ?_, ?_⟩
      · rw [List.flatten_nil, firsts, List.append_nil]
      · rw [List.map_nil, List.sum_nil]
        omega
      · rw [List.map_nil, List.sum_nil]
        omega
  | cons response rest ih =>
      rw [List.foldlM_cons, bind_eq_ok_iff] at ok
      rcases ok with ⟨next, step, later⟩
      rcases absorb_ok_iff.mp step with ⟨batch, has, rfl⟩
      rcases mergeBatch_eq laws known merged.records batch with ⟨kept, known'⟩
      rcases ih known' later with ⟨batches, haves, records, input, output⟩
      refine ⟨batch :: batches, .cons has haves, ?_, ?_, ?_⟩
      · rw [records, kept, List.flatten_cons, firsts_append, List.append_assoc]
      · rw [input, saturatingAdd_toNat, List.map_cons, List.sum_cons]
        omega
      · rw [output, saturatingAdd_toNat, List.map_cons, List.sum_cons]
        omega

/-! ## Calls -/

variable {port : Nat → Except (ScraperError σ ε) LlmResponse} {request : List Char → LlmRequest}
  {responses : List LlmResponse} {subChunks : List (List Char)}

/-- Calls that all succeed are answered one by one, and their responses merged. -/
theorem completeAll_ok_iff {i : Nat} :
    (completeAll process port request i merged subChunks).2 = .ok merged' ↔
      ∃ responses, List.Forall₂ (fun j response => port j = .ok response)
          (List.range' i subChunks.length) responses ∧
        responses.foldlM (Merged.absorb (σ := σ) (ε := ε) process) merged = .ok merged' := by
  induction subChunks generalizing i merged with
  | nil =>
      constructor
      · intro ok
        exact ⟨[], .nil, ok⟩
      · intro found
        rcases found with ⟨responses, answers, ok⟩
        cases answers
        exact ok
  | cons subChunk rest ih =>
      rw [completeAll, List.length_cons, List.range'_succ]
      cases step : port i >>= merged.absorb process with
      | error e =>
          refine iff_of_false (by intro ok; cases ok) ?_
          intro found
          rcases found with ⟨responses, answers, ok⟩
          cases answers with
          | cons here later =>
              rw [here] at step
              rw [List.foldlM_cons] at ok
              rcases bind_eq_ok_iff.mp ok with ⟨next, absorbed, -⟩
              have both := step.symm.trans absorbed
              cases both
      | ok next =>
          rcases bind_eq_ok_iff.mp step with ⟨response, here, absorbed⟩
          dsimp only
          rw [ih]
          constructor
          · intro found
            rcases found with ⟨responses, answers, ok⟩
            refine ⟨response :: responses, .cons here answers, ?_⟩
            rw [List.foldlM_cons, absorbed]
            exact ok
          · intro found
            rcases found with ⟨responses, answers, ok⟩
            cases answers with
            | cons here' later =>
                rw [here] at here'
                cases here'
                rw [List.foldlM_cons, absorbed] at ok
                exact ⟨_, later, ok⟩

/-- Calls that all succeed are one for each sub-chunk, in order. -/
theorem completeAll_sent {i : Nat}
    (ok : (completeAll process port request i merged subChunks).2 = .ok merged') :
    (completeAll process port request i merged subChunks).1 = subChunks.map request := by
  induction subChunks generalizing i merged with
  | nil => rfl
  | cons subChunk rest ih =>
      rw [completeAll] at ok ⊢
      cases step : port i >>= merged.absorb process with
      | error e =>
          rw [step] at ok
          cases ok
      | ok next =>
          rw [step] at ok
          rw [List.map_cons, ← ih ok]

end Webfang.Llm
