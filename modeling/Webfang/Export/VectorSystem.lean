import Webfang.Lib.Execution
import Webfang.Export.VectorAppend

/-!
# Runs of exporters on one vector file

Any number of exporters append to one path, one call after another.  A successful call on a
file whose scan window starts on a character adds exactly its documents; from no file on, such
calls keep the file a JSON object with all exported documents and their count.
-/

namespace Webfang

open Utf8 (encode encode_append)
open StepSystem

section Calls

variable {δ ε : Type} (codec : VectorCodec δ ε)

/-! ## The documents of one call -/

/-- The dimensions known after a document, and the document that is written for it: one whose
embeddings differ from the known dimensions is written without them. -/
def exportedForm (dimensions : Option Nat) (document : δ) : Option Nat × δ :=
  match codec.embeddings document with
  | none => (dimensions, document)
  | some embeddings =>
      match dimensions with
      | some expected =>
          if embeddings.length ≠ expected then (dimensions, codec.withoutEmbeddings document)
          else (dimensions, document)
      | none => (some embeddings.length, document)

/-- The same for the documents of a call, in order. -/
def exportedForms : Option Nat → List δ → Option Nat × List δ
  | dimensions, [] => (dimensions, [])
  | dimensions, document :: documents =>
      let form := exportedForm codec dimensions document
      let forms := exportedForms form.1 documents
      (forms.1, form.2 :: forms.2)

theorem length_exportedForms (dimensions : Option Nat) (documents : List δ) :
    (exportedForms codec dimensions documents).2.length = documents.length := by
  induction documents generalizing dimensions with
  | nil => rfl
  | cons document documents ih =>
      rw [exportedForms, List.length_cons, List.length_cons, ih]

theorem exportedForm_some (d : Nat) (document : δ) :
    (exportedForm codec (some d) document).1 = some d := by
  unfold exportedForm
  cases codec.embeddings document with
  | none => rfl
  | some embeddings =>
      dsimp only
      split <;> rfl

/-- Dimensions that are known stay as they are. -/
theorem exportedForms_some (d : Nat) (documents : List δ) :
    (exportedForms codec (some d) documents).1 = some d := by
  induction documents with
  | nil => rfl
  | cons document documents ih =>
      rw [exportedForms]
      dsimp only
      rw [exportedForm_some]
      exact ih

/-- The text `serde_json` gives for a document. -/
def VectorCodec.Writes (document : δ) (text : List Char) : Prop :=
  codec.toJson document = .ok text

theorem mapError_eq_ok {α β γ : Type} {e : Except α γ} {f : α → β} {c : γ}
    (ok : e.mapError f = .ok c) : e = .ok c := by
  cases e with
  | error a => cases ok
  | ok c' => cases ok; rfl

theorem writes_of_map {document : δ} {serialized : List UInt8}
    (ok : (codec.toJson document).map encode = .ok serialized) :
    ∃ text, codec.Writes document text ∧ serialized = encode text := by
  unfold VectorCodec.Writes
  cases written : codec.toJson document with
  | error e =>
      rw [written] at ok
      cases ok
  | ok text =>
      rw [written] at ok
      cases ok
      exact ⟨text, rfl, rfl⟩

theorem serializeDocument_ok {dimensions known : Option Nat} {document : δ}
    {serialized : List UInt8}
    (ok : serializeDocument codec dimensions document = (known, .ok serialized)) :
    known = (exportedForm codec dimensions document).1 ∧
      ∃ text, codec.Writes (exportedForm codec dimensions document).2 text ∧
        serialized = encode text := by
  unfold serializeDocument at ok
  unfold exportedForm
  cases embedded : codec.embeddings document with
  | none =>
      rw [embedded] at ok
      obtain ⟨rfl, written⟩ := Prod.mk.inj ok
      exact ⟨rfl, writes_of_map codec (mapError_eq_ok written)⟩
  | some embeddings =>
      rw [embedded] at ok
      dsimp only at ok ⊢
      have finite {serialized : List UInt8} (ok : (if embeddings.any (!codec.isFinite ·) then
          .error (.writeError "embeddings contain NaN or Infinity")
        else ((codec.toJson document).map encode).mapError ExporterError.serialization) =
          .ok serialized) : ∃ text, codec.Writes document text ∧ serialized = encode text := by
        split at ok
        · cases ok
        · exact writes_of_map codec (mapError_eq_ok ok)
      cases dimensions with
      | none =>
          obtain ⟨rfl, written⟩ := Prod.mk.inj ok
          exact ⟨rfl, finite written⟩
      | some expected =>
          dsimp only at ok ⊢
          split at ok
          · rename_i mismatch
            obtain ⟨rfl, written⟩ := Prod.mk.inj ok
            rw [if_pos mismatch]
            exact ⟨rfl, writes_of_map codec (mapError_eq_ok written)⟩
          · rename_i agree
            obtain ⟨rfl, written⟩ := Prod.mk.inj ok
            rw [if_neg agree]
            exact ⟨rfl, finite written⟩

/-- The lines of a call: the first document of a file has no comma before it. -/
def callLines : Bool → List (List Char) → List Char
  | true, [] => []
  | true, text :: texts => documentLines text texts
  | false, texts => texts.flatMap fun text => ',' :: (text ++ ['\n'])

theorem encode_callLines_cons (first : Bool) (text : List Char) (texts : List (List Char)) :
    encode (callLines first (text :: texts)) =
      (if first then [] else bytesOf ",") ++ encode text ++ bytesOf "\n" ++
        encode (callLines false texts) := by
  have newline : encode ['\n'] = bytesOf "\n" := rfl
  have comma : encode [','] = bytesOf "," := rfl
  rw [← newline, ← comma]
  cases first with
  | true =>
      rw [callLines, documentLines, ← List.singleton_append (x := '\n'), encode_append,
        encode_append, callLines]
      simp
  | false =>
      rw [callLines, callLines, List.flatMap_cons, encode_append,
        ← List.singleton_append (x := ','), encode_append, encode_append]
      simp

theorem writeDocuments_ok {first : Bool} {dimensions known : Option Nat} {documents : List δ}
    {file written : List UInt8}
    (ok : writeDocuments codec first dimensions file documents = (.ok (), known, written)) :
    known = (exportedForms codec dimensions documents).1 ∧
      ∃ texts, List.Forall₂ codec.Writes (exportedForms codec dimensions documents).2 texts ∧
        written = file ++ encode (callLines first texts) := by
  induction documents generalizing first dimensions file with
  | nil =>
      rw [writeDocuments] at ok
      cases ok
      refine ⟨rfl, [], .nil, ?_⟩
      cases first <;> exact (List.append_nil _).symm
  | cons document documents ih =>
      rw [writeDocuments] at ok
      split at ok
      · cases ok
      · rename_i learned serialized serializes
        obtain ⟨rfl, text, here, rfl⟩ := serializeDocument_ok codec serializes
        obtain ⟨rfl, texts, later, rfl⟩ := ih ok
        refine ⟨rfl, text :: texts, .cons here later, ?_⟩
        rw [encode_callLines_cons]
        cases first <;> simp

/-! ## One successful call -/

/-- The texts of a vector file's documents. -/
def VectorFile.texts (v : VectorFile) : List (List Char) := v.first :: v.rest

theorem documentLines_append (first : List Char) (rest more : List (List Char)) :
    documentLines first (rest ++ more) = documentLines first rest ++ callLines false more := by
  simp [documentLines, callLines]

theorem closeJson_known {d total : Nat} {file closed : List UInt8}
    (ok : closeJson (some d) file total = (.ok (), closed)) :
    (dimensionsJson (some d)).length ≤ dimFieldWidth := by
  unfold closeJson at ok
  dsimp only at ok
  split at ok
  · cases ok
  · split at ok
    · cases ok
    · rename_i patched second
      unfold patchHeaderField at second
      split at second
      · cases second
      · rename_i width
        rw [ne_eq, not_not, show padLeft dimFieldWidth (Json.ofNat d) =
          padLeft dimFieldWidth (dimensionsJson (some d)) from rfl,
          length_encode_window (isWindowChar_of_mem_dimWindow (some d))] at width
        exact padLeft_fits width

variable {createdAt : Timestamp} {known : Option Nat} {documents : List δ}

/-- A successful call learns what its documents teach. -/
theorem exportBatch_dimensions {path : Option (List UInt8)}
    (ok : (exportBatch codec true createdAt known path documents).answer = .ok ()) :
    (exportBatch codec true createdAt known path documents).dimensions =
      (exportedForms codec known documents).1 := by
  unfold exportBatch at ok ⊢
  split at ok
  · rename_i empty
    rw [if_pos empty, List.isEmpty_iff.mp empty]
    rfl
  · rename_i some_documents
    rw [if_neg some_documents]
    split at ok
    · cases ok
    · split at ok
      · cases ok
      · rename_i learned written wrote
        exact (writeDocuments_ok codec wrote).1

/-- What a successful call leaves where its writer cut the file at `tail`. -/
theorem exportBatch_tail {v : VectorFile} {file : List UInt8} {tail : List Char}
    (cut : vectorWriter true (some file) = encode (v.opened ++ tail))
    (some_documents : documents.isEmpty = false)
    (ok : (exportBatch codec true createdAt known (some file) documents).answer = .ok ()) :
    ∃ texts, List.Forall₂ codec.Writes (exportedForms codec known documents).2 texts ∧
      (Json.ofNat (v.count + documents.length)).length ≤ countFieldWidth ∧
      (dimensionsJson ((exportedForms codec known documents).1.or v.dimensions)).length ≤
        dimFieldWidth ∧
      (exportBatch codec true createdAt known (some file) documents).path = some (encode
        (layoutHeader ((exportedForms codec known documents).1.or v.dimensions)
          (v.count + documents.length) v.createdAt ++ (documentLines v.first v.rest ++
            (tail ++ (callLines false texts ++ "]\x7d\n".toList))))) := by
  unfold exportBatch at ok ⊢
  rw [some_documents, openVectorFile_tail codec createdAt known cut] at ok ⊢
  simp only [Bool.false_eq_true, if_false] at ok ⊢
  split at ok
  · cases ok
  · rename_i learned written wrote
    obtain ⟨rfl, texts, forms, rfl⟩ := writeDocuments_ok codec wrote
    obtain ⟨closing, closed⟩ : ∃ closed, closeJson (exportedForms codec known documents).1
        (encode (v.opened ++ tail) ++ encode (callLines false texts))
          (v.count + documents.length) = (.ok (), closed) := ⟨_, Prod.ext ok rfl⟩
    dsimp only
    rw [closed]
    rw [← encode_append, VectorFile.opened, List.append_assoc, List.append_assoc] at closed
    obtain ⟨countFits, dimensionsFit, rfl⟩ := closeJson_ok v.dimensions_fit
      (isWindowChar_of_mem_countWindow v.count) (length_padLeft_of_le v.count_fits) closed
    refine ⟨texts, forms, countFits, dimensionsFit, ?_⟩
    unfold layoutHeader
    simp only [List.append_assoc]

/-- A successful call on a vector file adds its documents behind the ones it holds. -/
theorem exportBatch_bytes {v : VectorFile} (boundary : OnBoundary v.bytes)
    (some_documents : documents.isEmpty = false)
    (ok : (exportBatch codec true createdAt known (some v.bytes) documents).answer = .ok ()) :
    ∃ after : VectorFile, ∃ texts,
      (exportBatch codec true createdAt known (some v.bytes) documents).path = some after.bytes ∧
        after.texts = v.texts ++ texts ∧
        List.Forall₂ codec.Writes (exportedForms codec known documents).2 texts ∧
        after.dimensions = (exportedForms codec known documents).1.or v.dimensions := by
  have cut : vectorWriter true (some v.bytes) = encode (v.opened ++ []) := by
    rw [List.append_nil]
    exact vectorWriter_of_onBoundary boundary
  obtain ⟨texts, forms, countFits, dimensionsFit, left⟩ :=
    exportBatch_tail codec cut some_documents ok
  have counted : v.count + documents.length = (v.rest ++ texts).length + 1 := by
    rw [← length_exportedForms codec known documents, forms.length_eq, List.length_append,
      VectorFile.count]
    omega
  rw [counted] at countFits left
  refine ⟨⟨_, v.createdAt, v.first, v.rest ++ texts, dimensionsFit, countFits⟩, texts, ?_, rfl,
    forms, rfl⟩
  rw [left]
  unfold VectorFile.bytes VectorFile.text
  rw [VectorFile.opened_eq, documentLines_append, List.append_assoc, List.append_assoc]
  rfl

/-- A successful call on a new file leaves a vector file of its documents. -/
theorem exportBatch_new {path : Option (List UInt8)} (new : path.getD [] = [])
    (some_documents : documents.isEmpty = false)
    (ok : (exportBatch codec true createdAt known path documents).answer = .ok ()) :
    ∃ after : VectorFile,
      (exportBatch codec true createdAt known path documents).path = some after.bytes ∧
        List.Forall₂ codec.Writes (exportedForms codec known documents).2 after.texts ∧
        after.dimensions = (exportedForms codec known documents).1.or known := by
  unfold exportBatch at ok ⊢
  rw [some_documents, openVectorFile_new codec createdAt known new] at ok ⊢
  simp only [Bool.false_eq_true, if_false] at ok ⊢
  split at ok
  · cases ok
  · rename_i learned written wrote
    obtain ⟨rfl, texts, forms, rfl⟩ := writeDocuments_ok codec wrote
    obtain ⟨closing, closed⟩ : ∃ closed, closeJson (exportedForms codec known documents).1
        (buildHeaderLine known createdAt.text ++ encode (callLines true texts))
          (0 + documents.length) = (.ok (), closed) := ⟨_, Prod.ext ok rfl⟩
    have fits : (dimensionsJson known).length ≤ dimFieldWidth := by
      cases known with
      | none => decide
      | some d =>
          rw [exportedForms_some] at closed
          exact closeJson_known closed
    cases texts with
    | nil =>
        have none : documents.length = 0 := by
          rw [← length_exportedForms codec known documents, forms.length_eq]
          rfl
        rw [List.length_eq_zero_iff.mp none] at some_documents
        cases some_documents
    | cons text texts =>
        have counted : 0 + documents.length = texts.length + 1 := by
          rw [← length_exportedForms codec known documents, forms.length_eq]
          simp
        dsimp only
        rw [closed]
        rw [buildHeaderLine, ← encode_append] at closed
        obtain ⟨countFits, dimensionsFit, rfl⟩ := closeJson_ok fits
          (isWindowChar_of_mem_countWindow 0) (by decide) closed
        rw [counted] at countFits ⊢
        refine ⟨⟨_, createdAt, text, texts, dimensionsFit, countFits⟩, ?_, forms, rfl⟩
        unfold VectorFile.bytes VectorFile.text VectorFile.opened VectorFile.count
        rw [List.append_assoc]
        rfl

/-- A successful call with one document is a successful call with a batch of one. -/
theorem exportDocument_eq_exportBatch {path : Option (List UInt8)} {document : δ}
    (ok : (exportDocument codec true createdAt known path document).answer = .ok ()) :
    exportBatch codec true createdAt known path [document] =
      exportDocument codec true createdAt known path document := by
  unfold exportDocument exportBatch at *
  simp only [List.isEmpty_cons, Bool.false_eq_true, if_false] at *
  split at ok
  · cases ok
  · rename_i first existing file opened
    split at ok
    · cases ok
    · rename_i learned serialized serializes
      rw [writeDocuments]
      rw [serializes]
      rfl

end Calls

/-! ## Runs -/

/-- A call of an exporter. -/
inductive VectorCall (δ : Type) where
  | exportOne (document : δ)
  | exportMany (documents : List δ)

/-- One exporter makes one call at one time. -/
structure VectorAction (δ : Type) where
  exporter : Nat
  createdAt : Timestamp
  call : VectorCall δ

/-- The path, what each exporter knows, and the documents handed to the file so far. -/
structure VectorStore (δ : Type) where
  path : Option (List UInt8)
  dimensions : Nat → Option Nat
  exported : List δ

section Runs

variable {δ ε : Type}

def VectorCall.documents : VectorCall δ → List δ
  | .exportOne document => [document]
  | .exportMany documents => documents

variable (codec : VectorCodec δ ε)

/-- What the call does in append mode. -/
def VectorCall.run (createdAt : Timestamp) (known : Option Nat) (path : Option (List UInt8)) :
    VectorCall δ → VectorOutcome
  | .exportOne document => exportDocument codec true createdAt known path document
  | .exportMany documents => exportBatch codec true createdAt known path documents

/-- Successful calls only: a call that fails refuses the run. -/
def vectorStep (s : VectorStore δ) (a : VectorAction δ) : Option (VectorStore δ) :=
  let known := s.dimensions a.exporter
  let outcome := a.call.run codec a.createdAt known s.path
  match outcome.answer with
  | .error _ => none
  | .ok () => some
      { path := outcome.path
        dimensions := fun i => if i = a.exporter then outcome.dimensions else s.dimensions i
        exported := s.exported ++ (exportedForms codec known a.call.documents).2 }

/-- No file, and exporters that know nothing yet. -/
def VectorStore.start : VectorStore δ := ⟨none, fun _ => none, []⟩

/-- The append of this step starts its scan window on a character. -/
def ScansOnBoundary (s : VectorStore δ) (a : VectorAction δ) : Prop :=
  a.call.documents.isEmpty = false → ∀ file ∈ s.path, OnBoundary file

instance (s : VectorStore δ) (a : VectorAction δ) : Decidable (ScansOnBoundary s a) :=
  inferInstanceAs (Decidable (_ → ∀ file ∈ s.path, OnBoundary file))

/-- The append of this step keeps all of the file but its closing line. -/
def CutsClosingLine (s : VectorStore δ) (a : VectorAction δ) : Prop :=
  a.call.documents.isEmpty = false → ∀ file ∈ s.path,
    vectorWriter true (some file) ++ bytesOf "]\x7d\n" = file

/-- The file is a JSON object: its documents are these, in order, and it counts them. -/
def HoldsDocuments (file : List UInt8) (documents : List δ) : Prop :=
  ∃ text members values, file = encode text ∧ Json.parse text = some (.object members) ∧
    members.lookup "documents".toList = some (.array values) ∧
    List.Forall₂ (fun document value => ∃ text, codec.Writes document text ∧
      Json.parse text = some value) documents values ∧
    (members.lookup "total_documents".toList).bind Json.Value.nat? = some documents.length

/-- The store holds a vector file of what was exported, or nothing yet. -/
def VectorStore.Sound (s : VectorStore δ) : Prop :=
  (s.path = none ∧ s.exported = []) ∨
    ∃ v : VectorFile, s.path = some v.bytes ∧ List.Forall₂ codec.Writes s.exported v.texts

variable {codec}

theorem exportBatch_of_run {createdAt : Timestamp} {known : Option Nat}
    {path : Option (List UInt8)} {call : VectorCall δ}
    (ok : (call.run codec createdAt known path).answer = .ok ()) :
    call.run codec createdAt known path =
      exportBatch codec true createdAt known path call.documents := by
  cases call with
  | exportOne document => exact (exportDocument_eq_exportBatch codec ok).symm
  | exportMany documents => rfl

/-- A step is a successful batch, and adds its documents to the exported ones. -/
theorem vectorStep_cases {s t : VectorStore δ} {a : VectorAction δ}
    (step : vectorStep codec s a = some t) :
    (exportBatch codec true a.createdAt (s.dimensions a.exporter) s.path
        a.call.documents).answer = .ok () ∧
      t.path = (exportBatch codec true a.createdAt (s.dimensions a.exporter) s.path
        a.call.documents).path ∧
      t.exported = s.exported ++
        (exportedForms codec (s.dimensions a.exporter) a.call.documents).2 := by
  unfold vectorStep at step
  dsimp only at step
  split at step
  · cases step
  · rename_i ok
    cases step
    rw [← exportBatch_of_run ok]
    exact ⟨ok, rfl, rfl⟩

theorem sound_of_vectorStep {s t : VectorStore δ} {a : VectorAction δ} (sound : s.Sound codec)
    (boundary : ScansOnBoundary s a) (step : vectorStep codec s a = some t) : t.Sound codec := by
  obtain ⟨ok, path, exported⟩ := vectorStep_cases step
  cases empty : a.call.documents.isEmpty with
  | true =>
      rw [List.isEmpty_iff.mp empty] at path exported
      rw [exportedForms, List.append_nil] at exported
      unfold VectorStore.Sound
      rw [path, exported]
      exact sound
  | false =>
      rcases sound with ⟨absent, fresh⟩ | ⟨v, held, written⟩
      · obtain ⟨after, left, forms, -⟩ := exportBatch_new codec (by rw [absent]; rfl) empty ok
        refine .inr ⟨after, path.trans left, ?_⟩
        rw [exported, fresh, List.nil_append]
        exact forms
      · rw [held] at ok path
        obtain ⟨after, texts, left, added, forms, -⟩ :=
          exportBatch_bytes codec (boundary empty _ held) empty ok
        refine .inr ⟨after, path.trans left, ?_⟩
        rw [exported, added]
        exact List.rel_append written forms

theorem holdsDocuments_bytes {v : VectorFile} {documents : List δ}
    (readable : ∀ document text, codec.Writes document text →
      ∃ value, Json.parse text = some value)
    (written : List.Forall₂ codec.Writes documents v.texts) :
    HoldsDocuments codec v.bytes documents := by
  obtain ⟨values, parsed, paired⟩ : ∃ values,
      List.Forall₂ (fun text value => Json.parse text = some value) v.texts values ∧
        List.Forall₂ (fun document value => ∃ text, codec.Writes document text ∧
          Json.parse text = some value) documents values := by
    generalize v.texts = texts at written
    induction written with
    | nil => exact ⟨[], .nil, .nil⟩
    | cons here later ih =>
        obtain ⟨values, parsed, paired⟩ := ih
        obtain ⟨value, read⟩ := readable _ _ here
        exact ⟨value :: values, .cons read parsed, .cons ⟨_, here, read⟩ paired⟩
  have count : v.count = documents.length := by
    rw [written.length_eq]
    rfl
  refine ⟨v.text, v.members values, values, rfl, v.parse_text parsed, rfl, paired, ?_⟩
  rw [← count]
  exact Json.nat?_ofNat v.count

theorem cutsClosingLine_of_sound {s : VectorStore δ} {a : VectorAction δ}
    (sound : s.Sound codec) (boundary : ScansOnBoundary s a) : CutsClosingLine s a := by
  intro documents file held
  rcases sound with ⟨absent, -⟩ | ⟨v, found, -⟩
  · rw [absent] at held
    cases held
  · rw [found] at held
    cases held
    unfold VectorFile.bytes VectorFile.text
    rw [vectorWriter_of_onBoundary (boundary documents _ found), encode_append]
    rfl

/-- Runs whose appends all scan from a character on keep the file the object of all exported
documents, and every append cuts exactly the closing line off. -/
theorem vector_file_holds_exported
    (readable : ∀ document text, codec.Writes document text →
      ∃ value, Json.parse text = some value)
    {as : List (VectorAction δ)} {t : VectorStore δ}
    (run : execute (vectorStep codec) .start as = some t)
    (boundary : Along (vectorStep codec) ScansOnBoundary .start as) :
    Along (vectorStep codec) CutsClosingLine .start as ∧
      ((t.path = none ∧ t.exported = []) ∨
        ∃ file, t.path = some file ∧ HoldsDocuments codec file t.exported) := by
  have start : (VectorStore.start (δ := δ)).Sound codec := .inl ⟨rfl, rfl⟩
  refine ⟨boundary.of_invariant (I := VectorStore.Sound codec)
    (fun _ _ _ sound here step => sound_of_vectorStep sound here step)
    (fun _ _ sound here => cutsClosingLine_of_sound sound here) start, ?_⟩
  have sound : t.Sound codec := execute_invariant_along
    (fun _ _ _ sound here step => sound_of_vectorStep sound here step) run boundary start
  rcases sound with none | ⟨v, held, written⟩
  · exact .inl none
  · exact .inr ⟨v.bytes, held, holdsDocuments_bytes readable written⟩

end Runs

/-! ## Two documents -/

/-- A document of plain ASCII text and one whose text fills a scan window with four-byte
characters. -/
inductive SampleDocument where
  | plain
  | accented

/-- The text of a sample document as a JSON object. -/
def SampleDocument.json : SampleDocument → List Char
  | .plain => "\x7b\"url\":\"https://site.test/a\",\"title\":\"A\",\"content\":\"[1]\"\x7d".toList
  | .accented => "\x7b\"url\":\"https://site.test/b\",\"title\":\"B\",\"content\":\"".toList ++
      List.replicate 64 '😀' ++ "\"\x7d".toList

/-- Documents without embeddings. -/
def sampleCodec : VectorCodec SampleDocument Unit where
  embeddings _ := none
  withoutEmbeddings document := document
  isFinite _ := true
  toJson document := .ok document.json
  debugStr text := text

def sampleTime : Timestamp :=
  ⟨"2026-01-01T00:00:00Z".toList, List.all_eq_true.mp (by decide)⟩

/-- Exporter number `exporter` appends one document. -/
def sampleExport (exporter : Nat) (document : SampleDocument) : VectorAction SampleDocument :=
  ⟨exporter, sampleTime, .exportOne document⟩

theorem sample_readable (document : SampleDocument) (text : List Char)
    (written : sampleCodec.Writes document text) : ∃ value, Json.parse text = some value := by
  have read : (Json.parse document.json).isSome = true := by
    cases document <;> decide +kernel
  rw [show document.json = text from Except.ok.inj written] at read
  exact Option.isSome_iff_exists.mp read

/-- Another exporter appends behind a batch of plain documents. -/
def plainRun : List (VectorAction SampleDocument) :=
  [⟨0, sampleTime, .exportMany [.plain, .plain]⟩, sampleExport 1 .plain]

theorem vector_file_holds_plain_run : ∃ t, execute (vectorStep sampleCodec) .start plainRun = some t ∧
    (Along (vectorStep sampleCodec) CutsClosingLine .start plainRun ∧
      ((t.path = none ∧ t.exported = []) ∨
        ∃ file, t.path = some file ∧ HoldsDocuments sampleCodec file t.exported)) := by
  have succeeds : (execute (vectorStep sampleCodec) .start plainRun).isSome = true := by
    decide +kernel
  obtain ⟨t, run⟩ := Option.isSome_iff_exists.mp succeeds
  exact ⟨t, run, vector_file_holds_exported sample_readable run (by decide +kernel)⟩

/-- What a file of documents decodes to is JSON. -/
theorem parse_of_holdsDocuments {δ ε : Type} {codec : VectorCodec δ ε} {file : List UInt8}
    {documents : List δ} (holds : HoldsDocuments codec file documents) :
    ((Utf8.decode file).bind Json.parse).isSome = true := by
  obtain ⟨text, members, values, rfl, parsed, -⟩ := holds
  rw [Utf8.decode_encode, Option.bind_some, parsed]
  rfl

/-- The second append scans from inside a character, cuts behind the end of the object and
leaves a file that is no JSON. -/
theorem append_inside_character_breaks_file :
    (∀ document text, sampleCodec.Writes document text → ∃ value, Json.parse text = some value) ∧
      ∃ t, execute (vectorStep sampleCodec) .start
          [sampleExport 0 .accented, sampleExport 1 .plain] = some t ∧
        ¬ ((t.path = none ∧ t.exported = []) ∨
          ∃ file, t.path = some file ∧ HoldsDocuments sampleCodec file t.exported) := by
  refine ⟨sample_readable, ?_⟩
  have broken : (execute (vectorStep sampleCodec) .start
      [sampleExport 0 .accented, sampleExport 1 .plain]).any (fun t => t.path.any fun file =>
        ((Utf8.decode file).bind Json.parse).isNone) = true := by
    decide +kernel
  obtain ⟨t, run, unreadable⟩ := Option.any_eq_true _ _ |>.mp broken
  obtain ⟨file, held, unreadable⟩ := Option.any_eq_true _ _ |>.mp unreadable
  refine ⟨t, run, ?_⟩
  rintro (⟨absent, -⟩ | ⟨file', held', holds⟩)
  · rw [absent] at held
    cases held
  · rw [held] at held'
    cases held'
    have readable := parse_of_holdsDocuments holds
    rw [Option.isNone_iff_eq_none.mp unreadable] at readable
    cases readable

end Webfang
