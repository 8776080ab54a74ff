import Webfang.Export.VectorFailure

/-!
# The dimensions of a vector file

An exporter learns its dimensions from the first embedding it writes and knows nothing of the
file's.  The lengths of a file agree with its header just as long as each exporter that learns
one behind a header with dimensions learns these.
-/

namespace Webfang

open Utf8 (encode encode_append)
open StepSystem

/-! ## Lengths in a file -/

/-- The number of components a document's JSON carries. -/
def embeddingLength : Json.Value → Option Nat
  | .object members =>
      match members.lookup "embeddings".toList with
      | some (.array components) => some components.length
      | _ => none
  | _ => none

/-- The dimensions of a file's header. -/
def headerDimensions (file : List UInt8) : Option Nat :=
  match readJson file with
  | some (.object members) => (members.lookup "dimensions".toList).bind Json.Value.nat?
  | _ => none

/-- The file is JSON, and each of its documents that carries embeddings has as many components as
the header says. -/
def DimensionsAgree (file : List UInt8) : Prop :=
  ∃ members values, readJson file = some (.object members) ∧
    members.lookup "documents".toList = some (.array values) ∧
    ∀ value ∈ values, ∀ n, embeddingLength value = some n → headerDimensions file = some n

section Dimensions

variable {δ ε : Type} (codec : VectorCodec δ ε)

/-- The number of components of the first embedding of these documents. -/
def firstLength (documents : List δ) : Option Nat :=
  (documents.findSome? codec.embeddings).map List.length

/-- A call on the path, whatever it answers. -/
def callStep (s : VectorStore δ) (a : VectorAction δ) : Option (VectorStore δ) :=
  let known := s.dimensions a.exporter
  let outcome := a.call.run codec a.createdAt known s.path
  some
    { path := outcome.path
      dimensions := fun i => if i = a.exporter then outcome.dimensions else s.dimensions i
      exported := match outcome.answer with
        | .ok () => s.exported ++ (exportedForms codec known a.call.documents).2
        | .error _ => s.exported }

/-- The call answers Ok. -/
def Answers (s : VectorStore δ) (a : VectorAction δ) : Prop :=
  (a.call.run codec a.createdAt (s.dimensions a.exporter) s.path).answer = .ok ()

instance (s : VectorStore δ) (a : VectorAction δ) : Decidable (Answers codec s a) :=
  match answer : (a.call.run codec a.createdAt (s.dimensions a.exporter) s.path).answer with
  | .ok () => .isTrue answer
  | .error _ => .isFalse fun ok => by cases answer.symm.trans ok

/-- An exporter that knows no dimensions yet learns those of the header, if it has any. -/
def LearnsHeader (s : VectorStore δ) (a : VectorAction δ) : Prop :=
  s.dimensions a.exporter = none → ∀ n ∈ firstLength codec a.call.documents,
    ∀ file ∈ s.path, ∀ m ∈ headerDimensions file, m = n

instance (s : VectorStore δ) (a : VectorAction δ) : Decidable (LearnsHeader codec s a) :=
  inferInstanceAs (Decidable (_ → ∀ n ∈ firstLength codec a.call.documents,
    ∀ file ∈ s.path, ∀ m ∈ headerDimensions file, m = n))

/-! ## What is written with embeddings -/

/-- One of the documents carries this many components. -/
def Holds (documents : List δ) (n : Nat) : Prop :=
  ∃ document ∈ documents, ∃ embeddings, codec.embeddings document = some embeddings ∧
    embeddings.length = n

/-- Each of the documents that carries embeddings has this many components. -/
def OfLength (documents : List δ) (dimensions : Option Nat) : Prop :=
  ∀ document ∈ documents, ∀ embeddings, codec.embeddings document = some embeddings →
    dimensions = some embeddings.length

variable {codec}

theorem Holds.append {documents : List δ} {n : Nat} (held : Holds codec documents n)
    (more : List δ) : Holds codec (documents ++ more) n := by
  obtain ⟨document, member, rest⟩ := held
  exact ⟨document, List.mem_append_left _ member, rest⟩

theorem Holds.behind {documents : List δ} {n : Nat} (held : Holds codec documents n)
    (before : List δ) : Holds codec (before ++ documents) n := by
  obtain ⟨document, member, rest⟩ := held
  exact ⟨document, List.mem_append_right _ member, rest⟩

theorem ofLength_append {documents more : List δ} {dimensions : Option Nat} :
    OfLength codec (documents ++ more) dimensions ↔
      OfLength codec documents dimensions ∧ OfLength codec more dimensions := by
  unfold OfLength
  constructor
  · intro all
    exact ⟨fun document member => all document (List.mem_append_left _ member),
      fun document member => all document (List.mem_append_right _ member)⟩
  · intro ⟨left, right⟩ document member
    rcases List.mem_append.mp member with inLeft | inRight
    · exact left document inLeft
    · exact right document inRight

theorem OfLength.of_holds {documents : List δ} {dimensions : Option Nat} {n : Nat}
    (all : OfLength codec documents dimensions) (held : Holds codec documents n) :
    dimensions = some n := by
  obtain ⟨document, member, embeddings, carries, rfl⟩ := held
  exact all document member embeddings carries

theorem ofLength_nil (dimensions : Option Nat) : OfLength codec ([] : List δ) dimensions :=
  fun _ member => absurd member List.not_mem_nil

theorem ofLength_cons {document : δ} {documents : List δ} {dimensions : Option Nat} :
    OfLength codec (document :: documents) dimensions ↔
      (∀ embeddings, codec.embeddings document = some embeddings →
        dimensions = some embeddings.length) ∧ OfLength codec documents dimensions :=
  List.forall_mem_cons

section Forms

variable (cleared : ∀ document, codec.embeddings (codec.withoutEmbeddings document) = none)

include cleared in
/-- What an exporter with known dimensions writes has these, or no embeddings. -/
theorem length_of_exportedForm (d : Nat) (document : δ) :
    ∀ embeddings, codec.embeddings (exportedForm codec (some d) document).2 = some embeddings →
      some d = some embeddings.length := by
  intro written carries
  unfold exportedForm at carries
  cases embedded : codec.embeddings document with
  | none =>
      rw [embedded] at carries
      cases embedded.symm.trans carries
  | some embeddings =>
      rw [embedded] at carries
      dsimp only at carries
      split at carries
      · rw [cleared] at carries
        cases carries
      · rename_i same
        have written_eq := Option.some.inj (embedded.symm.trans carries)
        rw [← written_eq, not_not.mp same]

include cleared in
theorem ofLength_exportedForms (d : Nat) (documents : List δ) :
    OfLength codec (exportedForms codec (some d) documents).2 (some d) := by
  induction documents with
  | nil => exact ofLength_nil _
  | cons document documents ih =>
      rw [exportedForms]
      dsimp only
      rw [exportedForm_some]
      exact ofLength_cons.mpr ⟨length_of_exportedForm cleared d document, ih⟩

/-- Documents without embeddings teach nothing and are written as they are. -/
theorem exportedForms_of_none {documents : List δ}
    (bare : firstLength codec documents = none) :
    (exportedForms codec none documents).1 = none ∧
      ∀ dimensions, OfLength codec (exportedForms codec none documents).2 dimensions := by
  unfold firstLength at bare
  rw [Option.map_eq_none_iff, List.findSome?_eq_none_iff] at bare
  induction documents with
  | nil => exact ⟨rfl, ofLength_nil⟩
  | cons document documents ih =>
      obtain ⟨here, later⟩ := List.forall_mem_cons.mp bare
      obtain ⟨learned, written⟩ := ih later
      have form : exportedForm codec none document = (none, document) := by
        unfold exportedForm
        rw [here]
      rw [exportedForms]
      dsimp only
      rw [form]
      refine ⟨learned, fun dimensions => ofLength_cons.mpr ⟨fun embeddings carries => ?_,
        written dimensions⟩⟩
      cases here.symm.trans carries

include cleared in
/-- The first embedding teaches its length; it is written, and all others have that length. -/
theorem exportedForms_of_some {documents : List δ} {n : Nat}
    (first : firstLength codec documents = some n) :
    (exportedForms codec none documents).1 = some n ∧
      OfLength codec (exportedForms codec none documents).2 (some n) ∧
      Holds codec (exportedForms codec none documents).2 n := by
  unfold firstLength at first
  induction documents with
  | nil => cases first
  | cons document documents ih =>
      rw [exportedForms]
      dsimp only
      cases embedded : codec.embeddings document with
      | none =>
          rw [List.findSome?_cons, embedded] at first
          have form : exportedForm codec none document = (none, document) := by
            unfold exportedForm
            rw [embedded]
          obtain ⟨learned, all, other, member, carried⟩ := ih first
          rw [form]
          refine ⟨learned, ofLength_cons.mpr ⟨fun embeddings carries => ?_, all⟩, other,
            List.mem_cons_of_mem _ member, carried⟩
          cases embedded.symm.trans carries
      | some embeddings =>
          rw [List.findSome?_cons, embedded] at first
          cases first
          have form : exportedForm codec none document = (some embeddings.length, document) := by
            unfold exportedForm
            rw [embedded]
          rw [form]
          refine ⟨exportedForms_some codec _ documents, ofLength_cons.mpr ⟨fun written carries => ?_,
            ofLength_exportedForms cleared _ documents⟩, document, List.mem_cons_self, embeddings,
            embedded, rfl⟩
          rw [Option.some.inj (embedded.symm.trans carries)]

end Forms

/-! ## A file and its documents -/

/-- What `serde_json` writes is JSON and carries the embeddings of the document. -/
def ShowsEmbeddings (codec : VectorCodec δ ε) : Prop :=
  ∀ document text, codec.Writes document text → ∃ value, Json.parse text = some value ∧
    embeddingLength value = (codec.embeddings document).map List.length

theorem headerDimensions_of_members {file : List UInt8} {v : VectorFile}
    {values : List Json.Value} (read : readJson file = some (.object (v.members values))) :
    headerDimensions file = v.dimensions := by
  unfold headerDimensions
  rw [read]
  unfold VectorFile.members
  cases v.dimensions with
  | none => rfl
  | some d => exact Json.nat?_ofNat d

/-- A vector file is JSON; its values carry what its documents carry. -/
theorem readJson_of_written (shows : ShowsEmbeddings codec) {v : VectorFile} {documents : List δ}
    (written : List.Forall₂ codec.Writes documents v.texts) :
    ∃ values, readJson v.bytes = some (.object (v.members values)) ∧
      List.Forall₂ (fun document value =>
        embeddingLength value = (codec.embeddings document).map List.length) documents values := by
  obtain ⟨values, parsed, carried⟩ : ∃ values,
      List.Forall₂ (fun text value => Json.parse text = some value) v.texts values ∧
        List.Forall₂ (fun document value => embeddingLength value =
          (codec.embeddings document).map List.length) documents values := by
    generalize v.texts = texts at written
    induction written with
    | nil => exact ⟨[], .nil, .nil⟩
    | cons here later ih =>
        obtain ⟨values, parsed, carried⟩ := ih
        obtain ⟨value, read, length⟩ := shows _ _ here
        exact ⟨value :: values, .cons read parsed, .cons length carried⟩
  exact ⟨values, (readJson_encode _).trans (v.parse_text parsed), carried⟩

/-- The lengths in a vector file agree where its documents have the header's. -/
theorem dimensionsAgree_bytes (shows : ShowsEmbeddings codec) {v : VectorFile} {documents : List δ}
    (written : List.Forall₂ codec.Writes documents v.texts) :
    DimensionsAgree v.bytes ↔ OfLength codec documents v.dimensions := by
  obtain ⟨values, read, carried⟩ := readJson_of_written shows written
  have header := headerDimensions_of_members read
  have same : (∀ value ∈ values, ∀ n, embeddingLength value = some n → v.dimensions = some n) ↔
      OfLength codec documents v.dimensions := by
    clear read written
    induction carried with
    | nil => exact iff_of_true (fun value member => absurd member List.not_mem_nil) (ofLength_nil _)
    | cons here later ih =>
        rw [ofLength_cons, ← ih, List.forall_mem_cons, here]
        refine and_congr_left' ?_
        simp
  rw [← same]
  unfold DimensionsAgree
  rw [header, read]
  constructor
  · intro agree
    obtain ⟨members, others, object, documents, all⟩ := agree
    cases object
    cases documents
    exact all
  · intro all
    exact ⟨_, values, rfl, rfl, all⟩

/-! ## Steps -/

/-- No file and exporters that know nothing; or a vector file of what was exported, in which
every length an exporter or the header has is that of some document. -/
def VectorStore.Measured (codec : VectorCodec δ ε) (s : VectorStore δ) : Prop :=
  (s.path = none ∧ s.exported = [] ∧ ∀ i, s.dimensions i = none) ∨
    ∃ v : VectorFile, s.path = some v.bytes ∧ List.Forall₂ codec.Writes s.exported v.texts ∧
      (∀ i, ∀ d ∈ s.dimensions i, Holds codec s.exported d) ∧
        ∀ d ∈ v.dimensions, Holds codec s.exported d

theorem callStep_cases {s t : VectorStore δ} {a : VectorAction δ} (answers : Answers codec s a)
    (step : callStep codec s a = some t) :
    (exportBatch codec true a.createdAt (s.dimensions a.exporter) s.path
        a.call.documents).answer = .ok () ∧
      t.path = (exportBatch codec true a.createdAt (s.dimensions a.exporter) s.path
        a.call.documents).path ∧
      t.exported = s.exported ++
        (exportedForms codec (s.dimensions a.exporter) a.call.documents).2 ∧
      t.dimensions = fun i => if i = a.exporter then
        (exportedForms codec (s.dimensions a.exporter) a.call.documents).1 else s.dimensions i := by
  have ok : (a.call.run codec a.createdAt (s.dimensions a.exporter) s.path).answer = .ok () := answers
  have successful : vectorStep codec s a = some t := by
    unfold callStep at step
    unfold vectorStep
    dsimp only at step ⊢
    rw [ok] at step ⊢
    exact step
  obtain ⟨answer, path, exported⟩ := vectorStep_cases successful
  refine ⟨answer, path, exported, ?_⟩
  cases step
  rw [← exportBatch_dimensions codec answer, exportBatch_of_run ok]

/-- A length that is known after a call was known before it or is that of a written document. -/
theorem known_or_holds (cleared : ∀ document, codec.embeddings (codec.withoutEmbeddings document) =
    none) {known : Option Nat} {documents : List δ} {d : Nat}
    (learned : (exportedForms codec known documents).1 = some d) :
    known = some d ∨ Holds codec (exportedForms codec known documents).2 d := by
  cases known with
  | some k =>
      rw [exportedForms_some] at learned
      exact .inl learned
  | none =>
      cases first : firstLength codec documents with
      | none =>
          rw [(exportedForms_of_none first).1] at learned
          cases learned
      | some n =>
          obtain ⟨same, -, holds⟩ := exportedForms_of_some cleared first
          cases same.symm.trans learned
          exact .inr holds

theorem onBoundary_of_tornBytes {file : List UInt8} (whole : tornBytes file = 0) :
    OnBoundary file := by
  intro large b here
  have head : (file.drop (file.length - 256)).head? = some b := by
    rw [List.head?_drop]
    exact here
  obtain ⟨rest, shape⟩ := List.head?_eq_some_iff.mp head
  unfold tornBytes at whole
  rw [shape, List.length_eq_zero_iff] at whole
  rw [← Bool.not_eq_true]
  intro continues
  rw [List.takeWhile_cons_of_pos continues] at whole
  cases whole

section Steps

variable (cleared : ∀ document, codec.embeddings (codec.withoutEmbeddings document) = none)
  (shows : ShowsEmbeddings codec)

include cleared in
theorem VectorStore.Measured.step {s t : VectorStore δ} {a : VectorAction δ}
    (measured : s.Measured codec) (answers : Answers codec s a) (boundary : ScansOnBoundary s a)
    (step : callStep codec s a = some t) : t.Measured codec := by
  obtain ⟨ok, path, exported, dimensions⟩ := callStep_cases answers step
  cases empty : a.call.documents.isEmpty with
  | true =>
      rw [List.isEmpty_iff.mp empty] at path exported dimensions
      rw [exportedForms, List.append_nil] at exported
      have same : t.dimensions = s.dimensions := by
        rw [dimensions]
        funext i
        split
        · rename_i here
          rw [here]
          rfl
        · rfl
      unfold VectorStore.Measured
      rw [path, exported, same]
      exact measured
  | false =>
      rcases measured with ⟨absent, fresh, unknown⟩ | ⟨v, held, written, known, header⟩
      · obtain ⟨after, left, forms, learned⟩ :=
          exportBatch_new codec (by rw [absent]; rfl) empty ok
        rw [unknown] at exported dimensions forms learned
        rw [fresh, List.nil_append] at exported
        refine .inr ⟨after, path.trans left, ?_, ?_, ?_⟩
        · rw [exported]
          exact forms
        · intro i d known
          rw [dimensions] at known
          dsimp only at known
          split at known
          · rw [exported]
            exact (known_or_holds cleared known).resolve_left (by simp)
          · rw [unknown] at known
            cases known
        · intro d known
          rw [learned, Option.or_none] at known
          rw [exported]
          exact (known_or_holds cleared known).resolve_left (by simp)
      · rw [held] at ok path
        obtain ⟨after, texts, left, added, forms, learned⟩ :=
          exportBatch_bytes codec (boundary empty _ held) empty ok
        refine .inr ⟨after, path.trans left, ?_, ?_, ?_⟩
        · rw [exported, added]
          exact List.rel_append written forms
        · intro i d knows
          rw [dimensions] at knows
          rw [exported]
          dsimp only at knows
          split at knows
          · rcases known_or_holds cleared knows with before | new
            · exact (known _ d before).append _
            · exact new.behind _
          · exact (known i d knows).append _
        · intro d knows
          rw [exported]
          rcases Option.or_eq_some_iff.mp (learned ▸ knows) with new | ⟨-, before⟩
          · rcases known_or_holds cleared new with before | new
            · exact (known _ d before).append _
            · exact new.behind _
          · exact (header d before).append _

/-- The store's file agrees, if there is one. -/
def VectorStore.Agrees (s : VectorStore δ) : Prop := ∀ file ∈ s.path, DimensionsAgree file

include shows in
/-- An append whose scan window starts inside a character leaves no JSON. -/
theorem not_agrees_of_torn {s t : VectorStore δ} {a : VectorAction δ} {v : VectorFile}
    (held : s.path = some v.bytes) (written : List.Forall₂ codec.Writes s.exported v.texts)
    (answers : Answers codec s a) (step : callStep codec s a = some t)
    (some_documents : a.call.documents.isEmpty = false) (torn : tornBytes v.bytes ≠ 0) :
    ¬ t.Agrees := by
  obtain ⟨ok, path, -, -⟩ := callStep_cases answers step
  rw [held] at ok path
  have cut : vectorWriter true (some v.bytes) =
      encode (v.opened ++ closingLeft "]\x7d\n".toList (tornBytes v.bytes)) :=
    vectorWriter_text v.opened
  obtain ⟨texts, -, -, -, left⟩ := exportBatch_tail codec cut some_documents ok
  have parsed : ∀ text ∈ v.texts, ∃ value, Json.parse text = some value := by
    intro text member
    obtain ⟨document, wrote⟩ := exists_writes written text member
    obtain ⟨value, read, -⟩ := shows document text wrote
    exact ⟨value, read⟩
  intro agrees
  obtain ⟨members, values, read, -⟩ := agrees _ (path.trans left)
  have unread := readJson_of_torn_append parsed
    ((exportedForms codec (s.dimensions a.exporter) a.call.documents).1.or v.dimensions)
    (v.count + a.call.documents.length) texts ['\n'] (by simp) torn
  cases unread.symm.trans read

include cleared shows in
/-- A call that answers Ok keeps the lengths in agreement just where it scans from a character on
and learns no length but the header's. -/
theorem agrees_step_iff {s t : VectorStore δ} {a : VectorAction δ} (measured : s.Measured codec)
    (agrees : s.Agrees) (answers : Answers codec s a) (step : callStep codec s a = some t) :
    t.Agrees ↔ ScansOnBoundary s a ∧ LearnsHeader codec s a := by
  obtain ⟨ok, path, exported, -⟩ := callStep_cases answers step
  cases empty : a.call.documents.isEmpty with
  | true =>
      rw [List.isEmpty_iff.mp empty] at path
      have same : t.path = s.path := path
      refine iff_of_true (fun file member => agrees file (same ▸ member))
        ⟨fun some_documents => ?_, fun _ n first => ?_⟩
      · cases empty.symm.trans some_documents
      · rw [List.isEmpty_iff.mp empty] at first
        cases first
  | false =>
      rcases measured with ⟨absent, fresh, unknown⟩ | ⟨v, held, written, known, header⟩
      · obtain ⟨after, left, forms, learned⟩ :=
          exportBatch_new codec (by rw [absent]; rfl) empty ok
        have here : t.path = some after.bytes := path.trans left
        refine iff_of_true (fun file member => ?_)
          ⟨fun _ file member => ?_, fun _ n _ file member => ?_⟩
        · cases here.symm.trans member
          rw [dimensionsAgree_bytes shows forms, learned, unknown, Option.or_none]
          cases first : firstLength codec a.call.documents with
          | none => exact (exportedForms_of_none first).2 _
          | some n =>
              obtain ⟨same, all, -⟩ := exportedForms_of_some cleared first
              rw [same]
              exact all
        · rw [absent] at member
          cases member
        · rw [absent] at member
          cases member
      · by_cases whole : tornBytes v.bytes = 0
        · have boundary : OnBoundary v.bytes := onBoundary_of_tornBytes whole
          have scans : ScansOnBoundary s a := by
            intro _ file member
            cases held.symm.trans member
            exact boundary
          rw [held] at ok path
          obtain ⟨after, texts, left, added, forms, learned⟩ :=
            exportBatch_bytes codec boundary empty ok
          have here : t.path = some after.bytes := path.trans left
          have all : OfLength codec s.exported v.dimensions :=
            (dimensionsAgree_bytes shows written).mp (agrees _ held)
          have wrote : List.Forall₂ codec.Writes t.exported after.texts := by
            rw [exported, added]
            exact List.rel_append written forms
          have target : t.Agrees ↔ OfLength codec s.exported after.dimensions ∧
              OfLength codec (exportedForms codec (s.dimensions a.exporter) a.call.documents).2
                after.dimensions := by
            rw [← ofLength_append, ← exported, ← dimensionsAgree_bytes shows wrote]
            unfold VectorStore.Agrees
            rw [here]
            simp
          have learns : LearnsHeader codec s a ↔ (s.dimensions a.exporter = none →
              ∀ n ∈ firstLength codec a.call.documents, ∀ m ∈ v.dimensions, m = n) := by
            obtain ⟨values, read, -⟩ := readJson_of_written shows written
            unfold LearnsHeader
            rw [held]
            simp [headerDimensions_of_members read]
          rw [target, learned, learns, and_iff_right scans]
          cases knows : s.dimensions a.exporter with
          | some d =>
              have same := all.of_holds (known _ d knows)
              rw [same] at all
              rw [exportedForms_some, same]
              refine iff_of_true ⟨all, ofLength_exportedForms cleared d _⟩ ?_
              intro other
              cases other
          | none =>
              cases first : firstLength codec a.call.documents with
              | none =>
                  obtain ⟨nothing, bare⟩ := exportedForms_of_none first
                  rw [nothing]
                  exact iff_of_true ⟨all, bare _⟩ fun _ n member => nomatch member
              | some n =>
                  obtain ⟨same, new, -⟩ := exportedForms_of_some cleared first
                  rw [same]
                  constructor
                  · intro both _ k member m knows
                    cases member
                    have length := both.1.of_holds (header m knows)
                    exact (Option.some.inj length).symm
                  · intro equal
                    refine ⟨fun document member embeddings carries => ?_, new⟩
                    rw [equal rfl n rfl _ (all document member embeddings carries)]
                    rfl
        · refine iff_of_false (not_agrees_of_torn shows held written answers step empty whole) ?_
          intro both
          exact whole (tornBytes_of_onBoundary (both.1 empty _ held))

include cleared shows in
/-- In a run of calls that all answer Ok, the lengths in the file agree in every state reached
just as long as every append scans from a character on and every exporter that learns a length
learns the header's. -/
theorem dimensions_agree_iff {as : List (VectorAction δ)}
    (answers : Along (callStep codec) (Answers codec) .start as) :
    (∀ t, Reached (callStep codec) .start as t → t.Agrees) ↔
      Along (callStep codec) (fun s a => ScansOnBoundary s a ∧ LearnsHeader codec s a) .start as := by
  refine reached_good_iff_along (I := VectorStore.Measured codec) ?_ ?_ ?_ ?_ ?_ answers
  · intro s a t measured agrees answers step after
    exact measured.step cleared answers
      ((agrees_step_iff cleared shows measured agrees answers step).mp after).1 step
  · intro s a t measured agrees answers step
    exact agrees_step_iff cleared shows measured agrees answers step
  · intro s a refused
    cases refused
  · exact .inl ⟨rfl, rfl, fun _ => rfl⟩
  · exact fun file member => nomatch member

end Steps

end Dimensions

/-! ## Two exporters -/

theorem embedded_shows : ShowsEmbeddings embeddedCodec := by
  intro document text written
  have read : (Json.parse document.json).map embeddingLength =
      some (document.embeddings.map List.length) := by
    cases document <;> decide +kernel
  rw [show document.json = text from Except.ok.inj written] at read
  exact Option.map_eq_some_iff.mp read

/-- Exporter number `exporter` appends one document. -/
def embeddedExport (exporter : Nat) (document : EmbeddedSample) : VectorAction EmbeddedSample :=
  ⟨exporter, sampleTime, .exportOne document⟩

/-- Two exporters that learn the same length, the second from its second document. -/
def pairRun : List (VectorAction EmbeddedSample) :=
  [embeddedExport 0 .pair, embeddedExport 1 .plain, embeddedExport 1 .pair]

/-- The second exporter learns the header's length. -/
theorem pair_run_agrees :
    Along (callStep embeddedCodec) (fun s a => ScansOnBoundary s a ∧ LearnsHeader embeddedCodec s a)
        .start pairRun ∧
      ∀ t, Reached (callStep embeddedCodec) .start pairRun t → t.Agrees := by
  have learns : Along (callStep embeddedCodec)
      (fun s a => ScansOnBoundary s a ∧ LearnsHeader embeddedCodec s a) .start pairRun := by
    decide +kernel
  refine ⟨learns, (dimensions_agree_iff (fun _ => rfl) embedded_shows ?_).mpr learns⟩
  decide +kernel

/-- The store after one document of two components. -/
def pairStore : VectorStore EmbeddedSample :=
  (callStep embeddedCodec .start (embeddedExport 0 .pair)).getD .start

/-- The second exporter learns another length and writes it into the header. -/
theorem second_exporter_changes_dimensions :
    Along (callStep embeddedCodec) (Answers embeddedCodec) .start
        [embeddedExport 0 .pair, embeddedExport 1 .triple] ∧
      ¬ ∀ t, Reached (callStep embeddedCodec) .start
        [embeddedExport 0 .pair, embeddedExport 1 .triple] t → t.Agrees := by
  have first : callStep embeddedCodec .start (embeddedExport 0 .pair) = some pairStore := by
    have answered : (callStep embeddedCodec .start (embeddedExport 0 .pair)).isSome = true := by
      decide +kernel
    obtain ⟨t, step⟩ := Option.isSome_iff_exists.mp answered
    rw [pairStore, step, Option.getD_some]
  have answered : (callStep embeddedCodec pairStore (embeddedExport 1 .triple)).isSome = true := by
    decide +kernel
  obtain ⟨t, second⟩ := Option.isSome_iff_exists.mp answered
  have answers : Answers embeddedCodec pairStore (embeddedExport 1 .triple) := by decide +kernel
  refine ⟨.cons (by decide +kernel) first (.cons answers second (along_nil t)), fun all => ?_⟩
  have reached : Reached (callStep embeddedCodec) .start
      [embeddedExport 0 .pair, embeddedExport 1 .triple] pairStore :=
    ⟨[embeddedExport 0 .pair], ⟨_, rfl⟩, by rw [execute_cons, first]; rfl⟩
  have last : Reached (callStep embeddedCodec) .start
      [embeddedExport 0 .pair, embeddedExport 1 .triple] t :=
    ⟨_, List.prefix_rfl, by rw [execute_cons, first, Option.bind_some, execute_cons, second]; rfl⟩
  have fresh : VectorStore.start.Measured embeddedCodec := .inl ⟨rfl, rfl, fun _ => rfl⟩
  have measured : pairStore.Measured embeddedCodec :=
    fresh.step (fun _ => rfl) (by decide +kernel) (by decide +kernel) first
  have learns := ((agrees_step_iff (fun _ => rfl) embedded_shows measured (all _ reached) answers
    second).mp (all t last)).2
  exact absurd learns (by decide +kernel)

end Webfang
