import Webfang.Embedding.Tokenizer

/-!
# Embedding one text and many

`infrastructure_ai/embedding_adapter.rs`: a note is embedded by `embed_batch` and a query by
`embed`. The two agree on the texts whose encodings have their markers already.
-/

namespace Webfang

open Traversal

/-- `InferencePool::infer` and the tokenizer; a vector is given by the bits of its numbers. -/
structure EmbeddingAdapter where
  infer : ModelInput → Except SemanticError (List UInt32)
  tokenizer : MiniLmTokenizer

namespace EmbeddingAdapter

variable (adapter : EmbeddingAdapter)

def embed (text : String) : Except SemanticError (List UInt32) := do
  let input ← adapter.tokenizer.tokenize text
  adapter.infer input

def embedBatch (texts : List String) : Except SemanticError (List (List UInt32)) := do
  if texts.isEmpty then
    return []
  let batch ← adapter.tokenizer.tokenizeBatch texts
  batch.toModelInputs.mapM adapter.infer

/-- The batch succeeds exactly when each of its texts does, and with their vectors. -/
def BatchAgrees (texts : List String) : Prop :=
  ((∃ vectors, adapter.embedBatch texts = .ok vectors) ↔
    ∀ text ∈ texts, ∃ vector, adapter.embed text = .ok vector) ∧
  ∀ vectors, adapter.embedBatch texts = .ok vectors →
    List.Forall₂ (fun text vector => adapter.embed text = .ok vector) texts vectors

theorem embedBatch_eq (texts : List String) :
    adapter.embedBatch texts = ((texts.mapM fun text =>
      Encoding.cut adapter.tokenizer.maxLength <$> adapter.tokenizer.encode text) >>=
        fun inputs => inputs.mapM adapter.infer) := by
  rw [← MiniLmTokenizer.toModelInputs_tokenizeBatch, embedBatch]
  cases texts with
  | nil => rfl
  | cons text texts =>
      cases adapter.tokenizer.tokenizeBatch (text :: texts) <;> rfl

/-- A batch infers from the encoding of each of its texts, without markers. -/
theorem embedBatch_eq_ok_iff (texts : List String) (vectors : List (List UInt32)) :
    adapter.embedBatch texts = .ok vectors ↔
      List.Forall₂ (fun text vector => ∃ encoding, adapter.tokenizer.encode text = .ok encoding ∧
        adapter.infer (encoding.cut adapter.tokenizer.maxLength) = .ok vector) texts vectors := by
  have each (text : String) (vector : List UInt32) :
      ((Encoding.cut adapter.tokenizer.maxLength <$> adapter.tokenizer.encode text) >>=
        adapter.infer) = .ok vector ↔
      ∃ encoding, adapter.tokenizer.encode text = .ok encoding ∧
        adapter.infer (encoding.cut adapter.tokenizer.maxLength) = .ok vector := by
    cases adapter.tokenizer.encode text <;> simp [bind, Except.bind, Functor.map, Except.map]
  rw [embedBatch_eq, mapM_bind_mapM_eq_ok_iff]
  simp only [each]

theorem embed_eq_ok_iff (text : String) (vector : List UInt32) :
    adapter.embed text = .ok vector ↔
      ∃ encoding, adapter.tokenizer.encode text = .ok encoding ∧
        adapter.infer (encoding.cut adapter.tokenizer.maxLength).frame = .ok vector := by
  rw [embed, MiniLmTokenizer.tokenize]
  cases adapter.tokenizer.encode text <;> simp [bind, Except.bind, pure, Except.pure]

end EmbeddingAdapter

namespace MiniLmTokenizer

variable (tokenizer : MiniLmTokenizer)

/-- The texts that the tokenizer encodes are all encoded with their markers. -/
def AllFramed (texts : List String) : Prop :=
  ∀ text ∈ texts, ∀ encoding, tokenizer.encode text = .ok encoding →
    Framed (encoding.cut tokenizer.maxLength).inputIds

/-- There is room for the markers that a text lacks. -/
def RoomForMarkers (texts : List String) : Prop :=
  ∀ text ∈ texts, ∀ encoding, tokenizer.encode text = .ok encoding →
    (encoding.cut tokenizer.maxLength).inputIds.length +
      missing (encoding.cut tokenizer.maxLength).inputIds ≤ tokenizer.maxLength

/-- The inputs made of the texts, alone and in a batch, have lists of one length, at most the
maximum. -/
def InputsBounded (texts : List String) : Prop :=
  (∀ text ∈ texts, ∀ input, tokenizer.tokenize text = .ok input →
    input.Matched ∧ input.inputIds.length ≤ tokenizer.maxLength) ∧
  ∀ batch, tokenizer.tokenizeBatch texts = .ok batch → ∀ input ∈ batch.toModelInputs,
    input.Matched ∧ input.inputIds.length ≤ tokenizer.maxLength

/-- A batch is made of encodings, cut. -/
theorem mem_toModelInputs {texts : List String} {batch : TokenBatch} {input : ModelInput}
    (tokenized : tokenizer.tokenizeBatch texts = .ok batch)
    (inside : input ∈ batch.toModelInputs) :
    ∃ encoding : Encoding, encoding.cut tokenizer.maxLength = input := by
  have whole := tokenizer.toModelInputs_tokenizeBatch texts
  rw [tokenized] at whole
  have each := (mapM_eq_ok_iff _ _ _).mp whole.symm
  obtain ⟨text, -, made⟩ := exists_of_mem_right each inside
  cases encoded : tokenizer.encode text with
  | error e => rw [encoded] at made; cases made
  | ok encoding =>
      rw [encoded] at made
      exact ⟨encoding, Except.ok.inj made⟩

/-- The inputs are bounded exactly when there is room for the markers. -/
theorem inputsBounded_iff (texts : List String) :
    tokenizer.InputsBounded texts ↔ tokenizer.RoomForMarkers texts := by
  constructor
  · intro ⟨alone, _⟩ text inside encoding encoded
    have tokenized := (tokenizer.tokenize_eq_ok_iff text _).mpr ⟨encoding, encoded, rfl⟩
    have bounded := (alone text inside _ tokenized).2
    rwa [ModelInput.length_frame] at bounded
  · intro room
    refine ⟨?_, ?_⟩
    · intro text inside input tokenized
      obtain ⟨encoding, encoded, rfl⟩ := (tokenizer.tokenize_eq_ok_iff text input).mp tokenized
      refine ⟨(encoding.cut_matched _).frame, ?_⟩
      rw [ModelInput.length_frame]
      exact room text inside encoding encoded
    · intro batch tokenized input inside
      obtain ⟨encoding, rfl⟩ := tokenizer.mem_toModelInputs tokenized inside
      exact ⟨encoding.cut_matched _, encoding.length_cut_le _⟩

end MiniLmTokenizer

/-! ## Agreement -/

/-- Texts that have their markers are embedded the same, alone and in a batch. -/
theorem EmbeddingAdapter.batchAgrees_of_allFramed (adapter : EmbeddingAdapter)
    {texts : List String} (framed : adapter.tokenizer.AllFramed texts) :
    adapter.BatchAgrees texts := by
  have same (vectors : List (List UInt32)) : adapter.embedBatch texts = .ok vectors ↔
      List.Forall₂ (fun text vector => adapter.embed text = .ok vector) texts vectors := by
    rw [adapter.embedBatch_eq_ok_iff]
    apply forall₂_congr_left
    intro text inside vector
    rw [adapter.embed_eq_ok_iff]
    constructor
    · intro ⟨encoding, encoded, inferred⟩
      have kept := ModelInput.frame_of_framed (framed text inside encoding encoded)
      exact ⟨encoding, encoded, by rwa [kept]⟩
    · intro ⟨encoding, encoded, inferred⟩
      have kept := ModelInput.frame_of_framed (framed text inside encoding encoded)
      exact ⟨encoding, encoded, by rwa [kept] at inferred⟩
  refine ⟨?_, fun vectors batch => (same vectors).mp batch⟩
  simp only [same]
  exact exists_forall₂_iff texts

/-- Where a text is not encoded, the batch fails, and so does that text. -/
theorem EmbeddingAdapter.batchAgrees_of_refused (adapter : EmbeddingAdapter)
    {texts : List String} {text : String} (inside : text ∈ texts)
    (refused : ∀ encoding, adapter.tokenizer.encode text ≠ .ok encoding) :
    adapter.BatchAgrees texts := by
  have fails (vectors : List (List UInt32)) : adapter.embedBatch texts ≠ .ok vectors := by
    intro batch
    have each := (exists_forall₂_iff texts).mp
      ⟨vectors, (adapter.embedBatch_eq_ok_iff texts vectors).mp batch⟩
    obtain ⟨_, encoding, encoded, -⟩ := each text inside
    exact refused encoding encoded
  refine ⟨⟨?_, ?_⟩, fun vectors batch => absurd batch (fails vectors)⟩
  · intro ⟨vectors, batch⟩
    exact absurd batch (fails vectors)
  · intro alone
    obtain ⟨vector, embedded⟩ := alone text inside
    obtain ⟨encoding, encoded, -⟩ := (adapter.embed_eq_ok_iff text vector).mp embedded
    exact absurd encoded (refused encoding)

namespace MiniLmTokenizer

variable (tokenizer : MiniLmTokenizer)

/-- A model that fails on an encoding without markers tells the batch from its texts. -/
theorem framed_of_batchAgrees {texts : List String}
    (agrees : ∀ infer, (EmbeddingAdapter.mk infer tokenizer).BatchAgrees texts)
    (encodes : ∀ text ∈ texts, ∃ encoding, tokenizer.encode text = .ok encoding) :
    tokenizer.AllFramed texts := by
  intro text inside encoding encoded
  by_contra bare
  let unframed := encoding.cut tokenizer.maxLength
  let infer (input : ModelInput) : Except SemanticError (List UInt32) :=
    if input = unframed then .error (.inference "") else .ok []
  let adapter := EmbeddingAdapter.mk infer tokenizer
  have alone (other : String) (member : other ∈ texts) :
      ∃ vector, adapter.embed other = .ok vector := by
    obtain ⟨e, encodedOther⟩ := encodes other member
    have marked : (e.cut tokenizer.maxLength).frame ≠ unframed := by
      intro same
      have framed := ModelInput.frame_framed (e.cut tokenizer.maxLength)
      rw [same] at framed
      exact bare framed
    exact ⟨[], (adapter.embed_eq_ok_iff other []).mpr ⟨e, encodedOther, if_neg marked⟩⟩
  obtain ⟨vectors, batch⟩ := (agrees infer).1.mpr alone
  have each := (exists_forall₂_iff texts).mp
    ⟨vectors, (adapter.embedBatch_eq_ok_iff texts vectors).mp batch⟩
  obtain ⟨vector, e, encodedAgain, inferred⟩ := each text inside
  cases encoded.symm.trans encodedAgain
  have failed : infer unframed = .error (.inference "") := if_pos rfl
  exact nomatch failed.symm.trans inferred

/-- A batch agrees with its texts, for every model, and the inputs are bounded, exactly when a text
fails or all have their markers, and there is room for the markers that are lacking. -/
theorem embeddings_agree_iff (texts : List String) :
    ((∀ infer, (EmbeddingAdapter.mk infer tokenizer).BatchAgrees texts) ∧
      tokenizer.InputsBounded texts) ↔
    ((∃ text ∈ texts, ∃ e, tokenizer.inner text = .error e) ∨ tokenizer.AllFramed texts) ∧
      tokenizer.RoomForMarkers texts := by
  rw [tokenizer.inputsBounded_iff]
  apply and_congr_left'
  constructor
  · intro agrees
    by_cases refuses : ∃ text ∈ texts, ∃ e, tokenizer.inner text = .error e
    · exact .inl refuses
    · refine .inr (tokenizer.framed_of_batchAgrees agrees fun text inside => ?_)
      cases encoded : tokenizer.inner text with
      | error e => exact absurd ⟨text, inside, e, encoded⟩ refuses
      | ok encoding => exact ⟨encoding, by rw [encode, encoded]; rfl⟩
  · intro when infer
    rcases when with ⟨text, inside, e, refused⟩ | framed
    · apply EmbeddingAdapter.batchAgrees_of_refused _ inside
      intro encoding encoded
      rw [encode, refused] at encoded
      cases encoded
    · exact EmbeddingAdapter.batchAgrees_of_allFramed ⟨infer, tokenizer⟩ framed

/-- Each text is one token, and the limit is what the source has by default. -/
def oneToken (id : UInt32) : MiniLmTokenizer where
  inner _ := .ok ⟨[id], [1], [0], rfl, rfl⟩
  maxLength := 32768

/-- A text without markers is one input for a query and another for a note. -/
theorem query_and_note_apart :
    ¬ ∀ (tokenizer : MiniLmTokenizer) (texts : List String),
      (∀ infer, (EmbeddingAdapter.mk infer tokenizer).BatchAgrees texts) ∧
        tokenizer.InputsBounded texts := by
  intro claim
  have framed := (oneToken 5).framed_of_batchAgrees (fun infer => (claim _ ["hello"]).1 infer)
    fun text _ => ⟨⟨[5], [1], [0], rfl, rfl⟩, rfl⟩
  have bare := framed "hello" List.mem_cons_self ⟨[5], [1], [0], rfl, rfl⟩ rfl
  revert bare
  decide

end MiniLmTokenizer

end Webfang
