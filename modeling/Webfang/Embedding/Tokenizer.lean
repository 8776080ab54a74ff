import Webfang.Lib.Traversal

/-!
# Tokenizing texts

`infrastructure_ai/tokenizer.rs`: the encoding of a text is cut at `max_length` and becomes the
input of the model. A text alone gets the markers `[CLS]` and `[SEP]` when it lacks them; the texts
of a batch do not.
-/

namespace Webfang

/-- What the tokenizer gives for a text: three lists of one length. -/
structure Encoding where
  ids : List UInt32
  attentionMask : List UInt32
  typeIds : List UInt32
  mask_length : attentionMask.length = ids.length
  types_length : typeIds.length = ids.length

structure ModelInput where
  inputIds : List Int
  attentionMask : List Int
  tokenTypeIds : List Int
  deriving DecidableEq, Repr

/-- The three lists have one length, as `ModelInput::new` asserts. -/
def ModelInput.Matched (input : ModelInput) : Prop :=
  input.attentionMask.length = input.inputIds.length ∧
    input.tokenTypeIds.length = input.inputIds.length

structure TokenBatch where
  sequences : List (List Int)
  attentionMask : List (List Int)
  tokenTypeIds : List (List Int)
  deriving DecidableEq, Repr

def TokenBatch.toModelInputs (batch : TokenBatch) : List ModelInput :=
  ((batch.sequences.zip batch.attentionMask).zip batch.tokenTypeIds).map fun row =>
    ⟨row.1.1, row.1.2, row.2⟩

inductive SemanticError
  | tokenize (message : String)
  | inference (message : String)
  deriving DecidableEq, Repr

namespace SpecialTokens

def CLS : UInt32 := 101

def SEP : UInt32 := 102

end SpecialTokens

open SpecialTokens

/-- `id as i64`. -/
def asI64 (id : UInt32) : Int := id.toNat

/-- The numbers before `maxLength`. -/
def takeI64 (maxLength : Nat) (ids : List UInt32) : List Int := (ids.take maxLength).map asI64

/-- The encoding up to `maxLength`. -/
def Encoding.cut (maxLength : Nat) (encoding : Encoding) : ModelInput where
  inputIds := takeI64 maxLength encoding.ids
  attentionMask := takeI64 maxLength encoding.attentionMask
  tokenTypeIds := takeI64 maxLength encoding.typeIds

def ModelInput.cons (id : UInt32) (input : ModelInput) : ModelInput where
  inputIds := asI64 id :: input.inputIds
  attentionMask := 1 :: input.attentionMask
  tokenTypeIds := 0 :: input.tokenTypeIds

def ModelInput.push (input : ModelInput) (id : UInt32) : ModelInput where
  inputIds := input.inputIds ++ [asI64 id]
  attentionMask := input.attentionMask ++ [1]
  tokenTypeIds := input.tokenTypeIds ++ [0]

/-- `[CLS]` is ensured at the start. -/
def ModelInput.ensureCls (input : ModelInput) : ModelInput :=
  if input.inputIds.head? ≠ some (asI64 CLS) then input.cons CLS else input

/-- `[SEP]` is ensured at the end. -/
def ModelInput.ensureSep (input : ModelInput) : ModelInput :=
  if input.inputIds.getLast? ≠ some (asI64 SEP) then input.push SEP else input

/-- The markers of a text alone. -/
def ModelInput.frame (input : ModelInput) : ModelInput :=
  if input.inputIds.isEmpty then
    (input.push CLS).push SEP
  else
    input.ensureCls.ensureSep

/-- `encode` of the tokenizer's own library, whose failures are texts. -/
structure MiniLmTokenizer where
  inner : String → Except String Encoding
  maxLength : Nat

namespace MiniLmTokenizer

variable (tokenizer : MiniLmTokenizer)

def encode (text : String) : Except SemanticError Encoding :=
  (tokenizer.inner text).mapError fun e => .tokenize s!"Tokenization failed: {e}"

def tokenize (text : String) : Except SemanticError ModelInput := do
  let encoding ← tokenizer.encode text
  return (encoding.cut tokenizer.maxLength).frame

def tokenizeBatch (texts : List String) : Except SemanticError TokenBatch := do
  let encodings ← texts.mapM tokenizer.encode
  return {
    sequences := encodings.map fun e => takeI64 tokenizer.maxLength e.ids
    attentionMask := encodings.map fun e => takeI64 tokenizer.maxLength e.attentionMask
    tokenTypeIds := encodings.map fun e => takeI64 tokenizer.maxLength e.typeIds }

end MiniLmTokenizer

/-! ## The lists of an input -/

@[simp] theorem length_takeI64 (maxLength : Nat) (ids : List UInt32) :
    (takeI64 maxLength ids).length = min maxLength ids.length := by
  rw [takeI64, List.length_map, List.length_take]

namespace ModelInput

variable {input : ModelInput} {id : UInt32}

theorem Matched.cons (matched : input.Matched) : (input.cons id).Matched := by
  obtain ⟨mask, types⟩ := matched
  exact ⟨by simp [ModelInput.cons, mask], by simp [ModelInput.cons, types]⟩

theorem Matched.push (matched : input.Matched) : (input.push id).Matched := by
  obtain ⟨mask, types⟩ := matched
  exact ⟨by simp [ModelInput.push, mask], by simp [ModelInput.push, types]⟩

theorem Matched.ensureCls (matched : input.Matched) : input.ensureCls.Matched := by
  rw [ModelInput.ensureCls]
  split
  · exact matched.cons
  · exact matched

theorem Matched.ensureSep (matched : input.Matched) : input.ensureSep.Matched := by
  rw [ModelInput.ensureSep]
  split
  · exact matched.push
  · exact matched

theorem Matched.frame (matched : input.Matched) : input.frame.Matched := by
  rw [ModelInput.frame]
  split
  · exact matched.push.push
  · exact matched.ensureCls.ensureSep

end ModelInput

theorem Encoding.cut_matched (maxLength : Nat) (encoding : Encoding) :
    (encoding.cut maxLength).Matched := by
  refine ⟨?_, ?_⟩
  · simp [cut, encoding.mask_length]
  · simp [cut, encoding.types_length]

theorem Encoding.length_cut_le (maxLength : Nat) (encoding : Encoding) :
    (encoding.cut maxLength).inputIds.length ≤ maxLength := by
  rw [cut, length_takeI64]
  exact Nat.min_le_left _ _

/-! ## The markers -/

/-- The numbers start with `[CLS]` and end with `[SEP]`. -/
def Framed (ids : List Int) : Prop :=
  ids.head? = some (asI64 CLS) ∧ ids.getLast? = some (asI64 SEP)

instance (ids : List Int) : Decidable (Framed ids) :=
  inferInstanceAs (Decidable (_ ∧ _))

/-- The markers that the numbers lack. -/
def missing (ids : List Int) : Nat :=
  (if ids.head? = some (asI64 CLS) then 0 else 1) + if ids.getLast? = some (asI64 SEP) then 0 else 1

namespace ModelInput

theorem frame_of_framed {input : ModelInput} (framed : Framed input.inputIds) :
    input.frame = input := by
  have occupied : input.inputIds ≠ [] := by
    intro empty
    simp [Framed, empty] at framed
  have cls : input.ensureCls = input := by rw [ensureCls, if_neg (not_not_intro framed.1)]
  rw [frame, if_neg (by simpa using occupied), cls, ensureSep, if_neg (not_not_intro framed.2)]

theorem head_ensureSep {input : ModelInput} {id : Int} (head : input.inputIds.head? = some id) :
    input.ensureSep.inputIds.head? = some id := by
  rw [ensureSep]
  split
  · rw [push, List.head?_append, head, Option.some_or]
  · exact head

/-- A text alone has its markers. -/
theorem frame_framed (input : ModelInput) : Framed input.frame.inputIds := by
  rw [frame]
  split
  next empty =>
      have none : input.inputIds = [] := List.isEmpty_iff.mp empty
      simp [push, none, Framed]
  next occupied =>
      refine ⟨head_ensureSep ?_, ?_⟩
      · rw [ensureCls]
        split
        · rfl
        next present => exact not_not.mp present
      · rw [ensureSep]
        split
        · exact List.getLast?_concat
        next present => exact not_not.mp present

theorem getLast_cons_ne_nil {ids : List Int} {id : Int} (occupied : ids ≠ []) :
    (id :: ids).getLast? = ids.getLast? := by
  cases ids with
  | nil => exact absurd rfl occupied
  | cons a ids => exact List.getLast?_cons_cons

/-- The markers that are lacking are what a text alone is longer by. -/
theorem length_frame (input : ModelInput) :
    input.frame.inputIds.length = input.inputIds.length + missing input.inputIds := by
  rw [frame]
  split
  next empty =>
      have none : input.inputIds = [] := List.isEmpty_iff.mp empty
      simp [push, none, missing]
  next occupied =>
      have nonempty : input.inputIds ≠ [] := by simpa using occupied
      have last : input.ensureCls.inputIds.getLast? = input.inputIds.getLast? := by
        rw [ensureCls]
        split
        · exact getLast_cons_ne_nil nonempty
        · rfl
      have cls : input.ensureCls.inputIds.length =
          input.inputIds.length + if input.inputIds.head? = some (asI64 CLS) then 0 else 1 := by
        rw [ensureCls]
        by_cases present : input.inputIds.head? = some (asI64 CLS)
        · rw [if_neg (not_not_intro present), if_pos present, Nat.add_zero]
        · rw [if_pos present, if_neg present, cons, List.length_cons]
      rw [missing, ensureSep, last]
      by_cases present : input.inputIds.getLast? = some (asI64 SEP)
      · rw [if_neg (not_not_intro present), if_pos present, cls, Nat.add_zero]
      · rw [if_pos present, if_neg present, push, List.length_append, cls, List.length_singleton]
        omega

end ModelInput

/-! ## A batch -/

namespace MiniLmTokenizer

variable (tokenizer : MiniLmTokenizer)

theorem tokenize_eq_ok_iff (text : String) (input : ModelInput) :
    tokenizer.tokenize text = .ok input ↔
      ∃ encoding, tokenizer.encode text = .ok encoding ∧
        (encoding.cut tokenizer.maxLength).frame = input := by
  rw [tokenize]
  cases tokenizer.encode text <;> simp [bind, Except.bind, pure, Except.pure]

theorem toModelInputs_map (maxLength : Nat) (encodings : List Encoding) :
    TokenBatch.toModelInputs {
      sequences := encodings.map fun e => takeI64 maxLength e.ids
      attentionMask := encodings.map fun e => takeI64 maxLength e.attentionMask
      tokenTypeIds := encodings.map fun e => takeI64 maxLength e.typeIds } =
        encodings.map (Encoding.cut maxLength) := by
  rw [TokenBatch.toModelInputs, List.zip_map', List.zip_map', List.map_map]
  rfl

/-- The inputs of a batch are the encodings of its texts, cut. -/
theorem toModelInputs_tokenizeBatch (texts : List String) :
    TokenBatch.toModelInputs <$> tokenizer.tokenizeBatch texts =
      texts.mapM fun text => Encoding.cut tokenizer.maxLength <$> tokenizer.encode text := by
  rw [tokenizeBatch]
  induction texts with
  | nil => rfl
  | cons text texts ih =>
      rw [List.mapM_cons, List.mapM_cons, ← ih]
      cases tokenizer.encode text with
      | error e => rfl
      | ok encoding =>
          cases texts.mapM tokenizer.encode with
          | error e => rfl
          | ok encodings =>
              simp only [bind, Except.bind, pure, Except.pure, Functor.map, Except.map,
                toModelInputs_map]
              rfl

end MiniLmTokenizer

end Webfang
