import Webfang.Export.VectorSystem

/-!
# Failed exports

A call whose `serialize_document` returns Err has already cut the closing line off, or emptied
the file.  It spares the file only where the scan window of an append tears one byte of a
character, so that the cut comes behind the closing bracket.
-/

namespace Webfang

open Utf8 (encode encode_append encode_cons)

section Failing

variable {δ ε : Type} (codec : VectorCodec δ ε)

/-- The first Err of `serialize_document` over the documents of a call. -/
def serializeFailure : Option Nat → List δ → Option ExporterError
  | _, [] => none
  | known, document :: documents =>
      match serializeDocument codec known document with
      | (_, .error e) => some e
      | (learned, .ok _) => serializeFailure learned documents

/-- What a call does in either mode. -/
def VectorCall.outcome (append : Bool) (createdAt : Timestamp) (known : Option Nat)
    (path : Option (List UInt8)) : VectorCall δ → VectorOutcome
  | .exportOne document => exportDocument codec append createdAt known path document
  | .exportMany documents => exportBatch codec append createdAt known path documents

/-- The JSON document of a file. -/
def readJson (file : List UInt8) : Option Json.Value := (Utf8.decode file).bind Json.parse

theorem readJson_encode (text : List Char) : readJson (encode text) = Json.parse text := by
  unfold readJson
  rw [Utf8.decode_encode]
  rfl

/-- Documents that an append to this file can take: all of them serialize, and the count and the
dimensions fit their windows. -/
structure ValidAppend (v : VectorFile) (known : Option Nat) (documents : List δ) : Prop where
  nonempty : documents.isEmpty = false
  serializes : serializeFailure codec known documents = none
  count_fits : (Json.ofNat (v.count + documents.length)).length ≤ countFieldWidth
  dimensions_fit : (dimensionsJson ((exportedForms codec known documents).1.or
    v.dimensions)).length ≤ dimFieldWidth

/-- The file is an object with the documents of this one, and others behind them. -/
def KeepsDocuments (v : VectorFile) (file : List UInt8) : Prop :=
  ∃ members values added, readJson file = some (.object members) ∧
    members.lookup "documents".toList = some (.array (values ++ added)) ∧
    List.Forall₂ (fun text value => Json.parse text = some value) v.texts values

/-- The same document as before, the same dimensions, and a valid append succeeds and keeps
every earlier document. -/
structure LeftAsTheyWere (known : Option Nat) (v : VectorFile) (left : VectorOutcome) : Prop where
  document : left.path.bind readJson = readJson v.bytes
  dimensions : left.dimensions = known
  next : ∀ (createdAt : Timestamp) (next : VectorCall δ),
    ValidAppend codec v left.dimensions next.documents →
      (next.outcome codec true createdAt left.dimensions left.path).answer = .ok () ∧
        ∃ file, (next.outcome codec true createdAt left.dimensions left.path).path = some file ∧
          KeepsDocuments v file

/-- The call appends one document and learns nothing from it; the scan window starts at the last
byte of a character, and at the second one where a valid append can follow. -/
structure TearsOneByte (append : Bool) (known : Option Nat) (v : VectorFile)
    (call : VectorCall δ) : Prop where
  append : append = true
  single : ∃ document, call = .exportOne document
  learned : ∀ document ∈ call.documents, known = none → codec.embeddings document = none
  last : tornBytes v.bytes = 1
  second : (∃ documents, ValidAppend codec v known documents) → tornBytes v.bytes.dropLast = 0

/-! ## What a call leaves -/

variable {codec}

theorem writeDocuments_of_serializes (first : Bool) {known : Option Nat} {documents : List δ}
    (file : List UInt8) (serializes : serializeFailure codec known documents = none) :
    ∃ learned written,
      writeDocuments codec first known file documents = (.ok (), learned, written) := by
  induction documents generalizing first known file with
  | nil => exact ⟨known, file, rfl⟩
  | cons document documents ih =>
      rw [serializeFailure] at serializes
      rcases judged : serializeDocument codec known document with ⟨learned, reason | serialized⟩
      · rw [judged] at serializes
        cases serializes
      · rw [judged] at serializes
        rw [writeDocuments, judged]
        exact ih false _ serializes

/-- A batch that fails leaves the lines of its documents before the failing one, and the comma
ahead of that one. -/
theorem writeDocuments_failed (first : Bool) {known : Option Nat} {documents : List δ}
    {e : ExporterError} (file : List UInt8)
    (failed : serializeFailure codec known documents = some e) :
    ∃ learned texts, (∀ text ∈ texts, ∃ document, codec.Writes document text) ∧
      writeDocuments codec first known file documents = (.error e, learned,
        file ++ encode (callLines first texts ++ if first && texts.isEmpty then [] else [','])) := by
  induction documents generalizing first known file with
  | nil => cases failed
  | cons document documents ih =>
      rw [serializeFailure] at failed
      have comma : bytesOf "," = encode [','] := rfl
      rcases judged : serializeDocument codec known document with ⟨learned, reason | serialized⟩
      · rw [judged] at failed
        cases failed
        refine ⟨learned, [], by simp, ?_⟩
        rw [writeDocuments, judged]
        cases first with
        | true => simp [callLines]
        | false => simp [callLines, comma]
      · rw [judged] at failed
        rw [writeDocuments, judged]
        obtain ⟨-, text, here, rfl⟩ := serializeDocument_ok codec judged
        obtain ⟨known, texts, wrote, left⟩ := ih false
          ((if first = true then file else file ++ bytesOf ",") ++ encode text ++ bytesOf "\n")
          failed
        refine ⟨known, text :: texts, List.forall_mem_cons.mpr ⟨⟨_, here⟩, wrote⟩, ?_⟩
        dsimp only
        rw [left, encode_append, encode_append, encode_callLines_cons]
        cases first <;> simp

theorem exportDocument_failed {append : Bool} {createdAt : Timestamp} {known : Option Nat}
    {path : Option (List UInt8)} {document : δ} {e : ExporterError} {opening : Bool × Nat}
    {file : List UInt8}
    (opened : openVectorFile codec append createdAt known path = (.ok opening, file))
    (failed : serializeFailure codec known [document] = some e) :
    exportDocument codec append createdAt known path document =
      ⟨.error e, (serializeDocument codec known document).1, some file⟩ := by
  rw [serializeFailure] at failed
  unfold exportDocument
  rw [opened]
  dsimp only
  rcases judged : serializeDocument codec known document with ⟨learned, reason | serialized⟩
  · rw [judged] at failed
    cases failed
    rfl
  · rw [judged] at failed
    cases failed

theorem exportBatch_failed {append : Bool} {createdAt : Timestamp} {known : Option Nat}
    {path : Option (List UInt8)} {documents : List δ} {e : ExporterError} {first : Bool}
    {existing : Nat} {file : List UInt8}
    (opened : openVectorFile codec append createdAt known path = (.ok (first, existing), file))
    (failed : serializeFailure codec known documents = some e) :
    ∃ learned texts, (∀ text ∈ texts, ∃ document, codec.Writes document text) ∧
      exportBatch codec append createdAt known path documents = ⟨.error e, learned, some
        (file ++ encode (callLines first texts ++
          if first && texts.isEmpty then [] else [',']))⟩ := by
  obtain ⟨learned, texts, wrote, left⟩ := writeDocuments_failed first file failed
  have nonempty : documents.isEmpty = false := by
    cases documents with
    | nil => cases failed
    | cons => rfl
  refine ⟨learned, texts, wrote, ?_⟩
  unfold exportBatch
  rw [nonempty, opened]
  simp only [Bool.false_eq_true, if_false]
  rw [left]

theorem outcome_eq_exportBatch {append : Bool} {createdAt : Timestamp} {known : Option Nat}
    {path : Option (List UInt8)} {call : VectorCall δ}
    (serializes : serializeFailure codec known call.documents = none) :
    call.outcome codec append createdAt known path =
      exportBatch codec append createdAt known path call.documents := by
  cases call with
  | exportMany documents => rfl
  | exportOne document =>
      rw [VectorCall.documents, serializeFailure] at serializes
      rcases judged : serializeDocument codec known document with ⟨learned, reason | serialized⟩
      · rw [judged] at serializes
        cases serializes
      · unfold VectorCall.outcome VectorCall.documents exportDocument exportBatch
        simp only [List.isEmpty_cons, Bool.false_eq_true, if_false, writeDocuments, judged,
          List.length_singleton]

/-! ## Files that do not read -/

section Unreadable

variable {dimensions : Option Nat} {count : Nat} {createdAt : Timestamp} {first : List Char}
  {rest : List (List Char)}

theorem exists_values (texts : List (List Char))
    (parsed : ∀ text ∈ texts, ∃ value, Json.parse text = some value) :
    ∃ values, List.Forall₂ (fun text value => Json.parse text = some value) texts values := by
  induction texts with
  | nil => exact ⟨[], .nil⟩
  | cons text texts ih =>
      obtain ⟨⟨value, here⟩, later⟩ := List.forall_mem_cons.mp parsed
      obtain ⟨values, paired⟩ := ih later
      exact ⟨value :: values, .cons here paired⟩

/-- Document lines without the closing line. -/
theorem parse_unclosed (parsed : ∀ text ∈ first :: rest, ∃ value, Json.parse text = some value) :
    Json.parse (layoutHeader dimensions count createdAt ++ documentLines first rest) = none := by
  obtain ⟨values, paired⟩ := exists_values _ parsed
  have closed := parse_closed dimensions count createdAt paired
  rw [← List.append_assoc] at closed
  refine Json.parse_eq_none_of_append closed ?_ rfl
  rintro c ⟨⟩
  rfl

theorem documentLines_concat (first last : List Char) (rest : List (List Char)) :
    documentLines first (rest ++ [last]) = documentLines first rest ++ ',' :: (last ++ ['\n']) := by
  simp [documentLines]

/-- Document lines and the comma of one more. -/
theorem parse_comma (parsed : ∀ text ∈ first :: rest, ∃ value, Json.parse text = some value) :
    Json.parse (layoutHeader dimensions count createdAt ++ (documentLines first rest ++ [','])) =
      none := by
  have null : ∃ value, Json.parse "null".toList = some value := ⟨.null, rfl⟩
  obtain ⟨values, paired⟩ := exists_values (first :: (rest ++ ["null".toList])) fun text member => by
    rw [← List.cons_append] at member
    rcases List.mem_append.mp member with inside | last
    · exact parsed text inside
    · rw [List.mem_singleton.mp last]
      exact null
  have closed := parse_closed dimensions count createdAt paired
  have shape : documentLines first (rest ++ ["null".toList]) ++ "]\x7d".toList =
      (documentLines first rest ++ [',']) ++ "null\n]\x7d".toList := by
    rw [documentLines_concat]
    simp
  rw [shape, ← List.append_assoc] at closed
  refine Json.parse_eq_none_of_append closed ?_ rfl
  rintro c ⟨⟩
  rfl

/-- The header alone. -/
theorem parse_layoutHeader : Json.parse (layoutHeader dimensions count createdAt) = none := by
  obtain ⟨values, paired⟩ := exists_values ["null".toList] fun text member => by
    rw [List.mem_singleton.mp member]
    exact ⟨.null, rfl⟩
  have closed := parse_closed dimensions count createdAt paired
  refine Json.parse_eq_none_of_append closed ?_ rfl
  rintro c ⟨⟩
  rfl

/-- A whole object with more than spaces behind it. -/
theorem parse_behind (closing : List Char) {lines : List Char} {torn : Nat}
    (parsed : ∀ text ∈ first :: rest, ∃ value, Json.parse text = some value)
    (plain : ∀ c ∈ closing, c = '\n') (ends : Json.EndsNumber lines)
    {c : Char} (member : c ∈ closingLeft closing torn ++ lines) (shown : Json.isSpace c = false) :
    Json.parse (layoutHeader dimensions count createdAt ++ (documentLines first rest ++
      (closingLeft (']' :: '}' :: closing) (torn + 1) ++ lines))) = none := by
  obtain ⟨values, paired⟩ := exists_values _ parsed
  have closed := parse_closed dimensions count createdAt paired
  have inner : ∀ c ∈ closingLeft closing torn, Json.isNumberChar c = false := by
    intro c member
    rcases mem_closingLeft member with kept | rfl
    · rw [plain c kept]
      rfl
    · rfl
  have more := Json.parse_append closed (Json.endsNumber_append inner ends)
  rw [Json.skipSpace_isEmpty_of_mem member shown, if_neg (by decide)] at more
  rw [closingLeft_succ, ← more]
  refine congrArg Json.parse ?_
  unfold layoutHeader
  simp
end Unreadable

theorem exists_writes {documents : List δ} {texts : List (List Char)}
    (forms : List.Forall₂ codec.Writes documents texts) :
    ∀ text ∈ texts, ∃ document, codec.Writes document text := by
  induction forms with
  | nil => simp
  | cons here later ih => exact List.forall_mem_cons.mpr ⟨⟨_, here⟩, ih⟩

/-- What a valid append leaves where its writer cut the file at `tail`. -/
theorem outcome_of_validAppend {v : VectorFile} {known : Option Nat} {file : List UInt8}
    {tail : List Char} (call : VectorCall δ) (createdAt : Timestamp)
    (cut : vectorWriter true (some file) = encode (v.opened ++ tail))
    (valid : ValidAppend codec v known call.documents) :
    ∃ dimensions count texts, (∀ text ∈ texts, ∃ document, codec.Writes document text) ∧
      (call.outcome codec true createdAt known (some file)).answer = .ok () ∧
      (call.outcome codec true createdAt known (some file)).path = some (encode
        (layoutHeader dimensions count v.createdAt ++ (documentLines v.first v.rest ++
          (tail ++ (callLines false texts ++ "]\x7d\n".toList))))) := by
  obtain ⟨learned, written, wrote⟩ :=
    writeDocuments_of_serializes false (encode (v.opened ++ tail)) valid.serializes
  obtain ⟨rfl, texts, forms, rfl⟩ := writeDocuments_ok codec wrote
  have shape : encode (v.opened ++ tail) ++ encode (callLines false texts) =
      encode (layoutHeader v.dimensions v.count v.createdAt ++ (documentLines v.first v.rest ++
        (tail ++ callLines false texts))) := by
    rw [← encode_append]
    unfold VectorFile.opened layoutHeader
    simp only [List.append_assoc]
  have closed : closeJson _ (encode (layoutHeader v.dimensions v.count v.createdAt ++ _)) _ = _ :=
    closeJson_of_fits v.createdAt
      (documentLines v.first v.rest ++ (tail ++ callLines false texts)) v.dimensions_fit
      v.count_fits valid.count_fits valid.dimensions_fit
  have left : (exportBatch codec true createdAt known (some file) call.documents) = ⟨.ok (),
      (exportedForms codec known call.documents).1, some (encode (layoutHeader
        ((exportedForms codec known call.documents).1.or v.dimensions)
        (v.count + call.documents.length) v.createdAt ++ (documentLines v.first v.rest ++
          (tail ++ (callLines false texts ++ "]\x7d\n".toList)))))⟩ := by
    unfold exportBatch
    rw [valid.nonempty, openVectorFile_tail codec createdAt known cut]
    simp only [Bool.false_eq_true, if_false]
    rw [wrote]
    dsimp only
    rw [shape, closed]
    simp only [List.append_assoc]
  rw [outcome_eq_exportBatch valid.serializes, left]
  exact ⟨_, _, texts, exists_writes forms, rfl, rfl⟩


/-! ## One file -/

section File

variable {v : VectorFile}

/-- A file without its last line break. -/
theorem vectorWriter_dropLast (v : VectorFile) :
    vectorWriter true (some (encode (v.opened ++ "]\x7d".toList))) =
      encode (v.opened ++ closingLeft "]\x7d".toList
        (tornBytes (encode (v.opened ++ "]\x7d".toList)))) :=
  vectorWriter_closing v.opened "\x7d".toList (by decide) (by decide)

theorem dropLast_bytes (v : VectorFile) : v.bytes.dropLast = encode (v.opened ++ "]\x7d".toList) := by
  have whole : v.text = (v.opened ++ "]\x7d".toList) ++ ['\n'] := by
    unfold VectorFile.text
    rw [List.append_assoc]
    rfl
  have line : encode ['\n'] = [0x0A] := rfl
  unfold VectorFile.bytes
  rw [whole, encode_append, line, List.dropLast_concat]

variable (readable : ∀ document text, codec.Writes document text →
  ∃ value, Json.parse text = some value)
  (parsed : ∀ text ∈ v.texts, ∃ value, Json.parse text = some value)

include parsed in
theorem readJson_bytes : ∃ value, readJson v.bytes = some value ∧
    readJson (encode (v.opened ++ "]\x7d".toList)) = some value := by
  obtain ⟨values, paired⟩ := exists_values _ parsed
  have closed := parse_closed v.dimensions v.count v.createdAt paired
  rw [← List.append_assoc] at closed
  have short : readJson (encode (v.opened ++ "]\x7d".toList)) =
      some (.object (fileMembers v.dimensions v.count v.createdAt values)) := by
    rw [readJson_encode]
    exact closed
  refine ⟨_, ?_, short⟩
  rw [VectorFile.bytes, readJson_encode, ← parse_newline closed, VectorFile.text,
    VectorFile.opened_eq, List.append_assoc _ "]\x7d".toList]
  rfl

include readable parsed in
/-- A batch that fails leaves a file that does not read. -/
theorem readJson_of_failed_batch {texts : List (List Char)}
    (wrote : ∀ text ∈ texts, ∃ document, codec.Writes document text) (torn : Nat) :
    readJson (encode (v.opened ++ closingLeft "]\x7d\n".toList torn) ++
      encode (callLines false texts ++ [','])) = none := by
  rw [← encode_append, readJson_encode, VectorFile.opened_eq, List.append_assoc, List.append_assoc]
  cases torn with
  | zero =>
      have all : ∀ text ∈ v.first :: (v.rest ++ texts), ∃ value, Json.parse text = some value := by
        intro text member
        rw [← List.cons_append] at member
        rcases List.mem_append.mp member with held | added
        · exact parsed text held
        · obtain ⟨document, written⟩ := wrote text added
          exact readable document text written
      rw [closingLeft_zero, List.nil_append, ← List.append_assoc (documentLines _ _),
        ← documentLines_append]
      exact parse_comma all
  | succ torn =>
      refine parse_behind ['\n'] parsed (by simp) ?_ (c := ',') (by simp) rfl
      cases texts <;> rintro c ⟨⟩ <;> rfl

include parsed in
/-- A document that fails leaves a file that reads only where one byte was torn. -/
theorem readJson_of_failed_document {torn : Nat} (other : torn ≠ 1) :
    readJson (encode (v.opened ++ closingLeft "]\x7d\n".toList torn)) = none := by
  rw [readJson_encode, VectorFile.opened_eq, List.append_assoc]
  rcases torn with _ | _ | torn
  · rw [closingLeft_zero, List.append_nil]
    exact parse_unclosed parsed
  · exact absurd rfl other
  · have filled : '\x00' ∈ closingLeft ['\n'] (torn + 1) ++ [] := by
      unfold closingLeft
      simp
      omega
    have behind : Json.parse (layoutHeader v.dimensions v.count v.createdAt ++ _) = none :=
      parse_behind ['\n'] parsed (by simp) (by rintro c ⟨⟩) filled rfl
    rw [List.append_nil] at behind
    exact behind

/-! ## The two calls -/

section Left

variable {createdAt : Timestamp} {known : Option Nat} {e : ExporterError}

/-- A call in overwrite mode starts a new file. -/
theorem openVectorFile_overwrite (createdAt : Timestamp) (file : List UInt8) :
    openVectorFile codec false createdAt known (some file) =
      (.ok (true, 0), encode (layoutHeader known 0 createdAt)) := rfl

include readable in
/-- A call in overwrite mode that fails leaves a file that does not read. -/
theorem readJson_of_failed_overwrite (createdAt : Timestamp) (file : List UInt8)
    {call : VectorCall δ}
    (failed : serializeFailure codec known call.documents = some e) :
    (call.outcome codec false createdAt known (some file)).answer = .error e ∧
      (call.outcome codec false createdAt known (some file)).path.bind readJson = none := by
  cases call with
  | exportOne document =>
      rw [VectorCall.outcome, exportDocument_failed (openVectorFile_overwrite createdAt file) failed]
      refine ⟨rfl, ?_⟩
      rw [Option.bind_some, readJson_encode]
      exact parse_layoutHeader
  | exportMany documents =>
      rw [VectorCall.documents] at failed
      obtain ⟨learned, texts, wrote, left⟩ :=
        exportBatch_failed (openVectorFile_overwrite createdAt file) failed
      rw [VectorCall.outcome, left]
      refine ⟨rfl, ?_⟩
      rw [Option.bind_some, ← encode_append, readJson_encode]
      cases texts with
      | nil =>
          rw [show callLines true [] ++ (if true && List.isEmpty [] then [] else [',']) = [] from rfl,
            List.append_nil]
          exact parse_layoutHeader
      | cons text texts =>
          exact parse_comma fun other member => by
            obtain ⟨document, written⟩ := wrote other member
            exact readable document other written

include readable parsed in
/-- An append that fails leaves a file that reads as before where it is one document and the
window tears one byte, and else does not read. -/
theorem failed_append (createdAt : Timestamp) {call : VectorCall δ}
    (failed : serializeFailure codec known call.documents = some e) :
    (call.outcome codec true createdAt known (some v.bytes)).answer = .error e ∧
      ((∃ document, call = .exportOne document ∧ tornBytes v.bytes = 1 ∧
        call.outcome codec true createdAt known (some v.bytes) = ⟨.error e,
          (serializeDocument codec known document).1,
          some (encode (v.opened ++ "]\x7d".toList))⟩) ∨
      (¬ ((∃ document, call = .exportOne document) ∧ tornBytes v.bytes = 1) ∧
        (call.outcome codec true createdAt known (some v.bytes)).path.bind readJson = none)) := by
  have cut : vectorWriter true (some v.bytes) =
      encode (v.opened ++ closingLeft "]\x7d\n".toList (tornBytes v.bytes)) :=
    vectorWriter_text v.opened
  have opened := openVectorFile_tail codec createdAt known cut
  cases call with
  | exportOne document =>
      rw [VectorCall.outcome, exportDocument_failed opened failed]
      refine ⟨rfl, ?_⟩
      by_cases one : tornBytes v.bytes = 1
      · have bracket : closingLeft "]\x7d\n".toList 1 = "]\x7d".toList := rfl
        refine .inl ⟨document, rfl, one, ?_⟩
        rw [one, bracket]
      · refine .inr ⟨fun both => one both.2, ?_⟩
        rw [Option.bind_some]
        exact readJson_of_failed_document parsed one
  | exportMany documents =>
      rw [VectorCall.documents] at failed
      obtain ⟨learned, texts, wrote, left⟩ := exportBatch_failed opened failed
      rw [VectorCall.outcome, left]
      refine ⟨rfl, .inr ⟨?_, ?_⟩⟩
      · intro both
        obtain ⟨document, other⟩ := both.1
        cases other
      · rw [Option.bind_some]
        exact readJson_of_failed_batch readable parsed wrote _

theorem serializeDocument_keeps {document : δ} :
    (serializeDocument codec known document).1 = known ↔
      (known = none → codec.embeddings document = none) := by
  unfold serializeDocument
  cases codec.embeddings document with
  | none => simp
  | some embeddings =>
      cases known with
      | none => simp
      | some expected =>
          dsimp only
          split <;> simp

end Left

include readable parsed in
/-- A valid append behind a whole closing line keeps every earlier document. -/
theorem keepsDocuments_of_untorn {texts : List (List Char)} (dimensions : Option Nat) (count : Nat)
    (wrote : ∀ text ∈ texts, ∃ document, codec.Writes document text) :
    KeepsDocuments v (encode (layoutHeader dimensions count v.createdAt ++
      (documentLines v.first v.rest ++ (callLines false texts ++ "]\x7d\n".toList)))) := by
  obtain ⟨values, held⟩ := exists_values _ parsed
  obtain ⟨added, new⟩ := exists_values texts fun text member => by
    obtain ⟨document, written⟩ := wrote text member
    exact readable document text written
  have all : List.Forall₂ (fun text value => Json.parse text = some value)
      (v.first :: (v.rest ++ texts)) (values ++ added) := List.rel_append held new
  refine ⟨fileMembers dimensions count v.createdAt (values ++ added), values, added, ?_, rfl, held⟩
  rw [readJson_encode, ← parse_newline (parse_closed dimensions count v.createdAt all),
    documentLines_append]
  refine congrArg Json.parse ?_
  simp only [List.append_assoc]
  rfl

include parsed in
/-- An append that tears a byte leaves a file that does not read. -/
theorem readJson_of_torn_append (dimensions : Option Nat) (count : Nat)
    (texts : List (List Char)) (closing : List Char) (plain : ∀ c ∈ closing, c = '\n')
    {torn : Nat} (tears : torn ≠ 0) :
    readJson (encode (layoutHeader dimensions count v.createdAt ++
      (documentLines v.first v.rest ++ (closingLeft (']' :: '}' :: closing) torn ++
        (callLines false texts ++ "]\x7d\n".toList))))) = none := by
  obtain ⟨torn, rfl⟩ := Nat.exists_eq_succ_of_ne_zero tears
  rw [readJson_encode]
  refine parse_behind closing parsed plain ?_ (c := ']') (by simp) rfl
  cases texts <;> rintro c ⟨⟩ <;> rfl

end File

/-- A call whose `serialize_document` returns Err leaves a vector file and its exporter as they
were just where it tears one byte. -/
theorem failed_export_keeps_iff
    (readable : ∀ document text, codec.Writes document text →
      ∃ value, Json.parse text = some value)
    {v : VectorFile} (parsed : ∀ text ∈ v.texts, ∃ value, Json.parse text = some value)
    {append : Bool} {createdAt : Timestamp} {known : Option Nat} {call : VectorCall δ}
    {e : ExporterError} (failed : serializeFailure codec known call.documents = some e) :
    (call.outcome codec append createdAt known (some v.bytes)).answer = .error e ∧
      (LeftAsTheyWere codec known v (call.outcome codec append createdAt known (some v.bytes)) ↔
        TearsOneByte codec append known v call) := by
  obtain ⟨value, whole, short⟩ := readJson_bytes parsed
  have unread {left : VectorOutcome} (none : left.path.bind readJson = none) :
      ¬ LeftAsTheyWere codec known v left := by
    intro kept
    have same := kept.document
    rw [none, whole] at same
    cases same
  cases append with
  | false =>
      obtain ⟨answer, none⟩ := readJson_of_failed_overwrite readable createdAt v.bytes failed
      exact ⟨answer, fun kept => absurd kept (unread none), fun torn => nomatch torn.append⟩
  | true =>
      obtain ⟨answer, ⟨document, rfl, one, left⟩ | ⟨other, none⟩⟩ :=
        failed_append readable parsed createdAt failed
      · refine ⟨answer, ?_⟩
        rw [left]
        constructor
        · intro kept
          refine ⟨rfl, ⟨document, rfl⟩, ?_, one, ?_⟩
          · intro other member
            rw [List.mem_singleton.mp member]
            exact serializeDocument_keeps.mp kept.dimensions
          · intro valid
            obtain ⟨documents, valid⟩ := valid
            by_contra tears
            rw [dropLast_bytes] at tears
            have next := kept.next createdAt (.exportMany documents)
            dsimp only at next
            rw [show (serializeDocument codec known document).1 = known from kept.dimensions] at next
            obtain ⟨-, file, path, keeps⟩ := next valid
            obtain ⟨dimensions, count, texts, -, -, written⟩ := outcome_of_validAppend
              (.exportMany documents) createdAt (vectorWriter_dropLast v) valid
            rw [written] at path
            cases path
            obtain ⟨members, values, added, read, -⟩ := keeps
            have unread := readJson_of_torn_append parsed dimensions count texts [] (by simp) tears
            cases unread.symm.trans read
        · intro torn
          have same : (serializeDocument codec known document).1 = known :=
            serializeDocument_keeps.mpr (torn.learned document List.mem_cons_self)
          rw [same]
          refine ⟨?_, rfl, ?_⟩
          · rw [Option.bind_some, whole]
            exact short
          intro later next valid
          have tail := vectorWriter_dropLast v
          rw [← dropLast_bytes, torn.second ⟨_, valid⟩, closingLeft_zero, dropLast_bytes] at tail
          obtain ⟨dimensions, count, texts, wrote, ok, written⟩ :=
            outcome_of_validAppend next later tail valid
          exact ⟨ok, _, written, keepsDocuments_of_untorn readable parsed dimensions count wrote⟩
      · refine ⟨answer, fun kept => absurd kept (unread none), fun torn => ?_⟩
        exact absurd ⟨torn.single, torn.last⟩ other

end Failing

/-! ## A component that is not finite -/

/-- Documents without embeddings, with two and three components, and one with a component that
is not finite. -/
inductive EmbeddedSample where
  | plain
  | pair
  | triple
  | infinite

def EmbeddedSample.embeddings : EmbeddedSample → Option (List Bool)
  | .plain => none
  | .pair => some [true, true]
  | .triple => some [true, true, true]
  | .infinite => some [true, false]

/-- `serde_json` writes a component that is not finite as `null`. -/
def EmbeddedSample.json : EmbeddedSample → List Char
  | .plain => "\x7b\"content\":\"[1]\"\x7d".toList
  | .pair => "\x7b\"embeddings\":[1,2]\x7d".toList
  | .triple => "\x7b\"embeddings\":[1,2,3]\x7d".toList
  | .infinite => "\x7b\"embeddings\":[1,null]\x7d".toList

def embeddedCodec : VectorCodec EmbeddedSample Bool where
  embeddings document := document.embeddings
  withoutEmbeddings _ := .plain
  isFinite component := component
  toJson document := .ok document.json
  debugStr text := text

theorem embedded_readable (document : EmbeddedSample) (text : List Char)
    (written : embeddedCodec.Writes document text) : ∃ value, Json.parse text = some value := by
  have read : (Json.parse document.json).isSome = true := by
    cases document <;> decide +kernel
  rw [show document.json = text from Except.ok.inj written] at read
  exact Option.isSome_iff_exists.mp read

/-- A file of one document with two components. -/
def pairFile : VectorFile :=
  ⟨some 2, sampleTime, EmbeddedSample.pair.json, [], by decide, by decide⟩

theorem pairFile_parsed : ∀ text ∈ pairFile.texts, ∃ value, Json.parse text = some value := by
  intro text member
  rw [List.mem_singleton.mp member]
  exact embedded_readable .pair _ rfl

theorem infinite_export_keeps_iff :
    ((VectorCall.exportOne EmbeddedSample.infinite).outcome embeddedCodec true sampleTime none
        (some pairFile.bytes)).answer =
          .error (.writeError "embeddings contain NaN or Infinity") ∧
      (LeftAsTheyWere embeddedCodec none pairFile
          ((VectorCall.exportOne EmbeddedSample.infinite).outcome embeddedCodec true sampleTime none
            (some pairFile.bytes)) ↔
        TearsOneByte embeddedCodec true none pairFile (.exportOne .infinite)) :=
  failed_export_keeps_iff embedded_readable pairFile_parsed rfl

/-- The failing document costs the file its closing line, so that it does not read any more. -/
theorem infinite_export_tears_file :
    serializeFailure embeddedCodec none [EmbeddedSample.infinite] =
        some (.writeError "embeddings contain NaN or Infinity") ∧
      ¬ LeftAsTheyWere embeddedCodec none pairFile
        ((VectorCall.exportOne EmbeddedSample.infinite).outcome embeddedCodec true sampleTime none
          (some pairFile.bytes)) := by
  refine ⟨rfl, fun kept => ?_⟩
  have before : (readJson pairFile.bytes).isSome = true := by decide +kernel
  have after : (((VectorCall.exportOne EmbeddedSample.infinite).outcome embeddedCodec true
      sampleTime none (some pairFile.bytes)).path.bind readJson).isSome = false := by
    decide +kernel
  rw [kept.document, before] at after
  cases after

end Webfang
