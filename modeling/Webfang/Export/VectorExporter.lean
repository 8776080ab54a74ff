import Mathlib.Algebra.Group.Nat.Defs
import Webfang.Lib.Json
import Webfang.Lib.Utf8
import Webfang.Export.ProcessResults

/-!
# The vector exporter

`infrastructure/export/vector_exporter.rs`, byte for byte: a header line with two reserved
windows, one line per document, and a closing line that the next append cuts off again.  An
append finds its place by the last `]` in the lossily decoded tail of the file.  A call
returns its answer, the dimensions its exporter knows afterwards and the file it leaves; the
buffered writer is flushed when it is dropped, so a failed call leaves what it wrote.
-/

namespace Webfang

/-- `COUNT_FIELD_WIDTH`. -/
def countFieldWidth : Nat := 10

/-- `DIM_FIELD_WIDTH`. -/
def dimFieldWidth : Nat := 8

/-- `HEADER_SCAN_BYTES`. -/
def headerScanBytes : Nat := 512

/-- The bytes of a text. -/
def bytesOf (text : String) : List UInt8 := Utf8.encode text.toList

/-- `{:>width$}`. -/
def padLeft (width : Nat) (text : List Char) : List Char :=
  List.replicate (width - text.length) ' ' ++ text

/-- A character of an RFC 3339 time. -/
def isTimestampChar (c : Char) : Bool :=
  c.isDigit || c == '-' || c == ':' || c == '.' || c == 'T' || c == 'Z' || c == '+'

/-- `Utc::now().to_rfc3339()`. -/
structure Timestamp where
  text : List Char
  plain : ∀ c ∈ text, isTimestampChar c = true

/-- What the exporter takes from its dependencies: `δ` are documents, `ε` components. -/
structure VectorCodec (δ ε : Type) where
  embeddings : δ → Option (List ε)
  /-- the clone whose `embeddings` are `None` -/
  withoutEmbeddings : δ → δ
  /-- `f32::is_finite` -/
  isFinite : ε → Bool
  /-- `serde_json::to_string` -/
  toJson : δ → Except String (List Char)
  /-- `{:?}` of a text -/
  debugStr : String → String

/-! ## Bytes -/

/-- `rfind`, as the offset of the last byte that satisfies `p`. -/
def rfind (p : UInt8 → Bool) : List UInt8 → Option Nat
  | [] => none
  | b :: rest =>
      match rfind p rest with
      | some i => some (i + 1)
      | none => if p b then some 0 else none

/-- `find_subslice`. -/
def findSubslice (needle : List UInt8) : List UInt8 → Option Nat
  | [] => none
  | b :: rest =>
      if needle.isPrefixOf (b :: rest) then some 0
      else (findSubslice needle rest).map (· + 1)

/-- `File::set_len`: cut, or fill with zeros. -/
def setLen (file : List UInt8) (n : Nat) : List UInt8 :=
  file.take n ++ List.replicate (n - file.length) 0

/-- A write at an offset inside the file. -/
def overwrite (file : List UInt8) (offset : Nat) (bytes : List UInt8) : List UInt8 :=
  file.take offset ++ bytes ++ file.drop (offset + bytes.length)

/-- `read_header_bytes`. -/
def readHeaderBytes (file : List UInt8) : List UInt8 := file.take headerScanBytes

/-- `str::trim`. -/
def trim (text : List Char) : List Char :=
  ((text.dropWhile isWhitespace).reverse.dropWhile isWhitespace).reverse

/-- `str::parse::<usize>`. -/
def parseUsize (text : List Char) : Option Nat :=
  let digits := if text.head? = some '+' then text.tail else text
  if digits.isEmpty || !digits.all Char.isDigit then none
  else
    let n := Nat.ofDigitChars 10 digits 0
    if n < 2 ^ 64 then some n else none

section Exporter

variable {δ ε : Type} (codec : VectorCodec δ ε)

/-- `parse_count_field`. -/
def parseCountField (field : List UInt8) : Except ExporterError Nat :=
  match Utf8.decode field with
  | none => .error (.writeError "vector export total_documents field is not valid UTF-8")
  | some text =>
      match parseUsize (trim text) with
      | some n => .ok n
      | none => .error (.writeError
          ("vector export total_documents field holds an unparsable count: " ++
            codec.debugStr (String.ofList text)))

/-- `count_documents`. -/
def countDocuments (file : List UInt8) : Nat := file.count 0x0A

/-- `extract_created_at`. -/
def extractCreatedAt (head : List UInt8) : Option (List Char) := do
  let marker := bytesOf "\"created_at\": \""
  let start := (← findSubslice marker head) + marker.length
  let length ← (head.drop start).findIdx? (· == 0x22)
  Utf8.decode ((head.drop start).take length)

/-- The JSON text of the known dimensions. -/
def dimensionsJson (dimensions : Option Nat) : List Char :=
  match dimensions with
  | some d => Json.ofNat d
  | none => "null".toList

/-- The header line around its two windows. -/
def headerLine (dimensions count createdAt : List Char) : List Char :=
  "\x7b\"format_version\": \"1.0\", \"model_name\": null, \"dimensions\": ".toList ++ dimensions ++
    ", \"total_documents\": ".toList ++ count ++ ", \"created_at\": \"".toList ++ createdAt ++
    "\", \"documents\": [".toList

/-- `build_header_line`. -/
def buildHeaderLine (dimensions : Option Nat) (createdAt : List Char) : List UInt8 :=
  Utf8.encode (headerLine (padLeft dimFieldWidth (dimensionsJson dimensions))
    (padLeft countFieldWidth (Json.ofNat 0)) createdAt)

/-- `serialize_document`: the dimensions known afterwards, and the line. -/
def serializeDocument (dimensions : Option Nat) (document : δ) :
    Option Nat × Except ExporterError (List UInt8) :=
  let serialized := ((codec.toJson document).map Utf8.encode).mapError ExporterError.serialization
  match codec.embeddings document with
  | none => (dimensions, serialized)
  | some embeddings =>
      let finite :=
        if embeddings.any (!codec.isFinite ·) then
          .error (.writeError "embeddings contain NaN or Infinity")
        else serialized
      match dimensions with
      | some expected =>
          if embeddings.length ≠ expected then
            (dimensions, ((codec.toJson (codec.withoutEmbeddings document)).map Utf8.encode).mapError
              ExporterError.writeError)
          else (dimensions, finite)
      | none => (some embeddings.length, finite)

/-- `migrate_legacy_header`. -/
def migrateLegacyHeader (dimensions : Option Nat) (file head : List UInt8) :
    Except ExporterError (Nat × List UInt8) :=
  let docsMarker := bytesOf "\"documents\": ["
  match findSubslice docsMarker head with
  | none => .error (.writeError "vector export header is missing the documents array")
  | some position =>
      match extractCreatedAt head with
      | none => .error (.writeError "vector export header is missing created_at")
      | some createdAt =>
          .ok (countDocuments file,
            buildHeaderLine dimensions createdAt ++ file.drop (position + docsMarker.length))

/-- `read_append_state`: the documents the file holds, and the file, its header migrated. -/
def readAppendState (dimensions : Option Nat) (file : List UInt8) :
    Except ExporterError (Nat × List UInt8) :=
  let head := readHeaderBytes file
  let marker := bytesOf "\"total_documents\": "
  match findSubslice marker head with
  | none => .error (.writeError "vector export header is missing the total_documents field")
  | some position =>
      let valueStart := position + marker.length
      if head[valueStart + countFieldWidth]? = some 0x2C then
        match parseCountField codec ((head.drop valueStart).take countFieldWidth) with
        | .error e => .error e
        | .ok count => .ok (if count = 0 then countDocuments file else count, file)
      else migrateLegacyHeader dimensions file head

/-- `patch_header_field`. -/
def patchHeaderField (file head marker : List UInt8) (fieldName : String)
    (value : List Char) (width : Nat) : Except ExporterError (List UInt8) :=
  if (Utf8.encode value).length ≠ width then
    .error (.writeError ("vector export " ++ fieldName ++ " value does not fit the reserved " ++
      Nat.repr width ++ "-byte window"))
  else
    match findSubslice marker head with
    | none =>
        .error (.writeError ("vector export header is missing the " ++ fieldName ++ " field"))
    | some position =>
        let valueStart := position + marker.length
        if head[valueStart + width]? = some 0x2C then
          .ok (overwrite file valueStart (Utf8.encode value))
        else
          .error (.writeError ("vector export header layout mismatch around " ++ fieldName))

/-- `close_json`. -/
def closeJson (dimensions : Option Nat) (file : List UInt8) (totalDocuments : Nat) :
    Except ExporterError Unit × List UInt8 :=
  let file := file ++ bytesOf "]\x7d\n"
  let head := readHeaderBytes file
  match patchHeaderField file head (bytesOf "\"total_documents\": ") "total_documents"
      (padLeft countFieldWidth (Json.ofNat totalDocuments)) countFieldWidth with
  | .error e => (.error e, file)
  | .ok file =>
      match dimensions with
      | none => (.ok (), file)
      | some d =>
          match patchHeaderField file head (bytesOf "\"dimensions\": ") "dimensions"
              (padLeft dimFieldWidth (Json.ofNat d)) dimFieldWidth with
          | .error e => (.error e, file)
          | .ok file => (.ok (), file)

/-- `VectorExporter::writer`: the file the writer starts on, cut at its last `]` in append
mode, emptied otherwise. -/
def vectorWriter (append : Bool) (path : Option (List UInt8)) : List UInt8 :=
  match append, path with
  | true, some file =>
      if file.isEmpty then file
      else
        let seekStart := file.length - 256
        let content := Utf8.fromUtf8Lossy (file.drop seekStart)
        match rfind (· == 0x5D) content with
        | some lastBracket => setLen file (seekStart + lastBracket)
        | none => file
  | _, _ => []

/-- `write_metadata_header`. -/
def writeMetadataHeader (append : Bool) (dimensions : Option Nat) (createdAt : Timestamp)
    (isFirstDoc : Bool) (file : List UInt8) : List UInt8 :=
  if !isFirstDoc then file
  else if append && !file.isEmpty then file
  else file ++ buildHeaderLine dimensions createdAt.text

/-- What a call leaves: its answer, the exporter's dimensions, the file. -/
structure VectorOutcome where
  answer : Except ExporterError Unit
  dimensions : Option Nat
  path : Option (List UInt8)

/-- The opening both calls share: whether the next document is the first one, how many the
file holds, and the file with its header. -/
def openVectorFile (append : Bool) (createdAt : Timestamp) (dimensions : Option Nat)
    (path : Option (List UInt8)) : Except ExporterError (Bool × Nat) × List UInt8 :=
  let file := vectorWriter append path
  let isFirstDoc := !append || file.isEmpty
  match if isFirstDoc then .ok (0, file) else readAppendState codec dimensions file with
  | .error e => (.error e, file)
  | .ok (existing, file) =>
      (.ok (isFirstDoc, existing),
        writeMetadataHeader append dimensions createdAt isFirstDoc file)

/-- `Exporter::export`. -/
def exportDocument (append : Bool) (createdAt : Timestamp) (dimensions : Option Nat)
    (path : Option (List UInt8)) (document : δ) : VectorOutcome :=
  match openVectorFile codec append createdAt dimensions path with
  | (.error e, file) => ⟨.error e, dimensions, some file⟩
  | (.ok (isFirstDoc, existing), file) =>
      match serializeDocument codec dimensions document with
      | (dimensions, .error e) => ⟨.error e, dimensions, some file⟩
      | (dimensions, .ok serialized) =>
          let file := if isFirstDoc then file else file ++ bytesOf ","
          let (answer, file) := closeJson dimensions (file ++ serialized ++ bytesOf "\n")
            (existing + 1)
          ⟨answer, dimensions, some file⟩

/-- The loop of `export_batch`; `first` says that no comma goes before the next document. -/
def writeDocuments : Bool → Option Nat → List UInt8 → List δ →
    Except ExporterError Unit × Option Nat × List UInt8
  | _, dimensions, file, [] => (.ok (), dimensions, file)
  | first, dimensions, file, document :: documents =>
      let file := if first then file else file ++ bytesOf ","
      match serializeDocument codec dimensions document with
      | (dimensions, .error e) => (.error e, dimensions, file)
      | (dimensions, .ok serialized) =>
          writeDocuments false dimensions (file ++ serialized ++ bytesOf "\n") documents

/-- `Exporter::export_batch`. -/
def exportBatch (append : Bool) (createdAt : Timestamp) (dimensions : Option Nat)
    (path : Option (List UInt8)) (documents : List δ) : VectorOutcome :=
  if documents.isEmpty then ⟨.ok (), dimensions, path⟩
  else
    match openVectorFile codec append createdAt dimensions path with
    | (.error e, file) => ⟨.error e, dimensions, some file⟩
    | (.ok (isFirstDoc, existing), file) =>
        match writeDocuments codec isFirstDoc dimensions file documents with
        | (.error e, dimensions, file) => ⟨.error e, dimensions, some file⟩
        | (.ok _, dimensions, file) =>
            let (answer, file) := closeJson dimensions file (existing + documents.length)
            ⟨answer, dimensions, some file⟩

end Exporter

end Webfang
