import Webfang.Domain.Sha256Hex
import Webfang.Persistence.EmbeddingBlob

/-!
# Elastic ingestion

`application/elastic_ingestion.rs` over the tables `resources` and `chunks` of
`infrastructure/persistence/sqlite.rs`.  A run is a sequence of statements, each of them atomic;
it may fail or be killed before any of them, and another run follows.
-/

namespace Webfang

structure ProcessedChunk where
  content : String
  embedding : Option (List UInt32)
  deriving DecidableEq, Repr

/-! ## The tables -/

/-- A row of `resources`; `url` is its primary key. -/
structure ResourceRow where
  url : String
  title : String
  contentHash : String
  sizeBytes : Nat
  deriving DecidableEq, Repr

/-- A row of `chunks`; `id` is its primary key. -/
structure ChunkRow where
  id : String
  resourceUrl : String
  chunkIndex : Nat
  content : String
  embeddingVector : Option (List UInt8)
  deriving DecidableEq, Repr

/-- `resource_exists_by_hash`. -/
def resourceExistsByHash (resources : List ResourceRow) (contentHash : String) : Option String :=
  (resources.find? fun row => row.contentHash = contentHash).map ResourceRow.url

/-- The `INSERT` of `save_resource`: it fails when the URL has a row. -/
def insertResource (resources : List ResourceRow) (row : ResourceRow) :
    Option (List ResourceRow) :=
  if row.url ∈ resources.map ResourceRow.url then none else some (resources ++ [row])

/-- The `INSERT OR IGNORE` of `save_chunk`: a row whose id is there is ignored, and any other
fails when foreign keys are on and its URL has no resource. -/
def insertChunk (foreignKeys : Bool) (resources : List ResourceRow) (chunks : List ChunkRow)
    (row : ChunkRow) : Option (List ChunkRow) :=
  if row.id ∈ chunks.map ChunkRow.id then some chunks
  else if foreignKeys ∧ row.resourceUrl ∉ resources.map ResourceRow.url then none
  else some (chunks ++ [row])

/-! ## A run -/

/-- The Unicode `White_Space` characters, which `trim` drops. -/
def isWhiteSpace (c : Char) : Bool :=
  let n := c.toNat
  (9 ≤ n && n ≤ 13) || n == 0x20 || n == 0x85 || n == 0xA0 || n == 0x1680 ||
    (0x2000 ≤ n && n ≤ 0x200A) || n == 0x2028 || n == 0x2029 || n == 0x202F || n == 0x205F ||
    n == 0x3000

/-- `extract_title`: at most 200 characters of the first line of the first chunk. -/
def extractTitle (chunks : List ProcessedChunk) : String :=
  match chunks with
  | [] => ""
  | chunk :: _ =>
      let line := chunk.content.toList.takeWhile (· ≠ '\n')
      let trimmed := ((line.dropWhile isWhiteSpace).reverse.dropWhile isWhiteSpace).reverse
      String.ofList (trimmed.take 200)

/-- What a run does next. -/
inductive IngestStage
  /-- the `SELECT` of `is_duplicate` -/
  | isDuplicate
  /-- the `SELECT` of `save_resource` -/
  | saveResource (chunks : List ProcessedChunk)
  /-- the `INSERT` of `save_resource` -/
  | insertResource (chunks : List ProcessedChunk)
  /-- the loop of `persist_chunks` -/
  | saveChunk (idx : Nat) (rest : List ProcessedChunk)
  deriving DecidableEq, Repr

/-- `ElasticIngestion::run` behind its download. -/
structure IngestRun where
  url : String
  bytes : List UInt8
  stage : IngestStage
  deriving DecidableEq, Repr

structure Ingestion where
  resources : List ResourceRow
  chunks : List ChunkRow
  run : Option IngestRun
  /-- the runs that returned `Ok` -/
  ingested : List (String × List UInt8)
  /-- the contents of the runs that ended before a `save_chunk` -/
  torn : List (List UInt8)
  deriving DecidableEq, Repr

inductive IngestAction
  /-- a run starts and downloads these bytes -/
  | download (url : String) (bytes : List UInt8)
  /-- the run goes on with its next statement, on a connection with foreign keys or without -/
  | statement (foreignKeys : Bool)
  /-- the next statement fails, or the process is killed before it -/
  | stop
  deriving DecidableEq, Repr

namespace Ingestion

def empty : Ingestion := ⟨[], [], none, [], []⟩

/-- The run goes on to another stage. -/
def goTo (s : Ingestion) (run : IngestRun) (stage : IngestStage) : Ingestion :=
  { s with run := some { run with stage } }

/-- The run returns `Ok`. -/
def succeed (s : Ingestion) (run : IngestRun) : Ingestion :=
  { s with run := none, ingested := s.ingested ++ [(run.url, run.bytes)] }

/-- The run ends without `Ok`. -/
def fail (s : Ingestion) (run : IngestRun) : Ingestion :=
  { s with
    run := none
    torn := match run.stage with
      | .saveChunk _ (_ :: _) => s.torn ++ [run.bytes]
      | _ => s.torn }

end Ingestion

section Steps

-- `normalize_url` without `www` and query, SHA-256, and the cleaning of the downloaded bytes
variable (normalizeUrl : String → String) (sha256Hex : List UInt8 → Sha256Hex)
  (cleanChunks : List UInt8 → Option (List ProcessedChunk))

/-- The statements of `run`, `is_duplicate` and `persist_chunks`. -/
def Ingestion.statement (s : Ingestion) (run : IngestRun) (foreignKeys : Bool) : Ingestion :=
  let hash := (sha256Hex run.bytes).val
  match run.stage with
  | .isDuplicate =>
      if (resourceExistsByHash s.resources hash).any (normalizeUrl · = normalizeUrl run.url) then
        s.succeed run
      else
        match cleanChunks run.bytes with
        | none => s.fail run
        | some chunks => s.goTo run (.saveResource chunks)
  | .saveResource chunks =>
      match resourceExistsByHash s.resources hash with
      | some _ => s.goTo run (.saveChunk 0 chunks)
      | none => s.goTo run (.insertResource chunks)
  | .insertResource chunks =>
      match insertResource s.resources ⟨run.url, extractTitle chunks, hash, run.bytes.length⟩ with
      | none => s.fail run
      | some resources => { s with resources }.goTo run (.saveChunk 0 chunks)
  | .saveChunk _ [] => s.succeed run
  | .saveChunk idx (chunk :: rest) =>
      match insertChunk foreignKeys s.resources s.chunks
        ⟨chunkId hash idx, run.url, idx, chunk.content, chunk.embedding.map f32SliceToBytes⟩ with
      | none => s.fail run
      | some chunks => { s with chunks }.goTo run (.saveChunk (idx + 1) rest)

/-- One action of a sequence of runs. -/
def ingestStep (s : Ingestion) : IngestAction → Option Ingestion
  | .download url bytes =>
      match s.run with
      | some _ => none
      | none => some { s with run := some ⟨url, bytes, .isDuplicate⟩ }
  | .statement foreignKeys =>
      s.run.map fun run => s.statement normalizeUrl sha256Hex cleanChunks run foreignKeys
  | .stop => s.run.map s.fail

end Steps

end Webfang
