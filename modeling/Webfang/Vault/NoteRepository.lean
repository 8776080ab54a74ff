import Webfang.Domain.Sha256Hex
import Webfang.Lib.KeyedRows
import Webfang.Persistence.EmbeddingBlob

/-!
# The tables of vault notes

`infrastructure/persistence/sqlite.rs`: the tables `notes`, with a unique `path` and an
`AUTOINCREMENT` id, and `note_chunks`, whose rows go when their note is deleted.
-/

namespace Webfang

open KeyedRows

/-- A row of `notes`. -/
structure NoteRow where
  id : Nat
  path : String
  contentHash : String
  mtimeSecs : Int
  deriving DecidableEq, Repr

/-- A row of `note_chunks`. -/
structure NoteChunkRow where
  noteId : Nat
  chunkIndex : Nat
  content : String
  embeddingVector : Option (List UInt8)
  deriving DecidableEq, Repr

structure NoteTables where
  notes : List NoteRow
  noteChunks : List NoteChunkRow
  /-- the last id that `AUTOINCREMENT` has given to a note -/
  sequence : Nat
  deriving DecidableEq, Repr

/-- A chunk as a search reads it. -/
structure NoteChunkVector where
  notePath : String
  content : String
  chunkIndex : Nat
  embedding : List UInt32
  deriving DecidableEq, Repr

structure IndexedNoteMeta where
  path : String
  contentHash : Sha256Hex
  mtimeSecs : Int

namespace NoteTables

/-- The tables that `setup_schema` creates. -/
def empty : NoteTables := ⟨[], [], 0⟩

/-- The row of a path. -/
def noteAt (db : NoteTables) (path : String) : Option NoteRow :=
  rowAt NoteRow.path db.notes path

/-- `INSERT INTO notes … ON CONFLICT(path) DO UPDATE`. -/
def upsertNote (db : NoteTables) (path contentHash : String) (mtimeSecs : Int) : NoteTables :=
  match db.noteAt path with
  | some _ => { db with
      notes := db.notes.map fun row =>
        if row.path = path then { row with contentHash, mtimeSecs } else row }
  | none => { db with
      notes := db.notes ++ [⟨db.sequence + 1, path, contentHash, mtimeSecs⟩]
      sequence := db.sequence + 1 }

/-- `index_note_transactional`. -/
def indexNoteTransactional (db : NoteTables) (path contentHash : String) (mtimeSecs : Int)
    (chunks : List (String × Option (List UInt32))) : Except String NoteTables :=
  let tx := db.upsertNote path contentHash mtimeSecs
  match tx.noteAt path with
  | none => .error "index_note_transactional: Query returned no rows"
  | some row => .ok { tx with
      noteChunks := tx.noteChunks ++ chunks.mapIdx fun i chunk =>
        ⟨row.id, i, chunk.1, chunk.2.map f32SliceToBytes⟩ }

/-- The columns that `load_all_vectors` selects. -/
def selectVectors (db : NoteTables) : List (String × String × Nat × List UInt8) :=
  db.noteChunks.filterMap fun nc =>
    (rowAt NoteRow.id db.notes nc.noteId).bind fun n =>
      nc.embeddingVector.map fun bytes => (n.path, nc.content, nc.chunkIndex, bytes)

/-- `load_all_vectors`. -/
def loadAllVectors (db : NoteTables) : Except String (List NoteChunkVector) :=
  db.selectVectors.mapM fun row =>
    (bytesToF32Vec row.2.2.2).map fun embedding => ⟨row.1, row.2.1, row.2.2.1, embedding⟩

/-- `delete_note`: the foreign keys of its connection are on, and the chunks go with the note. -/
def deleteNote (db : NoteTables) (path : String) : NoteTables :=
  { db with
    notes := db.notes.filter fun row => row.path ≠ path
    noteChunks := db.noteChunks.filter fun nc =>
      ¬ ∃ row ∈ db.notes, row.path = path ∧ row.id = nc.noteId }

/-- `list_indexed_notes`: a stored hash that is none ends the listing. -/
def listIndexedNotes (db : NoteTables) : Except String (List IndexedNoteMeta) :=
  db.notes.mapM fun row =>
    match Sha256Hex.parse row.contentHash with
    | .ok contentHash => .ok ⟨row.path, contentHash, row.mtimeSecs⟩
    | .error e => .error s!"content_hash almacenado inválido: {e}"

end NoteTables

end Webfang
