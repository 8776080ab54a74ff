import Webfang.Vault.NoteRepository

/-!
# Syncing a vault with its index

`application/vault_search.rs` and `infrastructure/obsidian/vault_reader.rs`: the notes of a vault
are chunked, embedded and persisted when they are new or their hash has changed, and deleted when
they are gone.
-/

namespace Webfang

open KeyedRows

/-- A Markdown file of a vault. -/
structure VaultFile where
  path : String
  content : String
  mtimeSecs : Int
  deriving DecidableEq, Repr

structure VaultNote where
  path : String
  content : String
  mtimeSecs : Int
  contentHash : Sha256Hex

/-- `read_vault_notes`, of the files it reads. -/
def readVaultNotes (sha256Hex : String → Sha256Hex) (files : List VaultFile) : List VaultNote :=
  files.map fun file => ⟨file.path, file.content, file.mtimeSecs, sha256Hex file.content⟩

/-- `TextChunker` and `EmbeddingPort`. -/
structure VaultPorts where
  chunkText : String → Except String (List String)
  embedBatch : List String → Except String (List (List UInt32))

/-- What a sync did. -/
structure SyncSummary where
  indexed : Nat := 0
  updated : Nat := 0
  deleted : Nat := 0
  unchanged : Nat := 0
  deriving DecidableEq, Repr

section Sync

variable (ports : VaultPorts)

/-- `index_note`. -/
def indexNote (db : NoteTables) (path content : String) (contentHash : Sha256Hex)
    (mtimeSecs : Int) : Except String (NoteTables × Nat) := do
  let chunkTexts ← ports.chunkText content
  let embeddings ← if chunkTexts.isEmpty then pure [] else ports.embedBatch chunkTexts
  let chunksWithEmbeddings := (chunkTexts.zip embeddings).map fun chunk => (chunk.1, some chunk.2)
  let db ← db.indexNoteTransactional path contentHash.val mtimeSecs chunksWithEmbeddings
  return (db, chunkTexts.length)

/-- One note of the vault; a note that fails is skipped. -/
def syncNote (indexed : List IndexedNoteMeta) (acc : NoteTables × SyncSummary)
    (note : VaultNote) : NoteTables × SyncSummary :=
  match rowAt IndexedNoteMeta.path indexed note.path with
  | none =>
      match indexNote ports acc.1 note.path note.content note.contentHash note.mtimeSecs with
      | .ok (db, _) => (db, { acc.2 with indexed := acc.2.indexed + 1 })
      | .error _ => acc
  | some stored =>
      if stored.contentHash ≠ note.contentHash then
        match indexNote ports acc.1 note.path note.content note.contentHash note.mtimeSecs with
        | .ok (db, _) => (db, { acc.2 with updated := acc.2.updated + 1 })
        | .error _ => acc
      else
        (acc.1, { acc.2 with unchanged := acc.2.unchanged + 1 })

/-- One note of the index; it is deleted when the vault has it no more. -/
def removeStale (notes : List VaultNote) (acc : NoteTables × SyncSummary)
    (stored : IndexedNoteMeta) : NoteTables × SyncSummary :=
  if stored.path ∈ notes.map VaultNote.path then acc
  else (acc.1.deleteNote stored.path, { acc.2 with deleted := acc.2.deleted + 1 })

/-- `sync_vault`, behind the reading of the vault. -/
def syncVault (notes : List VaultNote) (db : NoteTables) :
    Except String (NoteTables × SyncSummary) := do
  let indexed ← db.listIndexedNotes
  let acc := notes.foldl (syncNote ports indexed) (db, {})
  return indexed.foldl (removeStale notes) acc

/-- The vault is synced with each of these contents in turn. -/
def syncVaults (sha256Hex : String → Sha256Hex) (db : NoteTables) (vaults : List (List VaultFile)) :
    Except String NoteTables :=
  vaults.foldlM (fun db files =>
    Prod.fst <$> syncVault ports (readVaultNotes sha256Hex files) db) db

end Sync

end Webfang
