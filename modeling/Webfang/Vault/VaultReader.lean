import Webfang.Vault.SyncVault
import Webfang.Lib.Traversal
import Webfang.Lib.Utf8

/-!
# Syncing the index with a walk of the vault

`infrastructure/obsidian/vault_reader.rs` in front of `sync_vault`: the walk of the vault yields
entries and errors, the errors are skipped, and what is read of the entries is all that the sync
knows of the vault.
-/

namespace Webfang

open KeyedRows

/-! ## The walk -/

/-- The names of an entry from the root of the vault on; the root has none. -/
abbrev VaultPath := List (List UInt8)

inductive FileType where
  | dir
  | file
  | other
  deriving DecidableEq, Repr

/-- `walkdir::DirEntry`, with what the file system answers about its path. -/
structure DirEntry where
  path : VaultPath
  fileType : FileType
  /-- `std::fs::read` -/
  bytes : Except String (List UInt8)
  /-- `std::fs::metadata`: the seconds of `modified` since the epoch, where there are such -/
  metadata : Except String (Option Nat)

/-- What `WalkDir` yields; the root of the vault has the empty path. -/
inductive WalkItem where
  | entry (e : DirEntry)
  /-- reading the directory, or following the entry, at this path has failed -/
  | error (path : VaultPath)

def WalkItem.path : WalkItem → VaultPath
  | .entry e => e.path
  | .error path => path

/-- The path as text, from the root of the vault on: `to_string_lossy`. -/
def VaultPath.relative (path : VaultPath) : List Char :=
  (Utf8.decode (Utf8.fromUtf8Lossy (List.intercalate [0x2F] path))).getD []

namespace DirEntry

def fileName (e : DirEntry) : List UInt8 := e.path.getLastD []

/-- `Path::extension`: what stands behind the last dot, where something stands before it. -/
def extension (e : DirEntry) : Option (List UInt8) :=
  if 0x2E ∈ e.fileName.drop 1 then some (e.fileName.reverse.takeWhile (· ≠ 0x2E)).reverse
  else none

/-- `eq_ignore_ascii_case("md")`. -/
def isMarkdown (e : DirEntry) : Bool :=
  e.extension.any fun ext =>
    (ext.map fun b => if 0x41 ≤ b ∧ b ≤ 0x5A then b + 0x20 else b) = [0x6D, 0x64]

/-- `should_walk_entry`; a name that is no UTF-8 hides no directory. -/
def shouldWalkEntry (e : DirEntry) : Bool :=
  if e.path.length = 0 then true
  else if e.fileType = .dir then
    match Utf8.decode e.fileName with
    | some name => name.head? ≠ some '.'
    | none => true
  else true

end DirEntry

/-- `filter_entry`: behind a directory that is not walked, what lies inside it is passed by. -/
def filterEntry : Option VaultPath → List WalkItem → List WalkItem
  | _, [] => []
  | skipped, item :: walk =>
      if skipped.any (·.isPrefixOf item.path) then filterEntry skipped walk
      else
        match item with
        | .error path => .error path :: filterEntry none walk
        | .entry e =>
            if e.shouldWalkEntry then .entry e :: filterEntry none walk
            else filterEntry (some e.path) walk

/-! ## The notes of the walk -/

section Reader

variable (sha256Hex : String → Sha256Hex)

/-- `process_vault_entry`. -/
def processVaultEntry (e : DirEntry) : Except String (Option VaultNote) :=
  if e.fileType ≠ .file then .ok none
  else if !e.isMarkdown then .ok none
  else do
    let bytes ← e.bytes
    match Utf8.decode bytes with
    | none => .ok none
    | some content =>
        let mtime ← e.metadata
        let content := String.ofList content
        .ok (some ⟨String.ofList e.path.relative, content, mtime.getD 0, sha256Hex content⟩)

/-- The loop of `read_vault_notes`: an error of the walk is skipped, one of a note ends it. -/
def collectNotes : List WalkItem → Except String (List VaultNote)
  | [] => .ok []
  | .error _ :: walk => collectNotes walk
  | .entry e :: walk => do
      let note ← processVaultEntry sha256Hex e
      let notes ← collectNotes walk
      return note.toList ++ notes

/-- `read_vault_notes`, of what the walk would yield if it hid nothing. -/
def readWalkedNotes (walk : List WalkItem) : Except String (List VaultNote) :=
  collectNotes sha256Hex (filterEntry none walk)

/-- `sync_vault`: the answer, and the tables it leaves. -/
def syncWalkedVault (ports : VaultPorts) (walk : List WalkItem) (db : NoteTables) :
    Except String SyncSummary × NoteTables :=
  match readWalkedNotes sha256Hex walk with
  | .error e => (.error e, db)
  | .ok notes =>
      match syncVault ports notes db with
      | .error e => (.error e, db)
      | .ok (db', summary) => (.ok summary, db')

end Reader

/-! ## Which rows may go -/

/-- The item shows a file at the path of a note, or an error at it or at a directory above. -/
def WalkItem.MayHold (note : String) : WalkItem → Prop
  | .entry e => e.fileType = .file ∧ e.path.relative = note.toList
  | .error path => path = [] ∨ path.relative = note.toList ∨
      path.relative ++ ['/'] <+: note.toList

/-- An error leaves the tables as they are, and a sync that succeeds has walked the root of the
vault and removes those notes only that nothing in the walk may hold. -/
def RemovesAbsentOnly (walk : List WalkItem) (db : NoteTables) :
    Except String SyncSummary × NoteTables → Prop
  | (.error _, after) => after = db
  | (.ok _, after) => .error [] ∉ walk ∧
      ∀ row ∈ db.notes, row.path ∉ after.notes.map NoteRow.path →
        ∀ item ∈ walk, ¬ item.MayHold row.path

/-- A note that ends the reading: its file cannot be read, or its metadata. -/
def DirEntry.Unreadable (e : DirEntry) : Prop :=
  e.fileType = .file ∧ e.isMarkdown = true ∧
    ((∃ reason, e.bytes = .error reason) ∨
      ∃ bytes content reason, e.bytes = .ok bytes ∧ Utf8.decode bytes = some content ∧
        e.metadata = .error reason)

/-- A note that is read: a Markdown file in UTF-8. -/
def DirEntry.IsNote (e : DirEntry) : Prop :=
  e.fileType = .file ∧ e.isMarkdown = true ∧
    ∃ bytes, e.bytes = .ok bytes ∧ (Utf8.decode bytes).isSome

/-- The walk passes by a note at this path that is read. -/
def ReadsNoteAt (walk : List WalkItem) (note : String) : Prop :=
  ∃ e, .entry e ∈ filterEntry none walk ∧ e.IsNote ∧ e.path.relative = note.toList

/-- The root was walked, and whatever note of the index the walk may hold it reads. -/
def IndexInView (walk : List WalkItem) (db : NoteTables) : Prop :=
  .error [] ∉ walk ∧
    ∀ row ∈ db.notes, (∃ item ∈ walk, item.MayHold row.path) → ReadsNoteAt walk row.path

/-- The sync reports an error: a note cannot be read, or the index cannot be listed. -/
def EndsWithError (walk : List WalkItem) (db : NoteTables) : Prop :=
  (∃ e, .entry e ∈ filterEntry none walk ∧ e.Unreadable) ∨
    ∃ row ∈ db.notes, ∃ reason, Sha256Hex.parse row.contentHash = .error reason

/-! ## What is read -/

section Reads

variable (sha256Hex : String → Sha256Hex)

/-- An entry that is no Markdown file is passed by. -/
theorem processVaultEntry_other {e : DirEntry} (other : ¬ (e.fileType = .file ∧ e.isMarkdown)) :
    processVaultEntry sha256Hex e = .ok none := by
  unfold processVaultEntry
  by_cases file : e.fileType = .file
  · have markdown : e.isMarkdown = false := by simpa [file] using other
    simp [file, markdown]
  · rw [if_pos file]

/-- An entry ends the reading just when it is a note that cannot be read. -/
theorem processVaultEntry_error_iff (e : DirEntry) :
    (∃ reason, processVaultEntry sha256Hex e = .error reason) ↔ e.Unreadable := by
  by_cases note : e.fileType = .file ∧ e.isMarkdown
  · obtain ⟨file, markdown⟩ := note
    simp only [processVaultEntry, DirEntry.Unreadable, file, markdown, ne_eq, not_true,
      Bool.not_true, Bool.false_eq_true, if_false, true_and]
    cases read : e.bytes with
    | error reason => simp [bind, Except.bind]
    | ok bytes =>
        cases decoded : Utf8.decode bytes with
        | none => simp [bind, Except.bind, decoded]
        | some content => cases e.metadata <;> simp [bind, Except.bind, decoded]
  · rw [processVaultEntry_other sha256Hex note]
    constructor
    · intro ended
      obtain ⟨reason, failed⟩ := ended
      cases failed
    · intro unreadable
      exact absurd ⟨unreadable.1, unreadable.2.1⟩ note

/-- What is read of an entry stands at the path of the entry. -/
theorem mem_path_processVaultEntry {e : DirEntry} {note : Option VaultNote}
    (read : processVaultEntry sha256Hex e = .ok note) (path : String) :
    path ∈ note.toList.map VaultNote.path ↔ e.IsNote ∧ e.path.relative = path.toList := by
  by_cases markdownFile : e.fileType = .file ∧ e.isMarkdown
  · obtain ⟨file, markdown⟩ := markdownFile
    simp only [processVaultEntry, file, markdown, ne_eq, not_true, Bool.not_true,
      Bool.false_eq_true, if_false] at read
    simp only [DirEntry.IsNote, file, markdown, true_and]
    cases bytes : e.bytes with
    | error reason => simp [bind, Except.bind, bytes] at read
    | ok bytes' =>
        cases decoded : Utf8.decode bytes' with
        | none =>
            simp only [bytes, bind, Except.bind, decoded, Except.ok.injEq] at read
            simp [← read, decoded]
        | some content =>
            cases metadata : e.metadata with
            | error reason => simp [bytes, bind, Except.bind, decoded, metadata] at read
            | ok mtime =>
                simp only [bytes, bind, Except.bind, decoded, metadata, Except.ok.injEq] at read
                subst read
                have same : path = String.ofList e.path.relative ↔
                    e.path.relative = path.toList := by
                  rw [eq_comm, ← String.toList_inj, String.toList_ofList]
                simp [decoded, same]
  · rw [processVaultEntry_other sha256Hex markdownFile] at read
    cases read
    refine iff_of_false (by simp) fun both => markdownFile ⟨both.1.1, both.1.2.1⟩

/-- The reading ends with an error just when the walk meets a note that cannot be read. -/
theorem collectNotes_error_iff (walk : List WalkItem) :
    (∃ reason, collectNotes sha256Hex walk = .error reason) ↔
      ∃ e, .entry e ∈ walk ∧ e.Unreadable := by
  induction walk with
  | nil => simp [collectNotes]
  | cons item walk ih =>
      cases item with
      | error path => simpa [collectNotes] using ih
      | entry e =>
          have here := processVaultEntry_error_iff sha256Hex e
          have split : (∃ e', .entry e' ∈ WalkItem.entry e :: walk ∧ e'.Unreadable) ↔
              e.Unreadable ∨ ∃ e', .entry e' ∈ walk ∧ e'.Unreadable := by
            simp only [List.mem_cons, WalkItem.entry.injEq, or_and_right, exists_or,
              exists_eq_left]
          rw [split, ← here, ← ih, collectNotes]
          cases processVaultEntry sha256Hex e with
          | error reason => simp [bind, Except.bind]
          | ok note =>
              cases collectNotes sha256Hex walk <;> simp [bind, Except.bind, pure, Except.pure]

/-- The notes that are read stand at the paths of the notes of the walk. -/
theorem mem_path_collectNotes {walk : List WalkItem} {notes : List VaultNote}
    (read : collectNotes sha256Hex walk = .ok notes) (path : String) :
    path ∈ notes.map VaultNote.path ↔
      ∃ e, .entry e ∈ walk ∧ e.IsNote ∧ e.path.relative = path.toList := by
  induction walk generalizing notes with
  | nil =>
      cases read
      simp
  | cons item walk ih =>
      cases item with
      | error _ => simpa using ih read
      | entry e =>
          obtain ⟨note, here, later⟩ := Traversal.bind_eq_ok_iff.mp read
          obtain ⟨others, rest, same⟩ := Traversal.bind_eq_ok_iff.mp later
          cases same
          rw [List.map_append, List.mem_append, mem_path_processVaultEntry sha256Hex here, ih rest]
          simp only [List.mem_cons, WalkItem.entry.injEq, or_and_right, exists_or, exists_eq_left]

/-- What a walk reads is what the reader reads of some Markdown files. -/
theorem exists_files_of_collectNotes {walk : List WalkItem} {notes : List VaultNote}
    (read : collectNotes sha256Hex walk = .ok notes) :
    ∃ files, notes = readVaultNotes sha256Hex files := by
  induction walk generalizing notes with
  | nil =>
      cases read
      exact ⟨[], rfl⟩
  | cons item walk ih =>
      cases item with
      | error path => exact ih read
      | entry e =>
          obtain ⟨note, here, later⟩ := Traversal.bind_eq_ok_iff.mp read
          obtain ⟨others, rest, same⟩ := Traversal.bind_eq_ok_iff.mp later
          cases same
          obtain ⟨files, rfl⟩ := ih rest
          cases note with
          | none => exact ⟨files, rfl⟩
          | some note =>
              have hashed : note.contentHash = sha256Hex note.content := by
                simp only [processVaultEntry] at here
                split at here
                · cases here
                · split at here
                  · cases here
                  · obtain ⟨bytes, -, decoded⟩ := Traversal.bind_eq_ok_iff.mp here
                    split at decoded
                    · cases decoded
                    · obtain ⟨mtime, -, same⟩ := Traversal.bind_eq_ok_iff.mp decoded
                      cases same
                      rfl
              refine ⟨⟨note.path, note.content, note.mtimeSecs⟩ :: files, ?_⟩
              unfold readVaultNotes
              rw [List.map_cons, ← hashed]
              rfl

end Reads

/-! ## What is removed -/

section Removes

variable (ports : VaultPorts)

/-- An upsert keeps the paths of the table. -/
theorem path_mem_upsertNote {db : NoteTables} {path : String}
    (there : path ∈ db.notes.map NoteRow.path) (note contentHash : String) (mtimeSecs : Int) :
    path ∈ (db.upsertNote note contentHash mtimeSecs).notes.map NoteRow.path := by
  unfold NoteTables.upsertNote
  split
  · have same : (db.notes.map fun row =>
        if row.path = note then { row with contentHash, mtimeSecs } else row).map NoteRow.path =
          db.notes.map NoteRow.path := by
      rw [List.map_map]
      refine List.map_congr_left fun row _ => ?_
      rw [Function.comp_apply]
      split <;> rfl
    rw [same]
    exact there
  · rw [List.map_append]
    exact List.mem_append_left _ there

/-- Indexing a note keeps the paths of the table. -/
theorem path_mem_indexNote {db db' : NoteTables} {path : String}
    (there : path ∈ db.notes.map NoteRow.path) {note content : String} {contentHash : Sha256Hex}
    {mtimeSecs : Int} {count : Nat}
    (indexed : indexNote ports db note content contentHash mtimeSecs = .ok (db', count)) :
    path ∈ db'.notes.map NoteRow.path := by
  have persisted : ∃ chunks,
      db.indexNoteTransactional note contentHash.val mtimeSecs chunks = .ok db' := by
    obtain ⟨texts, -, embeds⟩ := Traversal.bind_eq_ok_iff.mp indexed
    dsimp only at embeds
    split at embeds
    all_goals
      obtain ⟨embeddings, -, persists⟩ := Traversal.bind_eq_ok_iff.mp embeds
      obtain ⟨tables, ok, same⟩ := Traversal.bind_eq_ok_iff.mp persists
      cases same
      exact ⟨_, ok⟩
  obtain ⟨chunks, ok⟩ := persisted
  rw [NoteTables.indexNoteTransactional] at ok
  split at ok
  · cases ok
  · cases ok
    exact path_mem_upsertNote there note contentHash.val mtimeSecs

/-- A note of the vault keeps the paths of the table. -/
theorem path_mem_syncNote {acc : NoteTables × SyncSummary} {path : String}
    (there : path ∈ acc.1.notes.map NoteRow.path) (indexed : List IndexedNoteMeta)
    (note : VaultNote) :
    path ∈ (syncNote ports indexed acc note).1.notes.map NoteRow.path := by
  unfold syncNote
  split
  · split
    · exact path_mem_indexNote ports there ‹_›
    · exact there
  · split
    · split
      · exact path_mem_indexNote ports there ‹_›
      · exact there
    · exact there

/-- The notes of the vault keep the paths of the table. -/
theorem path_mem_foldl_syncNote (indexed : List IndexedNoteMeta) (notes : List VaultNote)
    {acc : NoteTables × SyncSummary} {path : String}
    (there : path ∈ acc.1.notes.map NoteRow.path) :
    path ∈ (notes.foldl (syncNote ports indexed) acc).1.notes.map NoteRow.path := by
  induction notes generalizing acc with
  | nil => exact there
  | cons note notes ih => exact ih (path_mem_syncNote ports there indexed note)

/-- Of the table, the paths stay that the vault has or the index had not. -/
theorem path_mem_foldl_removeStale (notes : List VaultNote) (indexed : List IndexedNoteMeta)
    (acc : NoteTables × SyncSummary) (path : String) :
    path ∈ (indexed.foldl (removeStale notes) acc).1.notes.map NoteRow.path ↔
      path ∈ acc.1.notes.map NoteRow.path ∧
        (path ∈ indexed.map IndexedNoteMeta.path → path ∈ notes.map VaultNote.path) := by
  induction indexed generalizing acc with
  | nil => simp
  | cons stored indexed ih =>
      have here : path ∈ (removeStale notes acc stored).1.notes.map NoteRow.path ↔
          path ∈ acc.1.notes.map NoteRow.path ∧
            (path = stored.path → path ∈ notes.map VaultNote.path) := by
        unfold removeStale
        split
        next kept => exact (and_iff_left fun same => same ▸ kept).symm
        next gone =>
            have other : (path = stored.path → path ∈ notes.map VaultNote.path) ↔
                path ≠ stored.path :=
              ⟨fun kept same => gone (same ▸ kept same), fun other same => absurd same other⟩
            rw [other]
            simp only [NoteTables.deleteNote, List.mem_map, List.mem_filter, decide_eq_true_eq]
            constructor
            · rintro ⟨row, ⟨member, apart⟩, rfl⟩
              exact ⟨⟨row, member, rfl⟩, apart⟩
            · rintro ⟨⟨row, member, rfl⟩, apart⟩
              exact ⟨row, ⟨member, apart⟩, rfl⟩
      rw [List.foldl_cons, ih, here, List.map_cons, List.mem_cons, or_imp, and_assoc]

/-- The listing of the index fails at a row whose hash is none. -/
theorem listIndexedNotes_error_iff (db : NoteTables) :
    (∃ reason, db.listIndexedNotes = .error reason) ↔
      ∃ row ∈ db.notes, ∃ reason, Sha256Hex.parse row.contentHash = .error reason := by
  rw [← not_iff_not]
  have succeeds : (¬ ∃ reason, db.listIndexedNotes = .error reason) ↔
      ∃ indexed, db.listIndexedNotes = .ok indexed := by
    cases db.listIndexedNotes <;> simp
  rw [succeeds]
  unfold NoteTables.listIndexedNotes
  simp only [Traversal.mapM_eq_ok_iff, Traversal.exists_forall₂_iff, not_exists, not_and]
  refine forall₂_congr fun row _ => ?_
  cases Sha256Hex.parse row.contentHash <;> simp

theorem map_path_of_listIndexedNotes {db : NoteTables} {indexed : List IndexedNoteMeta}
    (listed : db.listIndexedNotes = .ok indexed) :
    indexed.map IndexedNoteMeta.path = db.notes.map NoteRow.path := by
  unfold NoteTables.listIndexedNotes at listed
  rw [Traversal.mapM_eq_ok_iff] at listed
  generalize db.notes = rows at listed
  induction listed with
  | nil => rfl
  | cons here _ ih =>
      rw [List.map_cons, List.map_cons, ih]
      split at here <;> cases here
      rfl

/-- Behind a sync that succeeds, a path of the index is gone just when no note of the vault has
it. -/
theorem path_mem_syncVault {notes : List VaultNote} {db after : NoteTables}
    {summary : SyncSummary} (synced : syncVault ports notes db = .ok (after, summary))
    {path : String} (there : path ∈ db.notes.map NoteRow.path) :
    path ∈ after.notes.map NoteRow.path ↔ path ∈ notes.map VaultNote.path := by
  unfold syncVault at synced
  cases listed : db.listIndexedNotes with
  | error reason => simp [listed, bind, Except.bind] at synced
  | ok indexed =>
      simp only [listed, bind, Except.bind, pure, Except.pure, Except.ok.injEq] at synced
      have final := path_mem_foldl_removeStale notes indexed
        (notes.foldl (syncNote ports indexed) (db, {})) path
      rw [synced, map_path_of_listIndexedNotes listed] at final
      rw [final]
      constructor
      · exact fun both => both.2 there
      · exact fun kept => ⟨path_mem_foldl_syncNote ports indexed notes there, fun _ => kept⟩

theorem syncVault_error_iff (notes : List VaultNote) (db : NoteTables) :
    (∃ reason, syncVault ports notes db = .error reason) ↔
      ∃ row ∈ db.notes, ∃ reason, Sha256Hex.parse row.contentHash = .error reason := by
  rw [← listIndexedNotes_error_iff]
  unfold syncVault
  cases db.listIndexedNotes <;> simp [bind, Except.bind, pure, Except.pure]

/-- A sync removes absent notes only just when it ends with an error, or has walked the root and
read whatever note of the index the walk may hold. -/
theorem syncWalkedVault_removesAbsentOnly_iff (sha256Hex : String → Sha256Hex)
    (walk : List WalkItem) (db : NoteTables) :
    RemovesAbsentOnly walk db (syncWalkedVault sha256Hex ports walk db) ↔
      EndsWithError walk db ∨ IndexInView walk db := by
  unfold EndsWithError syncWalkedVault
  cases read : readWalkedNotes sha256Hex walk with
  | error reason =>
      have unreadable := (collectNotes_error_iff sha256Hex _).mp ⟨reason, read⟩
      exact iff_of_true rfl (.inl (.inl unreadable))
  | ok notes =>
      have readable : ¬ ∃ e, .entry e ∈ filterEntry none walk ∧ e.Unreadable := by
        rw [← collectNotes_error_iff sha256Hex]
        intro ⟨reason, failed⟩
        cases read.symm.trans failed
      rw [or_iff_right readable, ← syncVault_error_iff ports notes]
      dsimp only
      cases synced : syncVault ports notes db with
      | error reason => exact iff_of_true rfl (.inl ⟨reason, rfl⟩)
      | ok result =>
          obtain ⟨after, summary⟩ := result
          rw [or_iff_right (by simp)]
          refine and_congr_right fun _ => forall₂_congr fun row member => ?_
          have kept := path_mem_syncVault ports synced (List.mem_map_of_mem member)
          rw [kept, mem_path_collectNotes sha256Hex read, ← not_imp_not]
          simp only [not_not, not_forall, exists_prop]
          rfl

end Removes

/-! ## A root that cannot be read -/

def originalEntry : DirEntry :=
  ⟨["a.md".toUTF8.toList], .file, .ok (Utf8.encode originalNote.content.toList),
    .ok (some 1700000000)⟩

/-- The vault of one note is synced, and once more when its root is missing: the sync succeeds,
and the note is gone from the index. -/
theorem missing_root_empties_index :
    let db := (syncWalkedVault noteDigest stubPorts [.entry originalEntry] .empty).2
    let result := syncWalkedVault noteDigest stubPorts [.error []] db
    db.notes.map NoteRow.path = ["a.md"] ∧ result.1.toOption = some { deleted := 1 } ∧
      result.2.notes = [] ∧ ¬ RemovesAbsentOnly [.error []] db result := by
  intro db result
  have synced : result.1.toOption = some { deleted := 1 } := by decide +kernel
  refine ⟨by decide +kernel, synced, by decide +kernel, fun kept => ?_⟩
  rw [show result = (result.1, result.2) from rfl] at kept
  cases answer : result.1 with
  | error reason =>
      rw [answer] at synced
      cases synced
  | ok summary =>
      rw [answer] at kept
      exact kept.1 (List.mem_singleton.mpr rfl)

end Webfang
