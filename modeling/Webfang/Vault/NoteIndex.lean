import Webfang.Vault.VaultSearch

/-!
# What the note tables index

The tables of a vault represent a map from the paths of its notes to their hashes and chunks.
Indexing a note again puts its new chunks behind the ones already stored, and deleting it
removes them all.
-/

namespace Webfang

open KeyedRows

/-- A chunk of a note, with its position and its vector. -/
structure IndexedChunk where
  chunkIndex : Nat
  content : String
  embedding : List UInt32
  deriving DecidableEq, Repr

/-- What is stored of a note. -/
structure IndexedNote where
  contentHash : Sha256Hex
  chunks : List IndexedChunk

abbrev NoteIndex := String → Option IndexedNote

namespace IndexedChunk

def toRow (noteId : Nat) (c : IndexedChunk) : NoteChunkRow :=
  ⟨noteId, c.chunkIndex, c.content, some (f32SliceToBytes c.embedding)⟩

def toVector (path : String) (c : IndexedChunk) : NoteChunkVector :=
  ⟨path, c.content, c.chunkIndex, c.embedding⟩

end IndexedChunk

namespace VaultPorts

/-- The chunks of a content, each with its vector. -/
def chunks (ports : VaultPorts) (content : String) : List IndexedChunk :=
  let texts := (ports.chunkText content).toOption.getD []
  let embeddings := (ports.embedBatch texts).toOption.getD []
  texts.mapIdx fun i text => ⟨i, text, embeddings.getD i []⟩

/-- The content is chunked, and its chunks are embedded, one vector for each. -/
def Succeeds (ports : VaultPorts) (content : String) : Prop :=
  ∃ texts, ports.chunkText content = .ok texts ∧
    (texts ≠ [] → ∃ embeddings, ports.embedBatch texts = .ok embeddings ∧
      embeddings.length = texts.length)

/-- The chunks that are persisted are those of the content, in their positions. -/
theorem rows_chunks (ports : VaultPorts) (content : String) (noteId : Nat) :
    (((ports.chunks content).map fun c => (c.content, some c.embedding)).mapIdx fun i chunk =>
      (⟨noteId, i, chunk.1, chunk.2.map f32SliceToBytes⟩ : NoteChunkRow)) =
      (ports.chunks content).map (·.toRow noteId) := by
  rw [chunks, List.mapIdx_eq_iff]
  intro i
  simp only [List.getElem?_map, List.getElem?_mapIdx, Option.map_map]
  rfl

end VaultPorts

/-- What `index_note` persists of a content that is chunked and embedded. -/
theorem indexNote_eq {ports : VaultPorts} {content : String} (succeeds : ports.Succeeds content)
    (db : NoteTables) (path : String) (contentHash : Sha256Hex) (mtimeSecs : Int) :
    ∃ count, indexNote ports db path content contentHash mtimeSecs =
      (db.indexNoteTransactional path contentHash.val mtimeSecs
        ((ports.chunks content).map fun c => (c.content, some c.embedding))).map (·, count) := by
  obtain ⟨texts, chunked, embeds⟩ := succeeds
  refine ⟨texts.length, ?_⟩
  by_cases none : texts = []
  · subst none
    rw [indexNote, VaultPorts.chunks, chunked]
    rfl
  · obtain ⟨embeddings, embedded, length⟩ := embeds none
    have zipped : ((texts.zip embeddings).map fun chunk => (chunk.1, some chunk.2)) =
        (ports.chunks content).map fun c => (c.content, some c.embedding) := by
      rw [VaultPorts.chunks, chunked, Except.toOption, Option.getD_some, embedded]
      refine List.ext_getElem (by simp [length]) fun i left _ => ?_
      have inside : i < embeddings.length := by
        rw [List.length_map, List.length_zip] at left
        omega
      simp [Except.toOption, List.getElem?_eq_getElem inside]
    have some : texts.isEmpty = false := List.isEmpty_eq_false_iff.mpr none
    rw [indexNote, chunked, ← zipped]
    simp only [bind, Except.bind, some, Bool.false_eq_true, if_false, embedded]
    cases db.indexNoteTransactional path contentHash.val mtimeSecs _ <;> rfl

/-! ## What the tables represent -/

structure Represents (db : NoteTables) (ix : NoteIndex) : Prop where
  row : ∀ path, (db.noteAt path).map NoteRow.contentHash = (ix path).map (·.contentHash.val)
  chunks : ∀ path row stored, db.noteAt path = some row → ix path = some stored →
    (db.noteChunks.filter fun nc => nc.noteId = row.id) = stored.chunks.map (·.toRow row.id)
  paths : (db.notes.map NoteRow.path).Nodup
  ids : (db.notes.map NoteRow.id).Nodup
  sequence : ∀ row ∈ db.notes, row.id ≤ db.sequence
  owned : ∀ nc ∈ db.noteChunks, nc.noteId ∈ db.notes.map NoteRow.id

theorem represents_empty : Represents .empty fun _ => none where
  row _ := rfl
  chunks _ _ _ found := nomatch found
  paths := List.nodup_nil
  ids := List.nodup_nil
  sequence _ member := nomatch member
  owned _ member := nomatch member

namespace Represents

variable {db : NoteTables} {ix : NoteIndex}

theorem noteAt_eq_none (rep : Represents db ix) {path : String} :
    db.noteAt path = none ↔ ix path = none := by
  rw [← Option.map_eq_none_iff, rep.row, Option.map_eq_none_iff]

/-- The row of a path that is stored. -/
theorem exists_row (rep : Represents db ix) {path : String} {stored : IndexedNote}
    (there : ix path = some stored) :
    ∃ row, db.noteAt path = some row ∧ row.contentHash = stored.contentHash.val := by
  have row := rep.row path
  rw [there, Option.map_some, Option.map_eq_some_iff] at row
  exact row

/-- Two paths have rows of different ids. -/
theorem id_ne (rep : Represents db ix) {p q : String} {row other : NoteRow}
    (found : db.noteAt p = some row) (foundOther : db.noteAt q = some other) (ne : p ≠ q) :
    row.id ≠ other.id := by
  obtain ⟨member, path⟩ := rowAt_some found
  obtain ⟨memberOther, pathOther⟩ := rowAt_some foundOther
  intro same
  have rows := List.inj_on_of_nodup_map rep.ids member memberOther same
  exact ne (path.symm.trans ((congrArg NoteRow.path rows).trans pathOther))

/-! ### Indexing a note -/

/-- A new note gets a row that no chunk refers to yet. -/
theorem upsertNote_new (rep : Represents db ix) {path : String} (absent : ix path = none)
    (contentHash : Sha256Hex) (mtimeSecs : Int) :
    Represents (db.upsertNote path contentHash.val mtimeSecs)
      (Function.update ix path (some ⟨contentHash, []⟩)) := by
  have none := rep.noteAt_eq_none.mpr absent
  have next : db.upsertNote path contentHash.val mtimeSecs = { db with
      notes := db.notes ++ [⟨db.sequence + 1, path, contentHash.val, mtimeSecs⟩]
      sequence := db.sequence + 1 } := by
    rw [NoteTables.upsertNote, none]
  have fresh : db.sequence + 1 ∉ db.notes.map NoteRow.id := by
    intro used
    obtain ⟨row, member, same⟩ := List.mem_map.mp used
    have le := rep.sequence row member
    omega
  have rows : ∀ p, (db.upsertNote path contentHash.val mtimeSecs).noteAt p =
      if path = p then some ⟨db.sequence + 1, path, contentHash.val, mtimeSecs⟩
      else db.noteAt p := by
    intro p
    have appended : rowAt NoteRow.path db.notes
        (NoteRow.path ⟨db.sequence + 1, path, contentHash.val, mtimeSecs⟩) = Option.none := none
    rw [next]
    exact rowAt_append appended p
  refine ⟨fun p => ?_, fun p row stored found there => ?_, ?_, ?_, ?_, ?_⟩
  · rw [rows, Function.update_apply]
    by_cases here : path = p
    · subst here
      rw [if_pos rfl, if_pos rfl]
      rfl
    · rw [if_neg here, if_neg (Ne.symm here), rep.row]
  · rw [rows] at found
    rw [Function.update_apply] at there
    by_cases here : path = p
    · subst here
      rw [if_pos rfl] at found there
      cases found
      cases there
      rw [next]
      refine List.filter_eq_nil_iff.mpr fun nc member => ?_
      have used := rep.owned nc member
      intro same
      rw [of_decide_eq_true same] at used
      exact fresh used
    · rw [if_neg here] at found
      rw [if_neg (Ne.symm here)] at there
      rw [next]
      exact rep.chunks p row stored found there
  · rw [next, List.map_append]
    exact List.nodup_append_comm.mp
      (List.nodup_cons.mpr ⟨rowAt_eq_none.mp none, rep.paths⟩)
  · rw [next, List.map_append]
    exact List.nodup_append_comm.mp (List.nodup_cons.mpr ⟨fresh, rep.ids⟩)
  · rw [next]
    intro row member
    rcases List.mem_append.mp member with old | new
    · exact Nat.le_succ_of_le (rep.sequence row old)
    · rw [List.mem_singleton.mp new]
  · rw [next]
    intro nc member
    rw [List.map_append]
    exact List.mem_append_left _ (rep.owned nc member)

/-- A note that is stored keeps its row and its chunks. -/
theorem upsertNote_stored (rep : Represents db ix) {path : String} {stored : IndexedNote}
    (there : ix path = some stored) (contentHash : Sha256Hex) (mtimeSecs : Int) :
    Represents (db.upsertNote path contentHash.val mtimeSecs)
      (Function.update ix path (some ⟨contentHash, stored.chunks⟩)) := by
  obtain ⟨old, found, -⟩ := rep.exists_row there
  let edit : NoteRow → NoteRow := fun row =>
    if row.path = path then { row with contentHash := contentHash.val, mtimeSecs } else row
  have editPath : ∀ row, (edit row).path = row.path := by
    intro row
    dsimp only [edit]
    split <;> rfl
  have editId : ∀ row, (edit row).id = row.id := by
    intro row
    dsimp only [edit]
    split <;> rfl
  have next : db.upsertNote path contentHash.val mtimeSecs =
      { db with notes := db.notes.map edit } := by
    rw [NoteTables.upsertNote, found]
  have rows : ∀ p, (db.upsertNote path contentHash.val mtimeSecs).noteAt p =
      (db.noteAt p).map edit := by
    intro p
    rw [next]
    exact rowAt_map editPath p
  have samePaths : (db.notes.map edit).map NoteRow.path = db.notes.map NoteRow.path := by
    rw [List.map_map]
    exact List.map_congr_left fun row _ => editPath row
  have sameIds : (db.notes.map edit).map NoteRow.id = db.notes.map NoteRow.id := by
    rw [List.map_map]
    exact List.map_congr_left fun row _ => editId row
  refine ⟨fun p => ?_, fun p row held foundNew thereNew => ?_, ?_, ?_, ?_, ?_⟩
  · rw [rows, Function.update_apply, Option.map_map]
    by_cases here : p = path
    · subst here
      rw [if_pos rfl, found, Option.map_some, Option.map_some, Function.comp_apply]
      dsimp only [edit]
      rw [if_pos (rowAt_some found).2]
    · rw [if_neg here, ← rep.row]
      cases other : db.noteAt p with
      | none => rfl
      | some row =>
          rw [Option.map_some, Option.map_some, Function.comp_apply]
          dsimp only [edit]
          rw [if_neg ((rowAt_some other).2.trans_ne here)]
  · rw [rows] at foundNew
    obtain ⟨before, foundBefore, rfl⟩ := Option.map_eq_some_iff.mp foundNew
    rw [editId, next]
    rw [Function.update_apply] at thereNew
    by_cases here : p = path
    · subst here
      rw [if_pos rfl] at thereNew
      cases thereNew
      exact rep.chunks p before stored foundBefore there
    · rw [if_neg here] at thereNew
      exact rep.chunks p before held foundBefore thereNew
  · rw [next, samePaths]
    exact rep.paths
  · rw [next, sameIds]
    exact rep.ids
  · rw [next]
    intro row member
    obtain ⟨before, there, rfl⟩ := List.mem_map.mp member
    rw [editId]
    exact rep.sequence before there
  · rw [next, sameIds]
    exact rep.owned

/-- Chunks that are inserted for a note are put behind the ones it has. -/
theorem insertChunks (rep : Represents db ix) {path : String} {stored : IndexedNote}
    (there : ix path = some stored) {row : NoteRow} (found : db.noteAt path = some row)
    (new : List IndexedChunk) :
    Represents { db with noteChunks := db.noteChunks ++ new.map (·.toRow row.id) }
      (Function.update ix path (some ⟨stored.contentHash, stored.chunks ++ new⟩)) := by
  refine ⟨fun p => ?_, fun p other held foundOther thereOther => ?_, rep.paths, rep.ids,
    rep.sequence, fun nc member => ?_⟩
  · rw [Function.update_apply]
    by_cases here : p = path
    · subst here
      rw [if_pos rfl]
      exact (rep.row p).trans (by rw [there]; rfl)
    · rw [if_neg here]
      exact rep.row p
  · change db.noteAt p = some other at foundOther
    rw [Function.update_apply] at thereOther
    rw [List.filter_append]
    by_cases here : p = path
    · subst here
      rw [if_pos rfl] at thereOther
      cases thereOther
      cases found.symm.trans foundOther
      rw [List.map_append, rep.chunks p row stored found there]
      congr 1
      refine List.filter_eq_self.mpr fun nc member => ?_
      obtain ⟨c, -, rfl⟩ := List.mem_map.mp member
      exact decide_eq_true rfl
    · rw [if_neg here] at thereOther
      have apart := rep.id_ne foundOther found here
      rw [rep.chunks p other held foundOther thereOther]
      refine List.append_right_eq_self.mpr (List.filter_eq_nil_iff.mpr fun nc member => ?_)
      obtain ⟨c, -, rfl⟩ := List.mem_map.mp member
      exact fun same => apart (of_decide_eq_true same).symm
  · rcases List.mem_append.mp member with old | new
    · exact rep.owned nc old
    · obtain ⟨c, -, rfl⟩ := List.mem_map.mp new
      exact List.mem_map_of_mem (rowAt_some found).1

/-- `index_note` stores the chunks of the content behind those it finds. -/
theorem indexNote (rep : Represents db ix) {ports : VaultPorts} {content : String}
    (succeeds : ports.Succeeds content) (path : String) (contentHash : Sha256Hex)
    (mtimeSecs : Int) :
    ∃ db' count, Webfang.indexNote ports db path content contentHash mtimeSecs =
        .ok (db', count) ∧
      Represents db' (Function.update ix path (some ⟨contentHash,
        (ix path).elim [] IndexedNote.chunks ++ ports.chunks content⟩)) := by
  obtain ⟨count, indexed⟩ := indexNote_eq succeeds db path contentHash mtimeSecs
  have upserted : Represents (db.upsertNote path contentHash.val mtimeSecs)
      (Function.update ix path (some ⟨contentHash, (ix path).elim [] IndexedNote.chunks⟩)) := by
    cases there : ix path with
    | none => exact rep.upsertNote_new there contentHash mtimeSecs
    | some stored => exact rep.upsertNote_stored there contentHash mtimeSecs
  obtain ⟨row, found, -⟩ := upserted.exists_row (Function.update_self ..)
  have inserted := upserted.insertChunks (Function.update_self ..) found (ports.chunks content)
  rw [Function.update_idem] at inserted
  refine ⟨_, count, ?_, inserted⟩
  rw [indexed, NoteTables.indexNoteTransactional, found]
  dsimp only
  rw [VaultPorts.rows_chunks]
  rfl

/-! ### Deleting a note -/

/-- `delete_note` removes the row of a path and its chunks. -/
theorem deleteNote (rep : Represents db ix) (path : String) :
    Represents (db.deleteNote path) (Function.update ix path none) := by
  have rows : ∀ p, (db.deleteNote path).noteAt p = if p = path then none else db.noteAt p :=
    fun p => rowAt_filter_ne path p
  refine ⟨fun p => ?_, fun p row stored found there => ?_, ?_, ?_, fun row member => ?_,
    fun nc member => ?_⟩
  · rw [rows, Function.update_apply]
    split
    · rfl
    · exact rep.row p
  · rw [rows] at found
    rw [Function.update_apply] at there
    by_cases here : p = path
    · rw [if_pos here] at there
      cases there
    · rw [if_neg here] at found there
      change (List.filter _ (List.filter _ _)) = _
      rw [List.filter_filter, ← rep.chunks p row stored found there]
      refine List.filter_congr fun nc _ => ?_
      by_cases same : nc.noteId = row.id
      · -- the row of another path has another id
        have keeps : ¬ ∃ gone ∈ db.notes, gone.path = path ∧ gone.id = nc.noteId := by
          rintro ⟨gone, member, gonePath, goneId⟩
          have foundGone := (rowAt_eq_some rep.paths).mpr ⟨member, gonePath⟩
          exact rep.id_ne found foundGone here (same.symm.trans goneId.symm)
        rw [decide_eq_true same, decide_eq_true keeps]
        rfl
      · rw [decide_eq_false same]
        rfl
  · exact rep.paths.sublist (List.filter_sublist.map _)
  · exact rep.ids.sublist (List.filter_sublist.map _)
  · exact rep.sequence row (List.mem_of_mem_filter member)
  · obtain ⟨there, keeps⟩ := List.mem_filter.mp member
    obtain ⟨row, held, id⟩ := List.mem_map.mp (rep.owned nc there)
    refine List.mem_map.mpr ⟨row, List.mem_filter.mpr ⟨held, decide_eq_true fun gone => ?_⟩, id⟩
    exact of_decide_eq_true keeps ⟨row, held, gone, id⟩

/-! ### Listing the notes -/

/-- The listing succeeds, and holds the hash of each path. -/
theorem listIndexedNotes (rep : Represents db ix) :
    ∃ indexed, db.listIndexedNotes = .ok indexed ∧
      indexed.map IndexedNoteMeta.path = db.notes.map NoteRow.path ∧
      ∀ p, (rowAt IndexedNoteMeta.path indexed p).map IndexedNoteMeta.contentHash =
        (ix p).map IndexedNote.contentHash := by
  have hashes : ∀ row ∈ db.notes, ∃ h : Sha256Hex, row.contentHash = h.val := by
    intro row member
    have found : db.noteAt row.path = some row := (rowAt_eq_some rep.paths).mpr ⟨member, rfl⟩
    have stored := rep.row row.path
    rw [found, Option.map_some] at stored
    obtain ⟨held, -, same⟩ := Option.map_eq_some_iff.mp stored.symm
    exact ⟨held.contentHash, same.symm⟩
  have listed : ∀ rows : List NoteRow, (∀ row ∈ rows, ∃ h : Sha256Hex, row.contentHash = h.val) →
      ∃ indexed, { db with notes := rows }.listIndexedNotes = .ok indexed ∧
        indexed.map IndexedNoteMeta.path = rows.map NoteRow.path ∧
        ∀ p, (rowAt IndexedNoteMeta.path indexed p).map (·.contentHash.val) =
          (rowAt NoteRow.path rows p).map NoteRow.contentHash := by
    intro rows valid
    induction rows with
    | nil => exact ⟨[], rfl, rfl, fun _ => rfl⟩
    | cons row rows ih =>
        obtain ⟨⟨h, hash⟩, rest⟩ := List.forall_mem_cons.mp valid
        obtain ⟨indexed, ok, paths, lookup⟩ := ih rest
        refine ⟨⟨row.path, h, row.mtimeSecs⟩ :: indexed, ?_, ?_, fun p => ?_⟩
        · rw [NoteTables.listIndexedNotes] at ok ⊢
          rw [List.mapM_cons, ok, hash, Sha256Hex.parse_val]
          rfl
        · rw [List.map_cons, List.map_cons, paths]
        · have later := lookup p
          rw [rowAt, rowAt] at later ⊢
          rw [List.find?_cons, List.find?_cons]
          by_cases here : row.path = p
          · rw [decide_eq_true here]
            exact congrArg some hash.symm
          · rw [decide_eq_false here]
            exact later
  obtain ⟨indexed, ok, paths, lookup⟩ := listed db.notes hashes
  refine ⟨indexed, ok, paths, fun p => ?_⟩
  have vals := (lookup p).trans (rep.row p)
  have toVal : ∀ o : Option Sha256Hex, ∀ q, o.map Sha256Hex.val = q.map Sha256Hex.val → o = q :=
    fun o q same => Option.map_injective (fun _ _ => Sha256Hex.ext) same
  refine toVal _ _ ?_
  rw [Option.map_map, Option.map_map]
  exact vals

/-! ### Loading the vectors -/

omit db ix in
theorem mapM_eq_ok {α β ε : Type} {f : α → Except ε β} {g : α → β} {l : List α}
    (all : ∀ a ∈ l, f a = .ok (g a)) : l.mapM f = .ok (l.map g) := by
  induction l with
  | nil => rfl
  | cons a l ih =>
      obtain ⟨here, rest⟩ := List.forall_mem_cons.mp all
      rw [List.mapM_cons, here, ih rest]
      rfl

/-- The selected rows are those of the chunks of each path, in some order. -/
theorem selectVectors_perm (rep : Represents db ix) :
    db.selectVectors.Perm (db.notes.flatMap fun row =>
      ((ix row.path).elim [] IndexedNote.chunks).map fun c =>
        (row.path, c.content, c.chunkIndex, f32SliceToBytes c.embedding)) := by
  have rows := (perm_flatMap_filter NoteChunkRow.noteId rep.ids rep.owned).filterMap
    fun nc => (rowAt NoteRow.id db.notes nc.noteId).bind fun n =>
      nc.embeddingVector.map fun bytes => (n.path, nc.content, nc.chunkIndex, bytes)
  rw [List.filterMap_flatMap] at rows
  refine rows.trans (.of_eq (List.flatMap_congr fun row member => ?_))
  have found : db.noteAt row.path = some row := (rowAt_eq_some rep.paths).mpr ⟨member, rfl⟩
  have byId : rowAt NoteRow.id db.notes row.id = some row :=
    (rowAt_eq_some rep.ids).mpr ⟨member, rfl⟩
  have stored := rep.row row.path
  rw [found, Option.map_some] at stored
  obtain ⟨held, there, -⟩ := Option.map_eq_some_iff.mp stored.symm
  rw [rep.chunks row.path row held found there, there, List.filterMap_map]
  refine List.filterMap_eq_map_iff_forall_eq_some.mpr fun c _ => ?_
  change (rowAt NoteRow.id db.notes row.id).bind _ = _
  rw [byId]
  rfl

/-- `load_all_vectors` returns the chunks of each path, in some order. -/
theorem loadAllVectors (rep : Represents db ix) :
    ∃ vectors, db.loadAllVectors = .ok vectors ∧
      vectors.Perm ((db.notes.map NoteRow.path).flatMap fun p =>
        ((ix p).elim [] IndexedNote.chunks).map (·.toVector p)) := by
  have selected := rep.selectVectors_perm
  have decodes : ∀ row ∈ db.selectVectors,
      (bytesToF32Vec row.2.2.2).map (NoteChunkVector.mk row.1 row.2.1 row.2.2.1) =
        .ok ⟨row.1, row.2.1, row.2.2.1, f32Chunks row.2.2.2⟩ := by
    intro row member
    obtain ⟨note, -, held⟩ := List.mem_flatMap.mp (selected.mem_iff.mp member)
    obtain ⟨c, -, rfl⟩ := List.mem_map.mp held
    rw [bytesToF32Vec_f32SliceToBytes, f32Chunks_f32SliceToBytes]
    rfl
  refine ⟨_, mapM_eq_ok decodes, (selected.map _).trans (.of_eq ?_)⟩
  rw [List.map_flatMap, List.flatMap_map]
  refine List.flatMap_congr fun row _ => ?_
  rw [List.map_map]
  refine List.map_congr_left fun c _ => ?_
  rw [Function.comp_apply, f32Chunks_f32SliceToBytes]
  rfl

end Represents

end Webfang
