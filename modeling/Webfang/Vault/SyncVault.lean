import Webfang.Vault.NoteIndex

/-!
# When the index mirrors the vault

A sync turns the map that the tables represent into one with the notes of the vault, where a note
that was edited keeps the chunks of its earlier contents.  So the index mirrors the vault after
each sync just when no note that had chunks is edited between two of them.
-/

namespace Webfang

open KeyedRows

/-! ## The index after a sync -/

/-- What is stored of a note of the vault. -/
def NoteIndex.synced (ix : NoteIndex) (ports : VaultPorts) (note : VaultNote) : IndexedNote :=
  match ix note.path with
  | none => ⟨note.contentHash, ports.chunks note.content⟩
  | some stored =>
      if stored.contentHash = note.contentHash then stored
      else ⟨note.contentHash, stored.chunks ++ ports.chunks note.content⟩

def NoteIndex.sync (ix : NoteIndex) (ports : VaultPorts) (notes : List VaultNote) : NoteIndex :=
  fun path => (rowAt VaultNote.path notes path).map (ix.synced ports)

theorem NoteIndex.synced_contentHash (ix : NoteIndex) (ports : VaultPorts) (note : VaultNote) :
    (ix.synced ports note).contentHash = note.contentHash := by
  unfold NoteIndex.synced
  split
  · rfl
  · split
    · assumption
    · rfl

section Sync

variable {db : NoteTables} {ix : NoteIndex} {ports : VaultPorts} {notes : List VaultNote}

/-- One note of the vault. -/
theorem Represents.syncNote {indexed : List IndexedNoteMeta} {before : NoteIndex}
    (rep : Represents db ix) {note : VaultNote} (same : ix note.path = before note.path)
    (listed : (rowAt IndexedNoteMeta.path indexed note.path).map IndexedNoteMeta.contentHash =
      (before note.path).map IndexedNote.contentHash)
    (succeeds : ports.Succeeds note.content) (summary : SyncSummary) :
    ∃ db' summary', Webfang.syncNote ports indexed (db, summary) note = (db', summary') ∧
      Represents db' (Function.update ix note.path (some (before.synced ports note))) := by
  obtain ⟨db', count, indexing, indexes⟩ :=
    rep.indexNote succeeds note.path note.contentHash note.mtimeSecs
  rw [same] at indexes
  unfold Webfang.syncNote NoteIndex.synced
  cases stored : before note.path with
  | none =>
      rw [stored, Option.map_none, Option.map_eq_none_iff] at listed
      rw [stored] at indexes
      rw [listed]
      dsimp only
      rw [indexing]
      exact ⟨_, _, rfl, indexes⟩
  | some held =>
      rw [stored, Option.map_some, Option.map_eq_some_iff] at listed
      obtain ⟨entry, found, hash⟩ := listed
      rw [stored] at indexes
      rw [found]
      dsimp only
      rw [hash]
      by_cases unchanged : held.contentHash = note.contentHash
      · rw [if_neg (not_not_intro unchanged), if_pos unchanged]
        refine ⟨_, _, rfl, ?_⟩
        rw [Function.update_eq_self_iff.mpr (stored.symm.trans same.symm).symm.symm]
        exact rep
      · rw [if_pos unchanged, if_neg unchanged, indexing]
        exact ⟨_, _, rfl, indexes⟩

/-- The notes of the vault, one after the other. -/
theorem Represents.foldl_syncNote {indexed : List IndexedNoteMeta} {before : NoteIndex}
    (listed : ∀ path, (rowAt IndexedNoteMeta.path indexed path).map IndexedNoteMeta.contentHash =
      (before path).map IndexedNote.contentHash)
    (rep : Represents db ix) (same : ∀ path ∈ notes.map VaultNote.path, ix path = before path)
    (distinct : (notes.map VaultNote.path).Nodup)
    (succeeds : ∀ note ∈ notes, ports.Succeeds note.content) (summary : SyncSummary) :
    ∃ db' summary', notes.foldl (Webfang.syncNote ports indexed) (db, summary) = (db', summary') ∧
      Represents db' fun path =>
        ((rowAt VaultNote.path notes path).map (before.synced ports)).or (ix path) := by
  induction notes generalizing db ix summary with
  | nil => exact ⟨db, summary, rfl, rep⟩
  | cons note notes ih =>
      rw [List.map_cons, List.nodup_cons] at distinct
      obtain ⟨here, rest⟩ := List.forall_mem_cons.mp succeeds
      obtain ⟨db₁, summary₁, first, rep₁⟩ :=
        rep.syncNote (same note.path (List.mem_cons_self ..)) (listed note.path) here summary
      obtain ⟨db₂, summary₂, later, rep₂⟩ := ih rep₁ (fun path member => by
        have other : path ≠ note.path := fun eq => distinct.1 (eq ▸ member)
        rw [Function.update_of_ne other]
        exact same path (List.mem_cons_of_mem _ member)) distinct.2 rest summary₁
      refine ⟨db₂, summary₂, by rw [List.foldl_cons, first, later], ?_⟩
      have combined : (fun path => ((rowAt VaultNote.path (note :: notes) path).map
          (before.synced ports)).or (ix path)) = fun path =>
          ((rowAt VaultNote.path notes path).map (before.synced ports)).or
            (Function.update ix note.path (some (before.synced ports note)) path) := by
        funext path
        rw [rowAt, List.find?_cons]
        by_cases here : note.path = path
        · have absent : rowAt VaultNote.path notes path = none :=
            rowAt_eq_none.mpr (here ▸ distinct.1)
          rw [decide_eq_true here, absent, ← here, Function.update_self]
          rfl
        · rw [decide_eq_false here, Function.update_of_ne (Ne.symm here)]
          rfl
      rw [combined]
      exact rep₂

/-- The notes of the index, one after the other. -/
theorem Represents.foldl_removeStale (notes : List VaultNote) (indexed : List IndexedNoteMeta)
    (rep : Represents db ix) (summary : SyncSummary) :
    ∃ db' summary', indexed.foldl (removeStale notes) (db, summary) = (db', summary') ∧
      Represents db' fun path =>
        if path ∈ indexed.map IndexedNoteMeta.path ∧ path ∉ notes.map VaultNote.path then none
        else ix path := by
  induction indexed generalizing db ix summary with
  | nil => exact ⟨db, summary, rfl, by simpa using rep⟩
  | cons stored indexed ih =>
      rw [List.foldl_cons, removeStale]
      by_cases kept : stored.path ∈ notes.map VaultNote.path
      · obtain ⟨db', summary', later, rep'⟩ := ih rep summary
        refine ⟨db', summary', by rw [if_pos kept, later], ?_⟩
        convert rep' using 3 with path
        rw [List.map_cons, List.mem_cons, or_and_right, or_iff_right]
        rintro ⟨rfl, gone⟩
        exact gone kept
      · obtain ⟨db', summary', later, rep'⟩ := ih (rep.deleteNote stored.path) _
        refine ⟨db', summary', by rw [if_neg kept, later], ?_⟩
        convert rep' using 2 with path
        simp only [List.map_cons, List.mem_cons, Function.update_apply]
        by_cases here : path = stored.path
        · rw [if_pos here, if_pos ⟨.inl here, here ▸ kept⟩, ite_self]
        · simp only [here, false_or, if_false]

/-- A sync of a vault whose notes are all chunked and embedded. -/
theorem Represents.syncVault (rep : Represents db ix)
    (distinct : (notes.map VaultNote.path).Nodup)
    (succeeds : ∀ note ∈ notes, ports.Succeeds note.content) :
    ∃ db' summary, Webfang.syncVault ports notes db = .ok (db', summary) ∧
      Represents db' (ix.sync ports notes) := by
  obtain ⟨indexed, ok, paths, listed⟩ := rep.listIndexedNotes
  obtain ⟨db₁, summary₁, noted, rep₁⟩ :=
    rep.foldl_syncNote listed (fun _ _ => rfl) distinct succeeds {}
  obtain ⟨db₂, summary₂, removed, rep₂⟩ :=
    rep₁.foldl_removeStale notes indexed summary₁
  refine ⟨db₂, summary₂, ?_, ?_⟩
  · rw [Webfang.syncVault, ok]
    change Except.ok (indexed.foldl _ (notes.foldl _ (db, ({} : SyncSummary)))) = _
    rw [noted, removed]
  · convert rep₂ using 1
    funext path
    unfold NoteIndex.sync
    cases found : rowAt VaultNote.path notes path with
    | some note =>
        have member : path ∈ notes.map VaultNote.path := by
          obtain ⟨there, rfl⟩ := rowAt_some found
          exact List.mem_map_of_mem there
        rw [if_neg fun gone => gone.2 member]
        rfl
    | none =>
        rw [paths]
        by_cases stored : path ∈ db.notes.map NoteRow.path
        · rw [if_pos ⟨stored, rowAt_eq_none.mp found⟩]
          rfl
        · rw [if_neg fun gone => stored gone.1]
          exact (rep.noteAt_eq_none.mp (rowAt_eq_none.mpr stored)).symm

/-- A sync of notes whose hashes are all stored changes nothing. -/
theorem Represents.syncVault_unchanged (rep : Represents db ix)
    (same : ∀ path, (ix path).map IndexedNote.contentHash =
      (rowAt VaultNote.path notes path).map VaultNote.contentHash)
    (distinct : (notes.map VaultNote.path).Nodup) :
    Webfang.syncVault ports notes db = .ok (db, { unchanged := notes.length }) := by
  obtain ⟨indexed, ok, paths, listed⟩ := rep.listIndexedNotes
  have noted : ∀ seen : List VaultNote, (∀ note ∈ seen, note ∈ notes) → ∀ n,
      seen.foldl (Webfang.syncNote ports indexed) (db, { unchanged := n }) =
        (db, { unchanged := n + seen.length }) := by
    intro seen within
    induction seen with
    | nil => exact fun n => rfl
    | cons note seen ih =>
        intro n
        obtain ⟨here, rest⟩ := List.forall_mem_cons.mp within
        have stored := (listed note.path).trans (same note.path)
        rw [(rowAt_eq_some distinct).mpr ⟨here, rfl⟩, Option.map_some,
          Option.map_eq_some_iff] at stored
        obtain ⟨entry, found, hash⟩ := stored
        have step : Webfang.syncNote ports indexed (db, { unchanged := n }) note =
            (db, { unchanged := n + 1 }) := by
          rw [Webfang.syncNote, found]
          dsimp only
          rw [hash, if_neg (not_not_intro rfl)]
        rw [List.foldl_cons, step, ih rest, List.length_cons]
        congr 2
        omega
  have kept : ∀ entries : List IndexedNoteMeta, (∀ entry ∈ entries, entry ∈ indexed) →
      ∀ acc : NoteTables × SyncSummary, entries.foldl (removeStale notes) acc = acc := by
    intro entries within
    induction entries with
    | nil => exact fun _ => rfl
    | cons entry entries ih =>
        intro acc
        obtain ⟨here, rest⟩ := List.forall_mem_cons.mp within
        have stored : entry.path ∈ db.notes.map NoteRow.path := by
          rw [← paths]
          exact List.mem_map_of_mem here
        have inVault : entry.path ∈ notes.map VaultNote.path := by
          by_contra gone
          have absent := same entry.path
          rw [rowAt_eq_none.mpr gone, Option.map_none, Option.map_eq_none_iff,
            ← rep.noteAt_eq_none] at absent
          exact rowAt_eq_none.mp absent stored
        rw [List.foldl_cons, removeStale, if_pos inVault, ih rest]
  rw [Webfang.syncVault, ok]
  change Except.ok (indexed.foldl _ (notes.foldl _ (db, ({ unchanged := 0 } : SyncSummary)))) = _
  rw [noted notes (fun _ member => member), kept indexed (fun _ member => member), Nat.zero_add]

/-! ## Mirroring -/

/-- The chunks of the notes of the vault. -/
def currentVectors (ports : VaultPorts) (notes : List VaultNote) : List NoteChunkVector :=
  notes.flatMap fun note => (ports.chunks note.content).map (·.toVector note.path)

/-- What is loaded is the chunks of the notes, each once, and a sync finds all notes unchanged. -/
def Mirrors (ports : VaultPorts) (notes : List VaultNote) (db : NoteTables) : Prop :=
  (∃ vectors, db.loadAllVectors = .ok vectors ∧ vectors.Perm (currentVectors ports notes)) ∧
    syncVault ports notes db = .ok (db, { unchanged := notes.length })

omit db ix ports notes in
/-- The vectors of one path, out of those of all notes. -/
theorem filter_flatMap_toVector (chunks : VaultNote → List IndexedChunk) {notes : List VaultNote}
    (distinct : (notes.map VaultNote.path).Nodup) {note : VaultNote} (member : note ∈ notes) :
    ((notes.flatMap fun n => (chunks n).map (·.toVector n.path)).filter
      fun v => v.notePath = note.path) = (chunks note).map (·.toVector note.path) := by
  induction notes with
  | nil => cases member
  | cons first notes ih =>
      rw [List.map_cons, List.nodup_cons] at distinct
      rw [List.flatMap_cons, List.filter_append]
      have others : ∀ n ∈ first :: notes, n.path ≠ note.path →
          (((chunks n).map (·.toVector n.path)).filter fun v => v.notePath = note.path) = [] := by
        intro n _ other
        refine List.filter_eq_nil_iff.mpr fun v held => ?_
        obtain ⟨c, -, rfl⟩ := List.mem_map.mp held
        exact fun same => other (of_decide_eq_true same)
      rcases List.mem_cons.mp member with rfl | later
      · have rest : ((notes.flatMap fun n => (chunks n).map (·.toVector n.path)).filter
            fun v => v.notePath = note.path) = [] := by
          refine List.filter_eq_nil_iff.mpr fun v held => ?_
          obtain ⟨n, there, inside⟩ := List.mem_flatMap.mp held
          obtain ⟨c, -, rfl⟩ := List.mem_map.mp inside
          intro same
          have path : n.path = note.path := of_decide_eq_true same
          exact distinct.1 (path ▸ List.mem_map_of_mem there)
        rw [rest, List.append_nil]
        refine List.filter_eq_self.mpr fun v held => ?_
        obtain ⟨c, -, rfl⟩ := List.mem_map.mp held
        exact decide_eq_true rfl
      · have other : first.path ≠ note.path :=
          fun same => distinct.1 (same ▸ List.mem_map_of_mem later)
        rw [others first (List.mem_cons_self ..) other, List.nil_append, ih distinct.2 later]

/-- The index mirrors the vault when what is stored of each note are its chunks. -/
theorem Represents.mirrors_iff (rep : Represents db (ix.sync ports notes))
    (distinct : (notes.map VaultNote.path).Nodup) :
    Mirrors ports notes db ↔
      ∀ note ∈ notes, ((ix.synced ports note).chunks).Perm (ports.chunks note.content) := by
  have hashes : ∀ path, ((ix.sync ports notes) path).map IndexedNote.contentHash =
      (rowAt VaultNote.path notes path).map VaultNote.contentHash := by
    intro path
    rw [NoteIndex.sync, Option.map_map]
    exact congrArg (Option.map · _) (funext (ix.synced_contentHash ports))
  obtain ⟨vectors, loaded, perm⟩ := rep.loadAllVectors
  -- the paths of the table are those of the notes
  have paths : (db.notes.map NoteRow.path).Perm (notes.map VaultNote.path) := by
    refine (List.perm_ext_iff_of_nodup rep.paths distinct).mpr fun path => ?_
    have absent : path ∉ db.notes.map NoteRow.path ↔ rowAt VaultNote.path notes path = none := by
      rw [← rowAt_eq_none]
      refine rep.noteAt_eq_none.trans ?_
      rw [NoteIndex.sync, Option.map_eq_none_iff]
    rw [← not_iff_not, absent, rowAt_eq_none]
  have stored : vectors.Perm
      (notes.flatMap fun note => (ix.synced ports note).chunks.map (·.toVector note.path)) := by
    refine perm.trans ((paths.flatMap_right _).trans (.of_eq ?_))
    rw [List.flatMap_map]
    refine List.flatMap_congr fun note member => ?_
    rw [NoteIndex.sync, (rowAt_eq_some distinct).mpr ⟨member, rfl⟩]
    rfl
  have injective : ∀ path, Function.Injective fun c : IndexedChunk => c.toVector path := by
    rintro path ⟨i, content, embedding⟩ ⟨j, other, vector⟩ same
    cases same
    rfl
  constructor
  · rintro ⟨⟨vectors', loaded', mirrored⟩, -⟩ note member
    cases loaded.symm.trans loaded'
    have here := (stored.symm.trans mirrored).filter fun v => v.notePath = note.path
    rw [currentVectors, filter_flatMap_toVector _ distinct member,
      filter_flatMap_toVector (fun n => ports.chunks n.content) distinct member] at here
    exact (List.map_perm_map_iff (injective note.path)).mp here
  · intro each
    refine ⟨⟨vectors, loaded, stored.trans ?_⟩, rep.syncVault_unchanged hashes distinct⟩
    exact List.Perm.flatMap_left notes fun note member => (each note member).map _

end Sync

/-! ## Successive vaults -/

/-- A note that is edited had no chunks. -/
def EditsOnlyChunkless (ports : VaultPorts) (old new : List VaultFile) : Prop :=
  ∀ f ∈ old, ∀ g ∈ new, f.path = g.path → f.content ≠ g.content →
    ports.chunkText f.content = .ok []

/-- SHA-256 does not collide on the contents of the vaults. -/
def CollisionFree (sha256Hex : String → Sha256Hex) (vaults : List (List VaultFile)) : Prop :=
  ∀ old ∈ vaults, ∀ new ∈ vaults, ∀ f ∈ old, ∀ g ∈ new,
    sha256Hex f.content = sha256Hex g.content → f.content = g.content

/-- The index of a vault as it is. -/
def currentIndex (ports : VaultPorts) (notes : List VaultNote) : NoteIndex := fun path =>
  (rowAt VaultNote.path notes path).map fun note =>
    ⟨note.contentHash, ports.chunks note.content⟩

section Vaults

variable {ports : VaultPorts} {sha256Hex : String → Sha256Hex}

theorem chunks_eq_nil {content : String} (succeeds : ports.Succeeds content) :
    ports.chunks content = [] ↔ ports.chunkText content = .ok [] := by
  obtain ⟨texts, chunked, -⟩ := succeeds
  rw [VaultPorts.chunks, chunked]
  simp [Except.toOption]

theorem map_path_readVaultNotes (files : List VaultFile) :
    (readVaultNotes sha256Hex files).map VaultNote.path = files.map VaultFile.path := by
  rw [readVaultNotes, List.map_map]
  rfl

/-- What is stored of a note, behind a sync of the vault before: its chunks just when it is no
edit of a note with chunks. -/
theorem synced_currentIndex {old : List VaultFile} (distinct : (old.map VaultFile.path).Nodup)
    (succeeds : ∀ f ∈ old, ports.Succeeds f.content) {g : VaultFile}
    (apart : ∀ f ∈ old, sha256Hex f.content = sha256Hex g.content → f.content = g.content) :
    let note : VaultNote := ⟨g.path, g.content, g.mtimeSecs, sha256Hex g.content⟩
    let stored := (currentIndex ports (readVaultNotes sha256Hex old)).synced ports note
    ((∀ f ∈ old, f.path = g.path → f.content ≠ g.content → ports.chunkText f.content = .ok []) ↔
        stored.chunks.Perm (ports.chunks g.content)) ∧
      (stored.chunks.Perm (ports.chunks g.content) →
        stored = ⟨note.contentHash, ports.chunks g.content⟩) := by
  intro note stored
  cases found : rowAt VaultNote.path (readVaultNotes sha256Hex old) g.path with
  | none =>
      have new : stored = ⟨note.contentHash, ports.chunks g.content⟩ := by
        simp only [stored, NoteIndex.synced, currentIndex, note, found, Option.map_none]
      have absent := rowAt_eq_none.mp found
      rw [map_path_readVaultNotes] at absent
      refine ⟨iff_of_true (fun f member same => ?_) (.of_eq (congrArg _ new)), fun _ => new⟩
      exact absurd (same ▸ List.mem_map_of_mem member) absent
  | some held =>
      obtain ⟨there, path⟩ := rowAt_some found
      obtain ⟨f, member, rfl⟩ := List.mem_map.mp there
      change f.path = g.path at path
      have only : ∀ other ∈ old, other.path = g.path → other = f := fun other within same =>
        List.inj_on_of_nodup_map distinct within member (same.trans path.symm)
      by_cases unchanged : sha256Hex f.content = sha256Hex g.content
      · have same := apart f member unchanged
        have kept : stored = ⟨note.contentHash, ports.chunks g.content⟩ := by
          simp only [stored, NoteIndex.synced, currentIndex, note, found, Option.map_some,
            if_true, same]
        refine ⟨iff_of_true (fun other within samePath edited => ?_) (.of_eq (congrArg _ kept)),
          fun _ => kept⟩
        rw [only other within samePath] at edited
        exact absurd same edited
      · have edited : f.content ≠ g.content := fun same => unchanged (congrArg _ same)
        have behind : stored =
            ⟨note.contentHash, ports.chunks f.content ++ ports.chunks g.content⟩ := by
          simp only [stored, NoteIndex.synced, currentIndex, note, found, Option.map_some,
            unchanged, if_false]
        have none : stored.chunks.Perm (ports.chunks g.content) ↔ ports.chunks f.content = [] := by
          rw [behind]
          refine ⟨fun perm => ?_, fun none => by rw [none, List.nil_append]⟩
          have length := perm.length_eq
          rw [List.length_append] at length
          exact List.length_eq_zero_iff.mp (by omega)
        rw [none, chunks_eq_nil (succeeds f member)]
        refine ⟨⟨fun all => all f member path edited, fun chunkless other within same _ => ?_⟩,
          fun chunkless => ?_⟩
        · rw [only other within same]
          exact chunkless
        · rw [behind, (chunks_eq_nil (succeeds f member)).mpr chunkless, List.nil_append]

/-- From a vault that the index mirrors, through those that follow. -/
theorem mirrors_iff_isChain {old : List VaultFile} {vaults : List (List VaultFile)}
    (paths : ∀ files ∈ old :: vaults, (files.map VaultFile.path).Nodup)
    (succeeds : ∀ files ∈ old :: vaults, ∀ file ∈ files, ports.Succeeds file.content)
    (apart : CollisionFree sha256Hex (old :: vaults)) {db : NoteTables}
    (rep : Represents db (currentIndex ports (readVaultNotes sha256Hex old))) :
    (∀ earlier files, earlier ++ [files] <+: vaults →
      ∃ db', syncVaults ports sha256Hex db (earlier ++ [files]) = .ok db' ∧
        Mirrors ports (readVaultNotes sha256Hex files) db') ↔
      (old :: vaults).IsChain (EditsOnlyChunkless ports) := by
  induction vaults generalizing old db with
  | nil =>
      refine iff_of_true (fun earlier files within => ?_) (.singleton _)
      exact absurd within.length_le (by simp)
  | cons new vaults ih =>
      obtain ⟨oldPaths, newPaths, laterPaths⟩ :=
        (List.forall_mem_cons.mp paths).imp_right List.forall_mem_cons.mp
      obtain ⟨oldSucceeds, newSucceeds, -⟩ :=
        (List.forall_mem_cons.mp succeeds).imp_right List.forall_mem_cons.mp
      have distinct : ((readVaultNotes sha256Hex new).map VaultNote.path).Nodup := by
        rw [map_path_readVaultNotes]
        exact newPaths
      have succeedsNew : ∀ note ∈ readVaultNotes sha256Hex new, ports.Succeeds note.content := by
        intro note member
        obtain ⟨file, there, rfl⟩ := List.mem_map.mp member
        exact newSucceeds file there
      obtain ⟨db₁, summary, synced, rep₁⟩ := rep.syncVault distinct succeedsNew
      have first : ∀ later, syncVaults ports sha256Hex db (new :: later) =
          syncVaults ports sha256Hex db₁ later := by
        intro later
        rw [syncVaults, List.foldlM_cons, synced]
        rfl
      have stored := fun g (member : g ∈ new) => synced_currentIndex oldPaths oldSucceeds
        fun f there => apart old (List.mem_cons_self ..) new (by simp) f there g member
      have edits : Mirrors ports (readVaultNotes sha256Hex new) db₁ ↔
          EditsOnlyChunkless ports old new := by
        rw [rep₁.mirrors_iff distinct]
        constructor
        · intro each f inOld g inNew
          exact (stored g inNew).1.mpr (each _ (List.mem_map_of_mem inNew)) f inOld
        · intro chunkless note member
          obtain ⟨g, inNew, rfl⟩ := List.mem_map.mp member
          exact (stored g inNew).1.mp fun f inOld => chunkless f inOld g inNew
      rw [List.isChain_cons_cons, ← edits]
      by_cases mirrored : Mirrors ports (readVaultNotes sha256Hex new) db₁
      · -- what is stored of the new vault is that vault, and the others follow
        have current : (currentIndex ports (readVaultNotes sha256Hex old)).sync ports
            (readVaultNotes sha256Hex new) =
              currentIndex ports (readVaultNotes sha256Hex new) := by
          funext path
          rw [NoteIndex.sync, currentIndex]
          refine Option.map_congr fun note found => ?_
          obtain ⟨g, inNew, rfl⟩ := List.mem_map.mp (rowAt_some found).1
          exact (stored g inNew).2 ((stored g inNew).1.mp fun f inOld =>
            edits.mp mirrored f inOld g inNew)
        rw [current] at rep₁
        rw [← ih (fun files member => paths files (List.mem_cons_of_mem _ member))
          (fun files member => succeeds files (List.mem_cons_of_mem _ member))
          (fun f inF g inG => apart f (List.mem_cons_of_mem _ inF) g (List.mem_cons_of_mem _ inG))
          rep₁]
        constructor
        · refine fun all => ⟨mirrored, fun earlier files within => ?_⟩
          obtain ⟨db', run, mirrors⟩ := all (new :: earlier) files (List.cons_prefix_cons.mpr
            ⟨rfl, within⟩)
          exact ⟨db', (first _).symm.trans run, mirrors⟩
        · rintro ⟨-, later⟩ earlier files within
          cases earlier with
          | nil =>
              obtain ⟨rfl, -⟩ := List.cons_prefix_cons.mp within
              exact ⟨db₁, first [], mirrored⟩
          | cons head earlier =>
              obtain ⟨rfl, rest⟩ := List.cons_prefix_cons.mp within
              obtain ⟨db', run, mirrors⟩ := later earlier files rest
              exact ⟨db', (first _).trans run, mirrors⟩
      · refine iff_of_false (fun all => mirrored ?_) fun both => mirrored both.1
        obtain ⟨db', run, mirrors⟩ := all [] new (List.cons_prefix_cons.mpr ⟨rfl, List.nil_prefix⟩)
        rw [List.nil_append, first] at run
        cases run
        exact mirrors

/-- The index mirrors the vault after every sync just when, between one sync and the next, no
note is edited that had chunks. -/
theorem vault_index_mirrors_iff {vaults : List (List VaultFile)}
    (paths : ∀ files ∈ vaults, (files.map VaultFile.path).Nodup)
    (succeeds : ∀ files ∈ vaults, ∀ file ∈ files, ports.Succeeds file.content)
    (apart : CollisionFree sha256Hex vaults) :
    (∀ earlier files, earlier ++ [files] <+: vaults →
      ∃ db, syncVaults ports sha256Hex .empty (earlier ++ [files]) = .ok db ∧
        Mirrors ports (readVaultNotes sha256Hex files) db) ↔
      vaults.IsChain (EditsOnlyChunkless ports) := by
  have start : (([] : List VaultFile) :: vaults).IsChain (EditsOnlyChunkless ports) ↔
      vaults.IsChain (EditsOnlyChunkless ports) := by
    cases vaults with
    | nil => exact iff_of_true (.singleton _) .nil
    | cons files vaults =>
        rw [List.isChain_cons_cons]
        exact and_iff_right fun _ none => nomatch none
  rw [← start]
  have none : (([] : List VaultFile).map VaultFile.path).Nodup := List.nodup_nil
  refine mirrors_iff_isChain (List.forall_mem_cons.mpr ⟨none, paths⟩)
    (List.forall_mem_cons.mpr ⟨fun _ none => (nomatch none), succeeds⟩) ?_ represents_empty
  intro old inOld new inNew f inF g inG
  rcases List.mem_cons.mp inOld with rfl | inOld
  · cases inF
  rcases List.mem_cons.mp inNew with rfl | inNew
  · cases inG
  exact apart old inOld new inNew f inF g inG

end Vaults

/-! ## A note that is edited -/

/-- The chunker and the embedder of the tests of the search: one chunk a line, one vector. -/
def stubPorts : VaultPorts where
  chunkText text := .ok <|
    ((text.toList.splitOn '\n').filter fun line => line.any fun c => !c.isWhitespace).map
      String.ofList
  embedBatch texts := .ok (texts.map fun _ => [0x3DCCCCCD, 0x3E4CCCCD, 0x3E99999A])

/-- The digests of the two contents of the note. -/
def noteDigest (content : String) : Sha256Hex :=
  if content = "# A\nOriginal" then
    ⟨"03320206197cc3148483cbf72da71b7af8a220819ff76dad0c1c45eedbb96c42",
      by decide +kernel, by decide +kernel⟩
  else
    ⟨"37e30c6dd605f99283723b38a9642528d978afd9dccf50e98c3752018f05d953",
      by decide +kernel, by decide +kernel⟩

def originalNote : VaultFile := ⟨"a.md", "# A\nOriginal", 1700000000⟩

def modifiedNote : VaultFile := ⟨"a.md", "# A\nModified content", 1700000100⟩

/-- A note that is deleted before it is added again with another content. -/
theorem vault_index_mirrors_readded_note :
    ∃ db, syncVaults stubPorts noteDigest .empty [[originalNote], [], [modifiedNote]] = .ok db ∧
      Mirrors stubPorts (readVaultNotes noteDigest [modifiedNote]) db := by
  refine (vault_index_mirrors_iff (by decide) (fun files member file inside => ?_) ?_).mpr ?_
    [[originalNote], []] [modifiedNote] (List.prefix_refl _)
  · exact ⟨_, rfl, fun _ => ⟨_, rfl, List.length_map _⟩⟩
  · unfold CollisionFree
    decide +kernel
  · simp [List.isChain_cons_cons, EditsOnlyChunkless]

theorem eq_ok_of_toOption {α ε : Type} {x : Except ε α} {a : α} (h : x.toOption = some a) :
    x = .ok a := by
  cases x with
  | error e => cases h
  | ok b => exact congrArg _ (Option.some.inj h)

/-- Behind the sync of a note that was edited, the chunks of its first content are still loaded,
at the positions of the new ones. -/
theorem chunks_of_edited_note_stay :
    ∃ db vectors, syncVaults stubPorts noteDigest .empty [[originalNote], [modifiedNote]] = .ok db ∧
      db.loadAllVectors = .ok vectors ∧
      vectors.map (fun v => (v.notePath, v.chunkIndex, v.content)) =
        [("a.md", 0, "# A"), ("a.md", 1, "Original"), ("a.md", 0, "# A"),
          ("a.md", 1, "Modified content")] ∧
      ¬ vectors.Perm (currentVectors stubPorts (readVaultNotes noteDigest [modifiedNote])) := by
  have loads : (syncVaults stubPorts noteDigest .empty
      [[originalNote], [modifiedNote]]).toOption.any (fun db => db.loadAllVectors.toOption.any fun vectors =>
        vectors.map (fun v => (v.notePath, v.chunkIndex, v.content)) ==
          [("a.md", 0, "# A"), ("a.md", 1, "Original"), ("a.md", 0, "# A"),
            ("a.md", 1, "Modified content")]) = true := by
    decide +kernel
  obtain ⟨db, synced, rest⟩ := (Option.any_eq_true _ _).mp loads
  obtain ⟨vectors, loaded, read⟩ := (Option.any_eq_true _ _).mp rest
  have columns := beq_iff_eq.mp read
  refine ⟨db, vectors, eq_ok_of_toOption synced, eq_ok_of_toOption loaded, columns, fun perm => ?_⟩
  have length := congrArg List.length columns
  rw [List.length_map, perm.length_eq] at length
  revert length
  decide +kernel

end Webfang
