import Webfang.Lib.Execution
import Webfang.Ingestion.ElasticIngestion

/-!
# What an ingestion that returned `Ok` has stored

As long as no run meets its content in the row of another page, or in one whose run ended before
its last chunk, every row of `resources` has all its chunks, up to the one whose run goes on.
-/

namespace Webfang

open StepSystem

section Completeness

variable {normalizeUrl : String → String} {sha256Hex : List UInt8 → Sha256Hex}
  {cleanChunks : List UInt8 → Option (List ProcessedChunk)}

/-- The row of a chunk under its URL. -/
def IsStored (rows : List ChunkRow) (url : String) (idx : Nat) (chunk : ProcessedChunk) : Prop :=
  ∃ row ∈ rows, row.resourceUrl = url ∧ row.chunkIndex = idx ∧ row.content = chunk.content ∧
    row.embeddingVector = chunk.embedding.map f32SliceToBytes

/-- Every chunk of the cleaned content is stored under the URL, at its index. -/
def HasChunks (cleanChunks : List UInt8 → Option (List ProcessedChunk)) (rows : List ChunkRow)
    (url : String) (bytes : List UInt8) : Prop :=
  ∃ chunks, cleanChunks bytes = some chunks ∧
    ∀ idx chunk, chunks[idx]? = some chunk → IsStored rows url idx chunk

/-- There is a resource of the URL, up to its canonical form, with the hash of the content and
with all its chunks. -/
def Ingestion.Complete (normalizeUrl : String → String) (sha256Hex : List UInt8 → Sha256Hex)
    (cleanChunks : List UInt8 → Option (List ProcessedChunk)) (s : Ingestion) (url : String)
    (bytes : List UInt8) : Prop :=
  ∃ row ∈ s.resources, normalizeUrl row.url = normalizeUrl url ∧
    row.contentHash = (sha256Hex bytes).val ∧ HasChunks cleanChunks s.chunks row.url bytes

/-- A run that looks for its content finds it under no other page, and in no row whose run ended
before its last chunk. -/
def NoMirrorNorTorn (normalizeUrl : String → String) (sha256Hex : List UInt8 → Sha256Hex)
    (s : Ingestion) : IngestAction → Prop
  | .statement _ => ∀ run ∈ s.run, run.stage = .isDuplicate →
      run.bytes ∉ s.torn ∧ ∀ row ∈ s.resources, row.contentHash = (sha256Hex run.bytes).val →
        normalizeUrl row.url = normalizeUrl run.url
  | _ => True

instance (s : Ingestion) (a : IngestAction) :
    Decidable (NoMirrorNorTorn normalizeUrl sha256Hex s a) := by
  unfold NoMirrorNorTorn
  split <;> infer_instance

/-- What is downloaded is one of the contents. -/
def Downloads (contents : List UInt8 → Prop) (a : IngestAction) : Prop :=
  ∀ url bytes, a = .download url bytes → contents bytes

/-! ## Rows that are added -/

theorem IsStored.mono {rows more : List ChunkRow} (grows : rows ⊆ more) {url : String} {idx : Nat}
    {chunk : ProcessedChunk} (stored : IsStored rows url idx chunk) :
    IsStored more url idx chunk := by
  obtain ⟨row, member, columns⟩ := stored
  exact ⟨row, grows member, columns⟩

theorem HasChunks.mono {rows more : List ChunkRow} (grows : rows ⊆ more) {url : String}
    {bytes : List UInt8} (has : HasChunks cleanChunks rows url bytes) :
    HasChunks cleanChunks more url bytes := by
  obtain ⟨chunks, cleaned, stored⟩ := has
  exact ⟨chunks, cleaned, fun idx chunk there => (stored idx chunk there).mono grows⟩

theorem Ingestion.Complete.mono {s t : Ingestion} (resources : s.resources ⊆ t.resources)
    (chunks : s.chunks ⊆ t.chunks) {url : String} {bytes : List UInt8}
    (complete : s.Complete normalizeUrl sha256Hex cleanChunks url bytes) :
    t.Complete normalizeUrl sha256Hex cleanChunks url bytes := by
  obtain ⟨row, member, canonical, hash, has⟩ := complete
  exact ⟨row, resources member, canonical, hash, has.mono chunks⟩

/-! ## The invariant -/

/-- What a run has done when it comes to a stage. -/
def StageSound (sha256Hex : List UInt8 → Sha256Hex)
    (cleanChunks : List UInt8 → Option (List ProcessedChunk)) (s : Ingestion) (run : IngestRun) :
    IngestStage → Prop
  | .isDuplicate => True
  | .saveResource chunks | .insertResource chunks =>
      cleanChunks run.bytes = some chunks ∧
        ∀ row ∈ s.resources, row.contentHash ≠ (sha256Hex run.bytes).val
  | .saveChunk idx rest => ∃ before, before.length = idx ∧
      cleanChunks run.bytes = some (before ++ rest) ∧
      (∃ row ∈ s.resources, row.url = run.url ∧ row.contentHash = (sha256Hex run.bytes).val) ∧
      (∀ i chunk, before[i]? = some chunk → IsStored s.chunks run.url i chunk) ∧
      ∀ row ∈ s.chunks, ∀ i, row.id = chunkId (sha256Hex run.bytes).val i → i < idx

structure Ingestion.Sound (normalizeUrl : String → String) (sha256Hex : List UInt8 → Sha256Hex)
    (cleanChunks : List UInt8 → Option (List ProcessedChunk)) (contents : List UInt8 → Prop)
    (s : Ingestion) : Prop where
  complete : ∀ url bytes, (url, bytes) ∈ s.ingested →
    s.Complete normalizeUrl sha256Hex cleanChunks url bytes
  rows : ∀ row ∈ s.resources, ∃ bytes, contents bytes ∧
    row.contentHash = (sha256Hex bytes).val ∧
    (bytes ∈ s.torn ∨ HasChunks cleanChunks s.chunks row.url bytes ∨
      ∃ idx rest, s.run = some ⟨row.url, bytes, .saveChunk idx rest⟩)
  owned : ∀ row ∈ s.chunks, ∃ resource ∈ s.resources, ∃ idx,
    row.id = chunkId resource.contentHash idx
  run : ∀ run ∈ s.run, contents run.bytes ∧ StageSound sha256Hex cleanChunks s run run.stage

namespace Ingestion

variable {contents : List UInt8 → Prop} {s : Ingestion}

theorem sound_empty : (empty.Sound normalizeUrl sha256Hex cleanChunks contents) where
  complete _ _ member := nomatch member
  rows _ member := nomatch member
  owned _ member := nomatch member
  run _ none := nomatch none

/-- The row of a run that moves on from its chunks has them. -/
theorem Sound.row_kept (sound : s.Sound normalizeUrl sha256Hex cleanChunks contents)
    {row : ResourceRow} (member : row ∈ s.resources) (next : Option IngestRun)
    (left : ∀ bytes idx rest, s.run = some ⟨row.url, bytes, .saveChunk idx rest⟩ →
      HasChunks cleanChunks s.chunks row.url bytes) :
    ∃ bytes, contents bytes ∧ row.contentHash = (sha256Hex bytes).val ∧
      (bytes ∈ s.torn ∨ HasChunks cleanChunks s.chunks row.url bytes ∨
        ∃ idx rest, next = some ⟨row.url, bytes, .saveChunk idx rest⟩) := by
  obtain ⟨bytes, known, hash, state⟩ := sound.rows row member
  refine ⟨bytes, known, hash, ?_⟩
  rcases state with torn | has | ⟨idx, rest, here⟩
  · exact .inl torn
  · exact .inr (.inl has)
  · exact .inr (.inl (left bytes idx rest here))

/-- A run that ends without `Ok`. -/
theorem Sound.fail (sound : s.Sound normalizeUrl sha256Hex cleanChunks contents) {run : IngestRun}
    (active : s.run = some run) :
    (s.fail run).Sound normalizeUrl sha256Hex cleanChunks contents := by
  refine ⟨sound.complete, fun row member => ?_, sound.owned, fun _ none => nomatch none⟩
  obtain ⟨bytes, known, hash, state⟩ := sound.rows row member
  refine ⟨bytes, known, hash, ?_⟩
  rcases state with torn | has | ⟨idx, rest, here⟩
  · left
    unfold Ingestion.fail
    dsimp only
    split
    · exact List.mem_append_left _ torn
    · exact torn
  · exact .inr (.inl has)
  · cases active.symm.trans here
    cases rest with
    | nil =>
        -- nothing was missing
        obtain ⟨-, before, -, cleaned, -, stored, -⟩ := sound.run _ active
        rw [List.append_nil] at cleaned
        exact .inr (.inl ⟨before, cleaned, stored⟩)
    | cons chunk rest => exact .inl (List.mem_append_right _ (List.mem_singleton_self _))

/-- A run that returns `Ok` with its content stored. -/
theorem Sound.succeed (sound : s.Sound normalizeUrl sha256Hex cleanChunks contents)
    {run : IngestRun} (active : s.run = some run)
    (complete : s.Complete normalizeUrl sha256Hex cleanChunks run.url run.bytes)
    (stored : ∀ idx rest, run.stage = .saveChunk idx rest →
      HasChunks cleanChunks s.chunks run.url run.bytes) :
    (s.succeed run).Sound normalizeUrl sha256Hex cleanChunks contents := by
  refine ⟨fun url bytes member => ?_, fun row member => ?_, sound.owned, fun _ none => nomatch none⟩
  · rcases List.mem_append.mp member with old | new
    · exact sound.complete url bytes old
    · cases List.mem_singleton.mp new
      exact complete
  · refine sound.row_kept member none fun bytes idx rest here => ?_
    cases active.symm.trans here
    exact stored idx rest rfl

/-- A run that goes on from a stage where it has stored nothing. -/
theorem Sound.goTo (sound : s.Sound normalizeUrl sha256Hex cleanChunks contents)
    {run : IngestRun} (active : s.run = some run)
    (early : ∀ idx rest, run.stage ≠ .saveChunk idx rest) {stage : IngestStage}
    (stageSound : StageSound sha256Hex cleanChunks s run stage) :
    (s.goTo run stage).Sound normalizeUrl sha256Hex cleanChunks contents := by
  refine ⟨sound.complete, fun row member => ?_, sound.owned, fun next active' => ?_⟩
  · refine sound.row_kept member _ fun bytes idx rest here => ?_
    cases active.symm.trans here
    exact absurd rfl (early idx rest)
  · cases active'
    refine ⟨(sound.run run active).1, ?_⟩
    cases stage <;> exact stageSound

/-- The check for a duplicate. -/
theorem Sound.isDuplicate (apart : ∀ b c, contents b → contents c →
      sha256Hex b = sha256Hex c → b = c)
    (sound : s.Sound normalizeUrl sha256Hex cleanChunks contents) {run : IngestRun}
    (active : s.run = some run) (stage : run.stage = .isDuplicate) {foreignKeys : Bool}
    (check : NoMirrorNorTorn normalizeUrl sha256Hex s (.statement foreignKeys)) :
    (s.statement normalizeUrl sha256Hex cleanChunks run foreignKeys).Sound
      normalizeUrl sha256Hex cleanChunks contents := by
  obtain ⟨whole, samePage⟩ := check run active stage
  have early : ∀ idx rest, run.stage ≠ .saveChunk idx rest := by
    intro idx rest same
    rw [stage] at same
    cases same
  unfold Ingestion.statement resourceExistsByHash
  rw [stage]
  dsimp only
  cases found : s.resources.find? fun row => row.contentHash = (sha256Hex run.bytes).val with
  | some row =>
      have member := List.mem_of_find?_eq_some found
      have hash : row.contentHash = (sha256Hex run.bytes).val :=
        of_decide_eq_true (List.find?_some (p := fun row : ResourceRow =>
          decide (row.contentHash = (sha256Hex run.bytes).val)) found)
      rw [Option.map_some, Option.any_some, decide_eq_true (samePage row member hash), if_pos rfl]
      refine sound.succeed active ⟨row, member, samePage row member hash, hash, ?_⟩
        fun idx rest same => absurd same (early idx rest)
      obtain ⟨bytes, known, hash', state⟩ := sound.rows row member
      obtain rfl := apart bytes run.bytes known (sound.run run active).1
        (Sha256Hex.ext (hash'.symm.trans hash))
      rcases state with torn | has | ⟨idx, rest, here⟩
      · exact absurd torn whole
      · exact has
      · have same := congrArg IngestRun.stage (Option.some.inj (active.symm.trans here))
        rw [stage] at same
        cases same
  | none =>
      rw [Option.map_none, Option.any_none, if_neg Bool.false_ne_true]
      split
      · exact sound.fail active
      · rename_i chunks cleaned
        refine sound.goTo active early ⟨cleaned, fun row member same => ?_⟩
        exact List.find?_eq_none.mp found row member (decide_eq_true same)

/-- The `SELECT` of `save_resource` finds no row. -/
theorem Sound.saveResource (sound : s.Sound normalizeUrl sha256Hex cleanChunks contents)
    {run : IngestRun} (active : s.run = some run) {chunks : List ProcessedChunk}
    (stage : run.stage = .saveResource chunks) {foreignKeys : Bool} :
    (s.statement normalizeUrl sha256Hex cleanChunks run foreignKeys).Sound
      normalizeUrl sha256Hex cleanChunks contents := by
  have here := (sound.run run active).2
  rw [stage] at here
  have none : resourceExistsByHash s.resources (sha256Hex run.bytes).val = none := by
    rw [resourceExistsByHash, Option.map_eq_none_iff, List.find?_eq_none]
    exact fun row member same => here.2 row member (of_decide_eq_true same)
  unfold Ingestion.statement
  rw [stage]
  dsimp only
  rw [none]
  refine sound.goTo active (fun idx rest same => ?_) here
  rw [stage] at same
  cases same

/-- The `INSERT` of `save_resource`. -/
theorem Sound.insertResource (sound : s.Sound normalizeUrl sha256Hex cleanChunks contents)
    {run : IngestRun} (active : s.run = some run) {chunks : List ProcessedChunk}
    (stage : run.stage = .insertResource chunks) {foreignKeys : Bool} :
    (s.statement normalizeUrl sha256Hex cleanChunks run foreignKeys).Sound
      normalizeUrl sha256Hex cleanChunks contents := by
  obtain ⟨known, here⟩ := sound.run run active
  rw [stage] at here
  unfold Ingestion.statement Webfang.insertResource
  rw [stage]
  dsimp only
  split
  · exact sound.fail active
  · rename_i resources inserted
    split at inserted
    · cases inserted
    cases inserted
    refine ⟨fun url bytes member => ?_, fun row member => ?_, fun row member => ?_,
      fun next active' => ?_⟩
    · refine Complete.mono ?_ ?_ (sound.complete url bytes member)
      · exact List.subset_append_left ..
      · exact List.Subset.refl _
    · rcases List.mem_append.mp member with old | new
      · obtain ⟨bytes, known, hash, state⟩ := sound.rows row old
        refine ⟨bytes, known, hash, ?_⟩
        rcases state with torn | has | ⟨idx, rest, same⟩
        · exact .inl torn
        · exact .inr (.inl has)
        · cases active.symm.trans same
          cases stage
      · cases List.mem_singleton.mp new
        exact ⟨run.bytes, known, rfl, .inr (.inr ⟨0, chunks, rfl⟩)⟩
    · obtain ⟨resource, held, id⟩ := sound.owned row member
      exact ⟨resource, List.mem_append_left _ held, id⟩
    · cases active'
      refine ⟨known, [], rfl, here.1, ?_, fun i chunk none => (nomatch none),
        fun row member i id => ?_⟩
      · exact ⟨_, List.mem_append_right _ (List.mem_singleton_self _), rfl, rfl⟩
      · -- a chunk with the digest would have its resource
        obtain ⟨resource, held, idx, same⟩ := sound.owned row member
        obtain ⟨bytes, -, hash, -⟩ := sound.rows resource held
        rw [hash, id, chunkId_inj] at same
        exact absurd (hash.trans (congrArg _ same.1.symm)) (here.2 resource held)

/-- The next chunk. -/
theorem Sound.saveChunk (sound : s.Sound normalizeUrl sha256Hex cleanChunks contents)
    {run : IngestRun} (active : s.run = some run) {idx : Nat} {rest : List ProcessedChunk}
    (stage : run.stage = .saveChunk idx rest) {foreignKeys : Bool} :
    (s.statement normalizeUrl sha256Hex cleanChunks run foreignKeys).Sound
      normalizeUrl sha256Hex cleanChunks contents := by
  obtain ⟨known, here⟩ := sound.run run active
  rw [stage] at here
  obtain ⟨before, length, cleaned, ⟨row, member, url, hash⟩, stored, later⟩ := here
  unfold Ingestion.statement
  rw [stage]
  cases rest with
  | nil =>
      rw [List.append_nil] at cleaned
      have has : HasChunks cleanChunks s.chunks run.url run.bytes := ⟨before, cleaned, stored⟩
      exact sound.succeed active ⟨row, member, by rw [url], hash, url ▸ has⟩ fun _ _ _ => has
  | cons chunk rest =>
      let new : ChunkRow := ⟨chunkId (sha256Hex run.bytes).val idx, run.url, idx, chunk.content,
        chunk.embedding.map f32SliceToBytes⟩
      have fresh : new.id ∉ s.chunks.map ChunkRow.id := by
        intro there
        obtain ⟨old, held, id⟩ := List.mem_map.mp there
        exact absurd (later old held idx id) (Nat.lt_irrefl _)
      have parent : new.resourceUrl ∈ s.resources.map ResourceRow.url :=
        List.mem_map.mpr ⟨row, member, url⟩
      have inserted : insertChunk foreignKeys s.resources s.chunks new =
          some (s.chunks ++ [new]) := by
        rw [insertChunk, if_neg fresh, if_neg fun refused => refused.2 parent]
      dsimp only
      rw [show insertChunk foreignKeys s.resources s.chunks _ = _ from inserted]
      have grows : s.chunks ⊆ s.chunks ++ [new] := List.subset_append_left ..
      refine ⟨fun url bytes ok => ?_, fun resource held => ?_, fun old held => ?_,
        fun next active' => ?_⟩
      · refine Complete.mono ?_ ?_ (sound.complete url bytes ok)
        · exact List.Subset.refl _
        · exact grows
      · obtain ⟨bytes, known, hash, state⟩ := sound.rows resource held
        refine ⟨bytes, known, hash, ?_⟩
        rcases state with torn | has | ⟨i, rest', same⟩
        · exact .inl torn
        · exact .inr (.inl (has.mono grows))
        · cases active.symm.trans same
          exact .inr (.inr ⟨idx + 1, rest, rfl⟩)
      · rcases List.mem_append.mp held with old | new
        · exact sound.owned _ old
        · rw [List.mem_singleton.mp new]
          exact ⟨row, member, idx, by rw [hash]⟩
      · cases active'
        refine ⟨known, before ++ [chunk], by rw [List.length_append, length]; rfl, ?_,
          ⟨row, member, url, hash⟩, fun i c there => ?_, fun old held i id => ?_⟩
        · rw [cleaned, List.append_assoc, List.singleton_append]
        · rcases Nat.lt_or_ge i before.length with inside | behind
          · rw [List.getElem?_append_left inside] at there
            exact (stored i c there).mono grows
          · rw [List.getElem?_append_right behind] at there
            obtain ⟨zero, same⟩ := List.getElem?_eq_some_iff.mp there
            have last : i = idx := by
              rw [List.length_singleton] at zero
              omega
            rw [List.getElem_singleton] at same
            subst same last
            exact ⟨new, List.mem_append_right _ (List.mem_singleton_self _), rfl, rfl, rfl, rfl⟩
        · rcases List.mem_append.mp held with older | newer
          · exact Nat.lt_succ_of_lt (later old older i id)
          · rw [List.mem_singleton.mp newer] at id
            rw [(chunkId_inj.mp id).2]
            exact Nat.lt_succ_self _

theorem Sound.step (apart : ∀ b c, contents b → contents c → sha256Hex b = sha256Hex c → b = c)
    {t : Ingestion} {a : IngestAction}
    (sound : s.Sound normalizeUrl sha256Hex cleanChunks contents)
    (check : NoMirrorNorTorn normalizeUrl sha256Hex s a) (known : Downloads contents a)
    (step : ingestStep normalizeUrl sha256Hex cleanChunks s a = some t) :
    t.Sound normalizeUrl sha256Hex cleanChunks contents := by
  cases a with
  | download url bytes =>
      dsimp only [ingestStep] at step
      split at step
      · cases step
      · rename_i idle
        cases step
        refine ⟨sound.complete, fun row member => ?_, sound.owned, fun run active => ?_⟩
        · refine sound.row_kept member _ fun bytes idx rest here => ?_
          cases idle.symm.trans here
        · cases active
          exact ⟨known url bytes rfl, trivial⟩
  | stop =>
      obtain ⟨run, active, rfl⟩ := Option.map_eq_some_iff.mp step
      exact sound.fail active
  | statement foreignKeys =>
      obtain ⟨run, active, rfl⟩ := Option.map_eq_some_iff.mp step
      cases stage : run.stage with
      | isDuplicate => exact sound.isDuplicate apart active stage check
      | saveResource chunks => exact sound.saveResource active stage
      | insertResource chunks => exact sound.insertResource active stage
      | saveChunk idx rest => exact sound.saveChunk active stage

end Ingestion

/-- In a sequence of runs where no run finds its content in the row of another page, or in one
whose run ended before its last chunk, what returned `Ok` is completely stored. -/
theorem ok_ingestion_is_complete {as : List IngestAction} {t : Ingestion}
    (apart : ∀ u b v c, .download u b ∈ as → .download v c ∈ as →
      sha256Hex b = sha256Hex c → b = c)
    (run : execute (ingestStep normalizeUrl sha256Hex cleanChunks) .empty as = some t)
    (check : Along (ingestStep normalizeUrl sha256Hex cleanChunks)
      (NoMirrorNorTorn normalizeUrl sha256Hex) .empty as)
    (url : String) (bytes : List UInt8) (ok : (url, bytes) ∈ t.ingested) :
    t.Complete normalizeUrl sha256Hex cleanChunks url bytes := by
  let contents : List UInt8 → Prop := fun b => ∃ u, .download u b ∈ as
  have downloads : Along (ingestStep normalizeUrl sha256Hex cleanChunks)
      (fun _ a => Downloads contents a) .empty as :=
    Along.of_forall (fun a member _ u b same => ⟨u, by rwa [same] at member⟩) _
  have sound : t.Sound normalizeUrl sha256Hex cleanChunks contents :=
    execute_invariant_along (fun _ _ _ sound allowed step =>
      sound.step (fun b c ⟨u, first⟩ ⟨v, second⟩ => apart u b v c first second) allowed.1 allowed.2
        step) run (check.and downloads) Ingestion.sound_empty
  exact sound.complete url bytes ok

end Completeness

/-! ## A small page -/

/-- The bytes of `Hello`, and what is known of them. -/
def helloBytes : List UInt8 := [0x48, 0x65, 0x6C, 0x6C, 0x6F]

def helloDigest (_ : List UInt8) : Sha256Hex :=
  ⟨"185f8db32271fe25f561a6fc938b2e264306ec304eda518007d1764826381969",
    by decide +kernel, by decide +kernel⟩

def helloChunks (_ : List UInt8) : Option (List ProcessedChunk) := some [⟨"Hello", none⟩]

/-- A run of a page with one chunk, from its download to its `Ok`. -/
def wholeRun (url : String) : List IngestAction :=
  .download url helloBytes :: List.replicate 5 (.statement true)

/-- A run that is stopped before its resource row, a whole one, and one that finds the first. -/
theorem ok_ingestion_is_complete_after_stop :
    ∃ t, execute (ingestStep id helloDigest helloChunks) .empty
        ([.download "https://a.test/page" helloBytes, .statement true, .statement true, .stop] ++
          wholeRun "https://a.test/page" ++
          [.download "https://a.test/page" helloBytes, .statement true]) = some t ∧
      ("https://a.test/page", helloBytes) ∈ t.ingested ∧
      t.Complete id helloDigest helloChunks "https://a.test/page" helloBytes := by
  have succeeds : (execute (ingestStep id helloDigest helloChunks) .empty
      ([.download "https://a.test/page" helloBytes, .statement true, .statement true, .stop] ++
        wholeRun "https://a.test/page" ++
        [.download "https://a.test/page" helloBytes, .statement true])).any
      (fun t => t.ingested.contains ("https://a.test/page", helloBytes)) = true := by
    decide +kernel
  obtain ⟨t, run, ingested⟩ := (Option.any_eq_true _ _).mp succeeds
  have ok := List.contains_iff_mem.mp ingested
  refine ⟨t, run, ok, ok_ingestion_is_complete (fun u b v c first second _ => ?_) run
    (by decide +kernel) _ _ ok⟩
  simp [wholeRun, List.replicate] at first second
  rw [first.2, second.2]

/-- A run is stopped behind its resource row, and the next one returns `Ok` without a chunk; and
behind a whole run, that of a page with the same content returns `Ok` without a resource. -/
theorem ok_ingestion_without_chunks_or_resource :
    (∃ t, execute (ingestStep id helloDigest helloChunks) .empty
        [.download "https://a.test/page" helloBytes, .statement true, .statement true,
          .statement true, .stop, .download "https://a.test/page" helloBytes, .statement true] =
            some t ∧
      ("https://a.test/page", helloBytes) ∈ t.ingested ∧ t.chunks = [] ∧
      ¬ t.Complete id helloDigest helloChunks "https://a.test/page" helloBytes) ∧
    ∃ t, execute (ingestStep id helloDigest helloChunks) .empty
        (wholeRun "https://a.test/page" ++ .download "https://b.test/page" helloBytes ::
          List.replicate 4 (.statement true)) = some t ∧
      ("https://b.test/page", helloBytes) ∈ t.ingested ∧
      t.resources.map ResourceRow.url = ["https://a.test/page"] ∧
      ¬ t.Complete id helloDigest helloChunks "https://b.test/page" helloBytes := by
  constructor
  · have torn : (execute (ingestStep id helloDigest helloChunks) .empty
        [.download "https://a.test/page" helloBytes, .statement true, .statement true,
          .statement true, .stop, .download "https://a.test/page" helloBytes,
          .statement true]).any (fun t => decide (
        ("https://a.test/page", helloBytes) ∈ t.ingested ∧ t.chunks = [])) = true := by
      decide +kernel
    obtain ⟨t, run, found⟩ := (Option.any_eq_true _ _).mp torn
    obtain ⟨ok, none⟩ := of_decide_eq_true found
    refine ⟨t, run, ok, none, ?_⟩
    rintro ⟨row, member, -, -, chunks, cleaned, stored⟩
    cases cleaned
    obtain ⟨chunk, there, -⟩ := stored 0 _ rfl
    rw [none] at there
    cases there
  · have mirrored : (execute (ingestStep id helloDigest helloChunks) .empty
        (wholeRun "https://a.test/page" ++ .download "https://b.test/page" helloBytes ::
          List.replicate 4 (.statement true))).any (fun t => decide (
        ("https://b.test/page", helloBytes) ∈ t.ingested ∧
        t.resources.map ResourceRow.url = ["https://a.test/page"])) = true := by
      decide +kernel
    obtain ⟨t, run, found⟩ := (Option.any_eq_true _ _).mp mirrored
    obtain ⟨ok, only⟩ := of_decide_eq_true found
    refine ⟨t, run, ok, only, ?_⟩
    rintro ⟨row, member, same, -⟩
    have url : row.url ∈ t.resources.map ResourceRow.url := List.mem_map_of_mem member
    change row.url = "https://b.test/page" at same
    rw [only, same, List.mem_singleton] at url
    exact absurd url (by decide)

end Webfang
