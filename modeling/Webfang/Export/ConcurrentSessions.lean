import Webfang.Export.SessionSpec
import Webfang.Export.ExportSystem

/-!
# Concurrent sessions over one store

Any number of commit sessions on one record store, each at its own place between its
in-memory transitions and its saves; a save is one `RecordStore::update`.  The clock never
goes back and may stand still between two steps.  A save of one session can take a COMMITTED
record away from another one; `SaveSafe` says what keeps the saves of a run from doing so.
-/

namespace Webfang

open KeyedMerge StepSystem

/-- Where a session stands between two of its steps. -/
inductive SessionPc
  | idle
  /-- the EXPORTED checkpoint of `url` is in memory, its save comes next -/
  | checkpoint (url : String)
  /-- the checkpoint of `url` is saved, the commit point comes next -/
  | commitPoint (url : String)
  /-- the last save of an item comes next -/
  | save
  | closed
  deriving DecidableEq, Repr

structure OpenSession where
  ctx : ResumeContext
  session : CommitSession
  pc : SessionPc
  /-- the canonical URLs this session handed to one of its writers -/
  processed : Finset String

structure SharedStore where
  store : DomainRecords
  clock : Int
  sessions : List OpenSession

inductive StoreAction
  | openSession (ctx : ResumeContext) (file : OutputFile) (loaded : Bool)
  | tick (millis : Nat)
  | commitItem (i : Nat) (url contentHash outputLocation : String)
  | promoteFromFlushProof (i : Nat) (url contentHash outputLocation : String)
  | failItem (i : Nat) (url : String) (errorClass : ErrorClass) (message : String)
  | commitPoint (i : Nat)
  /-- the pending save of session `i`, or its `final_persist` -/
  | persist (i : Nat) (saved : Bool)
  | kill (i : Nat)

/-- The session once a writer is through with its in-memory half for `key`; the flag says
whether the writer goes on to `pc`. -/
def OpenSession.wrote (o : OpenSession) (key : String) (written : CommitSession × Bool)
    (pc : SessionPc) : OpenSession :=
  { o with
    session := written.1
    pc := if written.2 then pc else .idle
    processed := insert key o.processed }

/-- A save is pending, or the session may take its `final_persist`. -/
def SessionPc.maySave : SessionPc → Bool
  | .idle | .checkpoint _ | .save => true
  | .commitPoint _ | .closed => false

/-- Where a save leaves the session that made it. -/
def SessionPc.saved : SessionPc → SessionPc
  | .checkpoint url => .commitPoint url
  | .save => .idle
  | _ => .closed

def SharedStore.update (s : SharedStore) (i : Nat) (o : OpenSession) : SharedStore :=
  { s with sessions := s.sessions.set i o }

/-- `RecordStore::update` with the map of session `i`. -/
def SharedStore.persist (s : SharedStore) (i : Nat) (o : OpenSession) (saved : Bool) :
    SharedStore :=
  { s.update i { o with pc := o.pc.saved } with
    store := if saved then mergePersist o.session.records s.store else s.store }

section Keys

variable (keys : ExportKeys)

def storeStep (s : SharedStore) : StoreAction → Option SharedStore
  | .openSession ctx file loaded =>
      some { s with sessions := s.sessions ++
        [⟨ctx, .open (some ctx) (World.loadPreserving ⟨file, s.store⟩ loaded) file, .idle, ∅⟩] }
  | .tick millis => some { s with clock := s.clock + millis }
  | .commitItem i url contentHash outputLocation => do
      let o ← s.sessions[i]?
      guard (o.pc = .idle)
      s.update i (o.wrote (keys.canonicalKey url)
        (o.session.driveToExported keys o.ctx.runId url contentHash outputLocation s.clock)
        (.checkpoint url))
  | .promoteFromFlushProof i url contentHash outputLocation => do
      let o ← s.sessions[i]?
      guard (o.pc = .idle)
      s.update i (o.wrote (keys.canonicalKey url)
        (o.session.promoteToExported keys o.ctx.runId url outputLocation contentHash s.clock)
        (.checkpoint url))
  | .failItem i url errorClass message => do
      let o ← s.sessions[i]?
      guard (o.pc = .idle)
      s.update i (o.wrote (keys.canonicalKey url)
        (o.session.recordFailure keys url errorClass message o.ctx.runId s.clock) .save)
  | .commitPoint i => do
      let o ← s.sessions[i]?
      match o.pc with
      | .commitPoint url =>
          s.update i (o.wrote (keys.canonicalKey url) (o.session.commitPoint keys url) .save)
      | _ => none
  | .persist i saved => do
      let o ← s.sessions[i]?
      guard o.pc.maySave
      s.persist i o saved
  | .kill i => do
      let o ← s.sessions[i]?
      s.update i { o with pc := .closed }

/-! ## Inversion -/

/-- A step of a session leaves the slots of the URLs it has not processed alone. -/
structure OpenSession.Advances (o next : OpenSession) : Prop where
  processed : o.processed ⊆ next.processed
  untouched : ∀ k ∉ next.processed, next.session.records[k]? = o.session.records[k]?
  closed : o.pc = .closed → next.pc = .closed

/-- A writer's in-memory half rewrites at most the slot of its key. -/
theorem OpenSession.wrote_advances {o : OpenSession} {key : String}
    {written : CommitSession × Bool} {pc : SessionPc} (running : o.pc ≠ .closed)
    (elsewhere : ∀ k, key ≠ k → written.1.records[k]? = o.session.records[k]?) :
    o.Advances (o.wrote key written pc) where
  processed := Finset.subset_insert ..
  untouched k fresh := by
    refine elsewhere k fun same => fresh ?_
    rw [← same]
    exact Finset.mem_insert_self ..
  closed closed := absurd closed running

variable {keys}

theorem driveToExported_elsewhere (s : CommitSession)
    (runId url contentHash outputLocation : String) (now : Int) (k : String)
    (other : keys.canonicalKey url ≠ k) :
    (s.driveToExported keys runId url contentHash outputLocation now).1.records[k]? =
      s.records[k]? := by
  rw [CommitSession.driveToExported_eq]
  split
  · rw [CommitSession.drop_records_getElem?, if_neg other]
  · rw [CommitSession.put_records_getElem?, if_neg other]

theorem promoteToExported_elsewhere (s : CommitSession)
    (runId url outputLocation contentHash : String) (now : Int) (k : String)
    (other : keys.canonicalKey url ≠ k) :
    (s.promoteToExported keys runId url outputLocation contentHash now).1.records[k]? =
      s.records[k]? := by
  rw [CommitSession.promoteToExported_eq]
  split
  · rw [CommitSession.drop_records_getElem?, if_neg other]
  · rw [CommitSession.put_records_getElem?, if_neg other]

theorem recordFailure_elsewhere (s : CommitSession) (url : String) (errorClass : ErrorClass)
    (message runId : String) (now : Int) (k : String) (other : keys.canonicalKey url ≠ k) :
    (s.recordFailure keys url errorClass message runId now).1.records[k]? = s.records[k]? := by
  rw [CommitSession.recordFailure_eq]
  split
  · rfl
  · rw [CommitSession.put_records_getElem?, if_neg other]

theorem commitPoint_elsewhere (s : CommitSession) (url k : String)
    (other : keys.canonicalKey url ≠ k) :
    (s.commitPoint keys url).1.records[k]? = s.records[k]? := by
  unfold CommitSession.commitPoint swapToCommitted
  cases s.records[keys.canonicalKey url]?.bind tryCommitExported with
  | none => rfl
  | some committed =>
      exact (getElem?_insert_of_eq (t := s.records)).trans (if_neg other)

/-- What an enabled save does. -/
theorem storeStep_persist {s t : SharedStore} {i : Nat} {saved : Bool}
    (step : storeStep keys s (.persist i saved) = some t) :
    ∃ o, s.sessions[i]? = some o ∧ o.pc ≠ .closed ∧
      t.sessions = s.sessions.set i { o with pc := o.pc.saved } ∧
      t.store = if saved then mergePersist o.session.records s.store else s.store := by
  obtain ⟨o, here, may, rfl⟩ := by simpa [storeStep, Option.bind_eq_some_iff] using step
  refine ⟨o, here, ?_, rfl, rfl⟩
  intro closed
  rw [closed] at may
  cases may

/-- What an enabled step does to the store and the sessions: a session opens on the store, a
session takes a step of its own, or a session saves. -/
theorem storeStep_cases {s t : SharedStore} {action : StoreAction}
    (step : storeStep keys s action = some t) :
    (∃ o : OpenSession, t.store = s.store ∧ t.sessions = s.sessions ++ [o] ∧
      ∀ (u : String) (r : RawRecord), o.session.records[u]? = some r → s.store[u]? = some r) ∨
    (t.store = s.store ∧ t.sessions = s.sessions) ∨
    (∃ i o next, s.sessions[i]? = some o ∧ t.store = s.store ∧
      t.sessions = s.sessions.set i next ∧ o.Advances next) ∨
    (∃ i saved o next, action = .persist i saved ∧ s.sessions[i]? = some o ∧
      t.sessions = s.sessions.set i next ∧ o.Advances next ∧
      t.store = if saved then mergePersist o.session.records s.store else s.store) := by
  cases action with
  | openSession ctx file loaded =>
      cases step
      refine .inl ⟨_, rfl, rfl, fun u r found => ?_⟩
      simp only [CommitSession.open, Option.isSome_some, if_true, World.loadPreserving] at found
      split at found
      · exact (validateAndQuarantine_eq_some.mp found).1
      · simp at found
  | tick millis =>
      cases step
      exact .inr (.inl ⟨rfl, rfl⟩)
  | commitItem i url contentHash outputLocation =>
      obtain ⟨o, here, idle, rfl⟩ := by simpa [storeStep, Option.bind_eq_some_iff] using step
      refine .inr (.inr (.inl ⟨i, o, _, here, rfl, rfl, ?_⟩))
      exact o.wrote_advances (by simp [idle])
        (driveToExported_elsewhere o.session o.ctx.runId url contentHash outputLocation s.clock)
  | promoteFromFlushProof i url contentHash outputLocation =>
      obtain ⟨o, here, idle, rfl⟩ := by simpa [storeStep, Option.bind_eq_some_iff] using step
      refine .inr (.inr (.inl ⟨i, o, _, here, rfl, rfl, ?_⟩))
      exact o.wrote_advances (by simp [idle])
        (promoteToExported_elsewhere o.session o.ctx.runId url outputLocation contentHash s.clock)
  | failItem i url errorClass message =>
      obtain ⟨o, here, idle, rfl⟩ := by simpa [storeStep, Option.bind_eq_some_iff] using step
      refine .inr (.inr (.inl ⟨i, o, _, here, rfl, rfl, ?_⟩))
      exact o.wrote_advances (by simp [idle])
        (recordFailure_elsewhere o.session url errorClass message o.ctx.runId s.clock)
  | commitPoint i =>
      obtain ⟨o, here, next⟩ := Option.bind_eq_some_iff.mp step
      cases pc : o.pc with
      | commitPoint url =>
          rw [pc] at next
          cases next
          refine .inr (.inr (.inl ⟨i, o, _, here, rfl, rfl, ?_⟩))
          exact o.wrote_advances (by simp [pc]) (commitPoint_elsewhere o.session url)
      | idle | checkpoint | save | closed =>
          rw [pc] at next
          cases next
  | persist i saved =>
      obtain ⟨o, here, running, sessions, store⟩ := storeStep_persist step
      refine .inr (.inr (.inr ⟨i, saved, o, _, rfl, here, sessions, ?_, store⟩))
      exact ⟨subset_rfl, fun _ _ => rfl, fun closed => absurd closed running⟩
  | kill i =>
      obtain ⟨o, here, rfl⟩ := by simpa [storeStep, Option.bind_eq_some_iff] using step
      refine .inr (.inr (.inl ⟨i, o, _, here, rfl, rfl, ?_⟩))
      exact ⟨subset_rfl, fun _ _ => rfl, fun _ => rfl⟩

/-! ## The writers are executions -/

/-- Steps of session `i` alone bring the store to where the effects of `done` bring it and
the session to the one `done` returns. -/
def Performs (keys : ExportKeys) (s : SharedStore) (i : Nat)
    (done : CommitSession × List Effect) : Prop :=
  ∃ actions t next, execute (storeStep keys) s actions = some t ∧
    (∀ file, t.store = (World.applyAll ⟨file, s.store⟩ done.2).store) ∧
    t.sessions[i]? = some next ∧ next.session = done.1 ∧ next.pc = .idle

theorem SharedStore.update_getElem? {s : SharedStore} {i : Nat} {o : OpenSession}
    (here : s.sessions[i]? = some o) (next : OpenSession) :
    (s.update i next).sessions[i]? = some next := by
  have bound := (List.getElem?_eq_some_iff.mp here).1
  exact List.getElem?_set_self bound

/-- The save of a session with a store, as an effect and as a step. -/
theorem applyAll_save_store {s : CommitSession} {ctx : ResumeContext} (present : s.ctx = some ctx)
    (file : OutputFile) (store : DomainRecords) (saved : Bool) :
    (World.applyAll ⟨file, store⟩ (s.save saved)) =
      ⟨file, if saved then mergePersist s.records store else store⟩ := by
  simp only [CommitSession.save, present, Option.isSome_some, if_true, World.applyAll_cons,
    World.applyAll_nil, World.apply]
  cases saved <;> rfl

theorem storeStep_save {s : SharedStore} {i : Nat} {o : OpenSession}
    (here : s.sessions[i]? = some o) (may : o.pc.maySave = true) (saved : Bool) :
    storeStep keys s (.persist i saved) = some (s.persist i o saved) := by
  simp [storeStep, here, may]

/-- Steps in front of a performance that bring the store to where the effects begin. -/
theorem Performs.step {s m : SharedStore} {i : Nat} {action : StoreAction}
    {done : CommitSession × List Effect} (before : List Effect)
    (step : storeStep keys s action = some m)
    (store : ∀ file, World.applyAll ⟨file, s.store⟩ before = ⟨file, m.store⟩)
    (rest : Performs keys m i done) : Performs keys s i (done.1, before ++ done.2) := by
  obtain ⟨actions, t, next, ran, stored, here, session, idle⟩ := rest
  refine ⟨action :: actions, t, next, ?_, fun file => ?_, here, session, idle⟩
  · rw [execute_cons, step, Option.bind_some, ran]
  · rw [World.applyAll_append, store, stored file]

theorem Performs.done {s : SharedStore} {i : Nat} {o : OpenSession}
    (here : s.sessions[i]? = some o) (idle : o.pc = .idle) : Performs keys s i (o.session, []) :=
  ⟨[], s, o, rfl, fun _ => rfl, here, rfl, idle⟩

/-- The last save of an item. -/
theorem save_performs {s : SharedStore} {i : Nat} {o : OpenSession}
    (here : s.sessions[i]? = some o) (pc : o.pc = .save) {ctx : ResumeContext}
    (present : o.session.ctx = some ctx) (saved : Bool) :
    Performs keys s i (o.session, o.session.save saved) := by
  let last : OpenSession := { o with pc := o.pc.saved }
  have reached : (s.persist i o saved).sessions[i]? = some last :=
    SharedStore.update_getElem? here last
  have done : Performs keys (s.persist i o saved) i (last.session, []) :=
    Performs.done reached (by rw [show last.pc = o.pc.saved from rfl, pc]; rfl)
  have next := done.step (o.session.save saved)
    (storeStep_save here (by rw [pc]; rfl) saved)
    fun file => applyAll_save_store present file s.store saved
  rwa [List.append_nil] at next

/-- From the checkpoint on, a session performs the two saves around the commit point. -/
theorem checkpoint_performs {s : SharedStore} {i : Nat} {o : OpenSession} {url : String}
    (here : s.sessions[i]? = some o) (pc : o.pc = .checkpoint url) {ctx : ResumeContext}
    (present : o.session.ctx = some ctx) (saves : Bool × Bool) :
    Performs keys s i (o.session.checkpointAndCommit keys url saves) := by
  let next : OpenSession := { o with pc := .commitPoint url }
  let passed := next.wrote (keys.canonicalKey url) (o.session.commitPoint keys url) .save
  have save : storeStep keys s (.persist i saves.1) = some (s.persist i o saves.1) :=
    storeStep_save here (by rw [pc]; rfl) saves.1
  have saved : (s.persist i o saves.1).sessions[i]? = some next := by
    have updated := SharedStore.update_getElem? here { o with pc := o.pc.saved }
    rw [show next = { o with pc := o.pc.saved } by rw [pc]; rfl]
    exact updated
  have point : storeStep keys (s.persist i o saves.1) (.commitPoint i) =
      some ((s.persist i o saves.1).update i passed) := by
    simp only [storeStep, saved]
    rfl
  have reached := SharedStore.update_getElem? saved passed
  have rest : Performs keys ((s.persist i o saves.1).update i passed) i
      ((o.session.commitPoint keys url).1, if (o.session.commitPoint keys url).2 then
        (o.session.commitPoint keys url).1.save saves.2 else []) := by
    cases swapped : (o.session.commitPoint keys url).2 with
    | true => exact save_performs reached (by simp [passed, OpenSession.wrote, swapped]) present _
    | false => exact Performs.done reached (by simp [passed, OpenSession.wrote, swapped])
  have committed := rest.step [] point fun _ => rfl
  exact committed.step (o.session.save saves.1) save
    fun file => applyAll_save_store present file s.store saves.1

/-- A writer's in-memory half, then its saves. -/
theorem Performs.written {s : SharedStore} {i : Nat} {o : OpenSession} {action : StoreAction}
    {key : String} {session : CommitSession} {done : CommitSession × List Effect}
    {pc : SessionPc} {flag : Bool} (here : s.sessions[i]? = some o)
    (step : storeStep keys s action = some (s.update i (o.wrote key (session, flag) pc)))
    (refused : flag = false → done = (session, []))
    (accepted : flag = true → ∀ next, (s.update i next).sessions[i]? = some next →
      next.session = session → next.pc = pc → Performs keys (s.update i next) i done) :
    Performs keys s i done := by
  have reached := SharedStore.update_getElem? here (o.wrote key (session, flag) pc)
  refine Performs.step [] step (fun _ => rfl) ?_
  cases flag with
  | true => exact accepted rfl _ reached rfl rfl
  | false =>
      rw [refused rfl]
      exact Performs.done reached rfl

theorem commitItem_performs {s : SharedStore} {i : Nat} {o : OpenSession}
    (here : s.sessions[i]? = some o) (idle : o.pc = .idle)
    (present : o.session.ctx = some o.ctx) (url contentHash outputLocation : String)
    (saves : Bool × Bool) :
    Performs keys s i (o.session.commitItem keys url contentHash outputLocation o.ctx.runId
      s.clock saves) := by
  have kept : (o.session.driveToExported keys o.ctx.runId url contentHash outputLocation
      s.clock).1.ctx = some o.ctx := by
    rw [CommitSession.driveToExported_eq]
    split <;> exact present
  have step : storeStep keys s (.commitItem i url contentHash outputLocation) =
      some (s.update i (o.wrote (keys.canonicalKey url) (o.session.driveToExported keys o.ctx.runId
        url contentHash outputLocation s.clock) (.checkpoint url))) := by
    simp [storeStep, here, idle]
  unfold CommitSession.commitItem
  generalize o.session.driveToExported keys o.ctx.runId url contentHash outputLocation s.clock =
    driven at kept step
  obtain ⟨session, flag⟩ := driven
  refine Performs.written here step (by rintro rfl; rfl) ?_
  rintro rfl next reached rfl pc
  exact checkpoint_performs reached pc kept saves

theorem promoteFromFlushProof_performs {s : SharedStore} {i : Nat} {o : OpenSession}
    (here : s.sessions[i]? = some o) (idle : o.pc = .idle)
    (present : o.session.ctx = some o.ctx) (url contentHash outputLocation : String)
    (saves : Bool × Bool) :
    Performs keys s i (o.session.promoteFromFlushProof keys url outputLocation contentHash
      s.clock saves) := by
  have kept : (o.session.promoteToExported keys o.ctx.runId url outputLocation contentHash
      s.clock).1.ctx = some o.ctx := by
    rw [CommitSession.promoteToExported_eq]
    split <;> exact present
  have step : storeStep keys s (.promoteFromFlushProof i url contentHash outputLocation) =
      some (s.update i (o.wrote (keys.canonicalKey url) (o.session.promoteToExported keys
        o.ctx.runId url outputLocation contentHash s.clock) (.checkpoint url))) := by
    simp [storeStep, here, idle]
  unfold CommitSession.promoteFromFlushProof
  simp only [present]
  generalize o.session.promoteToExported keys o.ctx.runId url outputLocation contentHash s.clock =
    promoted at kept step
  obtain ⟨session, flag⟩ := promoted
  refine Performs.written here step (by rintro rfl; rfl) ?_
  rintro rfl next reached rfl pc
  exact checkpoint_performs reached pc kept saves

theorem failItem_performs {s : SharedStore} {i : Nat} {o : OpenSession}
    (here : s.sessions[i]? = some o) (idle : o.pc = .idle)
    (present : o.session.ctx = some o.ctx) (url : String) (errorClass : ErrorClass)
    (message : String) (saved : Bool) :
    Performs keys s i (o.session.failItem keys url errorClass message s.clock saved) := by
  have kept : (o.session.recordFailure keys url errorClass message o.ctx.runId s.clock).1.ctx =
      some o.ctx := by
    rw [CommitSession.recordFailure_eq]
    split <;> exact present
  have step : storeStep keys s (.failItem i url errorClass message) =
      some (s.update i (o.wrote (keys.canonicalKey url) (o.session.recordFailure keys url
        errorClass message o.ctx.runId s.clock) .save)) := by
    simp [storeStep, here, idle]
  unfold CommitSession.failItem
  simp only [present]
  generalize o.session.recordFailure keys url errorClass message o.ctx.runId s.clock =
    failed at kept step
  obtain ⟨session, flag⟩ := failed
  refine Performs.written here step (by rintro rfl; rfl) ?_
  rintro rfl next reached rfl pc
  exact save_performs reached pc kept saved

/-! ## Safety -/

/-- The copy of `u` in a session that has not processed it is `c`, or older. -/
def Outdone (o : OpenSession) (u : String) (c : RawRecord) : Prop :=
  o.pc ≠ .closed → u ∉ o.processed →
    ∀ r ∈ o.session.records[u]?, r = c ∨ r.updatedAt < c.updatedAt

instance (o : OpenSession) (u : String) (c : RawRecord) : Decidable (Outdone o u c) :=
  inferInstanceAs (Decidable (_ → _ → ∀ r ∈ o.session.records[u]?, _))

/-- No COMMITTED record of a URL the session has not processed is in an impossible state. -/
def CommitsPossible (store : DomainRecords) (o : OpenSession) : Prop :=
  AllEntries (fun u c => c.status = .committed → u ∉ o.processed → c.Valid) store

/-- Each COMMITTED copy of the session that a save would make durable is, against every open
session that has not processed its URL, the copy held there or strictly younger. -/
def CopiesOutdone (s : SharedStore) (o : OpenSession) : Prop :=
  AllEntries (fun u c => c.status = .committed → s.store[u]? ≠ some c →
    (∀ held ∈ s.store[u]?, held.Valid → held.updatedAt ≤ c.updatedAt) →
      ∀ other ∈ s.sessions, Outdone other u c) o.session.records

instance (store : DomainRecords) (o : OpenSession) : Decidable (CommitsPossible store o) :=
  AllEntries.decidable _

instance (s : SharedStore) (o : OpenSession) : Decidable (CopiesOutdone s o) :=
  AllEntries.decidable _

/-- What the state must satisfy for a save to be safe. -/
def SaveSafe (s : SharedStore) : StoreAction → Prop
  | .persist i true => ∀ o ∈ s.sessions[i]?, CommitsPossible s.store o ∧ CopiesOutdone s o
  | _ => True

instance (s : SharedStore) : (action : StoreAction) → Decidable (SaveSafe s action)
  | .persist i true => inferInstanceAs (Decidable (∀ o ∈ s.sessions[i]?, _ ∧ _))
  | .persist _ false | .openSession .. | .tick _ | .commitItem .. | .promoteFromFlushProof ..
  | .failItem .. | .commitPoint _ | .kill _ => .isTrue True.intro

/-- A save by a session that did not process the URL of a COMMITTED record leaves it. -/
def CommitsKept (keys : ExportKeys) (s : SharedStore) (action : StoreAction) : Prop :=
  ∀ t, storeStep keys s action = some t → ∀ i saved, action = .persist i saved →
    ∀ o, s.sessions[i]? = some o → ∀ u c, s.store[u]? = some c → c.status = .committed →
      u ∉ o.processed → t.store[u]? = some c

/-- Every open session's copy of a COMMITTED record it has not processed is outdone. -/
def Unrivalled (s : SharedStore) : Prop :=
  AllEntries (fun u c => c.status = .committed → ∀ o ∈ s.sessions, Outdone o u c) s.store

/-- What a session's step leaves outdone was outdone before. -/
theorem Outdone.advance {o next : OpenSession} {u : String} {c : RawRecord}
    (outdone : Outdone o u c) (advances : o.Advances next) : Outdone next u c := by
  intro running fresh r found
  rw [Option.mem_def, advances.untouched u fresh] at found
  exact outdone (fun closed => running (advances.closed closed))
    (fun old => fresh (advances.processed old)) r found

/-- Replacing a session by its successor keeps what all sessions satisfied. -/
theorem outdone_set {sessions : List OpenSession} {i : Nat} {o next : OpenSession} {u : String}
    {c : RawRecord} (here : sessions[i]? = some o) (advances : o.Advances next)
    (all : ∀ other ∈ sessions, Outdone other u c) :
    ∀ other ∈ sessions.set i next, Outdone other u c := by
  intro other member
  rcases List.mem_or_eq_of_mem_set member with old | rfl
  · exact all other old
  · exact (all o (List.mem_of_getElem? here)).advance advances

/-- A safe save leaves COMMITTED records outdone. -/
theorem storeStep_unrivalled {s t : SharedStore} {action : StoreAction}
    (unrivalled : Unrivalled s) (safe : SaveSafe s action)
    (step : storeStep keys s action = some t) : Unrivalled t := by
  unfold Unrivalled
  obtain ⟨o, store, sessions, snapshot⟩ | ⟨store, sessions⟩ |
    ⟨i, o, next, here, store, sessions, advances⟩ |
    ⟨i, saved, o, next, rfl, here, sessions, advances, store⟩ := storeStep_cases step
  · rw [store, sessions]
    intro u c stored committed other member
    rcases List.mem_append.mp member with old | new
    · exact unrivalled u c stored committed other old
    · cases List.mem_singleton.mp new
      intro _ _ r copy
      have same := snapshot u r copy
      rw [stored] at same
      exact .inl (Option.some.inj same).symm
  · rw [store, sessions]
    exact unrivalled
  · rw [store, sessions]
    intro u c stored committed
    exact outdone_set here advances (unrivalled u c stored committed)
  · rw [sessions]
    intro u c stored committed
    refine outdone_set here advances ?_
    cases saved with
    | false =>
        rw [store, if_neg Bool.false_ne_true] at stored
        exact unrivalled u c stored committed
    | true =>
        rw [store, if_pos rfl] at stored
        by_cases before : s.store[u]? = some c
        · exact unrivalled u c before committed
        · rcases getElem?_mergeInto_eq_some stored with held | ⟨own, wins⟩
          · exact absurd (validateAndQuarantine_eq_some.mp held).1 before
          · refine (safe o here).2 u c own committed before fun held found valid => ?_
            have loses := wins held (validateAndQuarantine_eq_some.mpr ⟨found, valid⟩)
            simpa using loses

/-- Over an unrivalled state a safe save keeps the COMMITTED records of other sessions. -/
theorem commitsKept_of_unrivalled {s : SharedStore} {action : StoreAction}
    (unrivalled : Unrivalled s) (safe : SaveSafe s action) : CommitsKept keys s action := by
  rintro t step i saved rfl o here u c stored committed fresh
  obtain ⟨saving, here', running, -, store⟩ := storeStep_persist step
  cases here.symm.trans here'
  rw [store]
  cases saved with
  | false => exact stored
  | true =>
      have valid := (safe o here).1 u c stored committed fresh
      refine getElem?_mergeInto_of_kept (validateAndQuarantine_eq_some.mpr ⟨stored, valid⟩)
        fun r copy => ?_
      have outdone := unrivalled u c stored committed o (List.mem_of_getElem? here) running fresh
        r copy
      exact outdone.imp_right (by simp)

/-- Whatever sessions do and however they interleave: along a run whose saves are all safe, no
save takes a COMMITTED record from a session that did not process its URL. -/
theorem commits_kept (keys : ExportKeys) {store : DomainRecords} {clock : Int}
    {actions : List StoreAction}
    (safe : Along (storeStep keys) SaveSafe ⟨store, clock, []⟩ actions) :
    Along (storeStep keys) (CommitsKept keys) ⟨store, clock, []⟩ actions :=
  safe.of_invariant (fun _ _ _ unrivalled safe step => storeStep_unrivalled unrivalled safe step)
    (fun _ _ => commitsKept_of_unrivalled) (fun _ _ _ _ _ member => by cases member)

end Keys

/-! ## Two sessions -/

/-- Session 0 exports page `a` and commits it; another session opens in `early` or in `late`. -/
def commitOfA (early late : List StoreAction) : List StoreAction :=
  [.openSession ⟨"r1", true⟩ .empty true] ++ early ++
    [.tick 1, .commitItem 0 "a" "x" "out", .persist 0 true] ++ late ++
    [.commitPoint 0, .persist 0 true]

/-- The steps of `commitOfA`, then the final save of session 1. -/
def twoSessions (early late : List StoreAction) : List StoreAction :=
  commitOfA early late ++ [.persist 1 true]

/-- A session that opened before the item began holds no copy of its record. -/
theorem commits_kept_of_early_session :
    Along (storeStep plainKeys) (CommitsKept plainKeys) ⟨∅, 0, []⟩
      (twoSessions [.openSession ⟨"r2", true⟩ .empty true] []) :=
  commits_kept plainKeys (by decide +kernel)

/-- A session that opened between the two saves holds the EXPORTED record under the same stamp,
and puts it back over the COMMITTED one. -/
theorem commit_regressed_by_late_session :
    ¬ Along (storeStep plainKeys) (CommitsKept plainKeys) ⟨∅, 0, []⟩
      (twoSessions [] [.openSession ⟨"r2", true⟩ .empty true]) := by
  intro kept
  have broken : ((execute (storeStep plainKeys) ⟨∅, 0, []⟩
      (commitOfA [] [.openSession ⟨"r2", true⟩ .empty true])).any fun s =>
        (storeStep plainKeys s (.persist 1 true)).any fun t => (s.sessions[1]?).any fun o =>
          (s.store["a"]?).any fun c =>
            decide (c.status = .committed ∧ "a" ∉ o.processed ∧ t.store["a"]? ≠ some c)) =
      true := by
    decide +kernel
  obtain ⟨s, ran, broken⟩ := (Option.any_eq_true _ _).mp broken
  obtain ⟨t, step, broken⟩ := (Option.any_eq_true _ _).mp broken
  obtain ⟨o, here, broken⟩ := (Option.any_eq_true _ _).mp broken
  obtain ⟨c, stored, broken⟩ := (Option.any_eq_true _ _).mp broken
  obtain ⟨committed, fresh, changed⟩ := of_decide_eq_true broken
  have last := (along_append.mp kept).2 s ran
  exact changed (last.1 t step 1 true rfl o here "a" c stored committed fresh)

end Webfang
