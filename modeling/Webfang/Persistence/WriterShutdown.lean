import Webfang.Persistence.CrawlResultWriter

/-!
# Accepted saves and the shutdown of the writer

Until the writer fails, a save that was accepted is in the log or waits in the channel, and the one
call of `shutdown` that joins the writer learns of every failure.  So what decides is what is left
in the channel when the writer leaves its loop.
-/

namespace Webfang

open StepSystem Parties

section Shutdown

variable {γ : Type}

namespace WriterSystem

variable {s t : WriterSystem γ}

/-- The call has taken the handle of the writer. -/
def HoldsHandle (phase : ShutdownPhase) : Prop :=
  phase = .joining ∨ ∃ result, phase = .returned true result

/-- The call has got past the taking of the handle. -/
def PastHandle (phase : ShutdownPhase) : Prop :=
  phase = .joining ∨ ∃ joined result, phase = .returned joined result

/-- What every interleaving keeps. -/
structure Sound (s : WriterSystem γ) : Prop where
  /-- an accepted save is in the log or in the channel -/
  accepted : s.failed = false → ∀ i, (s.saves[i]?.any (·.isAccepted)) = true →
    i ∈ s.log.map Prod.fst ∨ ∃ content, .append i content ∈ s.queue
  /-- a failure is there to be reported -/
  reported : s.failed = true → s.writeError = true ∨ s.writer = .ended true
  /-- a call that has joined the writer and returned `Ok` has met no failure -/
  joined : ∀ phase ∈ s.shutdowns, ∀ done, phase = .returned true (.ok done) →
    s.failed = false ∧ s.isGone = true
  taken : ∀ phase ∈ s.shutdowns, PastHandle phase → s.handle = false
  holder : s.handle = false → ∃ phase ∈ s.shutdowns, HoldsHandle phase

theorem sound_new (capacity : Nat) : (WriterSystem.new capacity : WriterSystem γ).Sound where
  accepted _ i found := by simp [WriterSystem.new] at found
  reported failed := by cases failed
  joined phase inside := by cases inside
  taken phase inside := by cases inside
  holder taken := by cases taken

/-- When all shutdowns have returned `Ok`, one of them has joined the writer. -/
theorem Sound.joined_of_shutDown (sound : s.Sound) (settled : s.ShutDown) :
    s.failed = false ∧ s.isGone = true := by
  obtain ⟨called, all⟩ := settled
  obtain ⟨first, inside⟩ := List.exists_mem_of_ne_nil _ called
  have past : PastHandle first := by
    cases first with
    | returned joined result => exact .inr ⟨joined, result, rfl⟩
    | _ => exact (all _ inside).elim
  obtain ⟨phase, there, holds⟩ := sound.holder (sound.taken first inside past)
  rcases holds with rfl | ⟨result, rfl⟩
  · exact (all _ there).elim
  · cases result with
    | error e => exact (all _ there).elim
    | ok done => exact sound.joined _ there done rfl

/-- What is left in the channel decides. -/
theorem Sound.keepsAccepted_iff (sound : s.Sound) : s.KeepsAccepted ↔ s.LeavesNothing := by
  refine and_iff_left_of_imp fun leaves settled => ?_
  obtain ⟨sane, gone⟩ := sound.joined_of_shutDown settled
  refine ⟨fun i accepted => ?_, sane⟩
  have none := leaves (.inr gone) sane
  rcases sound.accepted sane i accepted with logged | ⟨content, waits⟩
  · exact logged
  · have record := List.all_eq_true.mp none _ waits
    cases record

/-! ## Saving -/

theorem any_accepted_concat {saves : List (SavePhase γ)} {phase : SavePhase γ}
    (refused : phase.isAccepted = false) {i : Nat}
    (accepted : ((saves ++ [phase])[i]?.any (·.isAccepted)) = true) :
    (saves[i]?.any (·.isAccepted)) = true := by
  rw [List.getElem?_append] at accepted
  split at accepted
  · exact accepted
  · rw [List.getElem?_singleton] at accepted
    split at accepted
    · rw [Option.any_some, refused] at accepted
      cases accepted
    · cases accepted

theorem any_accepted_set {saves : List (SavePhase γ)} {phase : SavePhase γ} {i j : Nat}
    (accepted : ((saves.set i phase)[j]?.any (·.isAccepted)) = true) :
    (j = i ∧ phase.isAccepted = true) ∨ (saves[j]?.any (·.isAccepted)) = true := by
  rw [List.getElem?_set] at accepted
  split at accepted
  next same =>
      split at accepted
      · exact .inl ⟨same.symm, accepted⟩
      · cases accepted
  next => exact .inr accepted

theorem Sound.save (sound : s.Sound) (content : Except String γ) : (s.save content).Sound := by
  refine { sound with accepted := fun sane i accepted => ?_ }
  refine sound.accepted sane i (any_accepted_concat ?_ accepted)
  split
  · rfl
  · split <;> rfl

theorem Sound.trySend (sound : s.Sound) (i : Nat) (content : γ) :
    (s.trySend i content).Sound := by
  unfold WriterSystem.trySend
  split
  · refine { sound with accepted := fun sane j accepted => ?_, reported := fun _ => .inl rfl }
    rcases any_accepted_set accepted with ⟨-, refused⟩ | before
    · cases refused
    · exact sound.accepted sane j before
  · split
    · refine { sound with accepted := fun sane j accepted => ?_ }
      rcases any_accepted_set accepted with ⟨rfl, -⟩ | before
      · exact .inr ⟨content, List.mem_append_right _ (List.mem_singleton.mpr rfl)⟩
      · refine (sound.accepted sane j before).imp_right fun ⟨content', waits⟩ => ?_
        exact ⟨content', List.mem_append_left _ waits⟩
    · refine { sound with accepted := fun sane j accepted => ?_ }
      rcases any_accepted_set accepted with ⟨-, refused⟩ | before
      · cases refused
      · exact sound.accepted sane j before

/-! ## Shutting down -/

/-- A call of `shutdown` that has not got to the handle moves on. -/
theorem Sound.move (sound : s.Sound) {i : Nat} {before : ShutdownPhase}
    (found : s.shutdowns[i]? = some before) (early : ¬ HoldsHandle before) {phase : ShutdownPhase}
    (joins : ∀ done, phase ≠ .returned true (.ok done))
    (past : PastHandle phase → s.handle = false) :
    ({ s with shutdowns := s.shutdowns.set i phase } : WriterSystem γ).Sound := by
  refine { sound with
    joined := forall_mem_set sound.joined fun done same => absurd same (joins done)
    taken := forall_mem_set sound.taken past
    holder := fun taken => ?_ }
  obtain ⟨other, inside, holds⟩ := sound.holder taken
  exact ⟨other, mem_set_of_ne found inside (fun same => early (same ▸ holds)) phase, holds⟩

theorem Sound.sendShutdown (sound : s.Sound) {i : Nat}
    (found : s.shutdowns[i]? = some .sending) (step : s.sendShutdown i = some t) : t.Sound := by
  have moved : ({ s with shutdowns := s.shutdowns.set i .sent } : WriterSystem γ).Sound :=
    sound.move found (by simp [HoldsHandle]) (by simp) (by simp [PastHandle])
  unfold WriterSystem.sendShutdown at step
  split at step
  · cases step
    exact moved
  · split at step
    · cases step
      refine { moved with accepted := fun sane j accepted => ?_ }
      refine (moved.accepted sane j accepted).imp_right fun ⟨content, waits⟩ => ?_
      exact ⟨content, List.mem_append_left _ waits⟩
    · cases step

theorem Sound.takeHandle (sound : s.Sound) {i : Nat} (found : s.shutdowns[i]? = some .sent) :
    (s.takeHandle i).Sound := by
  unfold WriterSystem.takeHandle
  split
  · refine { sound with
      joined := forall_mem_set sound.joined (by simp)
      taken := fun _ _ _ => rfl
      holder := fun _ => ⟨_, mem_set_self found .joining, .inl rfl⟩ }
  next taken =>
      exact sound.move found (by simp [HoldsHandle]) (by simp) fun _ => by simpa using taken

theorem Sound.join (sound : s.Sound) {i : Nat} (found : s.shutdowns[i]? = some .joining)
    (step : s.join i = some t) : t.Sound := by
  have inside : ShutdownPhase.joining ∈ s.shutdowns := List.mem_of_getElem? found
  have taken := sound.taken _ inside (.inl rfl)
  have moved (result : Except String Unit)
      (met : ∀ done, result = .ok done → s.failed = false ∧ s.isGone = true) :
      ({ s with writeError := true, shutdowns := s.shutdowns.set i (.returned true result) } :
        WriterSystem γ).Sound := by
    refine { sound with
      reported := fun _ => .inl rfl
      joined := forall_mem_set sound.joined fun done same => ?_
      taken := fun _ _ _ => taken
      holder := fun _ => ⟨_, mem_set_self found (.returned true result), .inr ⟨result, rfl⟩⟩ }
    cases same
    exact met done rfl
  unfold WriterSystem.join at step
  split at step
  next ended =>
      have gone : s.isGone = true := by rw [isGone, ended]
      cases step
      refine moved _ fun done ok => ⟨?_, gone⟩
      split at ok
      · cases ok
      next clear =>
          -- a failure would have been noted before the writer ended
          by_contra failed
          rcases sound.reported (Bool.eq_true_of_not_eq_false failed) with noted | panicked
          · exact clear noted
          · cases ended.symm.trans panicked
  next =>
      cases step
      exact moved _ fun done ok => by cases ok
  next => cases step

/-! ## Writing -/

/-- Nothing was joined before the writer has ended. -/
theorem Sound.not_joined (sound : s.Sound) (running : s.isGone = false) :
    ∀ phase ∈ s.shutdowns, ∀ done, phase ≠ .returned true (.ok done) := by
  intro phase inside done same
  exact Bool.false_ne_true (running.symm.trans (sound.joined phase inside done same).2)

theorem Sound.appendCmd (sound : s.Sound) (running : s.isGone = false) {call : Nat} {content : γ}
    {rest : List (WriteCommand γ)} (head : s.queue = .append call content :: rest)
    {outcome : AppendOutcome}
    (step : ({ s with queue := rest } : WriterSystem γ).appendCmd call content outcome = some t) :
    t.Sound := by
  have early := sound.not_joined running
  cases outcome with
  | written =>
      cases step
      refine { sound with accepted := fun sane i accepted => ?_ }
      rcases sound.accepted sane i accepted with logged | ⟨content', waits⟩
      · rw [List.map_append]
        exact .inl (List.mem_append_left _ logged)
      · rw [head] at waits
        rcases List.mem_cons.mp waits with same | later
        · cases same
          rw [List.map_append]
          exact .inl (List.mem_append_right _ (List.mem_singleton.mpr rfl))
        · exact .inr ⟨content', later⟩
  | frameFails =>
      cases step
      exact { sound with
        accepted := fun sane => by cases sane
        reported := fun _ => .inl rfl
        joined := fun phase inside done same => absurd same (early phase inside done) }
  | openFails =>
      simp only [WriterSystem.appendCmd] at step
      split at step
      · cases step
      · cases step
        exact { sound with
          accepted := fun sane => by cases sane
          reported := fun _ => .inl rfl
          joined := fun phase inside done same => absurd same (early phase inside done) }
  | panics =>
      cases step
      exact { sound with
        accepted := fun sane => by cases sane
        reported := fun _ => .inr rfl
        joined := fun phase inside done same => absurd same (early phase inside done) }

/-- The writer takes a `Shutdown`, or finds nothing to take, and goes on. -/
theorem Sound.turn (sound : s.Sound) (running : s.isGone = false) {queue : List (WriteCommand γ)}
    (kept : ∀ i content, .append i content ∈ s.queue → .append i content ∈ queue)
    {writer : WriterPhase} :
    ({ s with queue := queue, writer := writer } : WriterSystem γ).Sound := by
  have early := sound.not_joined running
  refine { sound with
    accepted := fun sane i accepted => ?_
    reported := fun failed => .inl ?_
    joined := fun phase inside done same => absurd same (early phase inside done) }
  · refine (sound.accepted sane i accepted).imp_right fun ⟨content, waits⟩ => ?_
    exact ⟨content, kept i content waits⟩
  · rcases sound.reported failed with noted | panicked
    · exact noted
    · rw [isGone, panicked] at running
      cases running

theorem Sound.recv (sound : s.Sound) {outcome : AppendOutcome}
    (step : s.recv outcome = some t) : t.Sound := by
  have behind {rest : List (WriteCommand γ)} (head : s.queue = .shutdown :: rest) :
      ∀ i content, .append i content ∈ s.queue → .append i content ∈ rest := by
    intro i content waits
    rw [head] at waits
    rcases List.mem_cons.mp waits with same | later
    · cases same
    · exact later
  unfold WriterSystem.recv at step
  split at step
  next => cases step
  next phase head =>
      cases step
      exact sound.turn (by rw [isGone, phase]) (behind head)
  next phase head => exact sound.appendCmd (by rw [isGone, phase]) head step
  next phase head => exact sound.appendCmd (by rw [isGone, phase]) head step
  next phase head =>
      cases step
      exact sound.turn (by rw [isGone, phase]) fun _ _ waits => waits
  next phase head =>
      cases step
      exact sound.turn (by rw [isGone, phase]) (behind head)
  next => cases step
  next => cases step

theorem Sound.step (sound : s.Sound) {a : WriterAction γ} (step : writerStep s a = some t) :
    t.Sound := by
  cases a with
  | save content =>
      cases step
      exact sound.save content
  | trySend i =>
      simp only [writerStep] at step
      split at step
      · cases step
        exact sound.trySend i _
      · cases step
  | shutdown =>
      cases step
      refine { sound with
        joined := forall_mem_concat sound.joined (by simp)
        taken := forall_mem_concat sound.taken (by simp [PastHandle])
        holder := fun taken => ?_ }
      obtain ⟨phase, inside, holds⟩ := sound.holder taken
      exact ⟨phase, List.mem_append_left _ inside, holds⟩
  | sendShutdown i =>
      simp only [writerStep] at step
      split at step
      next found => exact sound.sendShutdown found step
      next => cases step
  | takeHandle i =>
      simp only [writerStep] at step
      split at step
      next found =>
          cases step
          exact sound.takeHandle found
      next => cases step
  | join i =>
      simp only [writerStep] at step
      split at step
      next found => exact sound.join found step
      next => cases step
  | recv outcome => exact sound.recv step
  | dropReceiver =>
      simp only [writerStep] at step
      split at step
      next phase =>
          cases step
          exact sound.turn (by rw [isGone, phase]) fun _ _ waits => waits
      next => cases step

/-! ## What is left in the channel -/

/-- A writer that runs has left nothing yet. -/
theorem leavesNothing_of_running (running : s.writer = .receiving ∨ s.writer = .draining) :
    s.LeavesNothing := by
  intro left
  unfold HasLeft isGone at left
  rcases running with phase | phase <;> simp [phase] at left

theorem leavesNothing_trySend (leaves : s.LeavesNothing) {i : Nat} {content : γ}
    (found : s.saves[i]? = some (.sending content)) :
    (s.trySend i content).LeavesNothing ↔ s.DrainsAll (.trySend i) := by
  have only : ∀ other, s.saves[i]? = some (.sending other) → other = content := by
    intro other there
    cases found.symm.trans there
    rfl
  unfold WriterSystem.trySend
  split
  next gone =>
      refine iff_of_true leaves fun _ phase => ?_
      rw [isGone, phase] at gone
      cases gone
  next here =>
      split
      next room =>
          have full : ¬ s.capacity ≤ s.queue.length := Nat.not_le.mpr room
          have record : (s.queue ++ [WriteCommand.append i content]).all (!·.isAppend) = false := by
            rw [List.all_append]
            exact Bool.and_false _
          constructor
          · intro after sane phase
            have none := after (.inl phase) sane
            exact absurd (record.symm.trans none) Bool.false_ne_true
          · intro drains left sane
            rcases left with phase | gone
            · exact absurd (drains sane phase content found) full
            · exact absurd gone here
      next full =>
          exact iff_of_true leaves fun _ _ _ _ => Nat.not_lt.mp full

theorem leavesNothing_recv {outcome : AppendOutcome}
    (step : s.recv outcome = some t) : t.LeavesNothing ↔ s.DrainsAll (.recv outcome) := by
  unfold WriterSystem.recv at step
  have record {call : Nat} {content : γ} {rest : List (WriteCommand γ)}
      (running : s.writer = .receiving ∨ s.writer = .draining)
      (head : s.queue = .append call content :: rest)
      (step : ({ s with queue := rest } : WriterSystem γ).appendCmd call content outcome = some t) :
      t.LeavesNothing ↔ s.DrainsAll (.recv outcome) := by
    have drains : s.DrainsAll (.recv outcome) := by
      intro _ _ other
      rw [head] at other
      cases other
    refine iff_of_true ?_ drains
    cases outcome with
    | written =>
        cases step
        exact leavesNothing_of_running running
    | frameFails =>
        cases step
        exact fun _ sane => by cases sane
    | openFails =>
        simp only [WriterSystem.appendCmd] at step
        split at step
        · cases step
        · cases step
          exact fun _ sane => by cases sane
    | panics =>
        cases step
        exact fun _ sane => by cases sane
  split at step
  next => cases step
  next phase head =>
      cases step
      refine iff_of_true (leavesNothing_of_running (.inr rfl)) fun _ draining => ?_
      cases phase.symm.trans draining
  next phase head => exact record (.inl phase) head step
  next phase head => exact record (.inr phase) head step
  next phase head =>
      cases step
      refine iff_of_true (fun _ _ => ?_) fun _ _ first => ?_
      · rw [head]
        rfl
      · rw [head] at first
        cases first
  next rest phase head =>
      cases step
      have behind : s.queue.all (!·.isAppend) = rest.all (!·.isAppend) := by
        rw [head, List.all_cons]
        rfl
      constructor
      · intro after sane _ _
        rw [behind]
        exact after (.inl rfl) sane
      · intro drains _ sane
        rw [← behind]
        exact drains sane phase (by rw [head]; rfl)
  next => cases step
  next => cases step

/-- One step leaves nothing just when it meets the condition. -/
theorem leavesNothing_step (leaves : s.LeavesNothing) {a : WriterAction γ}
    (step : writerStep s a = some t) : t.LeavesNothing ↔ s.DrainsAll a := by
  cases a with
  | save content =>
      cases step
      exact iff_of_true leaves trivial
  | trySend i =>
      simp only [writerStep] at step
      split at step
      next found =>
          cases step
          exact leavesNothing_trySend leaves found
      next => cases step
  | shutdown =>
      cases step
      exact iff_of_true leaves trivial
  | sendShutdown i =>
      simp only [writerStep] at step
      split at step
      · unfold WriterSystem.sendShutdown at step
        refine iff_of_true ?_ trivial
        split at step
        · cases step
          exact leaves
        · split at step
          · cases step
            intro left sane
            rw [List.all_append, leaves left sane]
            rfl
          · cases step
      · cases step
  | takeHandle i =>
      simp only [writerStep] at step
      split at step
      · cases step
        refine iff_of_true ?_ trivial
        unfold WriterSystem.takeHandle
        split <;> exact leaves
      · cases step
  | join i =>
      simp only [writerStep] at step
      split at step
      · unfold WriterSystem.join at step
        refine iff_of_true ?_ trivial
        split at step <;> cases step <;> exact leaves
      · cases step
  | recv outcome => exact leavesNothing_recv step
  | dropReceiver =>
      simp only [writerStep] at step
      split at step
      next phase =>
          cases step
          exact iff_of_true (fun _ => leaves (.inl phase)) trivial
      next => cases step

/-- A step that is refused meets the condition. -/
theorem drainsAll_of_refused {a : WriterAction γ} (refused : writerStep s a = none) :
    s.DrainsAll a := by
  cases a with
  | trySend i =>
      intro _ _ content found
      simp only [writerStep, found] at refused
      cases refused
  | recv outcome =>
      intro _ phase head
      cases queue : s.queue with
      | nil =>
          rw [queue] at head
          cases head
      | cons first rest =>
          rw [queue] at head
          cases head
          simp only [writerStep, WriterSystem.recv, phase, queue] at refused
          cases refused
  | _ => trivial

/-- In all states of a run the accepted saves are kept, just when the drain of the writer ends at no
`Shutdown` with a record behind it, and nothing is sent between its end and that of the receiver. -/
theorem keepsAccepted_reached_iff (capacity : Nat) (as : List (WriterAction γ)) :
    (∀ t, Reached writerStep (WriterSystem.new capacity) as t → t.KeepsAccepted) ↔
      Along writerStep DrainsAll (WriterSystem.new capacity) as := by
  have sound := sound_new (γ := γ) capacity
  have start : (WriterSystem.new capacity : WriterSystem γ).LeavesNothing :=
    leavesNothing_of_running (.inl rfl)
  refine reached_good_iff (I := Sound) (fun s a t sound step => sound.step step)
    (fun s a t sound good step => ?_) (fun s a refused => drainsAll_of_refused refused)
    sound (sound.keepsAccepted_iff.mpr start) as
  rw [(sound.step step).keepsAccepted_iff]
  exact leavesNothing_step (sound.keepsAccepted_iff.mp good) step

/-! ## Saves that are lost -/

def twoShutdowns : List (WriterAction String) :=
  [.shutdown, .shutdown, .sendShutdown 0, .sendShutdown 1, .save (.ok "https://a.com/"), .trySend 0,
    .recv .written, .recv .written, .dropReceiver, .takeHandle 0, .join 0, .takeHandle 1]

def lateSave : List (WriterAction String) :=
  [.shutdown, .sendShutdown 0, .recv .written, .recv .written, .save (.ok "https://a.com/"),
    .trySend 0, .dropReceiver, .takeHandle 0, .join 0]

/-- A save behind a second `Shutdown`, and one behind the end of the draining: each is accepted, all
shutdowns return `Ok`, and the log is empty. -/
theorem accepted_saves_are_lost :
    (∃ t, execute writerStep (WriterSystem.new 8) twoShutdowns = some t ∧ t.ShutDown ∧
      ¬ t.AcceptedLogged) ∧
    ∃ t, execute writerStep (WriterSystem.new 8) lateSave = some t ∧ t.ShutDown ∧
      ¬ t.AcceptedLogged := by
  have lost (as : List (WriterAction String))
      (found : ((execute writerStep (WriterSystem.new 8) as).any fun t =>
        !t.shutdowns.isEmpty && t.shutdowns.all (fun phase => decide phase.Succeeded) &&
          t.saves[0]?.any (·.isAccepted) && t.log.isEmpty) = true) :
      ∃ t, execute writerStep (WriterSystem.new 8) as = some t ∧ t.ShutDown ∧
        ¬ t.AcceptedLogged := by
    obtain ⟨t, run, holds⟩ := (Option.any_eq_true _ _).mp found
    simp only [Bool.and_eq_true, Bool.not_eq_true', List.isEmpty_eq_false_iff,
      List.isEmpty_iff, List.all_eq_true, decide_eq_true_eq] at holds
    obtain ⟨⟨⟨called, all⟩, accepted⟩, empty⟩ := holds
    refine ⟨t, run, ⟨called, all⟩, fun logged => ?_⟩
    have there := logged 0 accepted
    rw [empty] at there
    cases there
  exact ⟨lost twoShutdowns rfl, lost lateSave rfl⟩

end WriterSystem

end Shutdown

end Webfang
