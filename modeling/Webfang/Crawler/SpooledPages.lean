import Webfang.Crawler.BoundedSink

/-!
# Every captured page is in the spool

The pages that the writer has taken, holds or has before it in the channel are those that the calls
of `capture` and their tasks have sent, in another order.  The writer returns when no sender is
left, so by then each call that took the sender has sent its page and counted it.
-/

namespace Webfang

open StepSystem

/-! ## Reading back the spool -/

theorem CapturedPage.decode_encode (page : CapturedPage) : decode page.encode = some page := by
  rw [decode, encode, Json.parse_object]
  rfl

theorem Sitemap.lines_flatMap {texts : List (List Char)}
    (whole : ∀ text ∈ texts, '\n' ∉ text ∧ text.getLast? ≠ some '\x0d') :
    lines (texts.flatMap (· ++ ['\n'])) = texts := by
  have cut : (texts.flatMap (· ++ ['\n'])).splitOn '\n' = texts ++ [[]] := by
    induction texts with
    | nil => rfl
    | cons text texts ih =>
        obtain ⟨here, later⟩ := List.forall_mem_cons.mp whole
        rw [List.flatMap_cons, List.append_assoc, List.singleton_append,
          List.splitOn_append_cons_self, List.splitOn_eq_singleton here.1, ih later]
        rfl
  have kept : texts.map stripCr = texts := by
    refine (List.map_congr_left fun text inside => ?_).trans (List.map_id texts)
    rw [stripCr, if_neg (whole text inside).2, id]
  rw [lines, cut]
  simp [kept]

theorem CapturedPage.getLast?_encode (page : CapturedPage) : page.encode.getLast? = some '}' := by
  rw [encode, Json.object, List.getLast?_concat]

theorem lines_spool (pages : List CapturedPage) :
    Sitemap.lines (pages.flatMap (·.line)) = pages.map (·.encode) := by
  have whole : ∀ text ∈ pages.map (·.encode), '\n' ∉ text ∧ text.getLast? ≠ some '\x0d' := by
    intro text inside
    obtain ⟨page, -, rfl⟩ := List.mem_map.mp inside
    refine ⟨Json.newline_not_mem_object _, ?_⟩
    rw [page.getLast?_encode]
    decide
  have lines := Sitemap.lines_flatMap whole
  rw [List.flatMap_map] at lines
  exact lines

theorem CapturedPage.trim_encode (page : CapturedPage) :
    (Http.Response.trim page.encode).isEmpty = false := by
  have first : page.encode = '{' :: page.encode.tail := rfl
  have front : page.encode.dropWhile isWhitespace = page.encode := by
    rw [first, List.dropWhile_cons_of_neg (by decide)]
  have last : page.encode.rdropWhile isWhitespace = page.encode := by
    rw [encode, Json.object, List.rdropWhile_concat_neg _ _ _ (by decide)]
  rw [Http.Response.trim, front, last, first]
  rfl

namespace CapturedPageReader

theorem reads_encoded (pages : List CapturedPage) : Reads ⟨pages.map (·.encode)⟩ pages := by
  induction pages with
  | nil => exact @Reads.done ⟨[]⟩ ⟨[]⟩ rfl
  | cons page pages ih =>
      refine Reads.next ?_ ih
      rw [nextPage, List.map_cons, List.dropWhile_cons_of_neg (by simp [page.trim_encode])]
      dsimp only
      rw [page.decode_encode]

/-- A spool is read back. -/
theorem reads_spool (pages : List CapturedPage) :
    Reads (openSpool (pages.flatMap (·.line))) pages := by
  rw [openSpool, lines_spool]
  exact reads_encoded pages

end CapturedPageReader

namespace SinkSystem

/-! ## What every interleaving keeps -/

/-- The page that the writer has taken and not written. -/
def inHand (s : SinkSystem) : List CapturedPage :=
  match s.writer with
  | .writing page => [page]
  | _ => []

/-- What holds as long as no write has failed. -/
structure Sound (s : SinkSystem) : Prop where
  /-- what was sent is written, in the hand of the writer or in the channel -/
  sent : ∃ pages : List CapturedPage, s.spool ++ s.buffer = pages.flatMap (·.line) ∧
    s.written = pages.length ∧
    (pages ++ s.inHand ++ s.queue).Perm (pagesWhere (·.isDelivered) s.captures)
  counted : s.captured = (pagesWhere (·.isCounted) s.captures).length
  /-- no call finds the channel closed -/
  kept : ∀ c ∈ s.captures, c.phase ≠ .discarded ∧ c.phase ≠ .lost
  /-- the writer has left nothing behind -/
  returned : ∀ n, s.writer = .returned (.ok n) →
    n = s.written ∧ s.buffer = [] ∧ s.queue = [] ∧ s.isOpen = false

def HasFailed (s : SinkSystem) : Prop := ∃ e, s.writer = .returned (.error e)

/-- A failure, or else all is sound; and `finish` returns what the writer has returned. -/
structure Inv (s : SinkSystem) : Prop where
  sound : ¬ s.HasFailed → s.Sound
  finished : ∀ result, s.finish = .returned result → s.writer = .returned result

theorem inv_new (bufferSize : Nat) : (new bufferSize).Inv where
  sound _ :=
    { sent := ⟨[], rfl, rfl, .refl _⟩
      counted := rfl
      kept := fun _ inside => by cases inside
      returned := fun _ gone => by cases gone }
  finished _ returned := by cases returned

variable {s t : SinkSystem} {i : Nat} {c : Capture}

/-! ## The calls of `capture` -/

theorem isOpen_eq_false :
    s.isOpen = false ↔ s.tx = false ∧ ∀ c ∈ s.captures, c.phase.holdsSender = false := by
  rw [isOpen, Bool.or_eq_false_iff, List.any_eq_false]
  simp only [Bool.not_eq_true]

/-- A call with a sender keeps the channel open. -/
theorem open_of_holds (found : s.captures[i]? = some c) (holds : c.phase.holdsSender = true) :
    s.isOpen ≠ false := by
  intro closed
  have none := (isOpen_eq_false.mp closed).2 c (List.mem_of_getElem? found)
  rw [holds] at none
  cases none

/-- The writer has not returned while a call has a sender. -/
theorem Sound.not_gone (sound : s.Sound) (sane : ¬ s.HasFailed) (opened : s.isOpen ≠ false) :
    s.writer.isGone = false := by
  cases writer : s.writer with
  | returned result =>
      cases result with
      | error e => exact absurd ⟨e, writer⟩ sane
      | ok n => exact absurd (sound.returned n writer).2.2.2 opened
  | _ => rfl

/-- A call moves on, and what it has sent and counted is put on. -/
theorem Sound.move (sound : s.Sound) (found : s.captures[i]? = some c) {phase : CapturePhase}
    {queue : List CapturedPage} {captured : Nat}
    (sent : queue ++ (c.pageWhere (·.isDelivered)).toList =
      s.queue ++ (Capture.pageWhere (·.isDelivered) { c with phase }).toList)
    (counted : captured + (c.pageWhere (·.isCounted)).toList.length =
      s.captured + (Capture.pageWhere (·.isCounted) { c with phase }).toList.length)
    (kept : phase ≠ .discarded ∧ phase ≠ .lost)
    (closed : s.isOpen = false → queue = s.queue ∧ phase.holdsSender = false) :
    ({ s with queue, captured }.move i c phase).Sound where
  sent := by
    obtain ⟨pages, spooled, written, same⟩ := sound.sent
    refine ⟨pages, spooled, written, ?_⟩
    have moved := Parties.filterMap_set_perm (Capture.pageWhere (·.isDelivered)) found
      { c with phase }
    refine (List.perm_append_right_iff (c.pageWhere (·.isDelivered)).toList).mp ?_
    refine .trans ?_ moved.symm
    have whole := same.append_right (Capture.pageWhere (·.isDelivered) { c with phase }).toList
    rw [List.append_assoc, ← sent, ← List.append_assoc] at whole
    exact whole
  counted := by
    have moved := Parties.filterMap_set_perm (Capture.pageWhere (·.isCounted)) found
      { c with phase }
    have before := sound.counted
    have lengths := moved.length_eq
    rw [List.length_append, List.length_append] at lengths
    rw [pagesWhere] at before ⊢
    dsimp only [SinkSystem.move]
    omega
  kept := Parties.forall_mem_set sound.kept kept
  returned n gone := by
    obtain ⟨same, empty, none, shut⟩ := sound.returned n gone
    obtain ⟨rest, released⟩ := closed shut
    obtain ⟨tx, free⟩ := isOpen_eq_false.mp shut
    exact ⟨same, empty, rest.trans none,
      isOpen_eq_false.mpr ⟨tx, Parties.forall_mem_set free released⟩⟩

theorem Sound.trySend (sound : s.Sound) (sane : ¬ s.HasFailed) (found : s.captures[i]? = some c)
    (phase : c.phase = .holding) {promised : Bool} (step : s.trySend i c promised = some t) :
    t.Sound := by
  obtain ⟨page, _⟩ := c
  cases phase
  have opened := open_of_holds found rfl
  rw [SinkSystem.trySend, sound.not_gone sane opened, if_neg (by decide)] at step
  have full : (s.move i ⟨page, .holding⟩ .full).Sound :=
    sound.move found rfl rfl (by decide) fun closed => absurd closed opened
  split at step
  · split at step
    · split at step
      · cases step
        exact full
      · cases step
    · cases step
      exact sound.move found (List.append_nil _) rfl (by decide) fun closed => absurd closed opened
  · cases step
    exact full

theorem Sound.deliver (sound : s.Sound) (sane : ¬ s.HasFailed) (found : s.captures[i]? = some c)
    (phase : c.phase = .deferred) (step : s.deliver i c = some t) : t.Sound := by
  obtain ⟨page, _⟩ := c
  cases phase
  have opened := open_of_holds found rfl
  rw [SinkSystem.deliver, sound.not_gone sane opened, if_neg (by decide)] at step
  split at step
  · cases step
    exact sound.move found (List.append_nil _) rfl (by decide) fun closed => absurd closed opened
  · cases step

theorem Sound.clone (sound : s.Sound) (found : s.captures[i]? = some c)
    (phase : c.phase = .started) : (s.move i c (if s.tx then .holding else .refused)).Sound := by
  obtain ⟨page, _⟩ := c
  cases phase
  cases tx : s.tx with
  | true =>
      refine sound.move found rfl rfl (by decide) fun closed => ?_
      rw [(isOpen_eq_false.mp closed).1] at tx
      cases tx
  | false => exact sound.move found rfl rfl (by decide) fun _ => ⟨rfl, rfl⟩

theorem Sound.captureStep (sound : s.Sound) (sane : ¬ s.HasFailed)
    (found : s.captures[i]? = some c) {action : SinkAction}
    (step : s.captureStep i c action = some t) : t.Sound := by
  unfold SinkSystem.captureStep at step
  split at step
  · split at step
    next phase =>
        cases step
        exact sound.clone found phase
    next => cases step
  · split at step
    next phase => exact sound.trySend sane found phase step
    next => cases step
  · split at step
    next phase =>
        cases step
        obtain ⟨page, _⟩ := c
        cases phase
        have opened := open_of_holds found rfl
        exact sound.move found rfl rfl (by decide) fun closed => absurd closed opened
    next phase =>
        cases step
        obtain ⟨page, _⟩ := c
        cases phase
        have opened := open_of_holds found rfl
        exact sound.move found rfl rfl (by decide) fun closed => absurd closed opened
    next => cases step
  · split at step
    next phase => exact sound.deliver sane found phase step
    next => cases step
  · split at step
    next phase =>
        cases step
        obtain ⟨page, _⟩ := c
        cases phase
        exact sound.move found rfl rfl (by decide) fun _ => ⟨rfl, rfl⟩
    next => cases step
  · cases step

theorem Sound.capture (sound : s.Sound) (page : CapturedPage) :
    ({ s with captures := s.captures ++ [⟨page, .started⟩] } : SinkSystem).Sound where
  sent := by
    obtain ⟨pages, spooled, written, same⟩ := sound.sent
    refine ⟨pages, spooled, written, ?_⟩
    dsimp only [pagesWhere]
    rw [List.filterMap_append]
    exact same.trans (.of_eq (List.append_nil _).symm)
  counted := by
    dsimp only [pagesWhere]
    rw [List.filterMap_append]
    exact sound.counted.trans (congrArg List.length (List.append_nil _).symm)
  kept := Parties.forall_mem_concat sound.kept (by simp)
  returned n gone := by
    obtain ⟨same, empty, none, shut⟩ := sound.returned n gone
    obtain ⟨tx, free⟩ := isOpen_eq_false.mp shut
    exact ⟨same, empty, none, isOpen_eq_false.mpr ⟨tx, Parties.forall_mem_concat free rfl⟩⟩

/-! ## The writer -/

theorem Sound.recv (sound : s.Sound) (step : s.recv = some t) : t.Sound := by
  unfold SinkSystem.recv at step
  split at step
  next page rest writer queue =>
      cases step
      refine { sound with sent := ?_, returned := fun n gone => by cases gone }
      obtain ⟨pages, spooled, written, same⟩ := sound.sent
      refine ⟨pages, spooled, written, .trans (.of_eq ?_) same⟩
      simp [inHand, writer, queue]
  next => cases step

theorem Sound.write (sound : s.Sound) (step : s.write true = some t) : t.Sound := by
  unfold SinkSystem.write at step
  split at step
  next page writer =>
      cases step
      refine { sound with sent := ?_, returned := fun n gone => by cases gone }
      obtain ⟨pages, spooled, written, same⟩ := sound.sent
      refine ⟨pages ++ [page], ?_, ?_, .trans (.of_eq ?_) same⟩
      · dsimp only
        rw [← List.append_assoc, spooled, List.flatMap_append, List.flatMap_singleton]
      · rw [List.length_append, ← written, List.length_singleton]
      · simp [inHand, writer]
  next => cases step

theorem Sound.flush (sound : s.Sound) (step : s.flush true = some t) : t.Sound := by
  unfold SinkSystem.flush at step
  split at step
  next writer queue =>
      split at step
      · cases step
      next shut =>
          cases step
          refine { sound with sent := ?_, returned := fun n gone => ?_ }
          · obtain ⟨pages, spooled, written, same⟩ := sound.sent
            refine ⟨pages, (List.append_nil _).trans spooled, written, ?_⟩
            rwa [inHand, writer] at same
          · cases gone
            exact ⟨rfl, rfl, queue, Bool.not_eq_true _ ▸ shut⟩
  next => cases step

theorem Sound.spill (sound : s.Sound) :
    ({ s with buffer := [], spool := s.spool ++ s.buffer } : SinkSystem).Sound := by
  refine { sound with sent := ?_, returned := fun n gone => ?_ }
  · obtain ⟨pages, spooled, rest⟩ := sound.sent
    exact ⟨pages, (List.append_nil _).trans spooled, rest⟩
  · obtain ⟨same, -, rest⟩ := sound.returned n gone
    exact ⟨same, rfl, rest⟩

/-- The sink drops its sender. -/
theorem Sound.finish (sound : s.Sound) (phase : FinishPhase) :
    ({ s with tx := false, finish := phase } : SinkSystem).Sound := by
  refine { sound with sent := sound.sent, returned := fun n gone => ?_ }
  obtain ⟨same, empty, none, shut⟩ := sound.returned n gone
  exact ⟨same, empty, none, isOpen_eq_false.mpr ⟨rfl, (isOpen_eq_false.mp shut).2⟩⟩

/-! ## One step -/

/-- A call of `capture` touches neither the writer nor `finish`. -/
theorem captureStep_frame {action : SinkAction} (step : s.captureStep i c action = some t) :
    t.writer = s.writer ∧ t.finish = s.finish := by
  unfold SinkSystem.captureStep at step
  split at step
  case h_2 =>
    split at step
    · unfold SinkSystem.trySend at step
      split_ifs at step <;> cases step <;> exact ⟨rfl, rfl⟩
    · cases step
  case h_4 =>
    split at step
    · unfold SinkSystem.deliver at step
      split_ifs at step <;> cases step <;> exact ⟨rfl, rfl⟩
    · cases step
  all_goals
    first
    | cases step
    | split at step <;> cases step <;> exact ⟨rfl, rfl⟩

/-- The writer returns once. -/
theorem returned_step {result : Except BoundedSinkError Nat} (gone : s.writer = .returned result)
    {action : SinkAction} (step : sinkStep s action = some t) : t.writer = .returned result := by
  cases action with
  | clone i | trySend i promised | count i | deliver i | drop i =>
      obtain ⟨c, -, call⟩ := Option.bind_eq_some_iff.mp step
      rw [(captureStep_frame call).1, gone]
  | capture page =>
      cases step
      exact gone
  | recv =>
      rw [sinkStep, SinkSystem.recv, gone] at step
      cases step
  | spill =>
      rw [sinkStep, gone] at step
      cases step
  | write ok =>
      rw [sinkStep, SinkSystem.write, gone] at step
      cases step
  | flush ok =>
      rw [sinkStep, SinkSystem.flush, gone] at step
      cases step
  | finish =>
      rw [sinkStep] at step
      split at step
      · cases step
        exact gone
      · cases step
  | join =>
      rw [sinkStep, SinkSystem.join, gone] at step
      split at step
      · cases step
        rfl
      · cases step

theorem Sound.step (sound : s.Sound) (sane : ¬ s.HasFailed) {action : SinkAction}
    (step : sinkStep s action = some t) (still : ¬ t.HasFailed) : t.Sound := by
  cases action with
  | clone i | trySend i promised | count i | deliver i | drop i =>
      obtain ⟨c, found, call⟩ := Option.bind_eq_some_iff.mp step
      exact sound.captureStep sane found call
  | capture page =>
      cases step
      exact sound.capture page
  | recv => exact sound.recv step
  | spill =>
      rw [sinkStep] at step
      split at step
      · cases step
      · cases step
        exact sound.spill
  | write ok =>
      cases ok with
      | true => exact sound.write step
      | false =>
          rw [sinkStep, SinkSystem.write] at step
          split at step
          · cases step
            exact absurd ⟨.io, rfl⟩ still
          · cases step
  | flush ok =>
      cases ok with
      | true => exact sound.flush step
      | false =>
          rw [sinkStep, SinkSystem.flush] at step
          split at step
          · split at step
            · cases step
            · cases step
              exact absurd ⟨.io, rfl⟩ still
          · cases step
  | finish =>
      rw [sinkStep] at step
      split at step
      · cases step
        exact sound.finish .joining
      · cases step
  | join =>
      rw [sinkStep, SinkSystem.join] at step
      split at step
      · cases step
        exact { sound with sent := sound.sent, returned := sound.returned }
      · cases step

theorem finish_step {result : Except BoundedSinkError Nat} {action : SinkAction}
    (step : sinkStep s action = some t) (finished : t.finish = .returned result) :
    s.finish = .returned result ∨ s.writer = .returned result := by
  cases action with
  | clone i | trySend i promised | count i | deliver i | drop i =>
      obtain ⟨c, -, call⟩ := Option.bind_eq_some_iff.mp step
      exact .inl ((captureStep_frame call).2.symm.trans finished)
  | capture page =>
      cases step
      exact .inl finished
  | recv =>
      rw [sinkStep, SinkSystem.recv] at step
      split at step <;> cases step
      exact .inl finished
  | spill =>
      rw [sinkStep] at step
      split at step <;> cases step
      exact .inl finished
  | write ok =>
      rw [sinkStep, SinkSystem.write] at step
      split at step
      · split at step <;> cases step <;> exact .inl finished
      · cases step
  | flush ok =>
      rw [sinkStep, SinkSystem.flush] at step
      split at step
      · split_ifs at step <;> cases step <;> exact .inl finished
      · cases step
  | finish =>
      rw [sinkStep] at step
      split at step <;> cases step
      cases finished
  | join =>
      rw [sinkStep, SinkSystem.join] at step
      split at step <;> cases step
      next writer =>
          cases finished
          exact .inr writer

theorem Inv.step (inv : s.Inv) {action : SinkAction} (step : sinkStep s action = some t) :
    t.Inv where
  sound still := by
    have sane : ¬ s.HasFailed := fun ⟨e, failed⟩ => still ⟨e, returned_step failed step⟩
    exact (inv.sound sane).step sane step still
  finished result finished := by
    have gone : s.writer = .returned result := by
      rcases finish_step step finished with before | gone
      · exact inv.finished result before
      · exact gone
    exact returned_step gone step

/-! ## Behind `finish` -/

/-- When no sender is left, the calls that took it have sent their pages and counted them. -/
theorem Sound.taken_eq (sound : s.Sound) (shut : s.isOpen = false) {P : CapturePhase → Bool}
    (settled : P .ended = true ∧ P .started = false ∧ P .refused = false) :
    pagesWhere P s.captures = s.taken := by
  refine List.filterMap_congr fun c inside => ?_
  obtain ⟨ended, started, refused⟩ := settled
  obtain ⟨notDiscarded, notLost⟩ := sound.kept c inside
  have free := (isOpen_eq_false.mp shut).2 c inside
  obtain ⟨page, phase⟩ := c
  cases phase with
  | started => simp [Capture.pageWhere, started, CapturePhase.tookSender]
  | refused => simp [Capture.pageWhere, refused, CapturePhase.tookSender]
  | ended => simp [Capture.pageWhere, ended, CapturePhase.tookSender]
  | discarded => exact absurd rfl notDiscarded
  | lost => exact absurd rfl notLost
  | _ => cases free

/-- For every buffer and every interleaving of calls of `capture`, the writer and `finish`: the
number that `finish` returns is that of the calls that took the sender, all of them counted, and
`next_page` gives their pages. -/
theorem finish_spools_taken (bufferSize : Nat) (actions : List SinkAction) {n : Nat}
    (run : execute sinkStep (new bufferSize) actions = some s)
    (finished : s.finish = .returned (.ok n)) :
    n = s.taken.length ∧ n = s.captured ∧
      ∃ pages, s.reader.Reads pages ∧ pages.Perm s.taken := by
  have inv := execute_invariant (I := Inv) (fun _ _ _ inv step => inv.step step) run
    (inv_new bufferSize)
  have gone := inv.finished _ finished
  have sane : ¬ s.HasFailed := by
    rintro ⟨e, failed⟩
    rw [gone] at failed
    cases failed
  have sound := inv.sound sane
  obtain ⟨rfl, empty, drained, shut⟩ := sound.returned n gone
  obtain ⟨pages, spooled, written, same⟩ := sound.sent
  rw [inHand, gone, drained, sound.taken_eq shut ⟨rfl, rfl, rfl⟩] at same
  have whole : pages.Perm s.taken := by simpa using same
  have counted := sound.counted
  rw [sound.taken_eq shut ⟨rfl, rfl, rfl⟩] at counted
  refine ⟨written.trans whole.length_eq, (written.trans whole.length_eq).trans counted.symm, pages,
    ?_, whole⟩
  rw [empty, List.append_nil] at spooled
  rw [SinkSystem.reader, spooled]
  exact CapturedPageReader.reads_spool pages

/-- Of two pages one finds the channel full, and its task sends it when `finish` has dropped the
sender of the sink. -/
def crowded : List SinkAction :=
  [.capture ⟨['a'], ['\n']⟩, .capture ⟨['b'], []⟩, .clone 0, .clone 1, .trySend 1 false,
    .trySend 0 false, .count 0, .finish, .count 1, .drop 1, .recv, .deliver 0, .drop 0, .write true,
    .spill, .recv, .write true, .flush true, .join]

theorem crowded_spooled : ∃ s, execute sinkStep (new 0) crowded = some s ∧ 2 = s.taken.length ∧
    2 = s.captured ∧ ∃ pages, s.reader.Reads pages ∧ pages.Perm s.taken :=
  ⟨_, rfl, finish_spools_taken 0 crowded rfl rfl⟩

end SinkSystem

end Webfang
