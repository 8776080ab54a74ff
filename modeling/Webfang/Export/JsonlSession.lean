import Webfang.Export.JsonlWriter

/-!
# What a JSONL session promises

In every interleaving the file is the recovered prefix and the first accepted lines, and a
flush that returns `Ok` proves the lines accepted before it.  A close that returns `Ok` proves
all accepted lines as long as nothing is accepted behind the Shutdown and no close is answered
before the writer is done.
-/

namespace Webfang

open StepSystem

/-! ## Messages in the channel -/

/-- The lines among the messages. -/
def linesOf : List LineMsg → List Line
  | [] => []
  | .append bytes :: queue => bytes :: linesOf queue
  | .flushAnd _ :: queue => linesOf queue
  | .shutdown :: queue => linesOf queue

@[simp] theorem linesOf_nil : linesOf [] = [] := rfl

theorem linesOf_append (queue more : List LineMsg) :
    linesOf (queue ++ more) = linesOf queue ++ linesOf more := by
  induction queue with
  | nil => rfl
  | cons message queue ih =>
      cases message with
      | append bytes => exact congrArg (bytes :: ·) ih
      | flushAnd ack => exact ih
      | shutdown => exact ih

/-- Every flush in the channel comes behind the lines it was sent behind. -/
def FlushesBehind (sentBehind : Nat → List Line) : List Line → List LineMsg → Prop
  | _, [] => True
  | written, .append bytes :: queue => FlushesBehind sentBehind (written ++ [bytes]) queue
  | written, .flushAnd ack :: queue =>
      sentBehind ack <+: written ∧ FlushesBehind sentBehind written queue
  | written, .shutdown :: queue => FlushesBehind sentBehind written queue

theorem flushesBehind_append {sentBehind : Nat → List Line} {written : List Line}
    {queue more : List LineMsg} :
    FlushesBehind sentBehind written (queue ++ more) ↔
      FlushesBehind sentBehind written queue ∧
        FlushesBehind sentBehind (written ++ linesOf queue) more := by
  induction queue generalizing written with
  | nil => simp [FlushesBehind]
  | cons message queue ih =>
      cases message with
      | append bytes =>
          rw [List.cons_append, FlushesBehind, FlushesBehind, ih, linesOf, List.append_assoc]
          rfl
      | flushAnd ack => rw [List.cons_append, FlushesBehind, FlushesBehind, ih, and_assoc]; rfl
      | shutdown => exact ih

/-- Another flush's lines do not matter. -/
theorem FlushesBehind.update {sentBehind : Nat → List Line} {written : List Line}
    {queue : List LineMsg} {ack : Nat} (lines : List Line) (other : .flushAnd ack ∉ queue)
    (behind : FlushesBehind sentBehind written queue) :
    FlushesBehind (Function.update sentBehind ack lines) written queue := by
  induction queue generalizing written with
  | nil => trivial
  | cons message queue ih =>
      rw [List.mem_cons, not_or] at other
      cases message with
      | append bytes => exact ih other.2 behind
      | flushAnd ack' =>
          refine ⟨?_, ih other.2 behind.2⟩
          rw [Function.update_of_ne (fun same : ack' = ack => other.1 (by rw [same]))]
          exact behind.1
      | shutdown => exact ih other.2 behind

/-- No line stands behind a Shutdown. -/
def ShutdownLast : List LineMsg → Prop
  | [] => True
  | .shutdown :: queue => linesOf queue = []
  | _ :: queue => ShutdownLast queue

theorem shutdownLast_append_line {queue : List LineMsg} (none : .shutdown ∉ queue) (line : Line) :
    ShutdownLast (queue ++ [.append line]) := by
  induction queue with
  | nil => trivial
  | cons message queue ih =>
      rw [List.mem_cons, not_or] at none
      cases message with
      | append bytes => exact ih none.2
      | flushAnd ack => exact ih none.2
      | shutdown => exact absurd rfl none.1

theorem ShutdownLast.append {queue : List LineMsg} {message : LineMsg}
    (last : ShutdownLast queue) (noLine : linesOf [message] = []) :
    ShutdownLast (queue ++ [message]) := by
  induction queue with
  | nil =>
      cases message with
      | append bytes => cases noLine
      | flushAnd ack => trivial
      | shutdown => rfl
  | cons first queue ih =>
      cases first with
      | append bytes => exact ih last
      | flushAnd ack => exact ih last
      | shutdown =>
          change linesOf (queue ++ [message]) = []
          rw [linesOf_append, noLine, List.append_nil]
          exact last

/-! ## The file -/

/-- An `Ok`, as the ack or as the answer, proves the lines the flush was sent behind. -/
def FlushCall.Proves (call : FlushCall) (lines written : List Line) : Prop :=
  (call.ack = some (.ok ()) → lines <+: written) ∧
    (call.returned = some (.ok ()) → lines <+: written)

theorem FlushCall.proves_of_no_ack {returned : Option IoResult} (refused : returned ≠ some (.ok ()))
    (lines written : List Line) : FlushCall.Proves ⟨none, returned⟩ lines written :=
  ⟨fun acked => absurd acked (by simp), fun ok => absurd ok refused⟩

theorem FlushCall.Proves.extend {call : FlushCall} {lines written : List Line}
    (proves : call.Proves lines written) (more : List Line) :
    call.Proves lines (written ++ more) :=
  ⟨fun acked => (proves.1 acked).trans (List.prefix_append ..),
    fun returned => (proves.2 returned).trans (List.prefix_append ..)⟩

/-- What holds of all flush calls, when one of them changes. -/
theorem flushes_update {flushes : Nat → Option FlushCall} {P : Nat → FlushCall → Prop}
    {ack : Nat} {new : Option FlushCall}
    (all : ∀ other call, other ≠ ack → flushes other = some call → P other call)
    (here : ∀ call ∈ new, P ack call) :
    ∀ other call, Function.update flushes ack new other = some call → P other call := by
  intro other call found
  rcases eq_or_ne other ack with rfl | different
  · rw [Function.update_self] at found
    exact here call found
  · rw [Function.update_of_ne different] at found
    exact all other call different found

/-- What every interleaving keeps. -/
structure JsonlSystem.Sound (recovered : List UInt8) (s : JsonlSystem) : Prop where
  inOrder : s.written <+: s.accepted
  /-- while the writer runs, what is not written yet is in the channel -/
  running : s.writer = .running → s.file = recovered ++ s.written.flatten ∧
    s.accepted = s.written ++ linesOf s.queue ∧
    FlushesBehind s.sentBehind s.written s.queue
  /-- a writer that stopped may have left a part of one line -/
  stopped : ∃ torn, s.file = recovered ++ s.written.flatten ++ torn ∧
    (torn = [] ∨ (∃ error, s.writer = .exiting (.error error) ∨ s.writer = .gone (.error error)) ∧
      ∃ line, s.written ++ [line] <+: s.accepted ∧ torn <+: line)
  flushed : ∀ ack call, s.flushes ack = some call → call.Proves (s.sentBehind ack) s.written
  fresh : ∀ ack, .flushAnd ack ∈ s.queue → ack < s.nextAck
  unsent : ∀ ack, s.nextAck ≤ ack → s.flushes ack = none

theorem JsonlSystem.sound_opened (file : List UInt8) :
    (JsonlSystem.opened file).Sound (recoverTornTail file) where
  inOrder := List.prefix_rfl
  running _ := ⟨(List.append_nil _).symm, rfl, trivial⟩
  stopped := ⟨[], by simp [JsonlSystem.opened], .inl rfl⟩
  flushed _ _ none := by cases none
  fresh _ none := by cases none
  unsent _ _ := rfl

/-- A message the channel takes goes to its end, while the receiver is alive. -/
theorem JsonlSystem.send_ok {s : JsonlSystem} {message : LineMsg} {queue : List LineMsg}
    (ok : s.send message = some (.ok queue)) :
    queue = s.queue ++ [message] ∧ ∀ outcome, s.writer ≠ .gone outcome := by
  unfold JsonlSystem.send at ok
  split at ok
  · cases ok
  · rename_i alive
    split at ok
    · cases ok
      exact ⟨rfl, fun outcome gone => alive outcome gone⟩
    · cases ok

namespace JsonlSystem

variable {recovered : List UInt8} {s t : JsonlSystem}

theorem Sound.append {line : Line} (sound : s.Sound recovered) (step : s.append line = some t) :
    t.Sound recovered := by
  unfold JsonlSystem.append at step
  split at step
  · cases step
  · cases step
    exact sound
  · rename_i queue sent
    cases step
    obtain ⟨rfl, -⟩ := send_ok sent
    refine { sound with
      inOrder := sound.inOrder.trans (List.prefix_append ..)
      running := ?_
      stopped := ?_
      fresh := ?_ }
    · intro running
      obtain ⟨file, accepted, behind⟩ := sound.running running
      refine ⟨file, ?_, flushesBehind_append.mpr ⟨behind, trivial⟩⟩
      rw [linesOf_append, ← List.append_assoc, ← accepted]
      rfl
    · obtain ⟨torn, file, rest⟩ := sound.stopped
      refine ⟨torn, file, rest.imp_right ?_⟩
      rintro ⟨failed, line, next, part⟩
      exact ⟨failed, line, next.trans (List.prefix_append ..), part⟩
    · intro ack member
      rcases List.mem_append.mp member with old | new
      · exact sound.fresh ack old
      · cases List.mem_singleton.mp new

/-- A flush call gets the next number, whether its request is taken or refused. -/
theorem Sound.unsent_succ (sound : s.Sound recovered) (new : Option FlushCall) :
    ∀ ack, s.nextAck + 1 ≤ ack → Function.update s.flushes s.nextAck new ack = none := by
  intro ack later
  rw [Function.update_of_ne (by omega)]
  exact sound.unsent ack (by omega)

/-- An older call may change. -/
theorem Sound.unsent_update {ack : Nat} (sound : s.Sound recovered) (sent : ack < s.nextAck)
    (new : Option FlushCall) :
    ∀ other, s.nextAck ≤ other → Function.update s.flushes ack new other = none := by
  intro other later
  rw [Function.update_of_ne (by omega)]
  exact sound.unsent other later

theorem Sound.flush (sound : s.Sound recovered) (step : s.flush = some t) :
    t.Sound recovered := by
  unfold JsonlSystem.flush at step
  split at step
  · cases step
  · cases step
    refine { sound with
      flushed := flushes_update (fun ack call _ => sound.flushed ack call) ?_
      fresh := ?_
      unsent := sound.unsent_succ _ }
    · rintro call ⟨⟩
      exact FlushCall.proves_of_no_ack (by simp) ..
    · exact fun ack member => Nat.lt_succ_of_lt (sound.fresh ack member)
  · rename_i queue sent
    cases step
    obtain ⟨rfl, -⟩ := send_ok sent
    have unsent : .flushAnd s.nextAck ∉ s.queue := fun member =>
      Nat.lt_irrefl _ (sound.fresh _ member)
    refine { sound with
      running := ?_
      flushed := flushes_update ?_ ?_
      fresh := ?_
      unsent := sound.unsent_succ _ }
    · intro running
      obtain ⟨file, accepted, behind⟩ := sound.running running
      refine ⟨file, ?_, flushesBehind_append.mpr ⟨behind.update _ unsent, ?_, trivial⟩⟩
      · rw [linesOf_append, accepted]
        exact congrArg _ (List.append_nil _).symm
      · change Function.update s.sentBehind s.nextAck s.accepted s.nextAck <+: _
        rw [Function.update_self, accepted]
    · intro ack call other found
      change call.Proves (Function.update s.sentBehind s.nextAck s.accepted ack) s.written
      rw [Function.update_of_ne other]
      exact sound.flushed ack call found
    · rintro call ⟨⟩
      exact FlushCall.proves_of_no_ack (by simp) ..
    · intro ack member
      rcases List.mem_append.mp member with old | new
      · exact Nat.lt_succ_of_lt (sound.fresh ack old)
      · cases List.mem_singleton.mp new
        exact Nat.lt_succ_self _

theorem Sound.flushReturn {ack : Nat} (sound : s.Sound recovered)
    (step : s.flushReturn ack = some t) : t.Sound recovered := by
  have sent {call : FlushCall} (found : s.flushes ack = some call) : ack < s.nextAck := by
    by_contra later
    rw [sound.unsent ack (Nat.not_lt.mp later)] at found
    cases found
  unfold JsonlSystem.flushReturn at step
  split at step
  · rename_i result found
    cases step
    refine { sound with
      flushed := flushes_update (fun ack call _ => sound.flushed ack call) ?_
      unsent := sound.unsent_update (sent found) _ }
    rintro call ⟨⟩
    exact ⟨(sound.flushed ack _ found).1, (sound.flushed ack _ found).1⟩
  · rename_i found
    split at step
    · cases step
      refine { sound with
        flushed := flushes_update (fun ack call _ => sound.flushed ack call) ?_
        unsent := sound.unsent_update (sent found) _ }
      rintro call ⟨⟩
      exact FlushCall.proves_of_no_ack (by simp) ..
    · cases step
  · cases step

theorem Sound.close (sound : s.Sound recovered) : s.close.Sound recovered := by
  unfold JsonlSystem.close
  split
  · exact { sound with }
  · exact { sound with }

theorem Sound.closeSend (sound : s.Sound recovered) (step : s.closeSend = some t) :
    t.Sound recovered := by
  unfold JsonlSystem.closeSend at step
  split at step
  · split at step
    · cases step
    · cases step
      exact { sound with }
    · rename_i queue sent
      cases step
      obtain ⟨rfl, -⟩ := send_ok sent
      refine { sound with running := ?_, fresh := ?_ }
      · intro running
        obtain ⟨file, accepted, behind⟩ := sound.running running
        refine ⟨file, ?_, flushesBehind_append.mpr ⟨behind, trivial⟩⟩
        rw [linesOf_append, accepted]
        exact congrArg _ (List.append_nil _).symm
      · intro ack member
        rcases List.mem_append.mp member with old | new
        · exact sound.fresh ack old
        · cases List.mem_singleton.mp new
  · cases step

theorem Sound.closeReturn (sound : s.Sound recovered) (step : s.closeReturn = some t) :
    t.Sound recovered := by
  unfold JsonlSystem.closeReturn at step
  split at step
  · cases step
    exact { sound with }
  · cases step
    exact { sound with }
  · cases step

/-- A writer that stops without an error leaves the file as it is. -/
theorem Sound.exit {io : IoOutcome} {queue : List LineMsg} (sound : s.Sound recovered)
    (running : s.writer = .running) (rest : ∀ message ∈ queue, message ∈ s.queue) :
    ({ s with queue := queue, writer := .exiting io.result }).Sound recovered := by
  obtain ⟨file, -, -⟩ := sound.running running
  refine { sound with
    running := fun still => nomatch still
    stopped := ⟨[], ?_, .inl rfl⟩
    fresh := fun ack member => sound.fresh ack (rest _ member) }
  rw [List.append_nil]
  exact file

theorem Sound.recv {io : IoOutcome} (sound : s.Sound recovered) (step : s.recv io = some t) :
    t.Sound recovered := by
  unfold JsonlSystem.recv at step
  split at step
  swap
  · cases step
  rename_i running
  obtain ⟨file, accepted, behind⟩ := sound.running running
  split at step
  · rename_i bytes queue served
    rw [served] at accepted behind
    have next : s.written ++ [bytes] <+: s.accepted := by
      rw [accepted]
      exact ⟨linesOf queue, (List.append_cons ..).symm⟩
    have left (ack : Nat) (member : .flushAnd ack ∈ queue) : ack < s.nextAck :=
      sound.fresh ack (served ▸ List.mem_cons_of_mem _ member)
    cases io with
    | done =>
        cases step
        have whole : s.file ++ bytes = recovered ++ (s.written ++ [bytes]).flatten := by
          rw [file, List.flatten_append, List.append_assoc]
          simp
        refine { sound with
          inOrder := next
          running := fun _ => ⟨whole, ?_, behind⟩
          stopped := ⟨[], whole.trans (List.append_nil _).symm, .inl rfl⟩
          flushed := fun ack call found => (sound.flushed ack call found).extend _
          fresh := left }
        rw [← List.append_cons]
        exact accepted
    | failed n error =>
        cases step
        exact { sound with
          running := fun still => nomatch still
          stopped := ⟨bytes.take n, by rw [file],
            .inr ⟨⟨error, .inl rfl⟩, bytes, next, List.take_prefix ..⟩⟩
          fresh := left }
  · rename_i ack queue served
    rw [served] at accepted behind
    cases step
    refine { sound with
      running := fun _ => ⟨file, accepted, behind.2⟩
      flushed := flushes_update (fun ack call _ => sound.flushed ack call) ?_
      fresh := fun other member => sound.fresh other (served ▸ List.mem_cons_of_mem _ member)
      unsent := sound.unsent_update (sound.fresh ack (served ▸ List.mem_cons_self ..)) _ }
    intro call found
    obtain ⟨old, known, rfl⟩ := Option.map_eq_some_iff.mp found
    exact ⟨fun _ => behind.1, (sound.flushed ack old known).2⟩
  · rename_i queue served
    cases step
    exact sound.exit running fun message member => served ▸ List.mem_cons_of_mem _ member
  · rename_i served
    split at step
    · cases step
    · cases step
      exact sound.exit running fun message member => member

theorem Sound.dropReceiver (sound : s.Sound recovered) (step : s.dropReceiver = some t) :
    t.Sound recovered := by
  unfold JsonlSystem.dropReceiver at step
  split at step
  · rename_i outcome exiting
    cases step
    refine { sound with
      running := fun still => nomatch still
      stopped := ?_
      fresh := fun ack member => nomatch member }
    obtain ⟨torn, file, rest⟩ := sound.stopped
    refine ⟨torn, file, rest.imp_right ?_⟩
    rintro ⟨⟨error, failed | gone⟩, line, next, part⟩
    · rw [exiting] at failed
      cases failed
      exact ⟨⟨error, .inr rfl⟩, line, next, part⟩
    · rw [exiting] at gone
      cases gone
  · cases step

theorem Sound.step {a : JsonlAction} (sound : s.Sound recovered) (step : jsonlStep s a = some t) :
    t.Sound recovered := by
  have alive {next : Option JsonlSystem} (ok : (if s.senders then next else none) = some t) :
      next = some t := (Option.ite_none_right_eq_some.mp ok).2
  cases a with
  | append line => exact sound.append (alive step)
  | flush => exact sound.flush (alive step)
  | flushReturn ack => exact sound.flushReturn (alive step)
  | close =>
      cases alive step
      exact sound.close
  | closeSend => exact sound.closeSend (alive step)
  | closeReturn => exact sound.closeReturn (alive step)
  | dropSenders =>
      cases alive step
      exact { sound with }
  | recv io => exact sound.recv step
  | dropReceiver => exact sound.dropReceiver step

/-! ## Accepted lines -/

/-- A line that is taken now does not come too late: no Shutdown stands in a running channel,
the writer has not just stopped without an error, and no close has returned `Ok`. -/
def InTime (s : JsonlSystem) : Prop :=
  (s.writer = .running → .shutdown ∉ s.queue) ∧ s.writer ≠ .exiting (.ok ()) ∧
    s.closedOk = false

instance (s : JsonlSystem) : Decidable s.InTime := inferInstanceAs (Decidable (_ ∧ _ ∧ _))

/-- Once a close has returned `Ok`, or the writer stopped without an error, every accepted line
is written; no line stands behind a Shutdown. -/
structure Drained (s : JsonlSystem) : Prop where
  last : s.writer = .running → ShutdownLast s.queue
  exited : s.writer = .exiting (.ok ()) ∨ s.writer = .gone (.ok ()) → s.accepted = s.written
  closed : s.closedOk = true → s.accepted = s.written

end JsonlSystem

/-- The step accepts no line too late, and answers no close by the shortcut for a closed session
while an accepted line is not written. -/
def KeepsAccepted (s : JsonlSystem) : JsonlAction → Prop
  | .append line => (∃ queue ∈ s.send (.append line), queue.isOk = true) → s.InTime
  | .close => s.exit ≠ .held → s.accepted = s.written
  | _ => True

instance (s : JsonlSystem) : (a : JsonlAction) → Decidable (KeepsAccepted s a)
  | .append line =>
      inferInstanceAs (Decidable ((∃ queue ∈ s.send (.append line), queue.isOk = true) → s.InTime))
  | .close => inferInstanceAs (Decidable (s.exit ≠ .held → s.accepted = s.written))
  | .flush | .flushReturn _ | .closeSend | .closeReturn | .dropSenders | .recv _
  | .dropReceiver => .isTrue trivial

namespace JsonlSystem

variable {recovered : List UInt8} {s t : JsonlSystem}

theorem Drained.append {line : Line} (drained : s.Drained)
    (keeps : KeepsAccepted s (.append line)) (step : s.append line = some t) : t.Drained := by
  unfold JsonlSystem.append at step
  split at step
  · cases step
  · cases step
    exact drained
  · rename_i queue sent
    cases step
    obtain ⟨noShutdown, notStopped, notClosed⟩ := keeps ⟨_, sent, rfl⟩
    obtain ⟨rfl, alive⟩ := send_ok sent
    refine ⟨fun running => shutdownLast_append_line (noShutdown running) line, ?_, ?_⟩
    · rintro (stopped | gone)
      · exact absurd stopped notStopped
      · exact absurd gone (alive _)
    · intro closed
      rw [notClosed] at closed
      cases closed

theorem Drained.recv {io : IoOutcome} (sound : s.Sound recovered) (drained : s.Drained)
    (step : s.recv io = some t) : t.Drained := by
  unfold JsonlSystem.recv at step
  split at step
  swap
  · cases step
  rename_i running
  obtain ⟨-, accepted, -⟩ := sound.running running
  have last := drained.last running
  have notClosed {queue : List LineMsg} {bytes : Line} (served : s.queue = .append bytes :: queue)
      (closed : s.closedOk = true) : False := by
    have short := congrArg List.length (accepted.symm.trans (drained.closed closed))
    rw [served, linesOf, List.length_append, List.length_cons] at short
    omega
  split at step
  · rename_i bytes queue served
    rw [served] at last
    cases io with
    | done =>
        cases step
        exact ⟨fun _ => last, fun exited => by simp [running] at exited,
          fun closed => (notClosed served closed).elim⟩
    | failed n error =>
        cases step
        exact ⟨fun still => (nomatch still), by rintro (⟨⟨⟩⟩ | ⟨⟨⟩⟩),
          fun closed => (notClosed served closed).elim⟩
  · rename_i ack queue served
    rw [served] at last
    cases step
    exact ⟨fun _ => last, fun exited => by simp [running] at exited, drained.closed⟩
  · rename_i queue served
    rw [served] at last accepted
    cases step
    have all : s.accepted = s.written := by
      rw [accepted, linesOf, show linesOf queue = [] from last, List.append_nil]
    exact ⟨fun still => (nomatch still), fun _ => all, fun _ => all⟩
  · rename_i served
    rw [served] at accepted
    split at step
    · cases step
    · cases step
      have all : s.accepted = s.written := accepted.trans (List.append_nil _)
      exact ⟨fun still => (nomatch still), fun _ => all, fun _ => all⟩

/-- Steps that move no line and end no writer. -/
theorem Drained.frame (drained : s.Drained)
    (same : t.writer = s.writer ∧ t.accepted = s.accepted ∧ t.written = s.written)
    (queue : ShutdownLast s.queue → ShutdownLast t.queue)
    (closed : t.closedOk = true → s.closedOk = true ∨ s.accepted = s.written) : t.Drained := by
  obtain ⟨writer, accepted, written⟩ := same
  refine ⟨fun running => queue (drained.last (writer ▸ running)), fun exited => ?_, fun ok => ?_⟩
  · rw [accepted, written]
    rw [writer] at exited
    exact drained.exited exited
  · rw [accepted, written]
    exact (closed ok).elim drained.closed id

theorem Drained.flush (drained : s.Drained) (step : s.flush = some t) : t.Drained := by
  unfold JsonlSystem.flush at step
  split at step
  · cases step
  · cases step
    exact drained.frame ⟨rfl, rfl, rfl⟩ id .inl
  · rename_i queue sent
    cases step
    obtain ⟨rfl, -⟩ := send_ok sent
    exact drained.frame ⟨rfl, rfl, rfl⟩ (fun last => last.append rfl) .inl

theorem Drained.flushReturn {ack : Nat} (drained : s.Drained)
    (step : s.flushReturn ack = some t) : t.Drained := by
  unfold JsonlSystem.flushReturn at step
  split at step
  · cases step
    exact drained.frame ⟨rfl, rfl, rfl⟩ id .inl
  · split at step
    · cases step
      exact drained.frame ⟨rfl, rfl, rfl⟩ id .inl
    · cases step
  · cases step

theorem Drained.close (drained : s.Drained) (keeps : KeepsAccepted s .close) :
    s.close.Drained := by
  unfold JsonlSystem.close
  split
  · exact drained.frame ⟨rfl, rfl, rfl⟩ id .inl
  · rename_i taken
    exact drained.frame ⟨rfl, rfl, rfl⟩ id fun _ => .inr (keeps taken)

theorem Drained.closeSend (drained : s.Drained) (step : s.closeSend = some t) : t.Drained := by
  unfold JsonlSystem.closeSend at step
  split at step
  · split at step
    · cases step
    · cases step
      exact drained.frame ⟨rfl, rfl, rfl⟩ id .inl
    · rename_i queue sent
      cases step
      obtain ⟨rfl, -⟩ := send_ok sent
      exact drained.frame ⟨rfl, rfl, rfl⟩ (fun last => last.append rfl) .inl
  · cases step

theorem Drained.closeReturn (drained : s.Drained) (step : s.closeReturn = some t) :
    t.Drained := by
  have answered {outcome : IoResult}
      (exited : s.writer = .exiting outcome ∨ s.writer = .gone outcome)
      (ok : (s.closedOk || outcome.isOk) = true) : s.closedOk = true ∨ s.accepted = s.written := by
    rcases Bool.or_eq_true_iff.mp ok with before | now
    · exact .inl before
    · cases outcome with
      | error error => cases now
      | ok value => exact .inr (drained.exited exited)
  unfold JsonlSystem.closeReturn at step
  split at step
  · rename_i outcome awaited exiting
    cases step
    exact drained.frame ⟨rfl, rfl, rfl⟩ id (answered (.inl exiting))
  · rename_i outcome awaited gone
    cases step
    exact drained.frame ⟨rfl, rfl, rfl⟩ id (answered (.inr gone))
  · cases step

theorem Drained.dropReceiver (drained : s.Drained) (step : s.dropReceiver = some t) :
    t.Drained := by
  unfold JsonlSystem.dropReceiver at step
  split at step
  · rename_i outcome exiting
    cases step
    refine ⟨fun still => (nomatch still), ?_, drained.closed⟩
    rintro (⟨⟨⟩⟩ | ⟨⟨⟩⟩)
    exact drained.exited (.inl exiting)
  · cases step

theorem Drained.step {a : JsonlAction} (sound : s.Sound recovered) (drained : s.Drained)
    (keeps : KeepsAccepted s a) (step : jsonlStep s a = some t) : t.Drained := by
  have alive {next : Option JsonlSystem} (ok : (if s.senders then next else none) = some t) :
      next = some t := (Option.ite_none_right_eq_some.mp ok).2
  cases a with
  | append line => exact drained.append keeps (alive step)
  | flush => exact drained.flush (alive step)
  | flushReturn ack => exact drained.flushReturn (alive step)
  | close =>
      cases alive step
      exact drained.close keeps
  | closeSend => exact drained.closeSend (alive step)
  | closeReturn => exact drained.closeReturn (alive step)
  | dropSenders =>
      cases alive step
      exact drained.frame ⟨rfl, rfl, rfl⟩ id .inl
  | recv io => exact drained.recv sound step
  | dropReceiver => exact drained.dropReceiver step

theorem drained_opened (file : List UInt8) : (JsonlSystem.opened file).Drained :=
  ⟨fun _ => trivial, fun _ => rfl, fun _ => rfl⟩

end JsonlSystem

/-- Every interleaving writes the accepted lines in channel order behind the recovered prefix, a
flush that returned `Ok` proves the lines it was sent behind, and where the steps keep the
accepted lines, a close that returned `Ok` proves all of them. -/
theorem jsonl_session_keeps_lines {file : List UInt8} {as : List JsonlAction} {t : JsonlSystem}
    (run : execute jsonlStep (.opened file) as = some t) :
    (t.written <+: t.accepted ∧
      ∃ torn, t.file = recoverTornTail file ++ t.written.flatten ++ torn ∧
        (torn = [] ∨
          (∃ error, t.writer = .exiting (.error error) ∨ t.writer = .gone (.error error)) ∧
            ∃ line, t.written ++ [line] <+: t.accepted ∧ torn <+: line)) ∧
      (∀ ack call, t.flushes ack = some call → call.returned = some (.ok ()) →
        t.sentBehind ack <+: t.written) ∧
      (Along jsonlStep KeepsAccepted (.opened file) as → t.closedOk = true →
        t.accepted = t.written) := by
  have sound : t.Sound (recoverTornTail file) :=
    execute_invariant (fun _ _ _ sound step => sound.step step) run
      (JsonlSystem.sound_opened file)
  refine ⟨⟨sound.inOrder, sound.stopped⟩, fun ack call found => (sound.flushed ack call found).2,
    fun keeps => ?_⟩
  have both : t.Sound (recoverTornTail file) ∧ t.Drained :=
    execute_invariant_along
      (I := fun s => s.Sound (recoverTornTail file) ∧ s.Drained)
      (fun _ _ _ valid keeps step => ⟨valid.1.step step, valid.2.step valid.1 keeps step⟩)
      run keeps ⟨JsonlSystem.sound_opened file, JsonlSystem.drained_opened file⟩
  exact both.2.closed

/-- Two clones append and one flushes and closes, behind a torn tail. -/
def drainedRun : List JsonlAction :=
  [.append [0x61, 0x0A], .append [0x62, 0x0A], .flush, .recv .done, .recv .done, .recv .done,
    .flushReturn 0, .append [0x63, 0x0A], .close, .closeSend, .recv .done, .recv .done,
    .closeReturn, .close, .dropReceiver, .append [0x64, 0x0A]]

theorem jsonl_session_keeps_drained_lines :
    ∃ t, execute jsonlStep (.opened [0x7A, 0x0A, 0x7A]) drainedRun = some t ∧
      t.closedOk = true ∧ t.accepted = t.written := by
  have succeeds : (execute jsonlStep (.opened [0x7A, 0x0A, 0x7A]) drainedRun).any
      (·.closedOk) = true := by decide +kernel
  obtain ⟨t, run, closed⟩ := (Option.any_eq_true _ _).mp succeeds
  exact ⟨t, run, closed, (jsonl_session_keeps_lines run).2.2 (by decide +kernel) closed⟩

/-- A line is accepted behind the Shutdown of a close that then returns `Ok`: it is dropped. -/
theorem line_behind_shutdown_is_dropped :
    ∃ t, execute jsonlStep (.opened [])
        [.append [0x61, 0x0A], .close, .closeSend, .append [0x62, 0x0A], .recv .done, .recv .done,
          .closeReturn, .dropReceiver] = some t ∧
      ¬ (t.closedOk = true → ∀ line ∈ t.accepted, ∃ before after, t.file = before ++ line ++ after)
        := by
  have dropped : (execute jsonlStep (.opened [])
      [.append [0x61, 0x0A], .close, .closeSend, .append [0x62, 0x0A], .recv .done, .recv .done,
        .closeReturn, .dropReceiver]).any (fun t => t.closedOk && t.accepted.contains [0x62, 0x0A] &&
          t.file == [0x61, 0x0A]) = true := by decide +kernel
  obtain ⟨t, run, found⟩ := (Option.any_eq_true _ _).mp dropped
  simp only [Bool.and_eq_true, List.contains_iff_mem, beq_iff_eq] at found
  obtain ⟨⟨closed, accepted⟩, file⟩ := found
  refine ⟨t, run, fun kept => ?_⟩
  obtain ⟨before, after, split⟩ := kept closed _ accepted
  have inside : (0x62 : UInt8) ∈ t.file := by
    rw [split]
    simp
  rw [file] at inside
  revert inside
  decide

end Webfang
