import Webfang.Persistence.CrawlResultLog

/-!
# What the crawl-result log keeps

As long as nothing is written behind a torn frame, and none is torn right before its
terminator, the log holds the frames that were written whole and a tail no frame is read from;
the index holds the last position of each URL, whether it was recovered or kept by the writer.
-/

namespace Webfang

open Framing StepSystem

section System

variable {γ υ : Type} [DecidableEq υ] {codec : ContentCodec γ υ}

/-- The content of the last whole frame of a URL. -/
def lastWritten (codec : ContentCodec γ υ) (written : List γ) (url : υ) : Option γ :=
  written.reverse.find? fun content => codec.url content = url

namespace ResultLog

/-- The frames of what was written whole. -/
def wholeFrames (codec : ContentCodec γ υ) (s : ResultLog γ υ) : List UInt8 :=
  frames (s.written.map codec.toJson)

/-- The log ends with a whole frame. -/
def Clean (codec : ContentCodec γ υ) (s : ResultLog γ υ) : Prop := s.bytes = s.wholeFrames codec

instance (s : ResultLog γ υ) : Decidable (s.Clean codec) :=
  inferInstanceAs (Decidable (_ = _))

/-- The next frame is cut before its first byte, or behind a whole frame and not right before
its terminator. -/
def CutSafely (codec : ContentCodec γ υ) (s : ResultLog γ υ) (n : Nat) : Prop :=
  n = 0 ∨ (s.Clean codec ∧ ∀ content ∈ s.queue.head?, n ≠ (codec.toJson content).length + 4)

instance (s : ResultLog γ υ) (n : Nat) : Decidable (s.CutSafely codec n) :=
  inferInstanceAs (Decidable (_ ∨ _))

end ResultLog

/-- Nothing is written behind a torn frame, and none is torn right before its terminator. -/
def NothingBehindTorn (codec : ContentCodec γ υ) (s : ResultLog γ υ) : LogAction γ → Prop
  | .write => s.Clean codec
  | .tear n _ | .restart n => s.CutSafely codec n
  | _ => True

instance (s : ResultLog γ υ) (a : LogAction γ) : Decidable (NothingBehindTorn codec s a) := by
  unfold NothingBehindTorn
  split <;> infer_instance

/-- What is saved has a length that four bytes hold. -/
def SavesFit (codec : ContentCodec γ υ) (a : LogAction γ) : Prop :=
  ∀ content, a = .save content → (codec.toJson content).length < 4294967296

/-! ## The index -/

omit [DecidableEq υ] in
theorem fits_map {written : List γ}
    (fits : ∀ content ∈ written, (codec.toJson content).length < 4294967296) :
    ∀ payload ∈ written.map codec.toJson, payload.length < 4294967296 := by
  intro payload member
  obtain ⟨content, there, rfl⟩ := List.mem_map.mp member
  exact fits content there

/-- A torn tail changes no index. -/
theorem recoverIndex_torn {written : List γ}
    (fits : ∀ content ∈ written, (codec.toJson content).length < 4294967296)
    {tail : List UInt8} (torn : readFrame tail = none) :
    recoverIndex codec (frames (written.map codec.toJson) ++ tail) =
      recoverIndex codec (frames (written.map codec.toJson)) := by
  have whole := scan_frames (fits_map fits) (rfl : readFrame [] = none)
  rw [List.append_nil] at whole
  rw [recoverIndex, recoverIndex, scan_frames (fits_map fits) torn, whole]

/-- The index after one more frame. -/
theorem recoverIndex_append (lawful : codec.Lawful) {written : List γ} {content : γ}
    (fits : ∀ c ∈ written ++ [content], (codec.toJson c).length < 4294967296) :
    recoverIndex codec (frames ((written ++ [content]).map codec.toJson)) =
      Function.update (recoverIndex codec (frames (written.map codec.toJson)))
        (codec.url content) (some (frames (written.map codec.toJson)).length) := by
  have before := scan_frames (fits_map fun c member => fits c (List.mem_append_left _ member))
    (rfl : readFrame [] = none)
  have after := scan_frames (fits_map fits) (rfl : readFrame [] = none)
  rw [List.append_nil] at before after
  rw [recoverIndex, recoverIndex, before, after, List.map_append, positions_append,
    List.foldl_append, Nat.zero_add]
  simp only [List.map_singleton, positions, List.foldl_cons, List.foldl_nil, lawful.readsUrl]

/-- The index holds the position of the last whole frame of each URL. -/
theorem recoverIndex_cases (lawful : codec.Lawful) {written : List γ}
    (fits : ∀ content ∈ written, (codec.toJson content).length < 4294967296) (url : υ) :
    (recoverIndex codec (frames (written.map codec.toJson)) url = none ∧
        lastWritten codec written url = none) ∨
      ∃ before content after, written = before ++ content :: after ∧
        recoverIndex codec (frames (written.map codec.toJson)) url =
          some (frames (before.map codec.toJson)).length ∧
        lastWritten codec written url = some content := by
  induction written using List.reverseRecOn with
  | nil => exact .inl ⟨rfl, rfl⟩
  | append_singleton written content ih =>
      rw [recoverIndex_append lawful fits, lastWritten, List.reverse_concat, List.find?_cons]
      by_cases here : codec.url content = url
      · subst here
        rw [Function.update_self, decide_eq_true rfl]
        exact .inr ⟨written, content, [], rfl, rfl, rfl⟩
      · rw [Function.update_of_ne (Ne.symm here), decide_eq_false here]
        rcases ih fun c member => fits c (List.mem_append_left _ member) with
          none | ⟨before, last, after, split, position, found⟩
        · exact .inl none
        · exact .inr ⟨before, last, after ++ [content], by rw [split]; simp, position, found⟩

namespace ResultLog

/-! ## The invariant -/

/-- The whole frames, a tail no frame is read from, and an index of the whole frames. -/
structure Sound (codec : ContentCodec γ υ) (s : ResultLog γ υ) : Prop where
  tail : ∃ tail, s.bytes = s.wholeFrames codec ++ tail ∧ readFrame tail = none
  offset : ∀ offset, s.offset = some offset → s.Clean codec → offset = s.bytes.length
  fits : ∀ content ∈ s.written, (codec.toJson content).length < 4294967296
  queued : ∀ content ∈ s.queue, (codec.toJson content).length < 4294967296
  index : s.index = recoverIndex codec (s.wholeFrames codec)

theorem Sound.nextOffset {s : ResultLog γ υ} (sound : s.Sound codec) (clean : s.Clean codec) :
    s.nextOffset = s.bytes.length := by
  unfold ResultLog.nextOffset
  cases open' : s.offset with
  | none => rfl
  | some offset => exact sound.offset offset open' clean

/-- A process that opens a log with a torn tail recovers the index of its whole frames. -/
theorem sound_new {file : Option (List UInt8)} {written : List γ} {tail : List UInt8}
    (bytes : file.getD [] = frames (written.map codec.toJson) ++ tail)
    (torn : readFrame tail = none)
    (fits : ∀ content ∈ written, (codec.toJson content).length < 4294967296) :
    (new codec file written).Sound codec := by
  refine ⟨⟨tail, bytes, torn⟩, fun offset opened => (nomatch opened), fits,
    fun content member => (nomatch member), ?_⟩
  change (file.map (recoverIndex codec)).getD (fun _ => none) = recoverIndex codec (frames (written.map codec.toJson))
  cases file with
  | none =>
      obtain ⟨none, -⟩ := List.append_eq_nil_iff.mp bytes.symm
      rw [none]
      rfl
  | some held =>
      rw [← recoverIndex_torn fits torn, ← bytes]
      rfl

theorem Sound.appendRecord (lawful : codec.Lawful) {s : ResultLog γ υ} (sound : s.Sound codec)
    (clean : s.Clean codec) {content : γ} {rest : List γ} (next : s.queue = content :: rest) :
    (s.appendRecord codec content rest).Sound codec := by
  obtain ⟨here, later⟩ := List.forall_mem_cons.mp (next ▸ sound.queued)
  have fits : ∀ c ∈ s.written ++ [content], (codec.toJson c).length < 4294967296 := by
    intro c member
    rcases List.mem_append.mp member with old | new
    · exact sound.fits c old
    · rw [List.mem_singleton.mp new]
      exact here
  have whole : (s.appendRecord codec content rest).bytes =
      frames ((s.written ++ [content]).map codec.toJson) := by
    change s.bytes ++ frame (codec.toJson content) = _
    rw [clean, List.map_append, frames_append, wholeFrames, List.map_singleton, frames_cons,
      frames_nil, List.append_nil]
  refine ⟨⟨[], by rw [whole, List.append_nil]; rfl, rfl⟩, fun offset opened _ => ?_, fits, later, ?_⟩
  · cases opened
    change s.nextOffset + 4 + (codec.toJson content).length % 4294967296 + 1 =
      (s.bytes ++ frame (codec.toJson content)).length
    rw [Nat.mod_eq_of_lt here, sound.nextOffset clean, List.length_append, length_frame]
    omega
  · change Function.update s.index (codec.url content) (some s.nextOffset) =
      recoverIndex codec (frames ((s.written ++ [content]).map codec.toJson))
    rw [recoverIndex_append lawful fits, sound.nextOffset clean, sound.index, clean]
    rfl

/-- What a safe cut leaves behind the whole frames. -/
theorem Sound.cut {s : ResultLog γ υ} (sound : s.Sound codec) {content : γ} {rest : List γ}
    (next : s.queue = content :: rest) {n : Nat}
    (proper : n < (frame (codec.toJson content)).length) (safely : s.CutSafely codec n) :
    ∃ tail, s.bytes ++ (frame (codec.toJson content)).take n = s.wholeFrames codec ++ tail ∧
      readFrame tail = none := by
  rcases safely with rfl | ⟨clean, notLast⟩
  · rw [List.take_zero, List.append_nil]
    exact sound.tail
  · have fits := sound.queued content (next ▸ List.mem_cons_self ..)
    have before := notLast content (by rw [next]; rfl)
    rw [length_frame] at proper
    exact ⟨_, by rw [clean], readFrame_take fits (by omega)⟩

theorem Sound.tearRecord {s : ResultLog γ υ} (sound : s.Sound codec) {content : γ}
    {rest : List γ} (next : s.queue = content :: rest) {n : Nat} {sized : Bool}
    (proper : n < (frame (codec.toJson content)).length) (safely : s.CutSafely codec n) :
    (s.tearRecord codec content rest n sized).Sound codec := by
  have later := (List.forall_mem_cons.mp (next ▸ sound.queued)).2
  refine ⟨sound.cut next proper safely, fun offset opened clean => ?_, sound.fits, later,
    sound.index⟩
  cases opened
  cases sized with
  | true => rfl
  | false =>
      -- a log that is clean behind the cut has lost no byte
      change s.bytes ++ (frame (codec.toJson content)).take n = s.wholeFrames codec at clean
      change s.nextOffset = (s.bytes ++ (frame (codec.toJson content)).take n).length
      rcases safely with rfl | ⟨before, -⟩
      · rw [List.take_zero, List.append_nil] at clean ⊢
        exact sound.nextOffset clean
      · rw [before, List.append_right_eq_self] at clean
        rw [clean, List.append_nil]
        exact sound.nextOffset before

theorem Sound.restart {s : ResultLog γ υ} (sound : s.Sound codec) {content : γ}
    {rest : List γ} (next : s.queue = content :: rest) {n : Nat}
    (le : n ≤ (frame (codec.toJson content)).length) (safely : s.CutSafely codec n) :
    (new codec (s.killed codec content n).file (s.killed codec content n).written).Sound codec := by
  have fits := sound.queued content (next ▸ List.mem_cons_self ..)
  have file : (s.killed codec content n).file.getD [] =
      s.bytes ++ (frame (codec.toJson content)).take n := by
    unfold killed
    dsimp only
    split
    · rename_i none
      rw [none, List.take_zero, List.append_nil]
      rfl
    · rfl
  rcases Nat.lt_or_eq_of_le le with proper | whole
  · obtain ⟨tail, bytes, torn⟩ := sound.cut next proper safely
    have written : (s.killed codec content n).written = s.written := if_neg (by omega)
    rw [written]
    exact sound_new (file.trans bytes) torn sound.fits
  · have written : (s.killed codec content n).written = s.written ++ [content] := if_pos whole
    have clean : s.Clean codec := by
      rcases safely with rfl | ⟨clean, -⟩
      · rw [length_frame] at whole
        omega
      · exact clean
    rw [written]
    refine sound_new (file.trans ?_) (rfl : readFrame [] = none) fun c member => ?_
    · rw [whole, List.take_length, clean, List.append_nil, List.map_append, frames_append,
        wholeFrames, List.map_singleton, frames_cons, frames_nil, List.append_nil]
    · rcases List.mem_append.mp member with old | new
      · exact sound.fits c old
      · rw [List.mem_singleton.mp new]
        exact fits

theorem Sound.step (lawful : codec.Lawful) {s t : ResultLog γ υ} {a : LogAction γ}
    (sound : s.Sound codec) (clean : NothingBehindTorn codec s a) (fits : SavesFit codec a)
    (step : logStep codec s a = some t) : t.Sound codec := by
  cases a with
  | save content =>
      cases step
      split
      · exact sound
      · refine ⟨sound.tail, sound.offset, sound.fits, fun c member => ?_, sound.index⟩
        rcases List.mem_append.mp member with old | new
        · exact sound.queued c old
        · rw [List.mem_singleton.mp new]
          exact fits content rfl
  | write =>
      dsimp only [logStep] at step
      split at step
      · cases step
      · rename_i content rest next
        split at step
        · cases step
          exact sound.appendRecord lawful clean next
        · cases step
  | tear n sized =>
      dsimp only [logStep] at step
      split at step
      · cases step
      · rename_i content rest next
        split at step
        · rename_i proper
          cases step
          exact sound.tearRecord next proper.2 clean
        · cases step
  | openFails created =>
      dsimp only [logStep] at step
      split at step
      · cases step
        have bytes : (if created then some s.bytes else s.file).getD [] = s.bytes := by
          cases created <;> rfl
        refine ⟨?_, ?_, sound.fits, fun content member => (nomatch member), sound.index⟩
        · obtain ⟨tail, split, torn⟩ := sound.tail
          exact ⟨tail, bytes.trans split, torn⟩
        · intro offset opened clean
          exact (sound.offset offset opened (bytes.symm.trans clean)).trans (congrArg _ bytes.symm)
      · cases step
  | shutdown =>
      dsimp only [logStep] at step
      split at step
      · cases step
        exact ⟨sound.tail, sound.offset, sound.fits, sound.queued, sound.index⟩
      · cases step
  | restart n =>
      dsimp only [logStep] at step
      split at step
      · split at step
        · cases step
          obtain ⟨tail, bytes, torn⟩ := sound.tail
          exact sound_new bytes torn sound.fits
        · cases step
      · rename_i content rest next
        split at step
        · rename_i allowed
          cases step
          refine sound.restart next ?_ clean
          rcases allowed with rfl | ⟨-, le⟩
          · exact Nat.zero_le _
          · exact le
        · cases step

/-! ## Reading -/

/-- `find_by_url` returns the content of the last whole frame. -/
theorem Sound.findByUrl (lawful : codec.Lawful) {s : ResultLog γ υ} (sound : s.Sound codec)
    (url : υ) : s.findByUrl codec url = .ok (lastWritten codec s.written url) := by
  unfold ResultLog.findByUrl
  rw [sound.index]
  rcases recoverIndex_cases lawful sound.fits url with
    ⟨none, absent⟩ | ⟨before, content, after, split, position, found⟩
  · rw [wholeFrames, none, absent]
  · rw [wholeFrames, position, found]
    obtain ⟨tail, bytes, -⟩ := sound.tail
    have here : s.bytes.drop (frames (before.map codec.toJson)).length =
        lengthBytes (codec.toJson content).length ++ (codec.toJson content ++
          ([0x0A] ++ (frames (after.map codec.toJson) ++ tail))) := by
      rw [bytes, wholeFrames, split, List.map_append, frames_append, List.map_cons, frames_cons,
        List.append_assoc, List.drop_left, frame]
      simp only [List.append_assoc]
    cases file : s.file with
    | none =>
        rw [ResultLog.bytes, file] at here
        have none := congrArg List.length here
        simp at none
    | some held =>
        rw [ResultLog.bytes, file, Option.getD_some] at here
        have fits := sound.fits content (split ▸ List.mem_append_right _ (List.mem_cons_self ..))
        dsimp only
        rw [here, readExact_append (length_lengthBytes _)]
        dsimp only
        rw [ofBytes_lengthBytes fits, readExact_append rfl]
        dsimp only
        rw [lawful.reads]

omit [DecidableEq υ] in
theorem mapM_reads (lawful : codec.Lawful) (position : Nat) (written : List γ) :
    (positions position (written.map codec.toJson)).mapM (fun entry =>
      match codec.fromJson entry.2 with
      | none => Except.error StorageError.deserialize
      | some content => Except.ok content) = Except.ok written := by
  induction written generalizing position with
  | nil => rfl
  | cons content rest ih =>
      rw [List.map_cons, positions, List.mapM_cons, ih, lawful.reads]
      rfl

/-- `load_all` returns the whole frames in order. -/
theorem Sound.loadAll (lawful : codec.Lawful) {s : ResultLog γ υ} (sound : s.Sound codec) :
    s.loadAll codec = .ok s.written := by
  unfold ResultLog.loadAll
  obtain ⟨tail, bytes, torn⟩ := sound.tail
  cases file : s.file with
  | none =>
      rw [ResultLog.bytes, file] at bytes
      have none := (List.append_eq_nil_iff.mp bytes.symm).1
      cases written : s.written with
      | nil => rfl
      | cons content rest =>
          rw [wholeFrames, written, List.map_cons, frames_cons] at none
          have length := congrArg List.length none
          simp at length
  | some held =>
      rw [ResultLog.bytes, file, Option.getD_some] at bytes
      dsimp only
      rw [bytes, wholeFrames, scan_frames (fits_map sound.fits) torn]
      exact mapM_reads lawful 0 s.written

end ResultLog

/-- In a sequence of processes over one log file where nothing is written behind a torn frame,
and none is torn right before its terminator, `find_by_url` always returns the content of the
last whole frame of a URL, and `load_all` the contents of all whole frames in order. -/
theorem result_log_keeps_whole_frames (lawful : codec.Lawful) {as : List (LogAction γ)}
    {t : ResultLog γ υ} (run : execute (logStep codec) (.init codec) as = some t)
    (fits : ∀ content, .save content ∈ as → (codec.toJson content).length < 4294967296)
    (clean : Along (logStep codec) (NothingBehindTorn codec) (.init codec) as) :
    (∀ url, t.findByUrl codec url = .ok (lastWritten codec t.written url)) ∧
      t.loadAll codec = .ok t.written := by
  have saves : Along (logStep codec) (fun _ a => SavesFit codec a) (.init codec) as :=
    Along.of_forall (fun a member _ content same => fits content (by rwa [same] at member)) _
  have sound : t.Sound codec :=
    execute_invariant_along (fun _ _ _ sound allowed step =>
      sound.step lawful allowed.1 allowed.2 step) run (clean.and saves)
      (ResultLog.sound_new rfl (rfl : readFrame [] = none) fun _ member => nomatch member)
  exact ⟨sound.findByUrl lawful, sound.loadAll lawful⟩

end System

/-! ## Two sample contents -/

inductive SampleContent
  | a
  | b
  deriving DecidableEq, Repr

def SampleContent.url : SampleContent → String
  | .a => "https://a.test/"
  | .b => "https://b.test/"

/-- What serde_json writes for a content without metadata. -/
def SampleContent.json : SampleContent → List UInt8
  | .a => "\x7b\"title\":\"A\",\"content\":\"a\",\"url\":\"https://a.test/\",\"excerpt\":null\x7d"
      |>.toList.map (.ofNat ·.toNat)
  | .b => "\x7b\"title\":\"B\",\"content\":\"b\",\"url\":\"https://b.test/\",\"excerpt\":null\x7d"
      |>.toList.map (.ofNat ·.toNat)

/-- The codec on the two contents; anything else is no JSON of a content. -/
def sampleContents : ContentCodec SampleContent String where
  toJson := SampleContent.json
  fromJson payload := [SampleContent.a, .b].find? fun content => content.json = payload
  urlField payload :=
    ([SampleContent.a, .b].find? fun content => content.json = payload).map (·.url)
  url := SampleContent.url

theorem lawful_sampleContents : sampleContents.Lawful where
  reads content := by cases content <;> decide +kernel
  readsUrl content := by cases content <;> decide +kernel

/-- The frame of the second content is torn, and the next process recovers the first one. -/
theorem result_log_keeps_frame_before_torn :
    ∃ t, execute (logStep sampleContents) (.init sampleContents)
        [.save .a, .save .b, .write, .tear 10 true, .restart 0] = some t ∧ t.written = [.a] ∧
      (∀ url, t.findByUrl sampleContents url =
        .ok (lastWritten sampleContents t.written url)) ∧
      t.loadAll sampleContents = .ok t.written := by
  have succeeds : (execute (logStep sampleContents) (.init sampleContents)
      [.save .a, .save .b, .write, .tear 10 true, .restart 0]).any (·.written == [.a]) = true := by
    decide +kernel
  obtain ⟨t, run, written⟩ := (Option.any_eq_true _ _).mp succeeds
  refine ⟨t, run, beq_iff_eq.mp written, result_log_keeps_whole_frames lawful_sampleContents run
    (fun content _ => ?_) (by decide +kernel)⟩
  cases content <;> decide +kernel

/-- The frame of the first content is torn behind ten bytes, and the second one, queued before,
is written whole behind it: `load_all` fails, and the next process does not find it. -/
theorem frame_behind_torn_one_is_lost :
    ∃ s t, execute (logStep sampleContents) (.init sampleContents)
        [.save .a, .save .b, .tear 10 true, .write] = some s ∧
      s.written = [.b] ∧ s.queue = [] ∧ s.loadAll sampleContents = .error .deserialize ∧
      logStep sampleContents s (.restart 0) = some t ∧ t.written = [.b] ∧
      t.findByUrl sampleContents "https://b.test/" = .ok none := by
  have succeeds : (execute (logStep sampleContents) (.init sampleContents)
      [.save .a, .save .b, .tear 10 true, .write]).any (fun s => decide (s.written = [.b] ∧
        s.queue = [] ∧ s.loadAll sampleContents = .error .deserialize) &&
      (logStep sampleContents s (.restart 0)).any (fun t => decide (t.written = [.b] ∧
        t.findByUrl sampleContents "https://b.test/" = .ok none))) = true := by
    decide +kernel
  obtain ⟨s, run, both⟩ := (Option.any_eq_true _ _).mp succeeds
  rw [Bool.and_eq_true] at both
  obtain ⟨t, restarted, lost⟩ := (Option.any_eq_true _ _).mp both.2
  obtain ⟨written, drained, failed⟩ := of_decide_eq_true both.1
  exact ⟨s, t, run, written, drained, failed, restarted, of_decide_eq_true lost⟩

end Webfang
