import Webfang.Lib.Execution
import Webfang.Lib.Parties

/-!
# Downloads under a byte semaphore

`infrastructure/crawler/resource_downloader.rs`: each chunk of a resource takes as many permits as
it has bytes before it is buffered.  The permit of a chunk is forgotten and a `PermitGuard` gives
all of them back when the download ends, however it ends.
-/

namespace Webfang.Downloader

open StepSystem Parties

/-! ## Downloads -/

inductive ResourceFailure
  | globalTimeout
  | network (message : String)
  | payloadTooLarge
  | slowlorisTimeout
  | semaphoreInanition
  deriving DecidableEq, Repr

/-- The locals of a download that streams: `units` are those of its `PermitGuard`. -/
structure Streaming where
  buffer : List UInt8
  totalBytes : Nat
  units : Nat
  deriving DecidableEq, Repr

namespace Streaming

/-- The guard starts with no units. -/
def init : Streaming := ⟨[], 0, 0⟩

/-- `update_reservation` and the buffering of the chunk. -/
def extend (d : Streaming) (chunk : List UInt8) : Streaming where
  buffer := d.buffer ++ chunk
  totalBytes := d.totalBytes + chunk.length
  units := d.units + chunk.length

end Streaming

abbrev DownloadResult := Except ResourceFailure (List UInt8)

/-- Where a download waits.  `granted` has permits that it has not forgotten; a download that
unwinds has its locals still, and no result when it was dropped. -/
inductive DownloadPhase
  | requesting
  | streaming (d : Streaming)
  | acquiring (d : Streaming) (chunk : List UInt8)
  | granted (d : Streaming) (chunk : List UInt8)
  | unwinding (d : Streaming) (result : Option DownloadResult)
  | ended (result : Option DownloadResult)
  deriving DecidableEq, Repr

/-- The permits of `acquire_many`, whose argument is a `u32`. -/
def acquireMany (chunk : List UInt8) : Nat := chunk.length % 2 ^ 32

namespace DownloadPhase

/-- The locals, while there are any. -/
def locals : DownloadPhase → Option Streaming
  | streaming d | acquiring d _ | granted d _ | unwinding d _ => some d
  | _ => none

/-- The units that the guard holds. -/
def units (phase : DownloadPhase) : Nat := (phase.locals.map Streaming.units).getD 0

/-- The permits of an acquisition that is not forgotten yet. -/
def unforgotten : DownloadPhase → Nat
  | granted _ chunk => acquireMany chunk
  | _ => 0

def bufferedBytes (phase : DownloadPhase) : Nat :=
  (phase.locals.map fun d => d.buffer.length).getD 0

end DownloadPhase

/-- The semaphore and all downloads so far. -/
structure DownloaderState where
  maxSizeBytes : Nat
  available : Nat
  downloads : List DownloadPhase
  deriving DecidableEq, Repr

/-- The moves of the downloads.  Nothing is awaited between `forget`, `update_reservation` and the
buffering of the chunk: `proceed` is all three. -/
inductive DownloadAction
  | start
  /-- the headers are there, with this `Content-Length` -/
  | headers (i : Nat) (contentLength : Option Nat)
  /-- the global timeout, or an error of the request -/
  | requestFails (i : Nat) (error : Option String)
  | chunk (i : Nat) (bytes : List UInt8)
  | streamEnds (i : Nat)
  /-- the timeout of a chunk, or an error of the stream -/
  | streamFails (i : Nat) (error : Option String)
  | acquire (i : Nat)
  | proceed (i : Nat)
  /-- the timeout of the acquisition -/
  | acquireTimesOut (i : Nat)
  /-- the future is dropped -/
  | drop (i : Nat)
  /-- the locals of a download that has ended are dropped -/
  | unwind (i : Nat)
  deriving DecidableEq, Repr

namespace DownloaderState

def init (maxSizeBytes permits : Nat) : DownloaderState := ⟨maxSizeBytes, permits, []⟩

def move (s : DownloaderState) (i : Nat) (phase : DownloadPhase) : DownloaderState :=
  { s with downloads := s.downloads.set i phase }

/-- Behind the headers: a resource that is too large is rejected before it takes any permits. -/
def behindHeaders (s : DownloaderState) (contentLength : Option Nat) : DownloadPhase :=
  match contentLength with
  | some length =>
      if s.maxSizeBytes < length then .ended (some (.error .payloadTooLarge))
      else .streaming .init
  | none => .streaming .init

/-- Behind the arrival of a chunk. -/
def behindChunk (s : DownloaderState) (d : Streaming) (bytes : List UInt8) : DownloadPhase :=
  if s.maxSizeBytes < d.totalBytes + bytes.length then
    .unwinding d (some (.error .payloadTooLarge))
  else if 0 < bytes.length then .acquiring d bytes
  else .streaming (d.extend bytes)

end DownloaderState

def requestError : Option String → ResourceFailure
  | none => .globalTimeout
  | some message => .network message

def streamError : Option String → ResourceFailure
  | none => .slowlorisTimeout
  | some message => .network message

/-- One move of a download. -/
def downloadStep (s : DownloaderState) : DownloadAction → Option DownloaderState
  | .start => some { s with downloads := s.downloads ++ [.requesting] }
  | .headers i contentLength =>
      match s.downloads[i]? with
      | some .requesting => some (s.move i (s.behindHeaders contentLength))
      | _ => none
  | .requestFails i error =>
      match s.downloads[i]? with
      | some .requesting => some (s.move i (.ended (some (.error (requestError error)))))
      | _ => none
  | .chunk i bytes =>
      match s.downloads[i]? with
      | some (.streaming d) => some (s.move i (s.behindChunk d bytes))
      | _ => none
  | .streamEnds i =>
      match s.downloads[i]? with
      | some (.streaming d) => some (s.move i (.unwinding d (some (.ok d.buffer))))
      | _ => none
  | .streamFails i error =>
      match s.downloads[i]? with
      | some (.streaming d) => some (s.move i (.unwinding d (some (.error (streamError error)))))
      | _ => none
  | .acquire i =>
      match s.downloads[i]? with
      | some (.acquiring d chunk) =>
          if acquireMany chunk ≤ s.available then
            some { s.move i (.granted d chunk) with available := s.available - acquireMany chunk }
          else none
      | _ => none
  | .proceed i =>
      match s.downloads[i]? with
      | some (.granted d chunk) => some (s.move i (.streaming (d.extend chunk)))
      | _ => none
  | .acquireTimesOut i =>
      match s.downloads[i]? with
      | some (.acquiring d _) => some (s.move i (.unwinding d (some (.error .semaphoreInanition))))
      | _ => none
  | .drop i =>
      match s.downloads[i]? with
      | some .requesting => some (s.move i (.ended none))
      | some (.streaming d) | some (.acquiring d _) => some (s.move i (.unwinding d none))
      | some (.granted d chunk) =>
          -- the permit is dropped, not forgotten
          some { s.move i (.unwinding d none) with available := s.available + acquireMany chunk }
      | _ => none
  | .unwind i =>
      match s.downloads[i]? with
      | some (.unwinding d result) =>
          some { s.move i (.ended result) with available := s.available + d.units }
      | _ => none

namespace DownloaderState

/-! ## What is promised -/

def guardUnits (s : DownloaderState) : Nat := (s.downloads.map DownloadPhase.units).sum

def unforgotten (s : DownloaderState) : Nat := (s.downloads.map DownloadPhase.unforgotten).sum

def bufferedBytes (s : DownloaderState) : Nat := (s.downloads.map DownloadPhase.bufferedBytes).sum

/-- The permits are conserved, all are back when no download is live, each download buffers as many
bytes as its guard has units and no more than the limit, and all together no more than there are
permits. -/
def Conserves (permits : Nat) (s : DownloaderState) : Prop :=
  s.available + s.guardUnits + s.unforgotten = permits ∧
    ((∀ phase ∈ s.downloads, ∃ result, phase = .ended result) → s.available = permits) ∧
    (∀ phase ∈ s.downloads, ∀ d, phase.locals = some d →
      d.buffer.length = d.units ∧ d.buffer.length ≤ s.maxSizeBytes) ∧
    s.bufferedBytes ≤ permits

end DownloaderState

/-- The chunk that an action brings has fewer than 2^32 bytes. -/
def ShortChunk : DownloadAction → Prop
  | .chunk _ bytes => bytes.length < 2 ^ 32
  | _ => True

namespace DownloaderState

/-! ## The account -/

/-- The buffer, the total and the units are one number, within the limit. -/
def Even (maxSizeBytes : Nat) (d : Streaming) : Prop :=
  d.buffer.length = d.units ∧ d.totalBytes = d.units ∧ d.units ≤ maxSizeBytes

/-- A chunk that is waited for takes its length in permits, and fits in. -/
def FitsIn (maxSizeBytes : Nat) (d : Streaming) (chunk : List UInt8) : Prop :=
  acquireMany chunk = chunk.length ∧ d.totalBytes + chunk.length ≤ maxSizeBytes

/-- What holds of a download at each of its awaits. -/
def Sound (maxSizeBytes : Nat) : DownloadPhase → Prop
  | .requesting | .ended _ => True
  | .streaming d | .unwinding d _ => Even maxSizeBytes d
  | .acquiring d chunk | .granted d chunk => Even maxSizeBytes d ∧ FitsIn maxSizeBytes d chunk

theorem Even.extend {maxSizeBytes : Nat} {d : Streaming} {chunk : List UInt8}
    (even : Even maxSizeBytes d) (fits : d.totalBytes + chunk.length ≤ maxSizeBytes) :
    Even maxSizeBytes (d.extend chunk) := by
  obtain ⟨buffered, total, _⟩ := even
  refine ⟨?_, ?_, ?_⟩
  · rw [Streaming.extend, List.length_append, buffered]
  · rw [Streaming.extend, total]
  · rw [Streaming.extend, ← total]
    exact fits

theorem Sound.even {maxSizeBytes : Nat} {phase : DownloadPhase} (sound : Sound maxSizeBytes phase)
    {d : Streaming} (has : phase.locals = some d) : Even maxSizeBytes d := by
  cases phase with
  | requesting => cases has
  | streaming e =>
      cases has
      exact sound
  | acquiring e chunk =>
      cases has
      exact sound.1
  | granted e chunk =>
      cases has
      exact sound.1
  | unwinding e result =>
      cases has
      exact sound
  | ended result => cases has

/-- The permits add up, and every download is sound. -/
structure Accounted (permits : Nat) (s : DownloaderState) : Prop where
  total : s.available + s.guardUnits + s.unforgotten = permits
  sound : ∀ phase ∈ s.downloads, Sound s.maxSizeBytes phase

theorem accounted_init (maxSizeBytes permits : Nat) :
    (init maxSizeBytes permits).Accounted permits where
  total := rfl
  sound := fun _ member => absurd member List.not_mem_nil

variable {permits : Nat} {s t : DownloaderState}

/-- A download moves, and the semaphore gets what the download no longer holds. -/
theorem Accounted.move {i available : Nat} {before behind : DownloadPhase}
    (acc : s.Accounted permits) (found : s.downloads[i]? = some before)
    (sound : Sound s.maxSizeBytes before → Sound s.maxSizeBytes behind)
    (balance : available + behind.units + behind.unforgotten =
      s.available + before.units + before.unforgotten) :
    ({ s.move i behind with available := available } : DownloaderState).Accounted permits := by
  have units : (s.move i behind).guardUnits + before.units = s.guardUnits + behind.units :=
    sum_set DownloadPhase.units found behind
  have unforgotten : (s.move i behind).unforgotten + before.unforgotten =
      s.unforgotten + behind.unforgotten := sum_set DownloadPhase.unforgotten found behind
  have total := acc.total
  refine ⟨?_, forall_mem_set acc.sound (sound (acc.sound _ (List.mem_of_getElem? found)))⟩
  change available + (s.move i behind).guardUnits + (s.move i behind).unforgotten = permits
  omega

/-- Every step keeps the account. -/
theorem Accounted.step {a : DownloadAction} (acc : s.Accounted permits) (short : ShortChunk a)
    (step : downloadStep s a = some t) : t.Accounted permits := by
  cases a with
  | start =>
      cases step
      refine ⟨?_, forall_mem_concat acc.sound True.intro⟩
      rw [guardUnits, unforgotten, sum_concat, sum_concat]
      exact acc.total
  | headers i contentLength =>
      simp only [downloadStep] at step
      split at step
      next found =>
          cases step
          have quiet : (s.behindHeaders contentLength).units = 0 ∧
              (s.behindHeaders contentLength).unforgotten = 0 ∧
              Sound s.maxSizeBytes (s.behindHeaders contentLength) := by
            have streams : Sound s.maxSizeBytes (.streaming .init) := ⟨rfl, rfl, Nat.zero_le _⟩
            cases contentLength with
            | none => exact ⟨rfl, rfl, streams⟩
            | some length =>
                rw [behindHeaders]
                split
                · exact ⟨rfl, rfl, True.intro⟩
                · exact ⟨rfl, rfl, streams⟩
          refine acc.move found (fun _ => quiet.2.2) ?_
          rw [quiet.1, quiet.2.1]
          rfl
      next => cases step
  | requestFails i error =>
      simp only [downloadStep] at step
      split at step
      next found =>
          cases step
          exact acc.move found (fun _ => True.intro) rfl
      next => cases step
  | chunk i bytes =>
      simp only [downloadStep] at step
      split at step
      next d found =>
          cases step
          rw [behindChunk]
          split
          next => exact acc.move found id rfl
          next within =>
              have fits : d.totalBytes + bytes.length ≤ s.maxSizeBytes := Nat.le_of_not_lt within
              split
              next =>
                  exact acc.move found (fun even => ⟨even, Nat.mod_eq_of_lt short, fits⟩) rfl
              next none =>
                  refine acc.move found (fun even => even.extend fits) ?_
                  have empty : bytes.length = 0 := Nat.eq_zero_of_not_pos none
                  change s.available + (d.units + bytes.length) + 0 = s.available + d.units + 0
                  rw [empty]
                  rfl
      next => cases step
  | streamEnds i =>
      simp only [downloadStep] at step
      split at step
      next d found =>
          cases step
          exact acc.move found id rfl
      next => cases step
  | streamFails i error =>
      simp only [downloadStep] at step
      split at step
      next d found =>
          cases step
          exact acc.move found id rfl
      next => cases step
  | acquire i =>
      simp only [downloadStep] at step
      split at step
      next d chunk found =>
          split at step
          next enough =>
              cases step
              refine acc.move found id ?_
              change s.available - acquireMany chunk + d.units + acquireMany chunk =
                s.available + d.units + 0
              omega
          next => cases step
      next => cases step
  | proceed i =>
      simp only [downloadStep] at step
      split at step
      next d chunk found =>
          cases step
          have sound : Sound s.maxSizeBytes (.granted d chunk) :=
            acc.sound _ (List.mem_of_getElem? found)
          refine acc.move found (fun sound => sound.1.extend sound.2.2) ?_
          change s.available + (d.units + chunk.length) + 0 =
            s.available + d.units + acquireMany chunk
          rw [sound.2.1]
          omega
      next => cases step
  | acquireTimesOut i =>
      simp only [downloadStep] at step
      split at step
      next d chunk found =>
          cases step
          exact acc.move found And.left rfl
      next => cases step
  | drop i =>
      simp only [downloadStep] at step
      split at step
      next found =>
          cases step
          exact acc.move found (fun _ => True.intro) rfl
      next d found =>
          cases step
          exact acc.move found id rfl
      next d chunk found =>
          cases step
          exact acc.move found And.left rfl
      next d chunk found =>
          cases step
          refine acc.move found And.left ?_
          change s.available + acquireMany chunk + d.units + 0 =
            s.available + d.units + acquireMany chunk
          omega
      next => cases step
  | unwind i =>
      simp only [downloadStep] at step
      split at step
      next d result found =>
          cases step
          refine acc.move found (fun _ => True.intro) ?_
          change s.available + d.units + 0 + 0 = s.available + d.units + 0
          rfl
      next => cases step

theorem Accounted.conserves (acc : s.Accounted permits) : s.Conserves permits := by
  have total := acc.total
  refine ⟨total, fun ended => ?_, fun phase member d has => ?_, ?_⟩
  · have idle (share : DownloadPhase → Nat) (none : ∀ result, share (.ended result) = 0) :
        (s.downloads.map share).sum = 0 := by
      have below : (s.downloads.map share).sum ≤ (s.downloads.map fun _ => 0).sum := by
        apply sum_le_sum
        intro phase member
        obtain ⟨result, rfl⟩ := ended phase member
        exact (none result).le
      simpa using below
    have units : s.guardUnits = 0 := idle _ fun _ => rfl
    have unforgotten : s.unforgotten = 0 := idle _ fun _ => rfl
    omega
  · obtain ⟨buffered, _, within⟩ := (acc.sound phase member).even has
    exact ⟨buffered, buffered.le.trans within⟩
  · have below : s.bufferedBytes ≤ s.guardUnits := by
      apply sum_le_sum
      intro phase member
      rw [DownloadPhase.bufferedBytes, DownloadPhase.units]
      cases has : phase.locals with
      | none => exact le_refl _
      | some d => exact ((acc.sound phase member).even has).1.le
    omega

/-- Permits are conserved in every run whose chunks are shorter than 2^32 bytes. -/
theorem conserves_of_execute (maxSizeBytes permits : Nat) {as : List DownloadAction}
    (short : ∀ a ∈ as, ShortChunk a) {t : DownloaderState}
    (run : execute downloadStep (init maxSizeBytes permits) as = some t) : t.Conserves permits := by
  have along : Along downloadStep (fun _ a => ShortChunk a) (init maxSizeBytes permits) as :=
    .of_forall (fun a member _ => short a member) _
  have acc : t.Accounted permits :=
    execute_invariant_along (I := fun s => s.Accounted permits)
      (fun _ _ _ acc short step => acc.step short step) run along
      (accounted_init maxSizeBytes permits)
  exact acc.conserves

/-- Two downloads of which one is dropped between its acquisition and the `forget`. -/
def droppedWithPermit : List DownloadAction :=
  [.start, .start, .headers 0 (some 3), .headers 1 none, .chunk 0 [1, 2, 3], .chunk 1 [4, 5],
    .acquire 0, .acquire 1, .proceed 0, .drop 1, .streamEnds 0]

theorem conserves_droppedWithPermit :
    (⟨10, 7, [.unwinding ⟨[1, 2, 3], 3, 3⟩ (some (.ok [1, 2, 3])), .unwinding .init none]⟩ :
      DownloaderState).Conserves 10 :=
  @conserves_of_execute 10 10 droppedWithPermit
    (by simp [droppedWithPermit, ShortChunk]) _ rfl

end DownloaderState

end Webfang.Downloader
