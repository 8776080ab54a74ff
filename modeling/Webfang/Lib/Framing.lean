import Mathlib.Data.List.Basic
import Mathlib.Data.UInt

/-!
# Length-prefixed frames

A frame is the length of its payload in four bytes, the least significant first, the payload,
and a terminator.  A reader takes the frames from the front: it stops where a length or a
payload is cut short, and does not miss a terminator.
-/

namespace Framing

/-- The four bytes of a length. -/
def lengthBytes (n : Nat) : List UInt8 :=
  [.ofNat n, .ofNat (n / 256), .ofNat (n / 65536), .ofNat (n / 16777216)]

/-- The number its bytes stand for, the least significant first. -/
def ofBytes (bytes : List UInt8) : Nat := bytes.foldr (fun b n => b.toNat + 256 * n) 0

@[simp] theorem length_lengthBytes (n : Nat) : (lengthBytes n).length = 4 := rfl

/-- Four bytes hold every length below 2^32. -/
theorem ofBytes_lengthBytes {n : Nat} (fits : n < 4294967296) : ofBytes (lengthBytes n) = n := by
  simp only [ofBytes, lengthBytes, List.foldr_cons, List.foldr_nil, UInt8.toNat_ofNat']
  omega

/-- The frame of a payload. -/
def frame (payload : List UInt8) : List UInt8 :=
  lengthBytes payload.length ++ payload ++ [0x0A]

def frames (payloads : List (List UInt8)) : List UInt8 := payloads.flatMap frame

@[simp] theorem length_frame (payload : List UInt8) :
    (frame payload).length = payload.length + 5 := by
  simp only [frame, List.length_append, length_lengthBytes, List.length_singleton]
  omega

@[simp] theorem frames_nil : frames [] = [] := rfl

@[simp] theorem frames_cons (payload : List UInt8) (rest : List (List UInt8)) :
    frames (payload :: rest) = frame payload ++ frames rest := rfl

@[simp] theorem frames_append (first second : List (List UInt8)) :
    frames (first ++ second) = frames first ++ frames second := List.flatMap_append

/-- The first `n` bytes and the rest, or nothing when there are fewer. -/
def readExact (n : Nat) (bytes : List UInt8) : Option (List UInt8 × List UInt8) :=
  if n ≤ bytes.length then some (bytes.take n, bytes.drop n) else none

theorem readExact_append {n : Nat} {bytes : List UInt8} (length : bytes.length = n)
    (rest : List UInt8) : readExact n (bytes ++ rest) = some (bytes, rest) := by
  subst length
  rw [readExact, if_pos (by simp), List.take_left, List.drop_left]

theorem readExact_eq_none {n : Nat} {bytes : List UInt8} :
    readExact n bytes = none ↔ bytes.length < n := by
  unfold readExact
  split <;> simp <;> omega

/-- The payload at the front and what is behind its terminator. -/
def readFrame (bytes : List UInt8) : Option (List UInt8 × List UInt8) :=
  (readExact 4 bytes).bind fun head =>
    (readExact (ofBytes head.1) head.2).map fun body => (body.1, body.2.drop 1)

theorem readFrame_append {payload : List UInt8} (fits : payload.length < 4294967296)
    (rest : List UInt8) : readFrame (frame payload ++ rest) = some (payload, rest) := by
  rw [readFrame, frame, List.append_assoc, List.append_assoc,
    readExact_append (length_lengthBytes _), Option.bind_some, ofBytes_lengthBytes fits,
    readExact_append rfl]
  rfl

/-- No frame is read from one that is cut before the end of its payload. -/
theorem readFrame_take {payload : List UInt8} (fits : payload.length < 4294967296) {n : Nat}
    (cut : n < payload.length + 4) : readFrame ((frame payload).take n) = none := by
  rw [readFrame, frame, List.append_assoc]
  rcases Nat.lt_or_ge n 4 with short | long
  · rw [readExact_eq_none.mpr]
    · rfl
    · rw [List.length_take]
      omega
  · obtain ⟨m, rfl⟩ := Nat.exists_eq_add_of_le long
    have head : (lengthBytes payload.length ++ (payload ++ [0x0A])).take (4 + m) =
        lengthBytes payload.length ++ (payload ++ [0x0A]).take m := by
      rw [← length_lengthBytes payload.length]
      exact List.take_length_add_append m
    rw [head, readExact_append (length_lengthBytes _), Option.bind_some,
      ofBytes_lengthBytes fits, readExact_eq_none.mpr]
    · rfl
    · rw [List.length_take]
      omega

/-- The frames from the front on, each with its position, as far as they can be read. -/
def scanFuel : Nat → Nat → List UInt8 → List (Nat × List UInt8)
  | 0, _, _ => []
  | fuel + 1, position, bytes =>
      match readFrame bytes with
      | none => []
      | some (payload, rest) =>
          (position, payload) :: scanFuel fuel (position + payload.length + 5) rest

def scan (bytes : List UInt8) : List (Nat × List UInt8) := scanFuel bytes.length 0 bytes

/-- The payloads with the positions of their frames. -/
def positions : Nat → List (List UInt8) → List (Nat × List UInt8)
  | _, [] => []
  | position, payload :: rest =>
      (position, payload) :: positions (position + payload.length + 5) rest

theorem positions_append (position : Nat) (first second : List (List UInt8)) :
    positions position (first ++ second) =
      positions position first ++ positions (position + (frames first).length) second := by
  induction first generalizing position with
  | nil => rfl
  | cons payload rest ih =>
      rw [List.cons_append, positions, positions, ih, List.cons_append, frames_cons,
        List.length_append, length_frame]
      rw [show position + payload.length + 5 + (frames rest).length =
        position + (payload.length + 5 + (frames rest).length) by omega]

theorem scanFuel_frames {payloads : List (List UInt8)}
    (fits : ∀ payload ∈ payloads, payload.length < 4294967296) {tail : List UInt8}
    (torn : readFrame tail = none) {fuel : Nat} (enough : payloads.length ≤ fuel) (position : Nat) :
    scanFuel fuel position (frames payloads ++ tail) = positions position payloads := by
  induction payloads generalizing fuel position with
  | nil =>
      cases fuel with
      | zero => rfl
      | succ fuel => rw [frames_nil, List.nil_append, scanFuel, torn]; rfl
  | cons payload rest ih =>
      obtain ⟨here, later⟩ := List.forall_mem_cons.mp fits
      cases fuel with
      | zero => cases enough
      | succ fuel =>
          rw [frames_cons, List.append_assoc, scanFuel, readFrame_append here]
          dsimp only
          rw [ih later (Nat.le_of_succ_le_succ enough), positions]

theorem length_le_frames (payloads : List (List UInt8)) :
    payloads.length ≤ (frames payloads).length := by
  induction payloads with
  | nil => exact Nat.le_refl _
  | cons payload rest ih =>
      rw [frames_cons, List.length_append, length_frame, List.length_cons]
      omega

/-- A scan of whole frames and a tail no frame can be read from finds the frames. -/
theorem scan_frames {payloads : List (List UInt8)}
    (fits : ∀ payload ∈ payloads, payload.length < 4294967296) {tail : List UInt8}
    (torn : readFrame tail = none) :
    scan (frames payloads ++ tail) = positions 0 payloads := by
  refine scanFuel_frames fits torn ?_ 0
  have := length_le_frames payloads
  rw [List.length_append]
  omega

end Framing
