import Webfang.Lib.Framing

/-!
# Embeddings in the database

`infrastructure/persistence/sqlite.rs`: the column `embedding_vector` holds the numbers of an
embedding in four bytes each, the least significant first.
-/

namespace Webfang

open Framing

/-- `f32_slice_to_bytes`, of the bits of each number. -/
def f32SliceToBytes (v : List UInt32) : List UInt8 := v.flatMap fun f => lengthBytes f.toNat

/-- The groups of four bytes, each as the bits of a number. -/
def f32Chunks : List UInt8 → List UInt32
  | a :: b :: c :: d :: rest => .ofNat (ofBytes [a, b, c, d]) :: f32Chunks rest
  | _ => []

/-- `bytes_to_f32_vec`. -/
def bytesToF32Vec (b : List UInt8) : Except String (List UInt32) :=
  if b.length % 4 = 0 then .ok (f32Chunks b)
  else .error s!"vector BLOB corrupto: longitud {b.length} no es múltiplo de 4"

theorem length_f32SliceToBytes (v : List UInt32) : (f32SliceToBytes v).length = v.length * 4 := by
  induction v with
  | nil => rfl
  | cons f v ih =>
      rw [f32SliceToBytes, List.flatMap_cons, List.length_append, length_lengthBytes,
        List.length_cons, ← f32SliceToBytes, ih]
      omega

theorem f32Chunks_f32SliceToBytes (v : List UInt32) : f32Chunks (f32SliceToBytes v) = v := by
  induction v with
  | nil => rfl
  | cons f v ih =>
      have bits : ofBytes (lengthBytes f.toNat) = f.toNat := ofBytes_lengthBytes f.toNat_lt
      change UInt32.ofNat (ofBytes (lengthBytes f.toNat)) :: f32Chunks (f32SliceToBytes v) = _
      rw [bits, UInt32.ofNat_toNat, ih]

/-- Numbers are read back from their bytes. -/
theorem bytesToF32Vec_f32SliceToBytes (v : List UInt32) :
    bytesToF32Vec (f32SliceToBytes v) = .ok v := by
  rw [bytesToF32Vec, if_pos (by rw [length_f32SliceToBytes, Nat.mul_mod_left]),
    f32Chunks_f32SliceToBytes]

end Webfang
