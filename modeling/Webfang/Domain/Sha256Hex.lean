import Mathlib.Data.List.Basic
import Std.Data.String.ToNat

/-!
# SHA-256 digests

`domain/value_objects.rs`: a digest in its wire form, 64 hexadecimal digits in lower case.
-/

namespace Webfang

/-- `b.is_ascii_digit() || (b'a'..=b'f').contains(&b)`. -/
def isLowerHex (c : Char) : Bool :=
  ('0' ≤ c && c ≤ '9') || ('a' ≤ c && c ≤ 'f')

/-- `Sha256Hex`. -/
structure Sha256Hex where
  val : String
  length : val.length = 64
  hex : val.toList.all isLowerHex = true

namespace Sha256Hex

@[ext]
theorem ext {h k : Sha256Hex} (same : h.val = k.val) : h = k := by
  cases h
  cases k
  congr

instance : DecidableEq Sha256Hex := fun h k =>
  decidable_of_iff (h.val = k.val) ⟨ext, congrArg val⟩

/-- `parse_sha256_hex`. -/
def parse (s : String) : Except String Sha256Hex :=
  if valid : s.length = 64 ∧ s.toList.all isLowerHex = true then
    .ok ⟨s, valid.1, valid.2⟩
  else
    .error <| "sha256 hex inválido: se esperan exactamente 64 caracteres hexadecimales " ++
      "en minúscula"

/-- A digest is read back from its wire form. -/
theorem parse_val (h : Sha256Hex) : parse h.val = .ok h := dif_pos ⟨h.length, h.hex⟩

end Sha256Hex

/-- The id of a chunk, `{hash}-{idx}`. -/
def chunkId (hash : String) (idx : Nat) : String := hash ++ "-" ++ idx.repr

/-- The id of a chunk tells the digest and the index. -/
theorem chunkId_inj {h k : Sha256Hex} {i j : Nat} :
    chunkId h.val i = chunkId k.val j ↔ h = k ∧ i = j := by
  refine ⟨fun same => ?_, fun ⟨digest, idx⟩ => by rw [digest, idx]⟩
  have lists := congrArg String.toList same
  rw [chunkId, chunkId, String.toList_append, String.toList_append, String.toList_append,
    String.toList_append, List.append_assoc, List.append_assoc] at lists
  have lengths : h.val.toList.length = k.val.toList.length := by
    rw [String.length_toList, String.length_toList, h.length, k.length]
  obtain ⟨digest, rest⟩ := List.append_inj lists lengths
  have idx := (List.append_inj rest rfl).2
  exact ⟨Sha256Hex.ext (String.toList_inj.mp digest), Nat.repr_inj.mp (String.toList_inj.mp idx)⟩

end Webfang
