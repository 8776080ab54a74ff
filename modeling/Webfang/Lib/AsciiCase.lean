import Mathlib.Data.List.Basic

/-!
# The case of ASCII letters

In lower case a text keeps every character but the upper-case letters, and so it has just the marks
and the digits that it had, and is ASCII just when it was.
-/

namespace AsciiCase

/-- All of a text is ASCII. -/
def Ascii (text : List Char) : Prop := ∀ c ∈ text, c.toNat < 128

variable {c d : Char} {text : List Char}

theorem toNat_of_isLower (letter : c.isLower = true) : 97 ≤ c.toNat ∧ c.toNat ≤ 122 := by
  obtain ⟨low, high⟩ := Bool.and_eq_true_iff.mp letter
  exact ⟨UInt32.le_iff_toNat_le.mp (of_decide_eq_true low),
    UInt32.le_iff_toNat_le.mp (of_decide_eq_true high)⟩

/-- A letter is in one of the two ranges. -/
theorem toNat_of_isAlpha (letter : c.isAlpha = true) :
    65 ≤ c.toNat ∧ c.toNat ≤ 90 ∨ 97 ≤ c.toNat ∧ c.toNat ≤ 122 := by
  rcases Bool.or_eq_true_iff.mp letter with upper | lower
  · obtain ⟨low, high⟩ := of_decide_eq_true upper
    exact .inl ⟨UInt32.le_iff_toNat_le.mp low, UInt32.le_iff_toNat_le.mp high⟩
  · exact .inr (toNat_of_isLower lower)

theorem toLower_cases (c : Char) :
    c.toLower = c ∨ 65 ≤ c.toNat ∧ c.toNat ≤ 90 ∧ c.toLower.toNat = c.toNat + 32 := by
  by_cases upper : c.val ≥ 'A'.val ∧ c.val ≤ 'Z'.val
  · have low : 65 ≤ c.toNat := UInt32.le_iff_toNat_le.mp upper.1
    have high : c.toNat ≤ 90 := UInt32.le_iff_toNat_le.mp upper.2
    refine .inr ⟨low, high, ?_⟩
    have lowered : c.toLower.val = c.val + 32 := congrArg Char.val (dif_pos upper)
    have code : c.toLower.toNat = (c.toNat + 32) % 2 ^ 32 := by
      calc
        c.toLower.toNat = (c.val + 32).toNat := congrArg UInt32.toNat lowered
        _ = (c.toNat + 32) % 2 ^ 32 := UInt32.toNat_add ..
    omega
  · exact .inl (dif_neg upper)

/-- What is no lower-case letter has come from nothing else. -/
theorem eq_of_toLower_eq (lowered : c.toLower = d) (plain : d.toNat < 97 ∨ 122 < d.toNat) :
    c = d := by
  rcases toLower_cases c with same | ⟨low, high, code⟩
  · exact same.symm.trans lowered
  · rw [lowered] at code
    omega

theorem mem_map_toLower (fixed : d.toLower = d) (plain : d.toNat < 97 ∨ 122 < d.toNat) :
    d ∈ text.map Char.toLower ↔ d ∈ text := by
  refine ⟨fun mem => ?_, fun mem => List.mem_map.mpr ⟨d, mem, fixed⟩⟩
  obtain ⟨c, present, lowered⟩ := List.mem_map.mp mem
  exact eq_of_toLower_eq lowered plain ▸ present

theorem toLower_toLower (c : Char) : c.toLower.toLower = c.toLower := by
  rcases toLower_cases c with same | ⟨low, high, code⟩
  · exact congrArg Char.toLower same
  · rcases toLower_cases c.toLower with same | ⟨-, high', -⟩
    · exact same
    · omega

@[simp]
theorem map_toLower_map_toLower (text : List Char) :
    (text.map Char.toLower).map Char.toLower = text.map Char.toLower := by
  rw [List.map_map]
  exact List.map_congr_left fun c _ => toLower_toLower c

theorem Ascii.of_map_toLower (ascii : Ascii (text.map Char.toLower)) : Ascii text := by
  intro c present
  have lowered := ascii c.toLower (List.mem_map_of_mem present)
  rcases toLower_cases c with same | ⟨low, high, -⟩
  · rwa [same] at lowered
  · omega

theorem Ascii.append {front behind : List Char} (ascii : Ascii front) (ascii' : Ascii behind) :
    Ascii (front ++ behind) := by
  intro c present
  rcases List.mem_append.mp present with present | present
  · exact ascii c present
  · exact ascii' c present

end AsciiCase
