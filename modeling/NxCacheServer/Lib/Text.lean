/-!
# Characters and bytes of a string

A string is measured in characters (`length`) or in the bytes of its UTF-8
(`utf8ByteSize`). The bytes are never fewer, and they are as many exactly when
every character is ASCII. `Matches` is the language of a character class
repeated a bounded number of times, `[class]{least,most}` as a regular
expression.
-/

namespace NxCacheServer.Lib

/-- Every character of `s` is ASCII. -/
def Ascii (s : String) : Prop := ∀ c ∈ s.toList, c.toNat < 128

instance (s : String) : Decidable (Ascii s) :=
  decidable_of_iff (s.toList.all fun c => c.toNat < 128) (by simp [Ascii])

/-- The characters of one byte are the ASCII ones. -/
theorem utf8Size_eq_one_iff {c : Char} : c.utf8Size = 1 ↔ c.toNat < 128 := by
  rw [Char.utf8Size_eq_one_iff, UInt32.le_iff_toNat_le, Char.toNat]
  exact Nat.lt_succ_iff.symm

/-- A character takes at least one byte. -/
theorem length_le_utf8ByteSize (s : String) : s.length ≤ s.utf8ByteSize := by
  induction s using String.push_induction with
  | empty => exact Nat.le_refl _
  | push s c ih =>
    rw [String.length_push, String.utf8ByteSize_push]
    exact Nat.add_le_add ih c.utf8Size_pos

/-- Only an ASCII character takes no more than one. -/
theorem utf8ByteSize_eq_length_iff {s : String} : s.utf8ByteSize = s.length ↔ Ascii s := by
  induction s using String.push_induction with
  | empty => simp [Ascii]
  | push s c ih =>
    have hle := length_le_utf8ByteSize s
    have hpos := c.utf8Size_pos
    have hpush : Ascii (s.push c) ↔ Ascii s ∧ c.toNat < 128 := by
      simp [Ascii, or_imp, forall_and]
    rw [hpush, ← ih, ← utf8Size_eq_one_iff, String.length_push, String.utf8ByteSize_push]
    omega

/-- `s` matches `[p]{least,most}`. -/
def Matches (p : Char → Bool) (least most : Nat) (s : String) : Prop :=
  (∀ c ∈ s.toList, p c = true) ∧ least ≤ s.length ∧ s.length ≤ most

instance (p : Char → Bool) (least most : Nat) (s : String) : Decidable (Matches p least most s) :=
  decidable_of_iff (s.toList.all p = true ∧ least ≤ s.length ∧ s.length ≤ most)
    (by rw [List.all_eq_true, Matches])

end NxCacheServer.Lib
