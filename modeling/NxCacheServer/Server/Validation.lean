import NxCacheServer.Lib.Text
import NxCacheServer.Server.Error

/-!
# Key validation

`src/server/validation.rs`. `char::is_alphanumeric` is a table of the Rust
standard library over all of Unicode; `RustChar` stands for it, so that what
holds of every key holds whatever the table says.

Two grammars are compared with the validator. `AcceptedKey` is its own: letters
and numbers of any script, counted in bytes. `DocumentedKey` is the one of the
README, `[A-Za-z0-9_-]{1,128}`, and turns out to be the ASCII part of the
former (`documentedKey_iff`).
-/

namespace NxCacheServer.Server

open NxCacheServer.Domain NxCacheServer.Lib

/-- `char::is_alphanumeric`. -/
class RustChar where
  isAlphanumeric : Char → Bool

/-- The table on ASCII, where it is `Char.isAlphanum`. -/
abbrev asciiChars : RustChar := ⟨Char.isAlphanum⟩

/-- On ASCII the library's table has the letters and the digits. -/
def RustChar.OnAscii [RustChar] : Prop :=
  ∀ c : Char, c.toNat < 128 → RustChar.isAlphanumeric c = c.isAlphanum

/-- The table on Latin-1, the first 256 code points. -/
abbrev latinChars : RustChar where
  isAlphanumeric c := c.isAlphanum ||
    c.toNat ∈ [0xAA, 0xB2, 0xB3, 0xB5, 0xB9, 0xBA, 0xBC, 0xBD, 0xBE] ||
    -- from here on letters, apart from the signs of multiplication and division
    (0xC0 ≤ c.toNat && c.toNat ≤ 0xFF && c.toNat != 0xD7 && c.toNat != 0xF7)

/-- This table agrees with the standard one on ASCII. -/
theorem latinChars_onAscii : @RustChar.OnAscii latinChars := by
  intro c hc
  have hlist : c.toNat ∉ [0xAA, 0xB2, 0xB3, 0xB5, 0xB9, 0xBA, 0xBC, 0xBD, 0xBE] := by
    simp only [List.mem_cons, List.not_mem_nil, or_false]
    omega
  have hletters : ¬ 0xC0 ≤ c.toNat := by omega
  show (c.isAlphanum || _ || _) = c.isAlphanum
  simp [hlist, hletters]

/-! ## The grammar of the README -/

/-- The class `[A-Za-z0-9_-]`. -/
def documentedChar (c : Char) : Bool :=
  ('A' ≤ c && c ≤ 'Z') || ('a' ≤ c && c ≤ 'z') || ('0' ≤ c && c ≤ '9') || c == '_' || c == '-'

/-- "Hash not `[A-Za-z0-9_-]{1,128}`" is what the README answers 400. -/
def DocumentedKey (hash : Hash) : Prop := Matches documentedChar 1 128 hash

instance (hash : Hash) : Decidable (DocumentedKey hash) :=
  inferInstanceAs (Decidable (Matches documentedChar 1 128 hash))

theorem isAlphanum_eq (c : Char) : c.isAlphanum =
    (('A' ≤ c && c ≤ 'Z') || ('a' ≤ c && c ≤ 'z') || ('0' ≤ c && c ≤ '9')) := by
  -- the other two classes are already conjunctions of Booleans
  have hupper : c.isUpper = ('A' ≤ c && c ≤ 'Z') := Bool.decide_and _ _
  rw [← hupper]
  rfl

theorem documentedChar_iff {c : Char} :
    documentedChar c = true ↔ c.isAlphanum = true ∨ c = '-' ∨ c = '_' := by
  rw [documentedChar, ← isAlphanum_eq, Bool.or_eq_true, Bool.or_eq_true, beq_iff_eq, beq_iff_eq,
    or_right_comm, or_assoc]

theorem ascii_of_documentedChar {c : Char} (h : documentedChar c = true) : c.toNat < 128 := by
  have hbelow : ∀ {last : Char}, last.toNat < 128 → c ≤ last → c.toNat < 128 :=
    fun hlast hle => Nat.lt_of_le_of_lt hle hlast
  simp only [documentedChar, Bool.or_eq_true, Bool.and_eq_true, decide_eq_true_eq, beq_iff_eq] at h
  rcases h with (((h | h) | h) | rfl) | rfl
  · exact hbelow (by decide) h.2
  · exact hbelow (by decide) h.2
  · exact hbelow (by decide) h.2
  · decide
  · decide

/-! ## The validator -/

variable [RustChar]

/-- `validate_hash`: at most 128 bytes, not empty, alphanumeric characters, `-` and
`_`. -/
def validateHash (hash : Hash) : Except ServerError Unit :=
  if hash.isEmpty then .error .badRequest
  else if !hash.toList.all fun c => RustChar.isAlphanumeric c || c == '-' || c == '_' then
    .error .badRequest
  else if hash.utf8ByteSize > 128 then .error .badRequest
  else .ok ()

/-- The keys `validate_hash` accepts. -/
def ValidHash (hash : Hash) : Prop := validateHash hash = .ok ()

instance (hash : Hash) : Decidable (ValidHash hash) :=
  match h : validateHash hash with
  | .ok () => isTrue h
  | .error _ => isFalse fun hv => by rw [ValidHash, h] at hv; cases hv

/-- Whatever is wrong with a key, it is a bad request. -/
theorem validateHash_invalid {hash : Hash} (hinvalid : ¬ ValidHash hash) :
    validateHash hash = .error .badRequest := by
  unfold ValidHash at hinvalid
  unfold validateHash at hinvalid ⊢
  split
  next => rfl
  next hempty =>
    rw [if_neg hempty] at hinvalid
    split
    next => rfl
    next hchars =>
      rw [if_neg hchars] at hinvalid
      split
      next => rfl
      next hsize =>
        rw [if_neg hsize] at hinvalid
        exact absurd rfl hinvalid

/-- One to 128 bytes of UTF-8 that encode letters and numbers of any script, `-`
and `_`. -/
structure AcceptedKey (hash : Hash) : Prop where
  nonempty : hash ≠ ""
  chars : ∀ c ∈ hash.toList, RustChar.isAlphanumeric c = true ∨ c = '-' ∨ c = '_'
  size : hash.utf8ByteSize ≤ 128

theorem validHash_iff {hash : Hash} : ValidHash hash ↔ AcceptedKey hash := by
  have hchars : ¬ (!hash.toList.all fun c =>
      RustChar.isAlphanumeric c || c == '-' || c == '_') = true ↔
        ∀ c ∈ hash.toList, RustChar.isAlphanumeric c = true ∨ c = '-' ∨ c = '_' := by
    rw [Bool.not_eq_true, Bool.not_eq_false', List.all_eq_true]
    simp [or_assoc]
  constructor
  · intro h
    unfold ValidHash validateHash at h
    split at h
    next => cases h
    next hempty =>
      split at h
      next => cases h
      next hall =>
        split at h
        next => cases h
        next hsize =>
          exact ⟨fun heq => hempty (String.isEmpty_iff.mpr heq), hchars.mp hall,
            Nat.le_of_not_lt hsize⟩
  · intro h
    have hempty : ¬ hash.isEmpty = true := fun heq => h.nonempty (String.isEmpty_iff.mp heq)
    rw [ValidHash, validateHash, if_neg hempty, if_neg (hchars.mpr h.chars),
      if_neg (Nat.not_lt.mpr h.size)]

/-! ## The two grammars -/

/-- **The README's grammar is the ASCII part of the validator's.** Both count the
same there, characters or bytes. -/
theorem documentedKey_iff (hascii : RustChar.OnAscii) {hash : Hash} :
    DocumentedKey hash ↔ AcceptedKey hash ∧ Ascii hash := by
  constructor
  · intro h
    obtain ⟨hchars, hleast, hmost⟩ := h
    have hall : Ascii hash := fun c hc => ascii_of_documentedChar (hchars c hc)
    refine ⟨⟨?_, ?_, ?_⟩, hall⟩
    · intro heq
      rw [heq] at hleast
      exact absurd hleast (by decide)
    · intro c hc
      rw [hascii c (hall c hc)]
      exact documentedChar_iff.mp (hchars c hc)
    -- 128 characters are 128 bytes here
    · rw [utf8ByteSize_eq_length_iff.mpr hall]
      exact hmost
  · intro h
    obtain ⟨haccepted, hall⟩ := h
    refine ⟨?_, ?_, Nat.le_trans (length_le_utf8ByteSize hash) haccepted.size⟩
    · intro c hc
      rw [documentedChar_iff, ← hascii c (hall c hc)]
      exact haccepted.chars c hc
    · rw [Nat.one_le_iff_ne_zero, ne_eq, String.length_eq_zero_iff]
      exact haccepted.nonempty

namespace AcceptedKey

variable {hash : Hash}

/-- In characters the bound is the same. -/
theorem length_le (h : AcceptedKey hash) : hash.length ≤ 128 :=
  Nat.le_trans (length_le_utf8ByteSize hash) h.size

/-- The only ASCII characters of a key are those of the README. -/
theorem not_mem (h : AcceptedKey hash) (hascii : RustChar.OnAscii) {c : Char} (hc : c.toNat < 128)
    (hno : documentedChar c = false) : c ∉ hash.toList := by
  intro hmem
  have hchar := h.chars c hmem
  rw [hascii c hc, ← documentedChar_iff, hno] at hchar
  cases hchar

/-- The self-probe's object is no client's. -/
theorem ne_probeKey (h : AcceptedKey hash) (hascii : RustChar.OnAscii) : hash ≠ probeKey := by
  intro heq
  have hdot : '.' ∉ hash.toList := h.not_mem hascii (by decide) (by decide)
  rw [heq] at hdot
  exact hdot (by decide)

end AcceptedKey

end NxCacheServer.Server
