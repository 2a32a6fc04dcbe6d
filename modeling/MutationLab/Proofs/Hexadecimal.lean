import Mathlib.Data.List.Basic
import Mathlib.Data.String.Basic
import MutationLab.Text.Hex

/-! # Hexadecimal digits tell numbers apart

A digit has its value back (`Text.hexValue?_hexDigit`), so words with the same sixteen digits are
the same (`Text.hexWord_injective`). The digits are plain characters of one byte each. -/

namespace MutationLab.Text

/-- A digit has its value. -/
theorem hexValue?_hexDigit {value : Nat} (h : value < 16) :
    hexValue? (hexDigit value) = some value :=
  (by decide : ∀ value < 16, hexValue? (hexDigit value) = some value) value h

/-- Every digit is one of sixteen characters. -/
theorem exists_of_mem_hexDigits {width n : Nat} {c : Char} (h : c ∈ hexDigits width n) :
    ∃ value < 16, c = hexDigit value := by
  induction width generalizing n with
  | zero => exact nomatch h
  | succ width ih =>
    rw [hexDigits, List.mem_append, List.mem_singleton] at h
    obtain h | rfl := h
    · exact ih h
    · exact ⟨n % 16, Nat.mod_lt n (by decide), rfl⟩

/-- Digits are neither a slash nor the zero character, and they take one byte. -/
theorem plain_of_mem_hexDigits {width n : Nat} {c : Char} (h : c ∈ hexDigits width n) :
    c ≠ '/' ∧ c ≠ '\x00' ∧ c.utf8Size = 1 := by
  obtain ⟨value, hvalue, rfl⟩ := exists_of_mem_hexDigits h
  exact (by decide : ∀ value < 16, hexDigit value ≠ '/' ∧ hexDigit value ≠ '\x00' ∧
    (hexDigit value).utf8Size = 1) value hvalue

/-- Numbers that fit into a width and have the same digits are the same. -/
theorem eq_of_hexDigits_eq {width n m : Nat} (hn : n < 16 ^ width) (hm : m < 16 ^ width)
    (h : hexDigits width n = hexDigits width m) : n = m := by
  induction width generalizing n m with
  | zero => omega
  | succ width ih =>
    obtain ⟨hfront, hlast⟩ := List.append_inj' h rfl
    have hdigit := congrArg hexValue? (List.singleton_inj.mp hlast)
    rw [hexValue?_hexDigit (Nat.mod_lt n (by decide)),
      hexValue?_hexDigit (Nat.mod_lt m (by decide)), Option.some.injEq] at hdigit
    rw [Nat.pow_succ] at hn hm
    have hquotient := ih (by omega) (by omega) hfront
    omega

/-- Words with the same digits are the same. -/
theorem hexWord_injective {word other : UInt64} (h : hexWord word = hexWord other) :
    word = other :=
  UInt64.toNat_inj.mp
    (eq_of_hexDigits_eq word.toNat_lt other.toNat_lt (String.ofList_inj.mp h))

/-- A word has sixteen digits. -/
theorem length_hexWord (word : UInt64) : (hexWord word).toList.length = 16 := by
  rw [hexWord, String.toList_ofList, length_hexDigits]

/-- The digits of a word have no meaning in paths. -/
theorem plain_of_mem_hexWord {word : UInt64} {c : Char} (h : c ∈ (hexWord word).toList) :
    c ≠ '/' ∧ c ≠ '\x00' := by
  rw [hexWord, String.toList_ofList] at h
  obtain ⟨hslash, hzero, -⟩ := plain_of_mem_hexDigits h
  exact ⟨hslash, hzero⟩

/-- Characters of one byte each take as many bytes as there are characters. -/
theorem utf8Len_eq_length {cs : List Char} (h : ∀ c ∈ cs, c.utf8Size = 1) :
    String.utf8Len cs = cs.length := by
  induction cs with
  | nil => rfl
  | cons c cs ih =>
    rw [String.utf8Len_cons, h c List.mem_cons_self,
      ih fun d hd => h d (List.mem_cons_of_mem _ hd), List.length_cons]

/-- The digits of a word take sixteen bytes. -/
theorem utf8ByteSize_hexWord (word : UInt64) : (hexWord word).utf8ByteSize = 16 := by
  rw [hexWord, String.utf8ByteSize_ofList,
    utf8Len_eq_length fun c hc => (plain_of_mem_hexDigits hc).2.2, length_hexDigits]

end MutationLab.Text
