import Mathlib.Algebra.Group.Int.Defs
import Mathlib.Data.List.Basic
import Mathlib.Data.List.TakeDrop
import Mathlib.Tactic.SplitIfs
import MutationLab.Json.Printing
import MutationLab.Json.Reading
import MutationLab.Proofs.Hexadecimal

/-! # Texts and numbers are read back

A quoted text is read back character by character (`Json.readText_quote`). A numeral is read back
where its digits are well-formed (`Numeral.Sound`) and nothing follows that could belong to it
(`Json.Ends`); an integer of 64 bits is then the integer that was written
(`Numeral.integer?_ofInt`). -/

namespace MutationLab

namespace Json

/-- Four digits are read as their number. -/
theorem readUnit_hexDigits {n : Nat} (h : n < 65536) (rest : List Char) :
    readUnit (Text.hexDigits 4 n ++ rest) = .ok (n, rest) := by
  have hvalue : ∀ m, Text.hexValue? (Text.hexDigit (m % 16)) = some (m % 16) := fun m =>
    Text.hexValue?_hexDigit (Nat.mod_lt m (by decide))
  simp only [Text.hexDigits, List.nil_append, List.cons_append, readUnit, hvalue]
  rw [Except.ok.injEq, Prod.mk.injEq]
  exact ⟨by omega, rfl⟩

/-! ## Quoted texts -/

/-- A control character is read from its number. -/
theorem readUnicode_hexDigits {c : Char} (h : c.toNat < 32) (rest : List Char) :
    readUnicode (Text.hexDigits 4 c.toNat ++ rest) = .ok (c, rest) := by
  rw [readUnicode, readUnit_hexDigits (by omega)]
  dsimp only
  rw [if_neg (by omega), if_neg (by omega), Char.ofNat_toNat]

/-- A character behind a backslash is read as what it stands for. -/
theorem readQuoted_backslash {c d : Char} (hc : c ≠ 'u') (h : unescape c = some d) (fuel : Nat)
    (rest : List Char) :
    readQuoted (fuel + 1) ('\\' :: c :: rest) =
      (readQuoted fuel rest).map fun (cs, rest) => (d :: cs, rest) := by
  simp [readQuoted, h]

/-- A character is read back from what stands for it. -/
theorem readQuoted_escape (fuel : Nat) (c : Char) (rest : List Char) :
    readQuoted (fuel + 1) (escape c ++ rest) =
      (readQuoted fuel rest).map fun (cs, rest) => (c :: cs, rest) := by
  -- One case for each character with a short form, one for other control characters, one for
  -- characters that stand for themselves.
  rw [escape]
  split_ifs with hquote hbackslash hnewline hreturn htab hbackspace hfeed hcontrol
  · subst hquote
    exact readQuoted_backslash (by decide) rfl fuel rest
  · subst hbackslash
    exact readQuoted_backslash (by decide) rfl fuel rest
  · subst hnewline
    exact readQuoted_backslash (by decide) rfl fuel rest
  · subst hreturn
    exact readQuoted_backslash (by decide) rfl fuel rest
  · subst htab
    exact readQuoted_backslash (by decide) rfl fuel rest
  · obtain rfl : c = '\x08' := Char.toNat_inj.mp hbackspace
    exact readQuoted_backslash (by decide) rfl fuel rest
  · obtain rfl : c = '\x0c' := Char.toNat_inj.mp hfeed
    exact readQuoted_backslash (by decide) rfl fuel rest
  · simp [readQuoted, readUnicode_hexDigits hcontrol]
  · simp [readQuoted, hquote, hbackslash, hcontrol]

/-- What stands between quotes is read back. -/
theorem readQuoted_flatMap_escape {fuel : Nat} {cs : List Char} (h : cs.length < fuel)
    (rest : List Char) : readQuoted fuel (cs.flatMap escape ++ '"' :: rest) = .ok (cs, rest) := by
  induction cs generalizing fuel with
  | nil =>
    obtain ⟨fuel, rfl⟩ := Nat.exists_eq_succ_of_ne_zero (Nat.ne_of_gt h)
    rfl
  | cons c cs ih =>
    obtain ⟨fuel, rfl⟩ := Nat.exists_eq_succ_of_ne_zero (Nat.ne_zero_of_lt h)
    rw [List.flatMap_cons, List.append_assoc, readQuoted_escape, ih (Nat.lt_of_succ_lt_succ h)]
    rfl

/-- A text is read back behind its opening quote. -/
theorem readText_quote {fuel : Nat} {text : String} (h : text.toList.length < fuel)
    (rest : List Char) :
    readText fuel (text.toList.flatMap escape ++ '"' :: rest) = .ok (some text, rest) := by
  rw [readText, readQuoted_flatMap_escape h]
  dsimp only
  rw [String.ofList_toList]

/-! ## Numbers -/

/-- What follows a number is nothing that could belong to it. -/
def Ends (rest : List Char) : Prop :=
  ∀ c ∈ rest.head?, isDigit c = false ∧ c ≠ '.' ∧ c ≠ 'e' ∧ c ≠ 'E'

/-- Digits that do not stop before the end. -/
structure Digits (ds : List Char) : Prop where
  ne_nil : ds ≠ []
  each : ∀ d ∈ ds, isDigit d = true

end Json

/-- A numeral as a text may have it: there are digits where digits must be, and no zero leads
others. -/
structure Json.Numeral.Sound (n : Numeral) : Prop where
  whole : Digits n.whole
  leading : ∀ ds, n.whole = '0' :: ds → ds = []
  fraction : ∀ d ∈ n.fraction, isDigit d = true
  exponent : ∀ e ∈ n.exponent, Digits e.2

namespace Json

/-- A digit is not what is no digit. -/
theorem ne_of_isDigit {c d : Char} (h : isDigit c = true) (hd : isDigit d = false) : c ≠ d := by
  rintro rfl
  exact Bool.false_ne_true (hd.symm.trans h)

/-- Digits are read as far as they go. -/
theorem readDigits_append {ds rest : List Char} (h : Digits ds)
    (hrest : ∀ c ∈ rest.head?, isDigit c = false) : readDigits (ds ++ rest) = .ok (ds, rest) := by
  have hspan : (ds ++ rest).span isDigit = (ds, rest) := by
    rw [List.span_eq_takeWhile_dropWhile, List.takeWhile_append_of_pos h.each,
      List.dropWhile_append_of_pos h.each]
    cases rest with
    | nil => simp
    | cons c rest =>
      have hc := hrest c rfl
      simp [hc]
  cases ds with
  | nil => exact absurd rfl h.ne_nil
  | cons d ds =>
    rw [List.cons_append] at hspan ⊢
    rw [readDigits, hspan, if_pos (h.each d List.mem_cons_self)]

/-- The whole digits of a numeral are read back. -/
theorem readWhole_append {ds rest : List Char} (h : Digits ds)
    (hleading : ∀ others, ds = '0' :: others → others = [])
    (hrest : ∀ c ∈ rest.head?, isDigit c = false) : readWhole (ds ++ rest) = .ok (ds, rest) := by
  rw [readWhole.eq_def]
  split
  · rename_i c behind heq
    -- A zero in front is the only digit, so that what follows is none.
    cases ds with
    | nil => exact absurd rfl h.ne_nil
    | cons d ds =>
      obtain ⟨rfl, hbehind⟩ := List.cons.inj heq
      obtain rfl := hleading ds rfl
      obtain rfl : rest = c :: behind := hbehind
      rw [hrest c rfl]
      rfl
  · exact readDigits_append h hrest

/-- The fraction of a numeral is read back. -/
theorem readFraction_append {ds rest : List Char} (h : ∀ d ∈ ds, isDigit d = true)
    (hrest : ∀ c ∈ rest.head?, isDigit c = false ∧ c ≠ '.') :
    readFraction ((if ds.isEmpty then [] else '.' :: ds) ++ rest) = .ok (ds, rest) := by
  cases ds with
  | nil =>
    cases rest with
    | nil => rfl
    | cons c rest =>
      have hc := (hrest c rfl).2
      simp [readFraction, hc]
  | cons d ds =>
    have hdigits : Digits (d :: ds) := ⟨List.cons_ne_nil d ds, h⟩
    exact readDigits_append hdigits fun c hc => (hrest c hc).1

/-- The text of an exponent. -/
def exponentText : Option (Bool × List Char) → List Char
  | none => []
  | some (negative, digits) => 'e' :: (if negative then '-' :: digits else digits)

/-- The exponent of a numeral is read back. -/
theorem readExponent_append {exponent : Option (Bool × List Char)} {rest : List Char}
    (h : ∀ e ∈ exponent, Digits e.2) (hrest : Ends rest) :
    readExponent (exponentText exponent ++ rest) = .ok (exponent, rest) := by
  cases exponent with
  | none =>
    cases rest with
    | nil => rfl
    | cons c rest =>
      obtain ⟨-, -, hlower, hupper⟩ := hrest c rfl
      simp [exponentText, readExponent, hlower, hupper]
  | some e =>
    obtain ⟨negative, digits⟩ := e
    have hdigits : Digits digits := h _ rfl
    have hread := readDigits_append hdigits fun c hc => (hrest c hc).1
    cases negative with
    | true => simp [exponentText, readExponent, hread, Except.map]
    | false =>
      cases digits with
      | nil => exact absurd rfl hdigits.ne_nil
      | cons d ds =>
        have hd := hdigits.each d List.mem_cons_self
        -- A digit is taken for no sign.
        have hplus : d ≠ '+' := ne_of_isDigit hd rfl
        have hminus : d ≠ '-' := ne_of_isDigit hd rfl
        rw [List.cons_append] at hread
        simp [exponentText, readExponent, hread, hplus, hminus, Except.map]

/-- What follows the whole digits of a numeral does not begin with a digit. -/
theorem Ends.behind_whole (fraction : List Char) (exponent : Option (Bool × List Char))
    {rest : List Char} (hrest : Ends rest) :
    ∀ c ∈ ((if fraction.isEmpty then [] else '.' :: fraction) ++
      (exponentText exponent ++ rest)).head?, isDigit c = false := by
  cases fraction with
  | cons d ds =>
    rintro c ⟨⟩
    rfl
  | nil =>
    cases exponent with
    | some e =>
      rintro c ⟨⟩
      rfl
    | none => exact fun c hc => (hrest c hc).1

/-- What follows the fraction of a numeral does not begin with a digit or a point. -/
theorem Ends.behind_fraction (exponent : Option (Bool × List Char)) {rest : List Char}
    (hrest : Ends rest) :
    ∀ c ∈ (exponentText exponent ++ rest).head?, isDigit c = false ∧ c ≠ '.' := by
  cases exponent with
  | some e =>
    rintro c ⟨⟩
    decide
  | none => exact fun c hc => ⟨(hrest c hc).1, (hrest c hc).2.1⟩

/-- The text of a numeral behind its sign. -/
def Numeral.unsignedText (n : Numeral) : List Char :=
  n.whole ++ ((if n.fraction.isEmpty then [] else '.' :: n.fraction) ++ exponentText n.exponent)

/-- The text of a numeral is its sign and what stands behind it. -/
theorem Numeral.toText_eq (n : Numeral) :
    n.toText = (if n.negative then ['-'] else []) ++ n.unsignedText := by
  rw [toText, unsignedText, List.append_assoc, List.append_assoc]
  cases n.exponent <;> rfl

/-- A numeral is read back behind its sign. -/
theorem readNumeral_append {n : Numeral} (h : n.Sound) {rest : List Char} (hrest : Ends rest) :
    readNumeral n.negative (n.unsignedText ++ rest) = .ok (n, rest) := by
  rw [readNumeral, Numeral.unsignedText, List.append_assoc, List.append_assoc,
    readWhole_append h.whole h.leading (hrest.behind_whole n.fraction n.exponent)]
  simp only [bind, Except.bind]
  rw [readFraction_append h.fraction (hrest.behind_fraction n.exponent)]
  dsimp only
  rw [readExponent_append h.exponent hrest]
  rfl

namespace Numeral

/-- A digit of a number is one. -/
theorem isDigit_of_mem_toDigits {n : Nat} {c : Char} (h : c ∈ Nat.toDigits 10 n) :
    Json.isDigit c = true := by
  have hdigit := Nat.isDigit_of_mem_toDigits (by decide) (by decide) h
  rw [Char.isDigit, Bool.and_eq_true, decide_eq_true_eq, decide_eq_true_eq] at hdigit
  rw [Json.isDigit, Bool.and_eq_true, decide_eq_true_eq, decide_eq_true_eq]
  exact hdigit

/-- No zero leads other digits of a number. -/
theorem eq_nil_of_toDigits_eq {n : Nat} {ds : List Char} (h : Nat.toDigits 10 n = '0' :: ds) :
    ds = [] := by
  induction n using Nat.strongRecOn generalizing ds with
  | ind n ih =>
    rw [Nat.toDigits_eq_if (by decide)] at h
    split at h
    · exact (List.cons.inj h).2.symm
    · -- The digits in front of the last one would be those of zero, which is not so.
      cases hfront : Nat.toDigits 10 (n / 10) with
      | nil => exact absurd hfront Nat.toDigits_ne_nil
      | cons d others =>
        rw [hfront, List.cons_append] at h
        obtain ⟨rfl, -⟩ := List.cons.inj h
        obtain rfl := ih (n / 10) (by omega) hfront
        have hzero : n / 10 = 0 := by
          rw [← Nat.ofDigitChars_ten_toDigits (n := n / 10), hfront]
          rfl
        omega

/-- The digits of a number have its value. -/
theorem digitsValue_toDigits (n : Nat) : digitsValue (Nat.toDigits 10 n) = n :=
  Nat.ofDigitChars_ten_toDigits

/-- The digits of an integer. -/
theorem whole_ofInt (value : Int) : (ofInt value).whole = Nat.toDigits 10 value.natAbs := by
  rw [ofInt, Nat.toString_eq_repr, Nat.toList_repr]

/-- The numeral of an integer is sound. -/
theorem sound_ofInt (value : Int) : (ofInt value).Sound where
  whole := by
    rw [whole_ofInt]
    exact ⟨Nat.toDigits_ne_nil, fun _ => isDigit_of_mem_toDigits⟩
  leading := by
    rw [whole_ofInt]
    exact fun _ => eq_nil_of_toDigits_eq
  fraction := nofun
  exponent := nofun

/-- **An integer of 64 bits is read back.** -/
theorem integer?_ofInt {value : Int} (hlow : -2 ^ 63 ≤ value) (hhigh : value < 2 ^ 64) :
    (ofInt value).integer? = some value := by
  have hvalue : digitsValue (ofInt value).whole = value.natAbs := by
    rw [whole_ofInt, digitsValue_toDigits]
  have hplain : (ofInt value).fraction.isEmpty ∧ (ofInt value).exponent.isNone := ⟨rfl, rfl⟩
  -- The bounds of the reader, in the form of the hypotheses.
  have hmax : maxWord = 2 ^ 64 - 1 := rfl
  have hpow : Nat.pow 2 63 = 2 ^ 63 := rfl
  rw [integer?, if_pos hplain]
  dsimp only
  rw [hvalue, hmax, hpow]
  by_cases hnegative : value < 0
  · rw [ofInt, if_pos (decide_eq_true hnegative), if_pos (by omega), Option.some.injEq]
    omega
  · rw [ofInt, if_neg (by simpa using hnegative), if_pos (by omega), Option.some.injEq]
    omega

end Numeral

end Json
end MutationLab
