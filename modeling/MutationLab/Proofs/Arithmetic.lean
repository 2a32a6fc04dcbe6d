import Mathlib.Data.Int.Bitwise
import Mathlib.Data.Int.ModEq
import MutationLab.Proofs.Safety

/-! # Arithmetic in two's complement

Every operation on registers has an exact value, a whole number without bounds
(`BinaryKind.exact`). What the machine computes is this number put into 64 bits
(`BinaryKind.eval?_eq`), and the only operations without a value are divisions by zero
(`BinaryKind.eval?_eq_none_iff`). So an instruction that combines two registers either stops the run
or leaves behind the one number of 64 bits that agrees with the exact value modulo `2 ^ 64`
(`Machine.combines_in_twos_complement`). -/

namespace MutationLab

/-! ## Whole numbers in 64 bits -/

/-- **A number of 64 bits is a whole number put into them** when the two agree modulo `2 ^ 64`. -/
theorem toInt_modEq_iff {v : Int64} {x : Int} : v.toInt ≡ x [ZMOD 2 ^ 64] ↔ v = Int64.ofInt x := by
  rw [← Int64.toInt_inj, Int64.toInt_ofInt]
  constructor
  · intro h
    -- The bounds of 64 bits single out one of all numbers that agree.
    calc v.toInt = v.toInt.bmod (2 ^ 64) := (Int64.toInt_bmod v).symm
      _ = (v.toInt % (2 ^ 64 : Nat)).bmod (2 ^ 64) := (Int.emod_bmod ..).symm
      _ = (x % (2 ^ 64 : Nat)).bmod (2 ^ 64) := congrArg (Int.bmod · (2 ^ 64)) h
      _ = x.bmod Int64.size := Int.emod_bmod ..
  · intro h
    rw [h]
    exact Int.bmod_emod

/-- The bits of a whole number are those of its two's complement, which go on for ever. -/
theorem getLsbD_ofInt (x : Int) {i : Nat} (hi : i < 64) :
    (BitVec.ofInt 64 x).getLsbD i = x.testBit i := by
  cases x with
  | ofNat n =>
    show (BitVec.ofInt 64 (n : Int)).getLsbD i = n.testBit i
    rw [BitVec.ofInt_natCast, BitVec.getLsbD_ofNat, decide_eq_true hi, Bool.true_and]
  | negSucc n =>
    show (BitVec.ofInt 64 (Int.negSucc n)).getLsbD i = !n.testBit i
    rw [BitVec.ofInt_negSucc_eq_not_ofNat, BitVec.getLsbD_not, BitVec.getLsbD_ofNat,
      decide_eq_true hi, Bool.true_and, Bool.true_and]

/-- A number that has the lowest bits of a whole number is that one put into 64 bits. -/
theorem eq_ofInt_of_testBit {v : Int64} {x : Int}
    (h : ∀ i < 64, v.toInt.testBit i = x.testBit i) : v = Int64.ofInt x := by
  rw [← Int64.ofInt_toInt v, ← Int64.toBitVec_inj, Int64.toBitVec_ofInt, Int64.toBitVec_ofInt]
  refine BitVec.eq_of_getLsbD_eq fun i hi => ?_
  rw [getLsbD_ofInt _ hi, getLsbD_ofInt _ hi, h i hi]

section

variable (a b : Int64)

/-- The bits of a number of 64 bits, read off the whole number. -/
theorem testBit_toInt {i : Nat} (hi : i < 64) : a.toInt.testBit i = a.toBitVec.getLsbD i := by
  rw [← getLsbD_ofInt _ hi, ← Int64.toInt_toBitVec, BitVec.ofInt_toInt]

/-- Without the sign, a number is its remainder modulo `2 ^ 64`. -/
theorem toNat_toUInt64 : (a.toUInt64.toNat : Int) = a.toInt % 2 ^ 64 := by
  have hbits : a.toUInt64.toBitVec = BitVec.ofInt 64 a.toInt := by
    rw [Int64.toBitVec_toUInt64, ← Int64.toInt_toBitVec, BitVec.ofInt_toInt]
  rw [← UInt64.toNat_toBitVec, hbits, BitVec.toNat_ofInt]
  exact Int.toNat_of_nonneg (Int.emod_nonneg _ (by decide))

/-- **The amount of a shift** is a remainder modulo 64, for a negative number too. -/
theorem toNat_shiftAmount : (shiftAmount b).toNat = (b.toInt % 64).toNat := by
  have hunsigned := toNat_toUInt64 b
  have hmod : (shiftAmount b).toNat = b.toUInt64.toNat % 64 := UInt64.toNat_mod ..
  omega

theorem toNat_shiftAmount_lt : (shiftAmount b).toNat < 64 := by
  rw [toNat_shiftAmount]
  omega

/-- A shift to the left multiplies by a power of two. -/
theorem shiftLeft_eq : (a.toUInt64 <<< shiftAmount b).toInt64 =
    Int64.ofInt (a.toInt * 2 ^ (b.toInt % 64).toNat) := by
  have hlt := toNat_shiftAmount_lt b
  have hamount : ((shiftAmount b).toBitVec % 64).toNat = (shiftAmount b).toNat :=
    Nat.mod_eq_of_lt hlt
  have hpower : BitVec.ofInt 64 (2 ^ (shiftAmount b).toNat) =
      BitVec.twoPow 64 (shiftAmount b).toNat := by
    apply BitVec.eq_of_toNat_eq
    rw [BitVec.toNat_ofInt, BitVec.toNat_twoPow]
    push_cast
    norm_cast
  rw [← toNat_shiftAmount, ← Int64.toBitVec_inj, UInt64.toBitVec_toInt64, UInt64.toBitVec_shiftLeft,
    Int64.toBitVec_toUInt64, BitVec.shiftLeft_eq', hamount, BitVec.shiftLeft_eq_mul_twoPow,
    Int64.toBitVec_ofInt, BitVec.ofInt_mul, hpower, ← Int64.toInt_toBitVec, BitVec.ofInt_toInt]

/-- A shift to the right with zeros divides the number without its sign. -/
theorem shiftRight_unsigned_eq : (a.toUInt64 >>> shiftAmount b).toInt64 =
    Int64.ofInt (a.toInt % 2 ^ 64 / 2 ^ (b.toInt % 64).toNat) := by
  have hquotient : ((a.toUInt64 >>> shiftAmount b).toNat : Int) =
      a.toInt % 2 ^ 64 / 2 ^ (b.toInt % 64).toNat := by
    rw [UInt64.toNat_shiftRight, Nat.mod_eq_of_lt (toNat_shiftAmount_lt b),
      Nat.shiftRight_eq_div_pow, ← toNat_toUInt64, ← toNat_shiftAmount]
    push_cast
    rfl
  rw [← hquotient, ← Int64.toBitVec_inj, UInt64.toBitVec_toInt64, Int64.toBitVec_ofInt,
    BitVec.ofInt_natCast, ← UInt64.toNat_toBitVec, BitVec.ofNat_toNat, BitVec.setWidth_eq]

/-- A shift to the right with the sign divides the number, rounding down. -/
theorem shiftRight_signed_eq : a >>> (shiftAmount b).toInt64 =
    Int64.ofInt (a.toInt / 2 ^ (b.toInt % 64).toNat) := by
  have hlt := toNat_shiftAmount_lt b
  -- The amount is small, so reading it with a sign makes no difference.
  have hamount : ((shiftAmount b).toInt64.toBitVec.smod 64).toNat = (shiftAmount b).toNat := by
    have hsign : (shiftAmount b).toBitVec.msb = false := by
      rw [BitVec.msb_eq_false_iff_two_mul_lt, UInt64.toNat_toBitVec]
      omega
    have hwidth : (64 : BitVec 64).msb = false := rfl
    rw [UInt64.toBitVec_toInt64, BitVec.smod_eq, hsign, hwidth]
    exact Nat.mod_eq_of_lt hlt
  have hquotient : (a >>> (shiftAmount b).toInt64).toInt =
      a.toInt / 2 ^ (b.toInt % 64).toNat := by
    rw [← Int64.toInt_toBitVec, Int64.toBitVec_shiftRight, BitVec.toInt_sshiftRight', hamount,
      Int.shiftRight_eq_div_pow, Int64.toInt_toBitVec, ← toNat_shiftAmount]
    push_cast
    rfl
  rw [← hquotient, Int64.ofInt_toInt]

end

/-! ## Exact values -/

namespace BinaryKind

/-- The value of an operation on whole numbers, before it is put into 64 bits. -/
def exact : BinaryKind → Int → Int → Int
  | add, x, y => x + y
  | sub, x, y => x - y
  | mul, x, y => x * y
  -- The quotient is truncated towards zero, and the remainder has the sign of `x`.
  | sDiv, x, y => x.tdiv y
  | sRem, x, y => x.tmod y
  | and, x, y => x.land y
  | or, x, y => x.lor y
  | xor, x, y => x.xor y
  | shl, x, y => x * 2 ^ (y % 64).toNat
  -- Division by a positive number rounds down.
  | lShr, x, y => x % 2 ^ 64 / 2 ^ (y % 64).toNat
  | aShr, x, y => x / 2 ^ (y % 64).toNat

variable {kind : BinaryKind} {a b : Int64}

/-- **The only operations without a value** are divisions by zero. -/
theorem eval?_eq_none_iff : kind.eval? a b = none ↔ (kind = sDiv ∨ kind = sRem) ∧ b = 0 := by
  cases kind with
  | sDiv | sRem => simp [eval?]
  | _ => simp [eval?]

/-- **The value of an operation** is the exact one, put into 64 bits. -/
theorem eval?_eq (h : ¬ ((kind = sDiv ∨ kind = sRem) ∧ b = 0)) :
    kind.eval? a b = some (Int64.ofInt (kind.exact a.toInt b.toInt)) := by
  cases kind with
  | add =>
    show some (a + b) = some (Int64.ofInt (a.toInt + b.toInt))
    rw [Int64.ofInt_add, Int64.ofInt_toInt, Int64.ofInt_toInt]
  | sub =>
    show some (a - b) = some (Int64.ofInt (a.toInt - b.toInt))
    rw [Int64.ofInt_sub, Int64.ofInt_toInt, Int64.ofInt_toInt]
  | mul =>
    show some (a * b) = some (Int64.ofInt (a.toInt * b.toInt))
    rw [Int64.ofInt_mul, Int64.ofInt_toInt, Int64.ofInt_toInt]
  | sDiv =>
    have hb : b ≠ 0 := fun hb => h ⟨.inl rfl, hb⟩
    -- The least number divided by minus one is too great by one, and wraps around.
    have hquotient : a / b = Int64.ofInt (a.toInt.tdiv b.toInt) := by
      rw [← Int64.toInt_inj, Int64.toInt_div, Int64.toInt_ofInt]
    rw [eval?, if_neg hb, hquotient, exact]
  | sRem =>
    have hb : b ≠ 0 := fun hb => h ⟨.inr rfl, hb⟩
    rw [eval?, if_neg hb, exact, ← Int64.toInt_mod, Int64.ofInt_toInt]
  | and =>
    refine congrArg some (eq_ofInt_of_testBit fun i hi => ?_)
    rw [exact, Int.testBit_land, testBit_toInt _ hi, testBit_toInt _ hi, testBit_toInt _ hi,
      Int64.toBitVec_and, BitVec.getLsbD_and]
  | or =>
    refine congrArg some (eq_ofInt_of_testBit fun i hi => ?_)
    rw [exact, Int.testBit_lor, testBit_toInt _ hi, testBit_toInt _ hi, testBit_toInt _ hi,
      Int64.toBitVec_or, BitVec.getLsbD_or]
  | xor =>
    refine congrArg some (eq_ofInt_of_testBit fun i hi => ?_)
    rw [exact, Int.testBit_lxor, testBit_toInt _ hi, testBit_toInt _ hi, testBit_toInt _ hi,
      Int64.toBitVec_xor, BitVec.getLsbD_xor]
  | shl => exact congrArg some (shiftLeft_eq a b)
  | lShr => exact congrArg some (shiftRight_unsigned_eq a b)
  | aShr => exact congrArg some (shiftRight_signed_eq a b)

end BinaryKind

/-! ## The machine -/

namespace Example

/-- A call that is handed the least number and minus one. -/
def leastAndMinusOne : Frame where
  function :=
    { symbol := "combine", params := 2, registers := 3, probe := none,
      code := #[.binary 2 .sDiv 0 1, .return (some 2)] }
  registers := .ofArguments 3 [Int64.minValue, -1]
  position := 1
  result := none
  depth := 0

end Example

/-- What a register holds behind a change. -/
theorem Frame.get_of_set_eq_ok {before after : Frame} {dst : Register} {v : Int64}
    (h : before.set dst v = .ok after) (r : Register) :
    after.get r = if r = dst then .ok v else before.get r := by
  rw [set] at h
  cases hset : before.registers.set? dst.toNat v with
  | none =>
    rw [hset] at h
    cases h
  | some registers =>
    rw [hset] at h
    obtain rfl := Except.ok.inj h
    have hget := Registers.get?_set? hset r.toNat
    rw [get]
    dsimp only
    rw [hget]
    by_cases hr : r = dst
    · rw [if_pos hr, if_pos (congrArg UInt32.toNat hr)]
    · rw [if_neg hr, if_neg (mt UInt32.toNat_inj.mp hr)]
      rfl

namespace Machine

/-- **Registers are combined in two's complement.** Let an instruction combine two registers of a
call into one that is there. The run stops with a division by zero exactly if the operation is a
quotient or a remainder and the second number is zero. Otherwise it goes on in the same call, in
which only the one register has changed: it holds the number of 64 bits that agrees with the exact
value modulo `2 ^ 64`, and no other number does. -/
theorem combines_in_twos_complement (image : Image) (setup : Setup) (kind : BinaryKind)
    {dst lhs rhs : Register} {top : Frame} (hdst : dst.toNat < top.registers.size) {a b : Int64}
    (ha : top.get lhs = .ok a) (hb : top.get rhs = .ok b) (below : List Frame) (e : Effects) :
    let next := execute image setup (.binary dst kind lhs rhs) top below e
    (next = (.stop (.error (.divisionByZero top.function.symbol)), e) ↔
      (kind = .sDiv ∨ kind = .sRem) ∧ b = 0) ∧
    (¬ ((kind = .sDiv ∨ kind = .sRem) ∧ b = 0) → ∃ (v : Int64) (after : Frame),
      next = (.go after below, e) ∧
      (∀ r, after.get r = if r = dst then .ok v else top.get r) ∧
      ∀ w : Int64, w.toInt ≡ kind.exact a.toInt b.toInt [ZMOD 2 ^ 64] ↔ w = v) := by
  intro next
  have hnext : next = resume below e ((kind.eval? a b).elim
      (.error (.divisionByZero top.function.symbol)) (top.set dst)) := by
    show resume below e _ = _
    rw [ha, hb, ok_bind, ok_bind]
    cases kind.eval? a b <;> rfl
  by_cases hzero : (kind = .sDiv ∨ kind = .sRem) ∧ b = 0
  · rw [BinaryKind.eval?_eq_none_iff.mpr hzero] at hnext
    exact ⟨iff_of_true hnext hzero, fun h => absurd hzero h⟩
  · obtain ⟨registers, hset, -⟩ := Frame.exists_set hdst (Int64.ofInt (kind.exact a.toInt b.toInt))
    rw [BinaryKind.eval?_eq hzero, Option.elim_some, hset] at hnext
    refine ⟨iff_of_false (fun hstop => ?_) hzero, fun _ => ?_⟩
    · rw [hnext] at hstop
      cases congrArg Prod.fst hstop
    · exact ⟨_, _, hnext, Frame.get_of_set_eq_ok hset, fun w => toInt_modEq_iff⟩

/-- The least number and minus one: the quotient wraps around to the least number itself, and
nothing remains. -/
theorem combines_in_twos_complement_example :
    (∃ after, execute {} {} (.binary 2 .sDiv 0 1) Example.leastAndMinusOne [] {} =
      (.go after [], {}) ∧ after.get 2 = .ok Int64.minValue) ∧
    ∃ after, execute {} {} (.binary 2 .sRem 0 1) Example.leastAndMinusOne [] {} =
      (.go after [], {}) ∧ after.get 2 = .ok 0 := by
  have hdst : (2 : Register).toNat < Example.leastAndMinusOne.registers.size := by decide
  have ha : Example.leastAndMinusOne.get 0 = .ok Int64.minValue := by decide
  have hb : Example.leastAndMinusOne.get 1 = .ok (-1) := by decide
  constructor
  · obtain ⟨-, hvalue⟩ := combines_in_twos_complement {} {} .sDiv hdst ha hb [] {}
    obtain ⟨v, after, hnext, hget, hunique⟩ := hvalue (by decide)
    obtain rfl := (hunique Int64.minValue).mp (by decide)
    exact ⟨after, hnext, hget 2⟩
  · obtain ⟨-, hvalue⟩ := combines_in_twos_complement {} {} .sRem hdst ha hb [] {}
    obtain ⟨v, after, hnext, hget, hunique⟩ := hvalue (by decide)
    obtain rfl := (hunique 0).mp (by decide)
    exact ⟨after, hnext, hget 2⟩

end Machine

end MutationLab
