import Mathlib.Algebra.Group.Nat.Defs
import Mathlib.Data.List.Basic
import MutationLab.Object.Codec

/-! # The byte form of object files is exact

A reader of bytes is exact for a writer (`Codec.Exact`) when it takes from the front of a list what
the writer has put there, and nothing else. Readers made of exact ones are exact again, from single
bytes up to object files (`Codec.exact_object`), so an object file and its bytes determine each
other (`ObjectFile.bytes_exact`). Lengths are written in eight bytes, which is the only limit:
`ObjectFile.Fits` says that an object file keeps to it. -/

namespace MutationLab

/-- Bytes are read as a text exactly when they are the bytes of the text. -/
theorem Text.ofUtf8?_eq_some_iff {bytes : List UInt8} {text : String} :
    ofUtf8? bytes = some text ↔ utf8 text = bytes := by
  rw [ofUtf8?, String.fromUTF8?, utf8, String.toUTF8]
  constructor
  · intro h
    split at h
    · obtain rfl := Option.some.inj h
      rfl
    · exact nomatch h
  · rintro rfl
    rw [Array.toArray_toList, dif_pos text.isValidUTF8]
    rfl

namespace Codec

/-- A reader takes from the front of a list what the writer has put there for a value that fits,
and nothing else. -/
def Exact (fits : α → Prop) (put : α → List UInt8) (take : Take α) : Prop :=
  ∀ bytes x rest, take.run bytes = some (x, rest) ↔ fits x ∧ bytes = put x ++ rest

/-! ## Chains of readers -/

/-- A reader that is done leaves everything. -/
theorem run_pure_eq_some_iff {bytes rest : List UInt8} {x y : α} :
    (pure x : Take α).run bytes = some (y, rest) ↔ x = y ∧ bytes = rest := by
  rw [StateT.run_pure, Option.pure_def, Option.some.injEq, Prod.mk.injEq]

/-- A chain of readers goes through when both of its parts do, the second one on the rest. -/
theorem run_bind_eq_some_iff {take : Take α} {f : α → Take β} {bytes rest : List UInt8} {y : β} :
    (take >>= f).run bytes = some (y, rest) ↔
      ∃ x middle, take.run bytes = some (x, middle) ∧ (f x).run middle = some (y, rest) := by
  rw [StateT.run_bind, Option.bind_eq_bind, Option.bind_eq_some_iff, Prod.exists]

namespace Exact

variable {fits : α → Prop} {put : α → List UInt8} {take : Take α}

/-- A chain that begins with an exact reader goes through when a value that fits stands in front and
the chain goes on behind it. -/
theorem bind_iff (h : Exact fits put take) {f : α → Take β} {bytes rest : List UInt8} {y : β} :
    (take >>= f).run bytes = some (y, rest) ↔
      ∃ x middle, fits x ∧ bytes = put x ++ middle ∧ (f x).run middle = some (y, rest) := by
  simp only [run_bind_eq_some_iff, h _ _ _, and_assoc]

/-- What has been put is taken, and the chain goes on with the rest. -/
theorem run_bind_append (h : Exact fits put take) {x : α} (hx : fits x) (f : α → Take β)
    (rest : List UInt8) : (take >>= f).run (put x ++ rest) = (f x).run rest := by
  have htake : take.run (put x ++ rest) = some (x, rest) := (h _ _ _).mpr ⟨hx, rfl⟩
  rw [StateT.run_bind, htake]
  rfl

/-- What is taken may be represented differently, if every value has a representation that fits. -/
theorem represent (h : Exact fits put take) {f : α → β} {g : β → α} (hfg : ∀ y, f (g y) = y)
    (hgf : ∀ x, fits x → g (f x) = x) (hfits : ∀ y, fits (g y)) :
    Exact (fun _ => True) (fun y => put (g y)) (do return f (← take)) := by
  intro bytes y rest
  rw [h.bind_iff]
  constructor
  · rintro ⟨x, middle, hx, rfl, hy⟩
    obtain ⟨rfl, rfl⟩ := run_pure_eq_some_iff.mp hy
    dsimp only
    rw [hgf x hx]
    exact ⟨trivial, rfl⟩
  · rintro ⟨-, rfl⟩
    exact ⟨g y, rest, hfits y, rfl, run_pure_eq_some_iff.mpr ⟨hfg y, rfl⟩⟩

end Exact

/-! ## Numbers -/

/-- Numbers of a width are read exactly. -/
theorem exact_nat (width : Nat) : Exact (· < 256 ^ width) (putNat width) (takeNat width) := by
  -- By induction on the width: the low byte comes first, the rest of the number behind it.
  induction width with
  | zero =>
    intro bytes n rest
    rw [takeNat, run_pure_eq_some_iff, putNat, List.nil_append]
    exact and_congr_left fun _ => eq_comm.trans Nat.lt_one_iff.symm
  | succ width ih =>
    intro bytes n rest
    rw [takeNat, run_bind_eq_some_iff]
    constructor
    · rintro ⟨low, middle, hlow, hhigh⟩
      obtain ⟨high, behind, hfits, rfl, hn⟩ := ih.bind_iff.mp hhigh
      obtain ⟨rfl, rfl⟩ := run_pure_eq_some_iff.mp hn
      cases bytes with
      | nil => exact nomatch hlow
      | cons byte bytes =>
        obtain ⟨rfl, rfl⟩ := Prod.mk.inj (Option.some.inj hlow)
        have hbyte := byte.toNat_lt
        have hmod : (byte.toNat + 256 * high) % 256 = byte.toNat := by omega
        have hdiv : (byte.toNat + 256 * high) / 256 = high := by omega
        refine ⟨by rw [Nat.pow_succ]; omega, ?_⟩
        rw [putNat, hmod, hdiv, UInt8.ofNat_toNat]
        rfl
    · rintro ⟨hfits, rfl⟩
      have hhigh : n / 256 < 256 ^ width := by rw [Nat.pow_succ] at hfits; omega
      refine ⟨UInt8.ofNat (n % 256), putNat width (n / 256) ++ rest, rfl, ?_⟩
      rw [ih.run_bind_append hhigh, run_pure_eq_some_iff,
        UInt8.toNat_ofNat_of_lt' (Nat.mod_lt n (by decide))]
      exact ⟨Nat.mod_add_div n 256, rfl⟩

/-- Numbers of four bytes are read exactly. -/
theorem exact_32 : Exact (fun _ => True) put32 take32 :=
  (exact_nat 4).represent (fun _ => UInt32.ofNat_toNat)
    (fun _ hn => UInt32.toNat_ofNat_of_lt' hn) fun n => n.toNat_lt

/-- Numbers of eight bytes are read exactly. -/
theorem exact_64 : Exact (fun _ => True) put64 take64 :=
  (exact_nat 8).represent (fun _ => UInt64.ofNat_toNat)
    (fun _ hn => UInt64.toNat_ofNat_of_lt' hn) fun n => n.toNat_lt

/-- Signed numbers are read exactly. -/
theorem exact_int : Exact (fun _ => True) putInt takeInt :=
  exact_64.represent Int64.toInt64_toUInt64 (fun _ _ => rfl) fun _ => trivial

/-! ## Truth values, texts, lists -/

/-- Truth values are read exactly. -/
theorem exact_bool : Exact (fun _ => True) putBool takeBool := by
  intro bytes b rest
  cases bytes with
  | nil => exact iff_of_false nofun (by cases b <;> simp [putBool])
  | cons byte bytes =>
    have hbyte : takeByte.run (byte :: bytes) = some (byte, bytes) := rfl
    rw [takeBool, StateT.run_bind, hbyte, Option.bind_eq_bind, Option.bind_some]
    dsimp only
    split
    · rw [run_pure_eq_some_iff]
      cases b <;> simp [putBool]
    · rw [run_pure_eq_some_iff]
      cases b <;> simp [putBool]
    · rename_i hzero hone
      refine iff_of_false nofun ?_
      rintro ⟨-, h⟩
      obtain ⟨rfl, -⟩ := List.cons.inj h
      cases b
      · exact hzero rfl
      · exact hone rfl

/-- Values that may be missing are read exactly. -/
theorem Exact.option {put : α → List UInt8} {take : Take α} (h : Exact (fun _ => True) put take) :
    Exact (fun _ => True) (putOption put) (takeOption take) := by
  intro bytes x rest
  rw [takeOption, exact_bool.bind_iff]
  constructor
  · rintro ⟨there, middle, -, rfl, htake⟩
    cases there with
    | false =>
      obtain ⟨rfl, rfl⟩ := run_pure_eq_some_iff.mp htake
      exact ⟨trivial, rfl⟩
    | true =>
      rw [if_pos rfl, h.bind_iff] at htake
      obtain ⟨y, behind, -, rfl, hy⟩ := htake
      obtain ⟨rfl, rfl⟩ := run_pure_eq_some_iff.mp hy
      exact ⟨trivial, rfl⟩
  · rintro ⟨-, rfl⟩
    cases x with
    | none => exact ⟨false, rest, trivial, rfl, rfl⟩
    | some y => exact ⟨true, put y ++ rest, trivial, rfl, h.run_bind_append trivial _ rest⟩

/-- A text whose length can be written. -/
def TextFits (text : String) : Prop := (Text.utf8 text).length < 256 ^ 8

instance (text : String) : Decidable (TextFits text) := inferInstanceAs (Decidable (_ < _))

/-- So many bytes are read exactly. -/
theorem exact_bytes (count : Nat) :
    Exact (fun content => content.length = count) id (takeBytes count) := by
  intro bytes content rest
  show (if (bytes.splitAt count).1.length = count then some (bytes.splitAt count) else none) = _ ↔ _
  rw [List.splitAt_eq]
  constructor
  · intro h
    split at h
    · rename_i hlength
      obtain ⟨rfl, rfl⟩ := Prod.mk.inj (Option.some.inj h)
      exact ⟨hlength, (List.take_append_drop count bytes).symm⟩
    · exact nomatch h
  · rintro ⟨rfl, rfl⟩
    rw [id_eq, List.take_left, List.drop_left, if_pos rfl]

/-- Texts are read exactly. -/
theorem exact_string : Exact TextFits putString takeString := by
  intro bytes text rest
  simp only [takeString, putString, (exact_nat 8).bind_iff, (exact_bytes _).bind_iff]
  constructor
  · rintro ⟨_, _, hlimit, rfl, content, behind, rfl, rfl, htake⟩
    -- Only bytes in UTF-8 are read as a text, and then they are its bytes.
    split at htake
    · rename_i other hother
      obtain ⟨rfl, rfl⟩ := run_pure_eq_some_iff.mp htake
      obtain rfl := Text.ofUtf8?_eq_some_iff.mp hother
      exact ⟨hlimit, (List.append_assoc ..).symm⟩
    · exact nomatch htake
  · rintro ⟨hfits, rfl⟩
    refine ⟨_, _, hfits, List.append_assoc .., Text.utf8 text, rest, rfl, rfl, ?_⟩
    rw [Text.ofUtf8?_eq_some_iff.mpr rfl]
    rfl

/-- A list whose length can be written, of values that fit. -/
structure ListFits (fits : α → Prop) (xs : List α) : Prop where
  length : xs.length < 256 ^ 8
  each : ∀ x ∈ xs, fits x

instance (fits : α → Prop) [DecidablePred fits] (xs : List α) : Decidable (ListFits fits xs) :=
  decidable_of_iff (xs.length < 256 ^ 8 ∧ ∀ x ∈ xs, fits x)
    ⟨fun h => ⟨h.1, h.2⟩, fun h => ⟨h.length, h.each⟩⟩

/-- So many values are read exactly, one behind the other. -/
theorem Exact.many {fits : α → Prop} {put : α → List UInt8} {take : Take α}
    (h : Exact fits put take) (count : Nat) :
    Exact (fun xs => xs.length = count ∧ ∀ x ∈ xs, fits x) (List.flatMap put)
      (takeMany take count) := by
  induction count with
  | zero =>
    intro bytes xs rest
    rw [takeMany, run_pure_eq_some_iff]
    constructor
    · rintro ⟨rfl, rfl⟩
      exact ⟨⟨rfl, nofun⟩, rfl⟩
    · rintro ⟨⟨hlength, -⟩, rfl⟩
      obtain rfl := List.length_eq_zero_iff.mp hlength
      exact ⟨rfl, rfl⟩
  | succ count ih =>
    intro bytes xs rest
    simp only [takeMany, h.bind_iff, ih.bind_iff, run_pure_eq_some_iff]
    constructor
    · rintro ⟨x, _, hx, rfl, others, behind, ⟨rfl, heach⟩, rfl, rfl, rfl⟩
      refine ⟨⟨rfl, List.forall_mem_cons.mpr ⟨hx, heach⟩⟩, ?_⟩
      rw [List.flatMap_cons, List.append_assoc]
    · rintro ⟨⟨hlength, hfits⟩, rfl⟩
      cases xs with
      | nil => exact nomatch hlength
      | cons x xs =>
        obtain ⟨hx, heach⟩ := List.forall_mem_cons.mp hfits
        refine ⟨x, xs.flatMap put ++ rest, hx, ?_, xs, rest, ⟨Nat.succ.inj hlength, heach⟩, rfl,
          rfl, rfl⟩
        rw [List.flatMap_cons, List.append_assoc]

/-- Lists are read exactly. -/
theorem Exact.list {fits : α → Prop} {put : α → List UInt8} {take : Take α}
    (h : Exact fits put take) : Exact (ListFits fits) (putList put) (takeList take) := by
  intro bytes xs rest
  simp only [takeList, putList, (exact_nat 8).bind_iff, h.many _ _ _ _]
  constructor
  · rintro ⟨_, _, hlimit, rfl, ⟨rfl, heach⟩, rfl⟩
    exact ⟨⟨hlimit, heach⟩, (List.append_assoc ..).symm⟩
  · rintro ⟨hfits, rfl⟩
    exact ⟨_, _, hfits.length, List.append_assoc .., ⟨rfl, hfits.each⟩, rfl⟩

/-- One of distinct alternatives is read exactly. -/
theorem exact_choice [DecidableEq α] {alternatives : List α} (hnodup : alternatives.Nodup)
    (hall : ∀ x, x ∈ alternatives) (hlength : alternatives.length < 256 ^ 4) :
    Exact (fun _ => True) (putChoice alternatives) (takeChoice alternatives) := by
  intro bytes x rest
  rw [takeChoice, putChoice, (exact_nat 4).bind_iff]
  constructor
  · rintro ⟨number, middle, -, rfl, htake⟩
    split at htake
    · rename_i y hy
      obtain ⟨rfl, rfl⟩ := run_pure_eq_some_iff.mp htake
      obtain ⟨hlt, rfl⟩ := List.getElem?_eq_some_iff.mp hy
      rw [hnodup.idxOf_getElem]
      exact ⟨trivial, rfl⟩
    · exact nomatch htake
  · rintro ⟨-, rfl⟩
    have hlt := List.idxOf_lt_length_of_mem (hall x)
    refine ⟨alternatives.idxOf x, rest, Nat.lt_trans hlt hlength, rfl, ?_⟩
    rw [List.getElem?_idxOf (hall x)]
    rfl

/-- Kinds of binary operations are read exactly. -/
theorem exact_kind : Exact (fun _ => True) (putChoice kinds) (takeChoice kinds) :=
  exact_choice (by decide) (fun kind => by cases kind <;> decide) (by decide)

/-- Predicates are read exactly. -/
theorem exact_predicate : Exact (fun _ => True) (putChoice predicates) (takeChoice predicates) :=
  exact_choice (by decide) (fun predicate => by cases predicate <;> decide) (by decide)

/-! ## Objects -/

/-- A mutant and a symbol whose lengths can be written. -/
structure TargetFits (target : String × String) : Prop where
  mutant : TextFits target.1
  symbol : TextFits target.2

instance : DecidablePred TargetFits := fun target =>
  decidable_of_iff (TextFits target.1 ∧ TextFits target.2)
    ⟨fun h => ⟨h.1, h.2⟩, fun h => ⟨h.mutant, h.symbol⟩⟩

/-- Targets are read exactly. -/
theorem exact_target : Exact TargetFits putTarget takeTarget := by
  intro bytes target rest
  simp only [takeTarget, putTarget, exact_string.bind_iff, run_pure_eq_some_iff]
  constructor
  · rintro ⟨mutant, _, hmutant, rfl, symbol, _, hsymbol, rfl, rfl, rfl⟩
    exact ⟨⟨hmutant, hsymbol⟩, (List.append_assoc ..).symm⟩
  · rintro ⟨hfits, rfl⟩
    exact ⟨_, _, hfits.mutant, List.append_assoc .., _, _, hfits.symbol, rfl, rfl, rfl⟩

/-- An instruction whose lengths can be written. -/
def OperationFits : ObjectOperation → Prop
  | .call _ symbol args => TextFits symbol ∧ ListFits (fun _ => True) args
  | .trap message => TextFits message
  | .dispatch pristine targets => TextFits pristine ∧ ListFits TargetFits targets
  | _ => True

instance : DecidablePred OperationFits
  | .call _ symbol args =>
      inferInstanceAs (Decidable (TextFits symbol ∧ ListFits (fun _ => True) args))
  | .trap message => inferInstanceAs (Decidable (TextFits message))
  | .dispatch pristine targets =>
      inferInstanceAs (Decidable (TextFits pristine ∧ ListFits TargetFits targets))
  | .const .. | .binary .. | .compare .. | .jump .. | .branch .. | .return .. | .print ..
  | .nop => inferInstanceAs (Decidable True)

/-- What is read as an instruction is the bytes of an instruction that fits. -/
theorem fits_of_takeOperation {bytes rest : List UInt8} {operation : ObjectOperation}
    (h : takeOperation.run bytes = some (operation, rest)) :
    OperationFits operation ∧ bytes = putOperation operation ++ rest := by
  rw [takeOperation, (exact_nat 4).bind_iff] at h
  obtain ⟨number, middle, -, rfl, htake⟩ := h
  -- One case for each number, and one for all others.
  split at htake
  case h_1 =>
    simp only [exact_32.bind_iff, exact_int.bind_iff, run_pure_eq_some_iff] at htake
    obtain ⟨dst, _, -, rfl, value, _, -, rfl, rfl, rfl⟩ := htake
    exact ⟨trivial, by simp only [putOperation, List.append_assoc]⟩
  case h_2 =>
    simp only [exact_32.bind_iff, exact_kind.bind_iff, run_pure_eq_some_iff] at htake
    obtain ⟨dst, _, -, rfl, kind, _, -, rfl, lhs, _, -, rfl, rhs, _, -, rfl, rfl, rfl⟩ := htake
    exact ⟨trivial, by simp only [putOperation, List.append_assoc]⟩
  case h_3 =>
    simp only [exact_32.bind_iff, exact_predicate.bind_iff, run_pure_eq_some_iff] at htake
    obtain ⟨dst, _, -, rfl, predicate, _, -, rfl,
      lhs, _, -, rfl, rhs, _, -, rfl, rfl, rfl⟩ := htake
    exact ⟨trivial, by simp only [putOperation, List.append_assoc]⟩
  case h_4 =>
    simp only [exact_32.option.bind_iff, exact_string.bind_iff, exact_32.list.bind_iff,
      run_pure_eq_some_iff] at htake
    obtain ⟨dst, _, -, rfl, symbol, _, hsymbol, rfl, args, _, hargs, rfl, rfl, rfl⟩ := htake
    exact ⟨⟨hsymbol, hargs⟩, by simp only [putOperation, List.append_assoc]⟩
  case h_5 =>
    simp only [exact_64.bind_iff, run_pure_eq_some_iff] at htake
    obtain ⟨target, _, -, rfl, rfl, rfl⟩ := htake
    exact ⟨trivial, by simp only [putOperation, List.append_assoc]⟩
  case h_6 =>
    simp only [exact_32.bind_iff, exact_64.bind_iff, run_pure_eq_some_iff] at htake
    obtain ⟨cond, _, -, rfl, thenTarget, _, -, rfl, elseTarget, _, -, rfl, rfl, rfl⟩ := htake
    exact ⟨trivial, by simp only [putOperation, List.append_assoc]⟩
  case h_7 =>
    simp only [exact_32.option.bind_iff, run_pure_eq_some_iff] at htake
    obtain ⟨value, _, -, rfl, rfl, rfl⟩ := htake
    exact ⟨trivial, by simp only [putOperation, List.append_assoc]⟩
  case h_8 =>
    simp only [exact_32.bind_iff, run_pure_eq_some_iff] at htake
    obtain ⟨value, _, -, rfl, rfl, rfl⟩ := htake
    exact ⟨trivial, by simp only [putOperation, List.append_assoc]⟩
  case h_9 =>
    simp only [exact_string.bind_iff, run_pure_eq_some_iff] at htake
    obtain ⟨message, _, hmessage, rfl, rfl, rfl⟩ := htake
    exact ⟨hmessage, by simp only [putOperation, List.append_assoc]⟩
  case h_10 =>
    rw [run_pure_eq_some_iff] at htake
    obtain ⟨rfl, rfl⟩ := htake
    exact ⟨trivial, rfl⟩
  case h_11 =>
    simp only [exact_string.bind_iff, exact_target.list.bind_iff, run_pure_eq_some_iff] at htake
    obtain ⟨pristine, _, hpristine, rfl, targets, _, htargets, rfl, rfl, rfl⟩ := htake
    exact ⟨⟨hpristine, htargets⟩, by simp only [putOperation, List.append_assoc]⟩
  case h_12 => exact nomatch htake

/-- The bytes of an instruction that fits are read as the instruction. -/
theorem run_takeOperation {operation : ObjectOperation} (hfits : OperationFits operation)
    (rest : List UInt8) :
    takeOperation.run (putOperation operation ++ rest) = some (operation, rest) := by
  rw [takeOperation, (exact_nat 4).bind_iff]
  -- The number of the constructor selects what is read behind it.
  cases operation with
  | const dst value =>
    simp only [putOperation, List.append_assoc]
    refine ⟨0, _, by decide, rfl, ?_⟩
    simp only [exact_32.run_bind_append trivial, exact_int.run_bind_append trivial]
    rfl
  | binary dst kind lhs rhs =>
    simp only [putOperation, List.append_assoc]
    refine ⟨1, _, by decide, rfl, ?_⟩
    simp only [exact_32.run_bind_append trivial, exact_kind.run_bind_append trivial]
    rfl
  | compare dst predicate lhs rhs =>
    simp only [putOperation, List.append_assoc]
    refine ⟨2, _, by decide, rfl, ?_⟩
    simp only [exact_32.run_bind_append trivial, exact_predicate.run_bind_append trivial]
    rfl
  | call dst symbol args =>
    simp only [putOperation, List.append_assoc]
    refine ⟨3, _, by decide, rfl, ?_⟩
    simp only [exact_32.option.run_bind_append trivial, exact_string.run_bind_append hfits.1,
      exact_32.list.run_bind_append hfits.2]
    rfl
  | jump target =>
    simp only [putOperation, List.append_assoc]
    refine ⟨4, _, by decide, rfl, ?_⟩
    simp only [exact_64.run_bind_append trivial]
    rfl
  | branch cond thenTarget elseTarget =>
    simp only [putOperation, List.append_assoc]
    refine ⟨5, _, by decide, rfl, ?_⟩
    simp only [exact_32.run_bind_append trivial, exact_64.run_bind_append trivial]
    rfl
  | «return» value =>
    simp only [putOperation, List.append_assoc]
    refine ⟨6, _, by decide, rfl, ?_⟩
    simp only [exact_32.option.run_bind_append trivial]
    rfl
  | print value =>
    simp only [putOperation, List.append_assoc]
    refine ⟨7, _, by decide, rfl, ?_⟩
    simp only [exact_32.run_bind_append trivial]
    rfl
  | trap message =>
    simp only [putOperation, List.append_assoc]
    refine ⟨8, _, by decide, rfl, ?_⟩
    simp only [exact_string.run_bind_append hfits]
    rfl
  | nop => exact ⟨9, rest, by decide, rfl, rfl⟩
  | dispatch pristine targets =>
    simp only [putOperation, List.append_assoc]
    refine ⟨10, _, by decide, rfl, ?_⟩
    simp only [exact_string.run_bind_append hfits.1,
      exact_target.list.run_bind_append hfits.2]
    rfl

/-- Instructions are read exactly. -/
theorem exact_operation : Exact OperationFits putOperation takeOperation := by
  intro bytes operation rest
  refine ⟨fits_of_takeOperation, ?_⟩
  rintro ⟨hfits, rfl⟩
  exact run_takeOperation hfits rest

/-- A compiled function whose lengths can be written. -/
structure FunctionFits (f : CompiledFunction) : Prop where
  symbol : TextFits f.symbol
  code : ListFits OperationFits f.code

instance : DecidablePred FunctionFits := fun f =>
  decidable_of_iff (TextFits f.symbol ∧ ListFits OperationFits f.code)
    ⟨fun h => ⟨h.1, h.2⟩, fun h => ⟨h.symbol, h.code⟩⟩

/-- Compiled functions are read exactly. -/
theorem exact_function : Exact FunctionFits putFunction takeFunction := by
  intro bytes f rest
  simp only [takeFunction, putFunction, exact_string.bind_iff, exact_32.bind_iff,
    exact_32.option.bind_iff, exact_operation.list.bind_iff, run_pure_eq_some_iff]
  constructor
  · rintro ⟨symbol, _, hsymbol, rfl, params, _, -, rfl, registers, _, -, rfl, probe, _, -, rfl,
      code, _, hcode, rfl, rfl, rfl⟩
    exact ⟨⟨hsymbol, hcode⟩, by simp only [List.append_assoc]⟩
  · rintro ⟨hfits, rfl⟩
    simp only [List.append_assoc]
    exact ⟨_, _, hfits.symbol, rfl, _, _, trivial, rfl, _, _, trivial, rfl, _, _, trivial, rfl,
      _, _, hfits.code, rfl, rfl, rfl⟩

end Codec

/-- An object file whose lengths can be written. -/
structure ObjectFile.Fits (o : ObjectFile) : Prop where
  name : Codec.TextFits o.name
  sourceHash : Codec.TextFits o.sourceHash
  functions : Codec.ListFits Codec.FunctionFits o.functions

instance (o : ObjectFile) : Decidable o.Fits :=
  decidable_of_iff (Codec.TextFits o.name ∧ Codec.TextFits o.sourceHash ∧
      Codec.ListFits Codec.FunctionFits o.functions)
    ⟨fun h => ⟨h.1, h.2.1, h.2.2⟩, fun h => ⟨h.name, h.sourceHash, h.functions⟩⟩

/-- **Object files are read exactly.** -/
theorem Codec.exact_object : Exact ObjectFile.Fits putObject takeObject := by
  intro bytes o rest
  simp only [takeObject, putObject, exact_string.bind_iff, exact_bool.bind_iff,
    exact_function.list.bind_iff, run_pure_eq_some_iff]
  constructor
  · rintro ⟨name, _, hname, rfl, hash, _, hhash, rfl, instrumented, _, -, rfl, functions, _,
      hfunctions, rfl, rfl, rfl⟩
    exact ⟨⟨hname, hhash, hfunctions⟩, by simp only [List.append_assoc]⟩
  · rintro ⟨hfits, rfl⟩
    simp only [List.append_assoc]
    exact ⟨_, _, hfits.name, rfl, _, _, hfits.sourceHash, rfl, _, _, trivial, rfl, _, _,
      hfits.functions, rfl, rfl, rfl⟩

namespace ObjectFile

/-- Bytes are read as an object file exactly when they begin with its bytes. -/
theorem ofBytes?_eq_some_iff {bytes : List UInt8} {o : ObjectFile} :
    ofBytes? bytes = some o ↔ o.Fits ∧ o.toBytes <+: bytes := by
  rw [ofBytes?, Option.map_eq_some_iff]
  constructor
  · rintro ⟨⟨_, rest⟩, htake, rfl⟩
    obtain ⟨hfits, rfl⟩ := (Codec.exact_object _ _ _).mp htake
    exact ⟨hfits, rest, rfl⟩
  · rintro ⟨hfits, rest, rfl⟩
    exact ⟨(o, rest), (Codec.exact_object _ _ _).mpr ⟨hfits, rfl⟩, rfl⟩

/-- **Object files and their bytes determine each other.** The bytes of an object file are read back
whatever follows them, and what bytes are read as stands in front of them with exactly its own
bytes. So distinct object files have bytes none of which begin with the others, and no object file
is read from a proper beginning of the bytes of one. -/
theorem bytes_exact :
    (∀ o : ObjectFile, o.Fits → ∀ rest, ofBytes? (o.toBytes ++ rest) = some o) ∧
      (∀ bytes o, ofBytes? bytes = some o → o.toBytes <+: bytes) ∧
      (∀ o other : ObjectFile, o.Fits → other.Fits → o ≠ other → ¬ o.toBytes <+: other.toBytes) ∧
      ∀ o : ObjectFile, o.Fits → ∀ front, front <+: o.toBytes → front ≠ o.toBytes →
        ofBytes? front = none := by
  refine ⟨?_, ?_, ?_, ?_⟩
  · intro o ho rest
    exact ofBytes?_eq_some_iff.mpr ⟨ho, List.prefix_append ..⟩
  · intro bytes o h
    exact (ofBytes?_eq_some_iff.mp h).2
  · intro o other ho hother hne hprefix
    have hread := ofBytes?_eq_some_iff.mpr ⟨ho, hprefix⟩
    have hself := ofBytes?_eq_some_iff.mpr ⟨hother, List.prefix_rfl⟩
    exact hne (Option.some.inj (hread.symm.trans hself))
  · intro o ho front hfront hne
    rw [Option.eq_none_iff_forall_ne_some]
    intro other hother
    obtain ⟨hfits, hprefix⟩ := ofBytes?_eq_some_iff.mp hother
    -- What is read in front is the object file itself, so that nothing of it is missing.
    have hread := ofBytes?_eq_some_iff.mpr ⟨hfits, hprefix.trans hfront⟩
    have hself := ofBytes?_eq_some_iff.mpr ⟨ho, List.prefix_rfl⟩
    obtain rfl := Option.some.inj (hread.symm.trans hself)
    exact hne (hfront.eq_of_length_le hprefix.length_le)

end ObjectFile

namespace Example

/-- A compiled function with an instruction of every kind. -/
def everything : CompiledFunction :=
  { symbol := "everything", params := 1, registers := 3, probe := some 7
    code := [.const 0 (-1), .binary 1 .sRem 0 0, .compare 2 .sge 0 1, .call none "größe" [0, 1],
      .jump 5, .branch 2 0 6, .return (some 1), .print 0, .trap "stop", .nop,
      .dispatch "pristine" [("mutant", "body")]] }

/-- An object file with an instruction of every kind. -/
def diverse : ObjectFile :=
  { name := "diverse", sourceHash := "00ff", instrumented := true, functions := [everything] }

end Example

/-- `bytes_exact` at an object file with an instruction of every kind. -/
theorem ObjectFile.bytes_exact_example :
    ofBytes? (Example.diverse.toBytes ++ [0, 255]) = some Example.diverse ∧
      ¬ { Example.diverse with functions := [] }.toBytes <+: Example.diverse.toBytes ∧
      ofBytes? Example.diverse.toBytes.dropLast = none := by
  have hfits : Example.diverse.Fits := by decide +kernel
  have hempty : { Example.diverse with functions := [] }.Fits := by decide +kernel
  refine ⟨bytes_exact.1 _ hfits _, bytes_exact.2.2.1 _ _ hempty hfits (by decide), ?_⟩
  exact bytes_exact.2.2.2 _ hfits _ (List.dropLast_prefix _) (by decide +kernel)

end MutationLab
