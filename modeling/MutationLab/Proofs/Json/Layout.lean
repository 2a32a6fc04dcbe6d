import MutationLab.Proofs.Json.Tokens

/-! # Documents and their layouts

A text lays out a document (`Json.Lays`) when it is the compact text with any blanks between its
parts. Every such text is read as the document that it lays out, to its end
(`Json.read_of_lays`). -/

namespace MutationLab.Json

/-- Nothing but blanks. -/
def Blanks (cs : List Char) : Prop := ∀ c ∈ cs, isBlank c = true

/-- There may be no blanks at all. -/
theorem blanks_nil : Blanks [] := nofun

/-! ## Layouts -/

mutual

/-- A text lays out a document: blanks may stand between its parts. -/
inductive Lays : Document → List Char → Prop
  /-- The word `null`. -/
  | null : Lays .null ['n', 'u', 'l', 'l']
  /-- The word `true`. -/
  | yes : Lays (.bool true) ['t', 'r', 'u', 'e']
  /-- The word `false`. -/
  | no : Lays (.bool false) ['f', 'a', 'l', 's', 'e']
  /-- A numeral. -/
  | number {value : Numeral} (h : value.Sound) : Lays (.number value) value.toText
  /-- A text in quotes. -/
  | text (value : String) : Lays (.text (some value)) (quote value)
  /-- A list. -/
  | array {items : Items} {cs : List Char} (h : LaysItems true items cs) :
      Lays (.array items) ('[' :: cs)
  /-- An object. -/
  | object {fields : Fields} {cs : List Char} (h : LaysFields true fields cs) :
      Lays (.object fields) ('\x7b' :: cs)

/-- A text lays out the rest of a list, before its first value or behind one. -/
inductive LaysItems : (first : Bool) → Items → List Char → Prop
  /-- The closing bracket. -/
  | closed {first : Bool} {blanks : List Char} (hblanks : Blanks blanks) :
      LaysItems first .closed (blanks ++ [']'])
  /-- The first value. -/
  | first {head : Document} {tail : Items} {blanks cs rest : List Char} (hblanks : Blanks blanks)
      (hhead : Lays head cs) (htail : LaysItems false tail rest) :
      LaysItems true (.item head tail) (blanks ++ (cs ++ rest))
  /-- One more value. -/
  | next {head : Document} {tail : Items} {before blanks cs rest : List Char}
      (hbefore : Blanks before) (hblanks : Blanks blanks) (hhead : Lays head cs)
      (htail : LaysItems false tail rest) :
      LaysItems false (.item head tail) (before ++ ',' :: (blanks ++ (cs ++ rest)))

/-- A text lays out the rest of an object, before its first field or behind one. -/
inductive LaysFields : (first : Bool) → Fields → List Char → Prop
  /-- The closing brace. -/
  | closed {first : Bool} {blanks : List Char} (hblanks : Blanks blanks) :
      LaysFields first .closed (blanks ++ ['\x7d'])
  /-- The first field. -/
  | first {name : String} {value : Document} {tail : Fields}
      {blanks behind more cs rest : List Char} (hblanks : Blanks blanks)
      (hbehind : Blanks behind) (hmore : Blanks more) (hvalue : Lays value cs)
      (htail : LaysFields false tail rest) :
      LaysFields true (.field (some name) value tail)
        (blanks ++ (quote name ++ (behind ++ ':' :: (more ++ (cs ++ rest)))))
  /-- One more field. -/
  | next {name : String} {value : Document} {tail : Fields}
      {before blanks behind more cs rest : List Char} (hbefore : Blanks before)
      (hblanks : Blanks blanks) (hbehind : Blanks behind) (hmore : Blanks more)
      (hvalue : Lays value cs) (htail : LaysFields false tail rest) :
      LaysFields false (.field (some name) value tail)
        (before ++ ',' :: (blanks ++ (quote name ++ (behind ++ ':' :: (more ++ (cs ++ rest))))))

end

/-! ## What a layout begins with -/

/-- Blanks are skipped. -/
theorem skipBlanks_append {blanks : List Char} (h : Blanks blanks) {c : Char}
    (hc : isBlank c = false) (rest : List Char) : skipBlanks (blanks ++ c :: rest) = c :: rest := by
  rw [skipBlanks, List.dropWhile_append_of_pos h, List.dropWhile_cons, if_neg (by simp [hc])]

/-- A digit is no blank. -/
theorem isBlank_of_isDigit {c : Char} (h : isDigit c = true) : isBlank c = false := by
  simp [isBlank, ne_of_isDigit h (d := ' ') rfl, ne_of_isDigit h (d := '\t') rfl,
    ne_of_isDigit h (d := '\n') rfl, ne_of_isDigit h (d := '\r') rfl]

/-- A number begins with a digit, or with a minus sign if it is negative. -/
theorem Numeral.Sound.exists_cons {n : Numeral} (h : n.Sound) :
    ∃ c rest, n.toText = c :: rest ∧ (c = '-' ∨ isDigit c = true) := by
  rw [Numeral.toText_eq]
  by_cases hnegative : n.negative = true
  · rw [if_pos hnegative]
    exact ⟨'-', _, rfl, .inl rfl⟩
  · rw [if_neg hnegative, List.nil_append, Numeral.unsignedText]
    obtain ⟨d, ds, hwhole⟩ := List.exists_cons_of_ne_nil h.whole.ne_nil
    rw [hwhole]
    exact ⟨d, _, rfl, .inr (h.whole.each d (hwhole ▸ List.mem_cons_self))⟩

/-- The text of a document begins with neither a blank nor a closing bracket. -/
theorem Lays.exists_cons {d : Document} {cs : List Char} (h : Lays d cs) :
    ∃ c rest, cs = c :: rest ∧ isBlank c = false ∧ c ≠ ']' := by
  cases h with
  | null | yes | no | text | array | object => exact ⟨_, _, rfl, rfl, by decide⟩
  | number hsound =>
    obtain ⟨c, rest, heq, rfl | hdigit⟩ := hsound.exists_cons
    · exact ⟨_, _, heq, rfl, by decide⟩
    · exact ⟨_, _, heq, isBlank_of_isDigit hdigit, ne_of_isDigit hdigit rfl⟩

/-- A number ends before a blank. -/
theorem Ends.of_isBlank {c : Char} (h : isBlank c = true) (rest : List Char) :
    Ends (c :: rest) := by
  rintro _ ⟨⟩
  simp only [isBlank, Bool.or_eq_true, decide_eq_true_eq] at h
  obtain ((rfl | rfl) | rfl) | rfl := h <;> decide

/-- A number ends before blanks with something behind them before which it ends. -/
theorem Ends.blanks_append {blanks : List Char} (h : Blanks blanks) {rest : List Char}
    (hrest : Ends rest) : Ends (blanks ++ rest) := by
  cases blanks with
  | nil => exact hrest
  | cons c blanks => exact .of_isBlank (h c List.mem_cons_self) _

/-- A number ends before the rest of a list. -/
theorem LaysItems.ends {items : Items} {cs : List Char} (h : LaysItems false items cs)
    (rest : List Char) : Ends (cs ++ rest) := by
  cases h with
  | closed hblanks =>
    rw [List.append_assoc]
    exact .blanks_append hblanks (by rintro _ ⟨⟩; decide)
  | next hbefore =>
    rw [List.append_assoc]
    exact .blanks_append hbefore (by rintro _ ⟨⟩; decide)

/-- A number ends before the rest of an object. -/
theorem LaysFields.ends {fields : Fields} {cs : List Char} (h : LaysFields false fields cs)
    (rest : List Char) : Ends (cs ++ rest) := by
  cases h with
  | closed hblanks =>
    rw [List.append_assoc]
    exact .blanks_append hblanks (by rintro _ ⟨⟩; decide)
  | next hbefore =>
    rw [List.append_assoc]
    exact .blanks_append hbefore (by rintro _ ⟨⟩; decide)

/-! ## Reading -/

section

variable {blanks : List Char} (hblanks : Blanks blanks) (fuel : Nat) (rest : List Char)

include hblanks

/-- A quote begins a text. -/
theorem readValue_quote :
    readValue (fuel + 1) (blanks ++ '"' :: rest) = orBroken .text (readText fuel rest) := by
  rw [readValue, skipBlanks_append hblanks rfl]
  rfl

/-- A minus sign begins a number. -/
theorem readValue_minus :
    readValue (fuel + 1) (blanks ++ '-' :: rest) = orBroken .number (readNumeral true rest) := by
  rw [readValue, skipBlanks_append hblanks rfl]
  rfl

/-- So does a digit. -/
theorem readValue_digit {d : Char} (hd : isDigit d = true) :
    readValue (fuel + 1) (blanks ++ d :: rest) =
      orBroken .number (readNumeral false (d :: rest)) := by
  rw [readValue, skipBlanks_append hblanks (isBlank_of_isDigit hd)]
  dsimp only
  rw [if_neg (ne_of_isDigit hd rfl), if_neg (ne_of_isDigit hd rfl), if_neg (ne_of_isDigit hd rfl),
    if_neg (ne_of_isDigit hd rfl), if_neg (ne_of_isDigit hd rfl), if_pos hd]

/-- A bracket begins a list. -/
theorem readValue_bracket {items : Items} {behind : List Char}
    (h : readItems fuel true rest = (items, behind)) :
    readValue (fuel + 1) (blanks ++ '[' :: rest) = (.array items, behind) := by
  rw [readValue, skipBlanks_append hblanks rfl]
  show ((.array (readItems fuel true rest).1, (readItems fuel true rest).2) : Document × _) = _
  rw [h]

/-- A brace begins an object. -/
theorem readValue_brace {fields : Fields} {behind : List Char}
    (h : readFields fuel true rest = (fields, behind)) :
    readValue (fuel + 1) (blanks ++ '\x7b' :: rest) = (.object fields, behind) := by
  rw [readValue, skipBlanks_append hblanks rfl]
  show ((.object (readFields fuel true rest).1, (readFields fuel true rest).2) : Document × _) = _
  rw [h]

end

/-- A number is read back. -/
theorem readValue_toText {n : Numeral} (h : n.Sound) {blanks rest : List Char}
    (hblanks : Blanks blanks) (hrest : Ends rest) (fuel : Nat) :
    readValue (fuel + 1) (blanks ++ (n.toText ++ rest)) = (.number n, rest) := by
  have hread := readNumeral_append h hrest
  rw [Numeral.toText_eq]
  -- The reader turns to a number at a minus sign or at the first digit.
  by_cases hnegative : n.negative = true
  · rw [hnegative] at hread
    rw [if_pos hnegative, List.singleton_append, List.cons_append, readValue_minus hblanks, hread]
    rfl
  · obtain ⟨d, ds, hwhole⟩ := List.exists_cons_of_ne_nil h.whole.ne_nil
    have hd : isDigit d = true := h.whole.each d (hwhole ▸ List.mem_cons_self)
    rw [Bool.not_eq_true] at hnegative
    rw [hnegative, Numeral.unsignedText, hwhole, List.cons_append, List.cons_append] at hread
    rw [hnegative, if_neg Bool.false_ne_true, List.nil_append, Numeral.unsignedText, hwhole,
      List.cons_append, List.cons_append, readValue_digit hblanks _ _ hd, hread]
    rfl

/-- What stands for a text is at least as long as the text. -/
theorem length_le_length_flatMap_escape (cs : List Char) :
    cs.length ≤ (cs.flatMap escape).length := by
  induction cs with
  | nil => exact Nat.le_refl _
  | cons c cs ih =>
    have hescape : 0 < (escape c).length := by
      rw [escape]
      split_ifs <;> exact Nat.succ_pos _
    rw [List.flatMap_cons, List.length_append, List.length_cons]
    omega

/-- A text is read back. -/
theorem readText_append {fuel : Nat} {text : String} (h : (quote text).length ≤ fuel + 1)
    (rest : List Char) :
    readText fuel (text.toList.flatMap escape ++ ['"'] ++ rest) = .ok (some text, rest) := by
  have hlength := length_le_length_flatMap_escape text.toList
  rw [quote, List.cons_append, List.length_cons, List.length_append, List.length_singleton] at h
  rw [List.append_assoc, List.singleton_append]
  exact readText_quote (by omega) rest

section

variable {blanks : List Char} (hblanks : Blanks blanks) (fuel : Nat)

include hblanks

/-- Where no bracket closes a list at once, its first value begins. -/
theorem readItems_first {c : Char} (hc : isBlank c = false) (hclose : c ≠ ']') (rest : List Char) :
    readItems (fuel + 1) true (blanks ++ c :: rest) =
      let (head, behind) := readValue fuel (c :: rest)
      let (tail, behind) := readItems fuel false behind
      (.item head tail, behind) := by
  rw [readItems, skipBlanks_append hblanks hc]
  dsimp only
  rw [if_neg hclose, if_neg (by simp), if_pos rfl]

/-- Behind a comma stands one more value. -/
theorem readItems_next (rest : List Char) :
    readItems (fuel + 1) false (blanks ++ ',' :: rest) =
      let (head, behind) := readValue fuel rest
      let (tail, behind) := readItems fuel false behind
      (.item head tail, behind) := by
  rw [readItems, skipBlanks_append hblanks rfl]
  rfl

/-- Where no brace closes an object at once, its first field begins. -/
theorem readFields_first {name : Quoted} {rest behind after : List Char}
    (hname : readText fuel rest = .ok (name, behind)) (hcolon : skipBlanks behind = ':' :: after) :
    readFields (fuel + 1) true (blanks ++ '"' :: rest) =
      let (value, behind) := readValue fuel after
      let (tail, behind) := readFields fuel false behind
      (.field name value tail, behind) := by
  have hquote : skipBlanks ('"' :: rest) = '"' :: rest := rfl
  rw [readFields, skipBlanks_append hblanks rfl]
  simp [hquote, hname, hcolon]

/-- Behind a comma stands one more field. -/
theorem readFields_next {before : List Char} (hbefore : Blanks before) {name : Quoted}
    {rest behind after : List Char} (hname : readText fuel rest = .ok (name, behind))
    (hcolon : skipBlanks behind = ':' :: after) :
    readFields (fuel + 1) false (before ++ ',' :: (blanks ++ '"' :: rest)) =
      let (value, behind) := readValue fuel after
      let (tail, behind) := readFields fuel false behind
      (.field name value tail, behind) := by
  rw [readFields, skipBlanks_append hbefore rfl]
  simp [skipBlanks_append hblanks (c := '"') rfl, hname, hcolon]

end

-- By recursion on the document. Readers of values and of what is left of a list or an object take
-- turns, each with less fuel, so a text needs fuel for twice its length.
mutual

/-- **A document is read back from every text that lays it out**, with any blanks in front. -/
theorem readValue_of_lays : (d : Document) → {cs : List Char} → Lays d cs → (fuel : Nat) →
    2 * cs.length ≤ fuel → {blanks rest : List Char} → Blanks blanks → Ends rest →
    readValue fuel (blanks ++ (cs ++ rest)) = (d, rest)
  | d, cs, h, 0, hfuel, _, _, _, _ => by
      -- No text that lays out a document is empty.
      obtain ⟨c, rest, rfl, -⟩ := h.exists_cons
      exact absurd hfuel (by simp)
  | .null, _, .null, fuel + 1, _, _, _, hblanks, _ => by
      rw [readValue, List.cons_append, skipBlanks_append hblanks rfl]
      rfl
  | .bool true, _, .yes, fuel + 1, _, _, _, hblanks, _ => by
      rw [readValue, List.cons_append, skipBlanks_append hblanks rfl]
      rfl
  | .bool false, _, .no, fuel + 1, _, _, _, hblanks, _ => by
      rw [readValue, List.cons_append, skipBlanks_append hblanks rfl]
      rfl
  | .number n, _, .number h, fuel + 1, _, _, _, hblanks, hrest =>
      readValue_toText h hblanks hrest fuel
  | .text (some value), _, .text _, fuel + 1, hfuel, _, _, hblanks, _ => by
      rw [quote, List.cons_append, List.cons_append, readValue_quote hblanks,
        readText_append (by omega)]
      rfl
  | .array items, _, .array h, fuel + 1, hfuel, _, rest, hblanks, _ => by
      rw [List.length_cons] at hfuel
      exact readValue_bracket hblanks _ _ (readItems_of_lays items h fuel (by omega) _)
  | .object fields, _, .object h, fuel + 1, hfuel, _, _, hblanks, _ => by
      rw [List.length_cons] at hfuel
      exact readValue_brace hblanks _ _ (readFields_of_lays fields h fuel (by omega) _)

/-- The rest of a list is read back. -/
theorem readItems_of_lays : (items : Items) → {first : Bool} → {cs : List Char} →
    LaysItems first items cs → (fuel : Nat) → 2 * cs.length < fuel → (rest : List Char) →
    readItems fuel first (cs ++ rest) = (items, rest)
  | .closed, _, _, .closed hblanks, fuel + 1, _, rest => by
      rw [readItems, List.append_assoc, List.singleton_append, skipBlanks_append hblanks rfl]
      rfl
  | .item head tail, _, _, .first hblanks hhead htail, fuel + 1, hfuel, rest => by
      -- The first character of the value closes no list, so the reader takes it for a value.
      obtain ⟨c, more, rfl, hc, hclose⟩ := hhead.exists_cons
      simp only [List.length_append, List.length_cons] at hfuel
      have hvalue := readValue_of_lays head hhead fuel (by rw [List.length_cons]; omega) blanks_nil
        (htail.ends rest)
      have hitems := readItems_of_lays tail htail fuel (by omega) rest
      rw [List.append_assoc, List.append_assoc, List.cons_append,
        readItems_first hblanks _ hc hclose]
      rw [List.nil_append, List.cons_append] at hvalue
      rw [hvalue]
      dsimp only
      rw [hitems]
  | .item head tail, _, _, .next hbefore hblanks hhead htail, fuel + 1, hfuel, rest => by
      simp only [List.length_append, List.length_cons] at hfuel
      have hvalue := readValue_of_lays head hhead fuel (by omega) hblanks
        (htail.ends rest)
      have hitems := readItems_of_lays tail htail fuel (by omega) rest
      rw [List.append_assoc, List.cons_append, List.append_assoc, List.append_assoc,
        readItems_next hbefore, hvalue]
      dsimp only
      rw [hitems]

/-- The rest of an object is read back. -/
theorem readFields_of_lays : (fields : Fields) → {first : Bool} → {cs : List Char} →
    LaysFields first fields cs → (fuel : Nat) → 2 * cs.length < fuel → (rest : List Char) →
    readFields fuel first (cs ++ rest) = (fields, rest)
  | .closed, _, _, .closed hblanks, fuel + 1, _, rest => by
      rw [readFields, List.append_assoc, List.singleton_append, skipBlanks_append hblanks rfl]
      rfl
  | .field (some name) value tail, _, _, .first hblanks hbehind hmore hvalue htail, fuel + 1,
      hfuel, rest => by
      simp only [List.length_append, List.length_cons] at hfuel
      have hname := readText_append (show (quote name).length ≤ fuel + 1 by omega)
      have hvalue := readValue_of_lays value hvalue fuel (by omega) hmore
        (htail.ends rest)
      have hfields := readFields_of_lays tail htail fuel (by omega) rest
      have hcolon := skipBlanks_append hbehind (show isBlank ':' = false from rfl)
      simp only [quote, List.append_assoc, List.cons_append] at hname ⊢
      rw [readFields_first hblanks _ (hname _) (hcolon _), hvalue]
      dsimp only
      rw [hfields]
  | .field (some name) value tail, _, _, .next hbefore hblanks hbehind hmore hvalue htail, fuel + 1,
      hfuel, rest => by
      simp only [List.length_append, List.length_cons] at hfuel
      have hname := readText_append (show (quote name).length ≤ fuel + 1 by omega)
      have hvalue := readValue_of_lays value hvalue fuel (by omega) hmore
        (htail.ends rest)
      have hfields := readFields_of_lays tail htail fuel (by omega) rest
      have hcolon := skipBlanks_append hbehind (show isBlank ':' = false from rfl)
      simp only [quote, List.append_assoc, List.cons_append] at hname ⊢
      rw [readFields_next hblanks _ hbefore (hname _) (hcolon _), hvalue]
      dsimp only
      rw [hfields]

end

/-- **A text that lays out a document is read as the document, to its end.** -/
theorem read_of_lays {d : Document} {cs : List Char} (h : Lays d cs) : read cs = (d, []) := by
  have hread := readValue_of_lays d h (2 * cs.length + 2) (by omega) blanks_nil
    (show Ends [] from nofun)
  rwa [List.nil_append, List.append_nil] at hread

end MutationLab.Json
