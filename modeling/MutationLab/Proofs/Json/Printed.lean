import MutationLab.Json.Decoding
import MutationLab.Proofs.Json.Layout

/-! # Printed documents

A document without faults (`Json.Document.Whole`) is laid out by its compact text and by its pretty
text. So a reader makes of either text what it makes of the document
(`Json.Document.ofText_toCompact`, `Json.Document.ofText_toPretty`). -/

namespace MutationLab.Json

/-! ## Documents without faults -/

mutual

/-- A document without faults, whose numerals are numerals of JSON. -/
def Document.Whole : Document → Prop
  | .null | .bool _ => True
  | .number value => value.Sound
  | .text value => value.isSome = true
  | .array items => items.Whole
  | .object fields => fields.Whole
  | .broken _ => False

/-- A list that is closed and whose values have no faults. -/
def Items.Whole : Items → Prop
  | .closed => True
  | .unclosed _ => False
  | .item head tail => head.Whole ∧ tail.Whole

/-- An object that is closed and whose names and values have no faults. -/
def Fields.Whole : Fields → Prop
  | .closed => True
  | .unclosed _ => False
  | .field name value tail => name.isSome = true ∧ value.Whole ∧ tail.Whole

end

/-- An integer is without faults. -/
theorem Document.whole_ofInt (value : Int) : (ofInt value).Whole := Numeral.sound_ofInt value

/-- So is a natural number. -/
theorem Document.whole_ofNat (value : Nat) : (ofNat value).Whole := whole_ofInt value

/-- So is a text. -/
theorem Document.whole_ofText (value : String) : (ofText value).Whole := rfl

/-- So is a list of values that are written without faults. -/
theorem Document.whole_ofList {write : α → Document} (h : ∀ value, (write value).Whole)
    (values : List α) : (ofList (values.map write)).Whole := by
  rw [ofList, Whole]
  induction values with
  | nil => trivial
  | cons value values ih => exact ⟨h value, ih⟩

/-- So is an object with values without faults. -/
theorem Document.whole_ofFields {fields : List (String × Document)}
    (h : ∀ field ∈ fields, field.2.Whole) : (ofFields fields).Whole := by
  rw [ofFields, Whole]
  induction fields with
  | nil => trivial
  | cons field fields ih =>
    exact ⟨rfl, h _ List.mem_cons_self, ih fun f hf => h f (List.mem_cons_of_mem _ hf)⟩

/-- So is a value that may be missing. -/
theorem Document.whole_ofOption {write : α → Document} (h : ∀ value, (write value).Whole)
    (value : Option α) : (ofOption write value).Whole := by
  cases value with
  | none => trivial
  | some value => exact h value

/-! ## The two layouts -/

mutual

/-- **The compact text of a document without faults lays it out.** -/
theorem Document.lays_compact : (d : Document) → d.Whole → Lays d d.compact
  | .null, _ => .null
  | .bool true, _ => .yes
  | .bool false, _ => .no
  | .number _, h => .number h
  | .text (some value), _ => .text value
  | .array items, h => .array (items.lays_compact true h)
  | .object fields, h => .object (fields.lays_compact true h)

/-- So does the rest of a list. -/
theorem Items.lays_compact : (items : Items) → (first : Bool) → items.Whole →
    LaysItems first items (items.compact first)
  | .closed, _, _ => .closed blanks_nil
  | .item head tail, true, ⟨hhead, htail⟩ =>
      .first blanks_nil (head.lays_compact hhead) (tail.lays_compact false htail)
  | .item head tail, false, ⟨hhead, htail⟩ =>
      .next blanks_nil blanks_nil (head.lays_compact hhead)
        (tail.lays_compact false htail)

/-- So does the rest of an object. -/
theorem Fields.lays_compact : (fields : Fields) → (first : Bool) → fields.Whole →
    LaysFields first fields (fields.compact first)
  | .closed, _, _ => .closed blanks_nil
  | .field (some name) value tail, true, ⟨_, hvalue, htail⟩ => by
      have h : LaysFields true (.field (some name) value tail) _ :=
        .first blanks_nil blanks_nil blanks_nil (value.lays_compact hvalue)
          (tail.lays_compact false htail)
      rw [Fields.compact, Quoted.print]
      simpa using h
  | .field (some name) value tail, false, ⟨_, hvalue, htail⟩ => by
      have h : LaysFields false (.field (some name) value tail) _ :=
        .next blanks_nil blanks_nil blanks_nil blanks_nil (value.lays_compact hvalue)
          (tail.lays_compact false htail)
      rw [Fields.compact, Quoted.print]
      simpa using h

end

/-- A new line and its indentation are blanks. -/
theorem blanks_newLine (level : Nat) : Blanks (newLine level) := by
  intro c hc
  rw [newLine, List.mem_cons] at hc
  obtain rfl | hc := hc
  · rfl
  · rw [List.eq_of_mem_replicate hc]
    rfl

/-- So is what stands behind a colon. -/
theorem blanks_space : Blanks [' '] := by simp [Blanks, isBlank]

mutual

/-- **The pretty text of a document without faults lays it out.** -/
theorem Document.lays_prettyAt : (d : Document) → (level : Nat) → d.Whole →
    Lays d (d.prettyAt level)
  | .null, _, _ => .null
  | .bool true, _, _ => .yes
  | .bool false, _, _ => .no
  | .number _, _, h => .number h
  | .text (some value), _, _ => .text value
  | .array items, level, h => .array (items.lays_prettyAt level true h)
  | .object fields, level, h => .object (fields.lays_prettyAt level true h)

/-- So does the rest of a list. -/
theorem Items.lays_prettyAt : (items : Items) → (level : Nat) → (first : Bool) → items.Whole →
    LaysItems first items (items.prettyAt level first)
  | .closed, _, true, _ => .closed blanks_nil
  | .closed, level, false, _ => .closed (blanks_newLine level)
  | .item head tail, level, true, ⟨hhead, htail⟩ => by
      have h := LaysItems.first (blanks_newLine (level + 1)) (head.lays_prettyAt (level + 1) hhead)
        (tail.lays_prettyAt level false htail)
      rw [Items.prettyAt]
      simpa using h
  | .item head tail, level, false, ⟨hhead, htail⟩ => by
      have h := LaysItems.next blanks_nil (blanks_newLine (level + 1))
        (head.lays_prettyAt (level + 1) hhead) (tail.lays_prettyAt level false htail)
      rw [Items.prettyAt]
      simpa using h

/-- So does the rest of an object. -/
theorem Fields.lays_prettyAt : (fields : Fields) → (level : Nat) → (first : Bool) →
    fields.Whole → LaysFields first fields (fields.prettyAt level first)
  | .closed, _, true, _ => .closed blanks_nil
  | .closed, level, false, _ => .closed (blanks_newLine level)
  | .field (some name) value tail, level, true, ⟨_, hvalue, htail⟩ => by
      have h : LaysFields true (.field (some name) value tail) _ :=
        .first (blanks_newLine (level + 1)) blanks_nil blanks_space
          (value.lays_prettyAt (level + 1) hvalue) (tail.lays_prettyAt level false htail)
      rw [Fields.prettyAt, Quoted.print]
      simpa using h
  | .field (some name) value tail, level, false, ⟨_, hvalue, htail⟩ => by
      have h : LaysFields false (.field (some name) value tail) _ :=
        .next blanks_nil (blanks_newLine (level + 1)) blanks_nil blanks_space
          (value.lays_prettyAt (level + 1) hvalue) (tail.lays_prettyAt level false htail)
      rw [Fields.prettyAt, Quoted.print]
      simpa using h

end

/-! ## Reading what was printed -/

/-- What a reader makes of a text that lays out a document. -/
theorem ofText_of_lays {reader : Reader α} {d : Document} {text : String}
    (h : Lays d text.toList) : ofText reader text = reader maxLevels d := by
  simp only [ofText, read_of_lays h]
  cases reader maxLevels d with
  | error problem => rfl
  | ok value => rfl

/-- The compact text of a document is read as the document. -/
theorem Document.ofText_toCompact {d : Document} (h : d.Whole) (reader : Reader α) :
    Json.ofText reader d.toCompact = reader maxLevels d :=
  ofText_of_lays (by rw [toCompact, String.toList_ofList]; exact d.lays_compact h)

/-- So is its pretty text. -/
theorem Document.ofText_toPretty {d : Document} (h : d.Whole) (reader : Reader α) :
    Json.ofText reader d.toPretty = reader maxLevels d :=
  ofText_of_lays (by rw [toPretty, String.toList_ofList]; exact d.lays_prettyAt 0 h)

end MutationLab.Json
