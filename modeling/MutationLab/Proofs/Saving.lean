import MutationLab.Code.Written
import MutationLab.Loading
import MutationLab.Proofs.Encoding
import MutationLab.Proofs.Files
import MutationLab.Proofs.Json.Printed
import MutationLab.Proofs.Success

/-! # Modules are read as they were written

A reader undoes a writer (`Json.Undoes`) when it reads from every document that the writer makes the
value that was written, if enough levels are left. Values, lists and optional values are read back,
and with them locations, instructions, functions and modules. Documents of modules have no faults,
so either layout of a module is read as the module (`Module.text_exact`). -/

namespace MutationLab

open Json (Document Fields Items Reader)
open Json.Document (text?)

namespace Json

/-- A reader undoes a writer, if `depth` levels are left. -/
def Undoes (reader : Reader α) (depth : Nat) (write : α → Document) : Prop :=
  ∀ levels value, depth ≤ levels → reader levels (write value) = .ok value

/-! ## Values -/

/-- Texts are read back. -/
theorem undoes_string : Undoes readString 0 .ofText := fun _ _ _ => rfl

/-- Integers between bounds of 64 bits are read back. -/
theorem readInteger_ofInt {low high value : Int} (hlow : -2 ^ 63 ≤ low) (hhigh : high < 2 ^ 64)
    (hvalue : low ≤ value ∧ value ≤ high) (levels : Nat) :
    readInteger low high levels (.ofInt value) = .ok value := by
  have hinteger : (Numeral.ofInt value).integer? = some value :=
    Numeral.integer?_ofInt (by omega) (by omega)
  rw [Document.ofInt, readInteger]
  simp only [hinteger, if_pos hvalue]

/-- Unsigned numbers of four bytes are read back. -/
theorem undoes_uint32 : Undoes readUInt32 0 fun n => .ofNat n.toNat := by
  intro levels n _
  have h := n.toNat_lt
  have hread : readInteger 0 (UInt32.size - 1) levels (.ofInt n.toNat) = .ok (n.toNat : Int) :=
    readInteger_ofInt (by decide) (by decide) (by simp only [UInt32.size]; omega) levels
  rw [readUInt32]
  show (readInteger _ _ _ (Document.ofInt n.toNat) >>= _) = _
  rw [hread]
  show Except.ok (UInt32.ofNat (n.toNat : Int).toNat) = _
  rw [Int.toNat_natCast, UInt32.ofNat_toNat]

/-- An optional value is read back, if no value is written as `null`. -/
theorem Undoes.option {reader : Reader α} {depth : Nat} {write : α → Document}
    (h : Undoes reader depth write) (hnull : ∀ value, write value ≠ .null) :
    Undoes (readOption reader) depth (.ofOption write) := by
  intro levels value hlevels
  cases value with
  | none => rfl
  | some value =>
    rw [Document.ofOption, readOption]
    · rw [h levels value hlevels]
      rfl
    · exact hnull value

/-- A list takes one more level. -/
theorem Undoes.list {reader : Reader α} {depth : Nat} {write : α → Document}
    (h : Undoes reader depth write) :
    Undoes (readList reader) (depth + 1) fun values => .ofList (values.map write) := by
  intro levels values hlevels
  obtain ⟨levels, rfl⟩ := Nat.exists_eq_add_of_le' hlevels
  -- The levels are counted down once for the list, not for each of its values.
  show Items.readAll reader (levels + depth) _ = _
  induction values with
  | nil => rfl
  | cons value values ih =>
    rw [List.map_cons, List.foldr_cons, Items.readAll, h _ value (by omega), ih]
    rfl

/-- A field that fills an empty slot with a value that is read back. -/
theorem Undoes.fill {reader : Reader α} {depth : Nat} {write : α → Document}
    (h : Undoes reader depth write) {levels : Nat} (hlevels : depth ≤ levels) (value : α) :
    fill none reader levels (write value) = .ok (some value) := by
  rw [Json.fill, h levels value hlevels]
  rfl

end Json

/-! ## Locations -/

/-- Locations are read back. -/
theorem Location.undoes : Json.Undoes ofJson 1 toJson := by
  intro levels l hlevels
  obtain ⟨levels, rfl⟩ := Nat.exists_eq_add_of_le' hlevels
  have hfile := Json.undoes_string.fill (Nat.zero_le levels) l.file
  have hline := Json.undoes_uint32.fill (Nat.zero_le levels) l.line
  have hcolumn := Json.undoes_uint32.fill (Nat.zero_le levels) l.column
  simp [ofJson, toJson, Document.ofFields, Json.enter, Fields.gather, Json.required, hfile, hline,
    hcolumn]

/-! ## Values that are kept -/

namespace Json

/-- A document can be kept, if `depth` levels are left. -/
def Document.Keeps (depth : Nat) (d : Document) : Prop :=
  ∀ levels, depth ≤ levels → d.keep levels = .ok ()

namespace Document.Keeps

/-- More levels do no harm. -/
theorem mono {depth more : Nat} {d : Document} (h : d.Keeps depth) (hmore : depth ≤ more) :
    d.Keeps more :=
  fun levels hlevels => h levels (Nat.le_trans hmore hlevels)

/-- Integers of 64 bits can be kept. -/
theorem ofInt {value : Int} (hlow : -2 ^ 63 ≤ value) (hhigh : value < 2 ^ 64) :
    (Document.ofInt value).Keeps 0 := by
  intro levels _
  rw [Document.ofInt, keep, Numeral.tooLarge, Numeral.integer?_ofInt hlow hhigh]
  rfl

/-- Lists can be kept when their values can. -/
theorem ofList {depth : Nat} {write : α → Document} (h : ∀ value, (write value).Keeps depth)
    (values : List α) : (Document.ofList (values.map write)).Keeps (depth + 1) := by
  intro levels hlevels
  obtain ⟨levels, rfl⟩ := Nat.exists_eq_add_of_le' hlevels
  show Items.keep (levels + depth) _ = _
  induction values with
  | nil => rfl
  | cons value values ih =>
    rw [List.map_cons, List.foldr_cons, Items.keep, h value (levels + depth) (by omega), ok_bind]
    exact ih

/-- So can objects. -/
theorem ofFields {depth : Nat} {fields : List (String × Document)}
    (h : ∀ field ∈ fields, field.2.Keeps depth) :
    (Document.ofFields fields).Keeps (depth + 1) := by
  intro levels hlevels
  obtain ⟨levels, rfl⟩ := Nat.exists_eq_add_of_le' hlevels
  show Fields.keep (levels + depth) _ = _
  induction fields with
  | nil => rfl
  | cons field fields ih =>
    have hvalue := h field List.mem_cons_self (levels + depth) (by omega)
    rw [List.foldr_cons, Fields.keep, hvalue, ok_bind]
    exact ih fun f hf => h f (List.mem_cons_of_mem _ hf)

end Document.Keeps

end Json

namespace Operation

/-- Registers can be kept. -/
theorem keeps_registerJson (r : Register) : (registerJson r).Keeps 0 :=
  .ofInt (by omega) (by have := r.toNat_lt; omega)

/-- Positions can be kept. -/
theorem keeps_position (n : UInt64) : (Document.ofNat n.toNat).Keeps 0 :=
  .ofInt (by omega) (by have := n.toNat_lt; omega)

/-- Numbers for registers can be kept. -/
theorem keeps_value (value : Int64) : (Document.ofInt value.toInt).Keeps 0 :=
  .ofInt value.le_toInt (by have := value.toInt_lt; omega)

/-- Registers that may be missing can be kept. -/
theorem keeps_ofOption (r : Option Register) : (Document.ofOption registerJson r).Keeps 0 := by
  cases r with
  | none => exact fun _ _ => rfl
  | some r => exact keeps_registerJson r

/-- Targets can be kept. -/
theorem keeps_targetJson (target : DispatchTarget) : (targetJson target).Keeps 1 := by
  refine .ofFields fun field hfield => ?_
  simp only [List.mem_cons, List.not_mem_nil, or_false] at hfield
  obtain rfl | rfl := hfield
  · exact fun _ _ => rfl
  · exact fun _ _ => rfl

/-- The fields of an operation can be kept, and none is a location. -/
theorem keeps_fields (operation : Operation) :
    ∀ field ∈ operation.fields, field.1 ≠ "location" ∧ field.2.Keeps 2 := by
  -- Targets need both levels: they are objects in a list.
  have htext (text : String) : (Document.ofText text).Keeps 2 := fun _ _ => rfl
  have hregister (r : Register) := (keeps_registerJson r).mono (Nat.zero_le 2)
  have hposition (n : UInt64) := (keeps_position n).mono (Nat.zero_le 2)
  have hoption (r : Option Register) := (keeps_ofOption r).mono (Nat.zero_le 2)
  have hvalue (n : Int64) := (keeps_value n).mono (Nat.zero_le 2)
  have hregisters (rs : List Register) : (Document.ofList (rs.map registerJson)).Keeps 2 :=
    .ofList (fun r => (keeps_registerJson r).mono (Nat.zero_le 1)) rs
  have htargets (targets : List DispatchTarget) :
      (Document.ofList (targets.map targetJson)).Keeps 2 :=
    .ofList keeps_targetJson targets
  cases operation <;>
    simp [fields, htext, hregister, hposition, hvalue, hoption, hregisters, htargets]

/-! ## Operations -/

/-- Integers between bounds of 64 bits are read back. -/
theorem integer?_ofInt {low high value : Int} (hlow : -2 ^ 63 ≤ low) (hhigh : high < 2 ^ 64)
    (hvalue : low ≤ value ∧ value ≤ high) : integer? low high (.ofInt value) = some value := by
  rw [integer?, Document.ofInt, Document.integer?,
    Json.Numeral.integer?_ofInt (by omega) (by omega)]
  simp [hvalue]

/-- Registers are read back. -/
theorem register?_registerJson (r : Register) : register? (registerJson r) = some r := by
  have h := r.toNat_lt
  rw [register?, registerJson, Document.ofNat,
    integer?_ofInt (by decide) (by decide) (by simp only [UInt32.size]; omega)]
  simp

/-- Positions are read back. -/
theorem position?_ofNat (n : UInt64) : position? (.ofNat n.toNat) = some n := by
  have h := n.toNat_lt
  rw [position?, Document.ofNat,
    integer?_ofInt (by decide) (by decide) (by simp only [UInt64.size]; omega)]
  simp

/-- Numbers for registers are read back. -/
theorem value?_ofInt (value : Int64) : value? (.ofInt value.toInt) = some value := by
  rw [value?, integer?_ofInt (by decide) (by decide) ⟨value.minValue_le_toInt, value.toInt_le⟩]
  simp

/-- Registers that may be missing are read back. -/
theorem registerOrNull?_ofOption (r : Option Register) :
    registerOrNull? (.ofOption registerJson r) = some r := by
  cases r with
  | none => rfl
  | some r =>
    show some <$> register? (registerJson r) = _
    rw [register?_registerJson]
    rfl

/-- Lists are read back when their values are. -/
theorem list?_ofList {read : Document → Option α} {write : α → Document}
    (h : ∀ value, read (write value) = some value) (values : List α) :
    list? read (.ofList (values.map write)) = some values := by
  rw [Document.ofList, list?, Json.Items.toList_foldr]
  induction values with
  | nil => rfl
  | cons value values ih => rw [List.map_cons, List.mapM_cons, h, ih]; rfl

/-- Targets are read back. -/
theorem target?_targetJson (target : DispatchTarget) :
    target? (targetJson target) = some target := by
  simp [target?, targetJson, Document.ofFields, Kept.need, Kept.only?, Document.ofText, text?,
    Fields.toList]

/-- The operation of an instruction is read back from the fields that were kept. -/
theorem ofInstruction_fields (operation : Operation) :
    ofInstruction (("op", .ofText operation.name) :: operation.fields) = some operation := by
  have hkind (kind : BinaryKind) : name? BinaryKind.names (.ofText kind.name) = some kind :=
    kind.lookup_name
  have hpredicate (predicate : Predicate) :
      name? Predicate.names (.ofText predicate.name) = some predicate :=
    predicate.lookup_name
  have htext (text : String) : text? (.ofText text) = some text := rfl
  have htag (name : String) : nameOfTag? (.ofText name) = some name := rfl
  have hregisters := list?_ofList register?_registerJson
  have htargets := list?_ofList target?_targetJson
  -- Every field is found under its own name and read back as what it was written for.
  cases operation <;>
    simp [ofInstruction, name, fields, ofKept, Kept.only?, Kept.need, Kept.get, htag, htext, hkind,
      hpredicate, hregisters, htargets, register?_registerJson, position?_ofNat, value?_ofInt,
      registerOrNull?_ofOption]

end Operation

/-! ## Instructions, functions, modules -/

/-- Fields that can be kept are gathered in their order. -/
theorem Instruction.gather_append {levels : Nat} {fields : List (String × Document)}
    (h : ∀ field ∈ fields, field.1 ≠ "location" ∧ field.2.Keeps levels) (tail : Fields)
    (p : Partial) :
    gather levels (fields.foldr (fun field => .field (some field.1) field.2) tail) p =
      gather levels tail { p with kept := fields.reverse ++ p.kept } := by
  induction fields generalizing p with
  | nil => rfl
  | cons field fields ih =>
    obtain ⟨hname, hkeep⟩ := h field List.mem_cons_self
    rw [List.foldr_cons, gather, hkeep levels (Nat.le_refl _), ok_bind,
      ih fun f hf => h f (List.mem_cons_of_mem _ hf)]
    · simp
    · exact hname

/-- Instructions are read back. -/
theorem Instruction.undoes : Json.Undoes ofJson 3 toJson := by
  intro levels i hlevels
  obtain ⟨levels, rfl⟩ := Nat.exists_eq_add_of_le' hlevels
  have hfields : ∀ field ∈ ("op", Document.ofText i.operation.name) :: i.operation.fields,
      field.1 ≠ "location" ∧ field.2.Keeps (levels + 2) := by
    intro field hfield
    obtain rfl | hfield := List.mem_cons.mp hfield
    · exact ⟨show "op" ≠ "location" by decide, fun _ _ => rfl⟩
    · obtain ⟨hname, hkeep⟩ := i.operation.keeps_fields field hfield
      exact ⟨hname, hkeep.mono (Nat.le_add_left 2 levels)⟩
  have hlocation := (Location.undoes.option nofun).fill (show 1 ≤ levels + 2 by omega) i.location
  -- The location comes last, behind fields that are only kept.
  have hgather := gather_append hfields
    (.field (some "location") (.ofOption Location.toJson i.location) .closed) {}
  rw [toJson, Document.ofFields, List.foldr_append, ofJson, Json.enter, ok_bind]
  dsimp only [List.foldr_cons, List.foldr_nil] at hgather ⊢
  rw [hgather, gather, hlocation, ok_bind, gather]
  simp [Operation.ofInstruction_fields]

/-- Functions are read back. -/
theorem Function.undoes : Json.Undoes ofJson 5 toJson := by
  intro levels f hlevels
  obtain ⟨levels, rfl⟩ := Nat.exists_eq_add_of_le' hlevels
  have hname := Json.undoes_string.fill (Nat.zero_le (levels + 4)) f.name
  have hparams := Json.undoes_uint32.fill (Nat.zero_le (levels + 4)) f.params
  have hbody := Instruction.undoes.list.fill (Nat.le_add_left 4 levels) f.body
  have hlocation := (Location.undoes.option nofun).fill (show 1 ≤ levels + 4 by omega) f.location
  simp [ofJson, toJson, Document.ofFields, Json.enter, Fields.gather, Json.required, hname,
    hparams, hbody, hlocation]

/-- Modules are read back. -/
theorem Module.undoes : Json.Undoes ofJson 7 toJson := by
  intro levels m hlevels
  obtain ⟨levels, rfl⟩ := Nat.exists_eq_add_of_le' hlevels
  have hname := Json.undoes_string.fill (Nat.zero_le (levels + 6)) m.name
  have hfunctions := Function.undoes.list.fill (Nat.le_add_left 6 levels) m.functions
  simp [ofJson, toJson, Document.ofFields, Json.enter, Fields.gather, Json.required, hname,
    hfunctions]

/-! ## Documents of code have no faults -/

/-- Locations are written without faults. -/
theorem Location.whole_toJson (l : Location) : l.toJson.Whole := by
  refine Document.whole_ofFields ?_
  simp [Document.whole_ofText, Document.whole_ofNat]

/-- Registers are. -/
theorem Operation.whole_registerJson (r : Register) : (registerJson r).Whole :=
  Document.whole_ofNat _

/-- Targets are. -/
theorem Operation.whole_targetJson (target : DispatchTarget) : (targetJson target).Whole := by
  refine Document.whole_ofFields ?_
  simp [Document.whole_ofText]

/-- So are the fields of operations. -/
theorem Operation.whole_fields (operation : Operation) :
    ∀ field ∈ operation.fields, field.2.Whole := by
  have hregisters := Document.whole_ofList whole_registerJson
  have htargets := Document.whole_ofList whole_targetJson
  have hoption := Document.whole_ofOption whole_registerJson
  cases operation <;>
    simp [fields, Document.whole_ofText, Document.whole_ofNat, Document.whole_ofInt,
      whole_registerJson, hoption, hregisters, htargets]

/-- So are instructions. -/
theorem Instruction.whole_toJson (i : Instruction) : i.toJson.Whole := by
  refine Document.whole_ofFields ?_
  simp only [List.cons_append, List.forall_mem_cons, List.forall_mem_append]
  exact ⟨Document.whole_ofText _, i.operation.whole_fields,
    Document.whole_ofOption Location.whole_toJson i.location, nofun⟩

/-- So are functions. -/
theorem Function.whole_toJson (f : Function) : f.toJson.Whole := by
  refine Document.whole_ofFields ?_
  simp [Document.whole_ofText, Document.whole_ofNat,
    Document.whole_ofList Instruction.whole_toJson, Document.whole_ofOption Location.whole_toJson]

/-- So are modules. -/
theorem Module.whole_toJson (m : Module) : m.toJson.Whole := by
  refine Document.whole_ofFields ?_
  simp [Document.whole_ofText, Document.whole_ofList Function.whole_toJson]

/-! ## Modules as texts -/

namespace Module

/-- The compact text of a module is read as the module. -/
theorem ofText_toCompact (m : Module) : ofText m.toJson.toCompact = .ok m := by
  rw [ofText, Document.ofText_toCompact m.whole_toJson]
  exact undoes Json.maxLevels m (by decide)

/-- So is its pretty text. -/
theorem ofText_toPretty (m : Module) : ofText m.toJson.toPretty = .ok m := by
  rw [ofText, Document.ofText_toPretty m.whole_toJson]
  exact undoes Json.maxLevels m (by decide)

/-- A file with a text of a module is read as the module. -/
theorem readFrom_write {files files' : FileTree} {path text : String} {m : Module}
    (htext : ofText text = .ok m) (hwrite : files.write path (Text.utf8 text) = some files') :
    readFrom files' path = .ok m := by
  have hutf8 : Text.ofUtf8? (Text.utf8 text) = some text := Text.ofUtf8?_eq_some_iff.mpr rfl
  rw [readFrom, FileTree.read_write hwrite, Option.bind_some, hutf8]
  dsimp only
  rw [htext]

/-- **Modules and their texts.** Every module is read back from its pretty text and from its compact
text, so modules with the same compact text are the same. A module that is saved to a file in either
layout is read from the file as it was, with the content hash that it had. -/
theorem text_exact (m : Module) :
    ofText m.toJson.toPretty = .ok m ∧
    ofText m.toJson.toCompact = .ok m ∧
    (∀ other : Module, other.toJson.toCompact = m.toJson.toCompact → other = m) ∧
    ∀ text ∈ [m.toJson.toPretty, m.toJson.toCompact], ∀ (files files' : FileTree) (path : String),
      files.write path (Text.utf8 text) = some files' →
      readFrom files' path = .ok m ∧
        (readFrom files' path).map contentHash = .ok m.contentHash := by
  refine ⟨m.ofText_toPretty, m.ofText_toCompact, ?_, ?_⟩
  · intro other h
    have hother := other.ofText_toCompact
    rw [h, m.ofText_toCompact] at hother
    exact (Except.ok.inj hother).symm
  · intro text htext files files' path hwrite
    have hread : ofText text = .ok m := by
      simp only [List.mem_cons, List.not_mem_nil, or_false] at htext
      obtain rfl | rfl := htext
      · exact m.ofText_toPretty
      · exact m.ofText_toCompact
    rw [readFrom_write hread hwrite]
    exact ⟨rfl, rfl⟩

end Module

namespace Example

/-- A module with an operation of every kind, great numbers, and texts that need escapes. -/
def varied : Module :=
  { name := "größe\\\"\n\u0001.c"
    functions := [{
      name := "all", params := 4294967295, location := some ⟨"", 0, 4294967295⟩
      body := [⟨.const 0 (-9223372036854775808), none⟩,
        ⟨.binary 1 .aShr 0 0, some ⟨"a\tb", 1, 2⟩⟩, ⟨.compare 2 .slt 0 1, none⟩,
        ⟨.call none "f" [], none⟩, ⟨.call (some 3) "g" [0, 1], none⟩,
        ⟨.jump 18446744073709551615, none⟩, ⟨.branch 2 0 6, none⟩, ⟨.return none, none⟩,
        ⟨.print 0, none⟩, ⟨.trap "\u001f", none⟩, ⟨.nop, none⟩,
        ⟨.dispatch "f$original" [⟨"m:f:0:x", "f$1"⟩], none⟩] }] }

end Example

/-- `Module.text_exact` at a module that is saved in the working directory. -/
theorem Module.text_exact_example :
    ∃ files : FileTree,
      ({} : FileTree).write "varied.json" (Text.utf8 Example.varied.toJson.toPretty) =
        some files ∧
      readFrom files "varied.json" = .ok Example.varied ∧
      (readFrom files "varied.json").map contentHash = .ok Example.varied.contentHash := by
  obtain ⟨-, -, -, hsaved⟩ := text_exact Example.varied
  have hplace : ({} : FileTree).resolve "varied.json" = some ["varied.json"] := by decide +kernel
  have hwrite : ({} : FileTree).write "varied.json" (Text.utf8 Example.varied.toJson.toPretty) =
      some _ :=
    FileTree.write_eq_some_iff.mpr ⟨_, hplace, by decide +kernel, rfl⟩
  exact ⟨_, hwrite, hsaved _ List.mem_cons_self _ _ _ hwrite⟩

end MutationLab
