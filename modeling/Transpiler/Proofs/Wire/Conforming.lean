import Mathlib.Tactic.Common
import Transpiler.Wire.Record
import Transpiler.Text.Rune

/-!
# Trees that obey the schemas

What a document has to satisfy to survive being written and read: every record has a known type and, field
by field, the encodings of its schema, nothing required is missing (`Conforms`), all texts are UTF-8
(`Utf8`), and the nesting is bounded (`depth`). Each notion is one pass over the tree, with a clause for
records, values and lists of either.
-/

namespace Transpiler.Wire

/-- The values have the encodings of the schema's fields, one for each field and in order. -/
def Schema.Fits (schema : Schema) (fields : List Value) : Prop :=
  fields.map Value.kind? = schema.fields.map fun spec => some spec.kind

lemma Schema.Fits.length_eq {schema : Schema} {fields : List Value} (h : schema.Fits fields) :
    fields.length = schema.fields.length := by
  simpa using congrArg List.length h

/-! ## Conforming records -/

mutual

/-- The record is there, its type is known, its fields fit the schema, and so does everything below. -/
def Record.Conforms (r : Record) : Prop :=
  match r with
  | .absent => False
  | .mk type _ _ _ fields =>
    (∃ schema, type.schema? = some schema ∧ schema.Fits fields) ∧ Value.AllConform fields

/-- All records conform. -/
def Record.AllConform (rs : List Record) : Prop :=
  match rs with
  | [] => True
  | r :: rest => r.Conforms ∧ Record.AllConform rest

/-- Nothing required is missing from a value. -/
def Value.Conforms (v : Value) : Prop :=
  match v with
  | .node r => r.Conforms
  | .optNode r => r.isAbsent ∨ r.Conforms
  | .nodes rs => Record.AllConform rs
  | .loc l => l.isSome
  | .other _ => False
  | .const _ | .consts _ | .optLoc _ | .string _ | .integer .. | .double _ | .uint _ => True

/-- Nothing required is missing from the fields of a record. -/
def Value.AllConform (vs : List Value) : Prop :=
  match vs with
  | [] => True
  | v :: rest => v.Conforms ∧ Value.AllConform rest

end

/-! ## Texts in a tree -/

mutual

/-- Every text in a record, however deep, is well-formed UTF-8. -/
def Record.Utf8 (r : Record) : Prop :=
  match r with
  | .absent => True
  | .mk _ _ _ _ fields => Value.AllUtf8 fields

/-- All records are UTF-8. -/
def Record.AllUtf8 (rs : List Record) : Prop :=
  match rs with
  | [] => True
  | r :: rest => r.Utf8 ∧ Record.AllUtf8 rest

/-- Every text in a value is well-formed UTF-8. -/
def Value.Utf8 (v : Value) : Prop :=
  match v with
  | .node r | .optNode r => r.Utf8
  | .nodes rs => Record.AllUtf8 rs
  | .const t | .string t => t.isUtf8
  | .consts ts => ∀ t ∈ ts, t.isUtf8
  | .loc _ | .optLoc _ | .integer .. | .double _ | .uint _ | .other _ => True

/-- All values are UTF-8. -/
def Value.AllUtf8 (vs : List Value) : Prop :=
  match vs with
  | [] => True
  | v :: rest => v.Utf8 ∧ Value.AllUtf8 rest

end

/-! ## Nesting -/

mutual

/-- How many records lie on the longest way down from a record, itself included. -/
def Record.depth (r : Record) : Nat :=
  match r with
  | .absent => 0
  | .mk _ _ _ _ fields => Value.maxDepth fields + 1

/-- The depth of the deepest. -/
def Record.maxDepth (rs : List Record) : Nat :=
  match rs with
  | [] => 0
  | r :: rest => max r.depth (Record.maxDepth rest)

/-- The depth of the deepest record in a value. -/
def Value.depth (v : Value) : Nat :=
  match v with
  | .node r | .optNode r => r.depth
  | .nodes rs => Record.maxDepth rs
  | .const _ | .consts _ | .loc _ | .optLoc _ | .string _ | .integer .. | .double _ | .uint _
  | .other _ => 0

/-- The depth of the deepest. -/
def Value.maxDepth (vs : List Value) : Nat :=
  match vs with
  | [] => 0
  | v :: rest => max v.depth (Value.maxDepth rest)

end

/-! ## Lists, entry by entry -/

lemma allConform_iff (rs : List Record) : Record.AllConform rs ↔ ∀ r ∈ rs, r.Conforms := by
  induction rs with
  | nil => simp [Record.AllConform]
  | cons r rs ih => simp [Record.AllConform, ih]

lemma allUtf8_iff (rs : List Record) : Record.AllUtf8 rs ↔ ∀ r ∈ rs, r.Utf8 := by
  induction rs with
  | nil => simp [Record.AllUtf8]
  | cons r rs ih => simp [Record.AllUtf8, ih]

lemma valuesConform_iff (vs : List Value) : Value.AllConform vs ↔ ∀ v ∈ vs, v.Conforms := by
  induction vs with
  | nil => simp [Value.AllConform]
  | cons v vs ih => simp [Value.AllConform, ih]

lemma valuesUtf8_iff (vs : List Value) : Value.AllUtf8 vs ↔ ∀ v ∈ vs, v.Utf8 := by
  induction vs with
  | nil => simp [Value.AllUtf8]
  | cons v vs ih => simp [Value.AllUtf8, ih]

lemma Record.maxDepth_le_iff (rs : List Record) (n : Nat) : Record.maxDepth rs ≤ n ↔ ∀ r ∈ rs, r.depth ≤ n := by
  induction rs with
  | nil => simp [Record.maxDepth]
  | cons r rs ih => rw [Record.maxDepth, Nat.max_le, ih, List.forall_mem_cons]

lemma Value.maxDepth_le_iff (vs : List Value) (n : Nat) : Value.maxDepth vs ≤ n ↔ ∀ v ∈ vs, v.depth ≤ n := by
  induction vs with
  | nil => simp [Value.maxDepth]
  | cons v vs ih => rw [Value.maxDepth, Nat.max_le, ih, List.forall_mem_cons]

/-! ## Documents -/

/-- Every text of a document is well-formed UTF-8: its encoding, its messages and those of its tree. -/
structure Document.Utf8 (doc : Document) : Prop where
  encoding : doc.encoding.isUtf8
  errors : ∀ n ∈ doc.errors, n.message.isUtf8
  warnings : ∀ n ∈ doc.warnings, n.message.isUtf8
  root : doc.root.Utf8

/-- A document that can be written and read back, as long as its bytes can be numbered in 32 bits. -/
structure Document.Sound (doc : Document) : Prop where
  version : doc.version = .zero ∨ doc.version.major = Version.current.major
  conforms : doc.root.Conforms
  utf8 : doc.Utf8
  depth : doc.root.depth ≤ Wire.maxDepth

/-! ## Types and their bytes -/

/-- A type with a schema is found again under its byte, which is not the byte for no record. -/
lemma RecordType.ofByte_byte {type : RecordType} {schema : Schema} (h : type.schema? = some schema) :
    .ofByte type.byte = type ∧ type.byte ≠ 0 := by
  cases type with
  | other b => simp [RecordType.schema?] at h
  | _ => decide

end Transpiler.Wire
