import Transpiler.Proofs.Wire.RoundTrip

/-!
# What the reader can give

The reader is handed arbitrary bytes: numbers may have more groups than they need, the pool may lie anywhere, its
constants may be unused or stand twice, and every byte but zero says that something is present. None of this shows in
what is read. A reader `Yields` a property if its result has it on every tape on which it succeeds; what is read obeys
the schemas, so it is among the documents that can be written and read back (`Document.reencodable`).
-/

namespace Transpiler.Wire

open List DocRead Nat Document

variable {ε δ α β : Type}

/-! ## Properties of results -/

/-- Wherever the reader succeeds, its result has the property. -/
def Read.Yields (r : Read ε α) (P : α → Prop) : Prop :=
  ∀ t a t', r t = .ok a t' → P a

open Read (Yields)

namespace Read.Yields

variable {P : α → Prop} {Q : β → Prop}

lemma any (r : Read ε α) : Yields r fun _ => True := fun _ _ _ _ => trivial

lemma pure {a : α} (h : P a) : Yields (pure a : Read ε α) P := by
  rintro t b t' hb
  obtain ⟨rfl, -⟩ := EStateM.Result.ok.inj hb
  exact h

lemma bind {r : Read ε α} {f : α → Read ε β} (h : Yields r P) (hf : ∀ a, P a → Yields (f a) Q) :
    Yields (r >>= f) Q := by
  intro t b t' hb
  cases hr : r t with
  | ok a t₁ =>
    rw [bind_of_eq_ok hr] at hb
    exact hf a (h t a t₁ hr) t₁ b t' hb
  | error e t₁ =>
    rw [bind_of_eq_error hr] at hb
    cases hb

lemma mapFault {r : Read ε α} (h : Yields r P) (f : ε → δ) : Yields (.mapFault f r) P := by
  intro t a t' ha
  cases hr : r t with
  | ok b t₁ =>
    simp only [Read.mapFault, hr] at ha
    obtain ⟨rfl, -⟩ := EStateM.Result.ok.inj ha
    exact h t b t₁ hr
  | error e t₁ =>
    simp only [Read.mapFault, hr] at ha
    cases ha

lemma raw {r : RawRead α} (h : Yields r P) : Yields (raw r) P := h.mapFault _

lemma within {r : DocRead α} (h : Yields r P) (place : Text) : Yields (within place r) P :=
  h.mapFault _

lemma refuse (fault : DocumentFault) : Yields (refuse fault) P := by
  intro t a t' ha
  cases ha

lemma fail (f : Nat → ε) : Yields (.fail f) P := by
  intro t a t' ha
  cases ha

lemma ite {c : Prop} [Decidable c] {r s : Read ε α} (hr : c → Yields r P) (hs : ¬c → Yields s P) :
    Yields (if c then r else s) P := by
  by_cases h : c
  · rw [if_pos h]
    exact hr h
  · rw [if_neg h]
    exact hs h

lemma many {r : Nat → DocRead α} (h : ∀ index, Yields (r index) P) (n index : Nat) :
    Yields (many r n index) fun xs => ∀ x ∈ xs, P x := by
  induction n generalizing index with
  | zero => exact pure (by simp)
  | succ n ih =>
    refine (h index).bind fun a ha => (ih (index + 1)).bind fun rest hrest => pure ?_
    intro x hx
    rcases mem_cons.1 hx with rfl | hx
    · exact ha
    · exact hrest x hx

end Read.Yields

/-! ## Texts -/

lemma yields_name : Yields .name fun t => t.isUtf8 := by
  refine (Yields.any _).bind fun length _ => (Yields.any _).bind fun t _ => ?_
  exact .ite (fun h => .pure h) fun _ => .fail _

lemma yields_notices (what : Text) : Yields (notices what) fun ns => ∀ n ∈ ns, n.message.isUtf8 := by
  refine (Yields.any _).bind fun n _ => .many (fun index => .within ?_ _) n 0
  refine yields_name.raw.bind fun message hmessage => ?_
  refine (Yields.any _).bind fun loc _ => (Yields.any _).bind fun level _ => ?_
  exact .pure hmessage

lemma yields_pool (data : Text) (place n : Nat) : Yields (pool data place n) fun pool => ∀ t ∈ pool, t.isUtf8 := by
  refine (Yields.any _).bind fun _ _ => (Yields.any _).bind fun left _ => ?_
  refine .ite (fun _ => .refuse _) fun _ => ?_
  exact .many (fun index => yields_name.raw.within _) n 0

lemma yields_constant {consts : Array Text} (hutf : ∀ t ∈ consts.toList, t.isUtf8) :
    Yields (constant consts) fun t => t.isUtf8 := by
  refine (Yields.any _).bind fun index _ => ?_
  cases index.toNat with
  | zero => exact .refuse _
  | succ i =>
    cases hi : consts[i]? with
    | none =>
      simp only [hi]
      exact .refuse _
    | some t =>
      simp only [hi]
      exact .pure (hutf t (Array.mem_toList_iff.2 (Array.mem_of_getElem? hi)))

/-! ## Records -/

/-- A record that obeys the schemas, holds UTF-8 only and is at most so deep. -/
structure Record.Within (depth : Nat) (r : Record) : Prop where
  conforms : r.Conforms
  utf8 : r.Utf8
  depth_le : r.depth ≤ depth

/-- A value that a record of that depth may have as a field of that encoding. -/
structure Value.Within (depth : Nat) (kind : FieldKind) (v : Value) : Prop where
  kind_eq : v.kind? = some kind
  conforms : v.Conforms
  utf8 : v.Utf8
  depth_le : v.depth ≤ depth

/-- What a reader of records may give: none where none is needed, and otherwise a record within the depth. -/
def Record.Allowed (depth : Nat) (optional : Bool) (r : Record) : Prop :=
  optional ∧ r = .absent ∨ r.Within depth

lemma Record.Allowed.within {depth : Nat} {r : Record} (h : r.Allowed depth false) : r.Within depth := by
  rcases h with ⟨hoptional, -⟩ | h
  · cases hoptional
  · exact h

section Fields

variable {consts : Array Text} {child : Bool → DocRead Record} {depth : Nat}

lemma yields_value (hutf : ∀ t ∈ consts.toList, t.isUtf8)
    (hchild : ∀ optional, Yields (child optional) (Record.Allowed depth optional)) (kind : FieldKind) :
    Yields (value consts child kind) (Value.Within depth kind) := by
  cases kind with
  | node =>
    refine (hchild false).bind fun r hr => .pure ?_
    exact ⟨rfl, hr.within.conforms, hr.within.utf8, hr.within.depth_le⟩
  | optNode =>
    refine (hchild true).bind fun r hr => .pure ?_
    rcases hr with ⟨-, rfl⟩ | hr
    · exact ⟨rfl, .inl rfl, trivial, zero_le _⟩
    · exact ⟨rfl, .inr hr.conforms, hr.utf8, hr.depth_le⟩
  | nodes =>
    refine (Yields.any _).bind fun n _ => ?_
    refine (Yields.many (fun index => (hchild false).within _) n 0).bind fun rs hrs => .pure ?_
    refine ⟨rfl, ?_, ?_, ?_⟩
    · exact (allConform_iff rs).2 fun r hr => (hrs r hr).within.conforms
    · exact (allUtf8_iff rs).2 fun r hr => (hrs r hr).within.utf8
    · exact (Record.maxDepth_le_iff rs depth).2 fun r hr => (hrs r hr).within.depth_le
  | const =>
    exact (yields_constant hutf).bind fun t ht => .pure ⟨rfl, trivial, ht, zero_le _⟩
  | consts =>
    refine (Yields.any _).bind fun n _ => ?_
    refine (Yields.many (fun _ => yields_constant hutf) n 0).bind fun ts hts => .pure ?_
    exact ⟨rfl, trivial, hts, zero_le _⟩
  | loc => exact (Yields.any _).bind fun l _ => .pure ⟨rfl, rfl, trivial, zero_le _⟩
  | optLoc =>
    refine (Yields.any _).bind fun present _ => .ite (fun _ => ?_) fun _ => ?_
    · exact .pure ⟨rfl, trivial, trivial, zero_le _⟩
    · exact (Yields.any _).bind fun l _ => .pure ⟨rfl, trivial, trivial, zero_le _⟩
  | string =>
    exact yields_name.raw.bind fun t ht => .pure ⟨rfl, trivial, ht, zero_le _⟩
  | integer =>
    refine (Yields.any _).bind fun sign _ => (Yields.any _).bind fun magnitude _ => ?_
    exact .pure ⟨rfl, trivial, trivial, zero_le _⟩
  | double => exact (Yields.any _).bind fun x _ => .pure ⟨rfl, trivial, trivial, zero_le _⟩
  | uint => exact (Yields.any _).bind fun n _ => .pure ⟨rfl, trivial, trivial, zero_le _⟩

/-- The fields are read in the order of the schema, each with its encoding. -/
lemma yields_values (hutf : ∀ t ∈ consts.toList, t.isUtf8)
    (hchild : ∀ optional, Yields (child optional) (Record.Allowed depth optional)) (name : Text)
    (specs : List FieldSpec) :
    Yields (values consts child name specs) (Forall₂ (fun spec v => Value.Within depth spec.kind v) specs) := by
  induction specs with
  | nil => exact .pure .nil
  | cons spec specs ih =>
    refine ((yields_value hutf hchild spec.kind).within _).bind fun v hv => ?_
    exact ih.bind fun vs hvs => .pure (.cons hv hvs)

lemma fits_of_forall₂ {specs : List FieldSpec} {vs : List Value}
    (h : Forall₂ (fun spec v => Value.Within depth spec.kind v) specs vs) :
    vs.map Value.kind? = specs.map fun spec => some spec.kind := by
  induction h with
  | nil => rfl
  | cons hv _ ih => rw [map_cons, map_cons, hv.kind_eq, ih]

lemma within_of_mem {specs : List FieldSpec} {vs : List Value}
    (h : Forall₂ (fun spec v => Value.Within depth spec.kind v) specs vs) {v : Value} (hv : v ∈ vs) :
    ∃ kind, v.Within depth kind := by
  induction h with
  | nil => cases hv
  | cons hw _ ih =>
    rcases mem_cons.1 hv with rfl | hv
    · exact ⟨_, hw⟩
    · exact ih hv

lemma yields_body (hutf : ∀ t ∈ consts.toList, t.isUtf8)
    (hchild : ∀ optional, Yields (child optional) (Record.Allowed depth optional)) {type : RecordType}
    {schema : Schema} (hschema : type.schema? = some schema) :
    Yields (body consts child type schema) (Record.Within (depth + 1)) := by
  refine (Yields.any _).bind fun id _ => (Yields.any _).bind fun loc _ => ?_
  refine (Yields.any _).bind fun flags _ => ?_
  refine (yields_values hutf hchild schema.name schema.fields).bind fun fields hfields => .pure ?_
  have hvalue : ∀ v ∈ fields, ∃ kind, v.Within depth kind := fun v hv => within_of_mem hfields hv
  refine ⟨⟨⟨schema, hschema, fits_of_forall₂ hfields⟩, ?_⟩, ?_, ?_⟩
  · refine (valuesConform_iff fields).2 fun v hv => ?_
    obtain ⟨_, hw⟩ := hvalue v hv
    exact hw.conforms
  · refine (valuesUtf8_iff fields).2 fun v hv => ?_
    obtain ⟨_, hw⟩ := hvalue v hv
    exact hw.utf8
  · refine succ_le_succ ((Value.maxDepth_le_iff fields depth).2 fun v hv => ?_)
    obtain ⟨_, hw⟩ := hvalue v hv
    exact hw.depth_le

end Fields

/-- What follows the type byte decides, unless that byte says that there is no record. -/
lemma yields_typed {optional : Bool} {inside : Nat → RecordType → Schema → DocRead Record} {depth : Nat}
    (h : ∀ pos type schema, type.schema? = some schema → Yields (inside pos type schema) (Record.Within depth)) :
    Yields (typed optional inside) (Record.Allowed depth optional) := by
  refine (Yields.any _).bind fun pos _ => (Yields.any _).bind fun b _ => .ite (fun _ => ?_) fun _ => ?_
  · refine .ite (fun hoptional => ?_) fun _ => .refuse _
    exact .pure (.inl ⟨hoptional, rfl⟩)
  · cases hschema : (RecordType.ofByte b).schema? with
    | none =>
      simp only [hschema]
      exact .refuse _
    | some schema =>
      simp only [hschema]
      exact fun t r t' hr => .inr (h pos _ schema hschema t r t' hr)

/-- With so many levels left, records of at most that depth are read. -/
lemma yields_record (consts : Array Text) (hutf : ∀ t ∈ consts.toList, t.isUtf8) (depth : Nat)
    (optional : Bool) : Yields (record consts depth optional) (Record.Allowed depth optional) := by
  induction depth generalizing optional with
  | zero => exact yields_typed fun _ _ _ _ => .refuse _
  | succ depth ih => exact yields_typed fun _ _ _ hschema => yields_body hutf ih hschema

/-! ## Documents -/

lemma yields_version : Yields version fun v => v.major = Version.current.major := by
  refine (Yields.any _).bind fun numbers _ => ?_
  rcases numbers with _ | ⟨major, _ | ⟨minor, _ | ⟨patch, _ | ⟨_, _⟩⟩⟩⟩
  case cons.cons.cons.nil =>
    exact .ite (fun h => .pure (eq_of_beq h)) fun _ => .refuse _
  all_goals exact .refuse _

/-- The header that was read: a version that is supported, and texts in UTF-8. -/
structure DocRead.Header.Sound (h : DocRead.Header) : Prop where
  version : h.version.major = Version.current.major
  encoding : h.encoding.isUtf8
  errors : ∀ n ∈ h.errors, n.message.isUtf8
  warnings : ∀ n ∈ h.warnings, n.message.isUtf8

lemma yields_header : Yields header DocRead.Header.Sound := by
  refine (Yields.any _).bind fun _ _ => yields_version.bind fun version hversion => ?_
  refine (Yields.any _).bind fun _ _ => ?_
  refine (yields_name.raw.within _).bind fun encoding hencoding => ?_
  refine (Yields.any _).bind fun startLine _ => (Yields.any _).bind fun comments _ => ?_
  refine (yields_notices _).bind fun errors herrors => ?_
  refine (yields_notices _).bind fun warnings hwarnings => ?_
  refine (Yields.any _).bind fun place _ => (Yields.any _).bind fun count _ => .pure ?_
  exact ⟨hversion, hencoding, herrors, hwarnings⟩

/-- A document that is read can be written, and its version was given. -/
lemma yields_document (data : Text) :
    Yields (document data) fun doc => doc.Sound ∧ doc.version.major = Version.current.major := by
  refine yields_header.bind fun header hheader => (Yields.any _).bind fun nodes _ => ?_
  refine (yields_pool data _ _).bind fun consts hconsts => (Yields.any _).bind fun _ _ => ?_
  refine (yields_record consts.toArray hconsts maxDepth false).bind fun root hroot => ?_
  have hw := hroot.within
  refine .pure ⟨⟨.inr hheader.version, hw.conforms, ?_, hw.depth_le⟩, hheader.version⟩
  exact ⟨hheader.encoding, hheader.errors, hheader.warnings, hw.utf8⟩

namespace Document

lemma sound_of_decode {data : Text} {doc : Document} (h : decode data = .ok doc) :
    doc.Sound ∧ doc.version.major = Version.current.major := by
  cases hrun : document data (Tape.ofText data) with
  | ok doc' t =>
    simp only [decode, read, hrun] at h
    obtain rfl := Except.ok.inj h
    exact yields_document data _ _ _ hrun
  | error fault t =>
    simp only [decode, read, hrun] at h
    cases h

/-- Only a missing encoding is filled in for a document that has a version. -/
lemma completed_of_major {doc : Document} (h : doc.version.major = Version.current.major) :
    doc.completed = { doc with encoding := if doc.encoding = [] then "UTF-8" else doc.encoding } := by
  have hversion : doc.version ≠ ⟨0, 0, 0⟩ := by
    intro hzero
    rw [hzero] at h
    cases h
  rw [completed, if_neg hversion]

/-- **What is read can be written and read again.** A document read from any bytes obeys the schemas, holds UTF-8 only,
is at most so deep as is allowed and has the version that is supported; so it is written, and as long as the bytes
can be numbered in 32 bits they are read as the same document, except that an encoding that was left empty is given. -/
theorem reencodable {data : Text} {doc : Document} (h : decode data = .ok doc) :
    doc.root.Conforms ∧ doc.Utf8 ∧ doc.root.depth ≤ 1024 ∧ doc.version.major = 1 ∧
      ∃ bytes, doc.encode = .ok bytes ∧ (bytes.length < 2 ^ 32 → decode bytes =
        .ok { doc with encoding := if doc.encoding = [] then "UTF-8" else doc.encoding }) := by
  obtain ⟨hsound, hmajor⟩ := sound_of_decode h
  refine ⟨hsound.conforms, hsound.utf8, hsound.depth, hmajor, ?_⟩
  obtain ⟨records, pool, hencode, hr⟩ := encode_eq_assemble hsound
  refine ⟨doc.assemble records pool, hencode, fun hlen => ?_⟩
  rw [decode, read_assemble hsound hr hlen, completed_of_major hmajor]

/-- Bytes that no writer gives: numbers with an empty last group, a marker of 7 for a location that is there,
and a pool of three empty constants that lies inside the first record and of which the second is used
twice. -/
def overlapping : Text :=
  magic ++ [1, 9, 7, 255, 0x80, 0, 0xFF, 0x7F, 0x80, 0, 0, 0] ++ [23, 0, 0, 0, 3] ++
    [27, 0, 0, 0, 0, 2, 2, 0x82, 0, 31, 0x85, 0, 1, 2, 3, 1] ++ [2, 0, 0, 0, 0, 0, 7, 4, 5, 0]

theorem reencodable_overlapping : ∃ doc bytes, decode overlapping = .ok doc ∧
    doc.root.Conforms ∧ doc.encode = .ok bytes ∧ bytes ≠ overlapping ∧
    decode bytes = .ok { doc with encoding := "UTF-8" } := by
  have hrun : ((decode overlapping).toOption.any fun doc => doc.encoding = [] &&
      doc.encode.toOption.any fun bytes => bytes.length < 2 ^ 32 && bytes != overlapping) = true := by
    decide +kernel
  cases hdecode : decode overlapping with
  | error fault => simp [hdecode, Except.toOption] at hrun
  | ok doc =>
    obtain ⟨hconforms, -, -, -, bytes, hencode, hback⟩ := reencodable hdecode
    simp only [hdecode, Except.toOption, Option.any_some, hencode, Bool.and_eq_true,
      decide_eq_true_eq, bne_iff_ne] at hrun
    obtain ⟨hempty, hlen, hne⟩ := hrun
    refine ⟨doc, bytes, rfl, hconforms, hencode, hne, ?_⟩
    rw [hback hlen, if_pos hempty]

end Document

end Transpiler.Wire
