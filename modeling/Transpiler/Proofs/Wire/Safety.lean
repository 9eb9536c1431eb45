import Transpiler.Decoding.Chain
import Transpiler.Proofs.Wire.Image

/-!
# Lowering never breaks down on what was read

Guarded lowering asks records for their fields by name and takes it that they are there. Whether they are depends on
the type of the record alone once the record obeys its schema, and the reader lets no other through. A handle and the
lowered record are put side by side (`Handle.Matches`): field by field they hold the same. So for each type of record
working it out succeeds with the meaning it has in `Lowering`. The main result is `Strategy.binary_sound`.
-/

namespace Transpiler.Wire

/-! ## Pieces of the source -/

namespace Guarded

lemma toNat_stop (l : Location) : (l.start.toUInt64 + l.length.toUInt64).toNat = l.stop := by
  have hstart := l.start.toNat_lt
  have hlength := l.length.toNat_lt
  rw [UInt64.toNat_add, UInt32.toNat_toUInt64, UInt32.toNat_toUInt64, Location.stop]
  omega

/-- The text at a location always lies in the source, or is not asked for. -/
lemma text_eq (source : Text) (l : Location) : text source l = .ok (Lowering.text source l) := by
  have hstop : l.stop = l.start.toNat + l.length.toNat := rfl
  simp only [text, toNat_stop, Lowering.text]
  split
  · rfl
  · next hfits =>
    rw [slice, if_pos (by omega), hstop, Nat.add_sub_cancel_left]
    rfl

end Guarded

/-! ## Handles and lowered records side by side -/

/-- The encoding of a field among those of a schema. -/
def kindIn (specs : List FieldSpec) (field : Text) : Option FieldKind :=
  (specs.find? fun spec => field == spec.name).map (·.kind)

mutual

/-- A handle that leads to a record, and the same record lowered: both ways of working it out succeed with
something that is there. -/
inductive Handle.Matches : Handle → Lowered → Prop
  | mk {type : RecordType} {schema : Schema} {span : Span} {unknown node : Node} {slots : Slots} {parts : Parts}
      (hschema : type.schema? = some schema) (hslots : Slots.Matches schema.fields slots parts)
      (hunknown : unknown.isAbsent = false) (hnode : node.isAbsent = false) :
      Handle.Matches (.mk type span (.ok unknown) (.ok node) slots) (.mk type span unknown node parts)

/-- The lists match in turn. -/
inductive Handle.AllMatch : List Handle → List Lowered → Prop
  | nil : Handle.AllMatch [] []
  | cons {r : Handle} {l : Lowered} {rs : List Handle} {ls : List Lowered} (h : r.Matches l)
      (hrest : Handle.AllMatch rs ls) : Handle.AllMatch (r :: rs) (l :: ls)

/-- A field of an encoding behind a handle, and the same field lowered. -/
inductive Slot.Matches : FieldKind → Slot → Part → Prop
  | node {r : Handle} {l : Lowered} (h : r.Matches l) : Slot.Matches .node (.one r) (.one l)
  | none : Slot.Matches .optNode (.one .absent) (.one .absent)
  | some {r : Handle} {l : Lowered} (h : r.Matches l) : Slot.Matches .optNode (.one r) (.one l)
  | nodes {rs : List Handle} {ls : List Lowered} (h : Handle.AllMatch rs ls) : Slot.Matches .nodes (.many rs) (.many ls)
  | const (t : Text) : Slot.Matches .const (.const t) (.word t)
  | string (t : Text) : Slot.Matches .string (.string t) (.word t)
  | integer (i : Option Int64) : Slot.Matches .integer (.integer i) (.integer i)
  | double (x : Binary64) : Slot.Matches .double (.double x) (.double x)
  | other {kind : FieldKind} (hkind : kind ∈ [FieldKind.consts, .loc, .optLoc, .uint]) : Slot.Matches kind .other .other

/-- The fields of a schema behind a handle, and the same fields lowered. -/
inductive Slots.Matches : List FieldSpec → Slots → Parts → Prop
  | nil : Slots.Matches [] [] []
  | cons {spec : FieldSpec} {specs : List FieldSpec} {slot : Slot} {part : Part} {slots : Slots} {parts : Parts}
      (h : slot.Matches spec.kind part) (hrest : Slots.Matches specs slots parts) :
      Slots.Matches (spec :: specs) ((spec.name, slot) :: slots) ((spec.name, part) :: parts)

end

/-- What an optional field leads to: nothing on both sides, or a record. -/
def Handle.MayMatch (r : Handle) (l : Lowered) : Prop := (r = .absent ∧ l = .absent) ∨ r.Matches l

/-! ## Fields by name -/

namespace Slots.Matches

variable {specs : List FieldSpec} {slots : Slots} {parts : Parts}

/-- A field is there exactly if the schema has it, and then it holds what the schema says. -/
lemma lookup (h : Slots.Matches specs slots parts) (field : Text) :
    (kindIn specs field = none ∧ slots.lookup field = none ∧ parts.lookup field = none) ∨
      ∃ kind slot part, kindIn specs field = some kind ∧ slots.lookup field = some slot ∧
        parts.lookup field = some part ∧ slot.Matches kind part := by
  induction specs generalizing slots parts with
  | nil =>
    cases h
    exact .inl ⟨rfl, rfl, rfl⟩
  | cons spec specs ih =>
    cases h with
    | cons hslot hrest =>
      cases heq : field == spec.name with
      | true =>
        right
        refine ⟨spec.kind, _, _, ?_, ?_, ?_, hslot⟩ <;> simp [kindIn, List.lookup_cons, heq]
      | false => simpa [kindIn, List.lookup_cons, heq] using ih hrest

variable (h : Slots.Matches specs slots parts)

include h

lemma lookup_of_kind {field : Text} {kind : FieldKind} (hkind : kindIn specs field = some kind) :
    ∃ slot part, slots.lookup field = some slot ∧ parts.lookup field = some part ∧ slot.Matches kind part := by
  obtain ⟨hnone, _⟩ | ⟨kind', slot, part, hkind', hslot, hpart, hmatch⟩ := h.lookup field
  · cases hkind.symm.trans hnone
  · obtain rfl := Option.some.inj (hkind.symm.trans hkind')
    exact ⟨slot, part, hslot, hpart, hmatch⟩

lemma node (field : Text) (hkind : kindIn specs field = some .node) :
    (Slots.one slots field).Matches (Parts.one parts field) := by
  obtain ⟨slot, part, hslot, hpart, hmatch⟩ := h.lookup_of_kind hkind
  cases hmatch with
  | node hr => simpa [Slots.one, Parts.one, Parts.get, hslot, hpart] using hr
  | other hother => simp at hother

/-- Whatever a field is, asking it for a record leads to the same on both sides. -/
lemma one (field : Text) : (Slots.one slots field).MayMatch (Parts.one parts field) := by
  obtain ⟨_, hslot, hpart⟩ | ⟨kind, slot, part, _, hslot, hpart, hmatch⟩ := h.lookup field
  · exact .inl ⟨by simp [Slots.one, hslot], by simp [Parts.one, Parts.get, hpart]⟩
  · cases hmatch with
    | node hr | some hr =>
      exact .inr (by simpa [Slots.one, Parts.one, Parts.get, hslot, hpart] using hr)
    | none | nodes | const | string | integer | double | other =>
      exact .inl ⟨by simp [Slots.one, hslot], by simp [Parts.one, Parts.get, hpart]⟩

/-- Whatever a field is, asking it for records leads to the same on both sides. -/
lemma many (field : Text) : Handle.AllMatch (Slots.many slots field) (Parts.many parts field) := by
  obtain ⟨_, hslot, hpart⟩ | ⟨kind, slot, part, _, hslot, hpart, hmatch⟩ := h.lookup field
  · simpa [Slots.many, Parts.many, Parts.get, hslot, hpart] using .nil
  · cases hmatch with
    | nodes hrs => simpa [Slots.many, Parts.many, Parts.get, hslot, hpart] using hrs
    | node | none | some | const | string | integer | double | other =>
      simpa [Slots.many, Parts.many, Parts.get, hslot, hpart] using .nil

/-- A constant is the word in the field, unless the field holds a text of another encoding. -/
lemma const (field : Text) (hkind : kindIn specs field ≠ some .string) :
    Slots.const slots field = Parts.word parts field := by
  obtain ⟨_, hslot, hpart⟩ | ⟨kind, slot, part, hkind', hslot, hpart, hmatch⟩ := h.lookup field
  · simp [Slots.const, Parts.word, Parts.get, hslot, hpart]
  · cases hmatch with
    | string => exact absurd hkind' hkind
    | node | none | some | nodes | const | integer | double | other =>
      simp [Slots.const, Parts.word, Parts.get, hslot, hpart]

lemma string (field : Text) (hkind : kindIn specs field = some .string) :
    Slots.string slots field = .ok (Parts.word parts field) := by
  obtain ⟨slot, part, hslot, hpart, hmatch⟩ := h.lookup_of_kind hkind
  cases hmatch with
  | string t =>
    simp only [Slots.string, Parts.word, Parts.get, hslot, hpart]
    rfl
  | other hother => simp at hother

lemma integer (field : Text) (hkind : kindIn specs field = some .integer) :
    ∃ i, Slots.integer slots field = .ok i ∧ Parts.get parts field = .integer i := by
  obtain ⟨slot, part, hslot, hpart, hmatch⟩ := h.lookup_of_kind hkind
  cases hmatch with
  | integer i => exact ⟨i, by simp only [Slots.integer, hslot]; rfl, by simp [Parts.get, hpart]⟩
  | other hother => simp at hother

lemma double (field : Text) (hkind : kindIn specs field = some .double) :
    ∃ x, Slots.double slots field = .ok x ∧ Parts.get parts field = .double x := by
  obtain ⟨slot, part, hslot, hpart, hmatch⟩ := h.lookup_of_kind hkind
  cases hmatch with
  | double x => exact ⟨x, by simp only [Slots.double, hslot]; rfl, by simp [Parts.get, hpart]⟩
  | other hother => simp at hother

end Slots.Matches

/-! ## Working out what a handle leads to -/

lemma ok_bind {α β : Type} (a : α) (f : α → Attempt β) : ((.ok a : Attempt α) >>= f) = f a := rfl

lemma pure_eq_ok {α : Type} (a : α) : (pure a : Attempt α) = .ok a := rfl

/-- A field by the name of `name` never holds anything but a constant. -/
lemma kindIn_name {type : RecordType} {schema : Schema} (h : type.schema? = some schema) :
    kindIn schema.fields "name" ≠ some .string := by
  cases type with
  | other b => cases h
  | _ =>
    obtain rfl := Option.some.inj h
    decide

namespace Handle

variable {r : Handle} {l : Lowered} {rs : List Handle} {ls : List Lowered}

lemma AllMatch.mapM (h : AllMatch rs ls) {α : Type} {f : Handle → Attempt α} {g : Lowered → α}
    (hf : ∀ r l, r.Matches l → f r = .ok (g l)) : rs.mapM f = .ok (ls.map g) := by
  induction rs generalizing ls with
  | nil =>
    cases h
    rfl
  | cons r rs ih =>
    cases h with
    | cons hr hrest => rw [List.mapM_cons, hf _ _ hr, ok_bind, ih hrest, ok_bind, List.map_cons, pure_eq_ok]

lemma AllMatch.append (h : AllMatch rs ls) {rs' : List Handle} {ls' : List Lowered} (h' : AllMatch rs' ls') :
    AllMatch (rs ++ rs') (ls ++ ls') := by
  induction rs generalizing ls with
  | nil =>
    cases h
    exact h'
  | cons r rs ih =>
    cases h with
    | cons hr hrest => exact .cons hr (ih hrest)

lemma Matches.node (h : r.Matches l) : r.node = .ok l.node := by
  cases h
  rfl

lemma Matches.unknown (h : r.Matches l) : r.unknown = .ok l.unknown := by
  cases h
  rfl

lemma Matches.node_present (h : r.Matches l) : l.node.isAbsent = false := by
  cases h with
  | mk _ _ _ hnode => exact hnode

lemma Matches.slots (h : r.Matches l) : ∃ (type : RecordType) (schema : Schema) (slots : Slots),
    type.schema? = some schema ∧ Slots.Matches schema.fields slots l.parts ∧ r.slots = .ok slots ∧
      (∀ t, r.isType t = .ok (l.isType t)) ∧ r.span = .ok l.span := by
  cases h with
  | @mk type schema span unknown node slots parts hschema hslots _ _ =>
    exact ⟨type, schema, slots, hschema, hslots, rfl, fun t => rfl, rfl⟩

lemma AllMatch.nodes (h : AllMatch rs ls) : rs.mapM Handle.node = .ok (ls.map Lowered.node) :=
  h.mapM fun _ _ hr => hr.node

lemma AllMatch.nodes_present (h : AllMatch rs ls) : ∀ n ∈ ls.map Lowered.node, n.isAbsent = false := by
  induction rs generalizing ls with
  | nil =>
    cases h
    simp
  | cons r rs ih =>
    cases h with
    | cons hr hrest =>
      rw [List.map_cons, List.forall_mem_cons]
      exact ⟨hr.node_present, ih hrest⟩

lemma Matches.body (h : r.Matches l) : r.body = .ok l.body ∧ ∀ n ∈ l.body, n.isAbsent = false := by
  cases h with
  | @mk type _ _ _ _ _ _ _ hslots _ hnode =>
    cases type with
    | statements => exact ⟨(hslots.many "body").nodes, (hslots.many "body").nodes_present⟩
    | _ => exact ⟨rfl, by simpa [Lowered.body] using hnode⟩

lemma MayMatch.body (h : r.MayMatch l) : r.body = .ok l.body ∧ ∀ n ∈ l.body, n.isAbsent = false := by
  obtain ⟨rfl, rfl⟩ | h := h
  · exact ⟨rfl, by simp [Lowered.body]⟩
  · exact h.body

lemma MayMatch.branch (h : r.MayMatch l) : r.branch = .ok l.branch := by
  obtain ⟨rfl, rfl⟩ | h := h
  · rfl
  · cases h with
    | @mk type _ _ _ _ _ _ _ hslots _ _ =>
      cases type with
      | otherwise => exact (hslots.one "statements").body.1
      | _ => rfl

lemma Matches.parameter (h : r.Matches l) : r.parameter = .ok (Parts.word l.parts "name") := by
  obtain ⟨type, schema, slots, hschema, hslots, hr, _, _⟩ := h.slots
  rw [Handle.parameter, hr, ok_bind, hslots.const "name" (kindIn_name hschema), pure_eq_ok]

lemma MayMatch.parameters (h : r.MayMatch l) : r.parameters = .ok l.parameters := by
  obtain ⟨rfl, rfl⟩ | h := h
  · rfl
  · cases h with
    | @mk type _ _ _ _ _ _ _ hslots _ _ =>
      cases type with
      | parameters =>
        have hgroups := ((hslots.many "requireds").append (hslots.many "optionals")).append (hslots.many "posts")
        rw [Handle.parameters, hgroups.mapM fun _ _ hr => hr.parameter]
        rfl
      | _ => rfl

lemma MayMatch.node? (h : r.MayMatch l) : r.node? = .ok l.node := by
  obtain ⟨rfl, rfl⟩ | h := h
  · rfl
  · cases h
    rfl

lemma MayMatch.arguments (h : r.MayMatch l) : r.arguments = .ok l.arguments := by
  obtain ⟨rfl, rfl⟩ | h := h
  · rfl
  · cases h with
    | mk _ hslots => exact (hslots.many "arguments").nodes

lemma Matches.pair (h : r.Matches l) : r.pair = .ok l.pair := by
  cases h with
  | @mk type _ _ _ _ _ _ hschema hslots _ _ =>
    cases type with
    | assoc =>
      obtain rfl := Option.some.inj hschema
      have hkey := (hslots.node "key" (by decide)).node
      have hvalue := (hslots.node "value" (by decide)).node
      simp only [Handle.pair, Handle.slots, isType, pure_eq_ok, ok_bind, beq_self_eq_true, if_true, hkey, hvalue,
        Lowered.pair]
    | _ => rfl

lemma MayMatch.blockParameters (h : r.MayMatch l) : r.blockParameters
    = .ok (if l.isType .blockParameters then (Parts.one l.parts "parameters").parameters else []) := by
  obtain ⟨rfl, rfl⟩ | h := h
  · rfl
  · cases h with
    | @mk type _ _ _ _ _ _ _ hslots _ _ =>
      cases type with
      | blockParameters => exact (hslots.one "parameters").parameters
      | _ => rfl

lemma Matches.block (h : r.Matches l) : r.block = .ok l.block := by
  obtain ⟨_, _, slots, _, hslots, hr, _, hspan⟩ := h.slots
  rw [Handle.block, hr, ok_bind, (hslots.one "body").body.1, ok_bind, (hslots.one "parameters").blockParameters,
    ok_bind, hspan, ok_bind, pure_eq_ok, Lowered.block]

end Handle

/-! ## What each type of record means -/

namespace Guarded

variable {specs : List FieldSpec} {slots : Slots} {parts : Parts} (place : Span)

lemma ret_eq {r : Handle} {l : Lowered} (h : r.MayMatch l) : ret place r = .ok (Lowering.ret place l) := by
  rw [ret, h.arguments, ok_bind, Lowering.ret]
  obtain ⟨rfl, rfl⟩ | h := h
  · rfl
  · obtain ⟨_, _, _, _, _, _, _, hspan⟩ := h.slots
    rw [hspan]
    rcases l.arguments with _ | ⟨value, _ | ⟨second, rest⟩⟩ <;> rfl

variable (h : Slots.Matches specs slots parts)

include h

lemma call_eq (hname : kindIn specs "name" ≠ some .string) : call place slots = .ok (Lowering.call place parts) := by
  rw [call, h.const "name" hname, (h.one "receiver").node?, ok_bind, (h.one "arguments").arguments, ok_bind,
    Lowering.call]
  have hblock := h.one "block"
  generalize Slots.one slots "block" = r, Parts.one parts "block" = l at hblock
  obtain ⟨rfl, rfl⟩ | hblock := hblock
  · rfl
  · have hown := hblock.block
    cases hblock with
    | @mk type =>
      -- only a block is asked for its own fields
      cases type with
      | block => simp only [Handle.isType, Lowered.isType, pure_eq_ok, ok_bind, beq_self_eq_true, if_true, hown]
      | _ => rfl

lemma assignment_eq (operator : Text)
    (hname : kindIn specs "name" ≠ some .string) (hvalue : kindIn specs "value" = some .node) :
    assignment place operator slots = .ok (.assignment place (Parts.word parts "name")
      (.ofName (Parts.word parts "name")) operator (Parts.one parts "value").node) := by
  rw [assignment, h.const "name" hname, (h.node "value" hvalue).node]
  rfl

lemma joined_eq (operator : Text)
    (hleft : kindIn specs "left" = some .node) (hright : kindIn specs "right" = some .node) :
    joined place operator slots =
      .ok (.call place (Parts.one parts "left").node operator [(Parts.one parts "right").node] .absent) := by
  rw [joined, (h.node "left" hleft).node, (h.node "right" hright).node]
  rfl

lemma cond_eq (negated : Bool) (alternative : Text) (hpredicate : kindIn specs "predicate" = some .node) :
    cond place negated slots alternative = .ok (.cond place (Parts.one parts "predicate").node negated
      (Parts.one parts "statements").body (Parts.one parts alternative).branch) := by
  rw [cond, (h.node "predicate" hpredicate).node, (h.one "statements").body.1, (h.one alternative).branch]
  rfl

lemma loop_eq (negated : Bool) (hpredicate : kindIn specs "predicate" = some .node) :
    loop place negated slots =
      .ok (.loop place (Parts.one parts "predicate").node negated (Parts.one parts "statements").body) := by
  rw [loop, (h.node "predicate" hpredicate).node, (h.one "statements").body.1]
  rfl

omit h

lemma interpolated_present {ns : List Node} (h : ∀ n ∈ ns, n.isAbsent = false) :
    (Lowering.interpolated place ns).isAbsent = false := by
  have hjoined : ∀ (rest : List Node) (start : Node), start.isAbsent = false →
      (rest.foldl (Lowering.concat place) start).isAbsent = false := by
    intro rest
    induction rest with
    | nil => exact fun start hstart => hstart
    | cons n rest ih => exact fun start _ => ih _ rfl
  cases ns with
  | nil => rfl
  | cons first rest =>
    refine hjoined rest _ ?_
    split
    · exact h first (by simp)
    · rfl

/-- Every type of record is worked out without a breakdown, and to something that is there. -/
lemma meaning_eq {type : RecordType} {schema : Schema} (hschema : type.schema? = some schema)
    (h : Slots.Matches schema.fields slots parts) (unknown : Node) (hunknown : unknown.isAbsent = false) :
    meaning place (.ok unknown) slots type = .ok (Lowering.meaning place unknown parts type) ∧
      (Lowering.meaning place unknown parts type).isAbsent = false := by
  have hname := kindIn_name hschema
  cases type with
  | other b => cases hschema
  | localWrite | instanceWrite | globalWrite | constantWrite =>
    obtain rfl := Option.some.inj hschema
    exact ⟨assignment_eq place h [] hname (by decide), rfl⟩
  | localOperatorWrite =>
    obtain rfl := Option.some.inj hschema
    have hoperator := h.const "binary_operator" (by decide)
    rw [meaning, hoperator]
    exact ⟨assignment_eq place h _ hname (by decide), rfl⟩
  | localRead | instanceRead | globalRead | constantRead =>
    rw [meaning, h.const "name" hname]
    exact ⟨rfl, rfl⟩
  | call =>
    refine ⟨call_eq place h hname, ?_⟩
    simp only [Lowering.meaning, Lowering.call]
    split
    · rfl
    · split <;> rfl
  | and | or =>
    obtain rfl := Option.some.inj hschema
    exact ⟨joined_eq place h _ (by decide) (by decide), rfl⟩
  | parentheses =>
    obtain ⟨hbody, hpresent⟩ := (h.one "body").body
    simp only [meaning, Lowering.meaning, hbody, ok_bind]
    generalize (Parts.one parts "body").body = body at hpresent
    rcases body with _ | ⟨n, _ | ⟨second, rest⟩⟩
    · exact ⟨rfl, rfl⟩
    · exact ⟨rfl, hpresent n (by simp)⟩
    · exact ⟨rfl, hunknown⟩
  | string | symbol =>
    obtain rfl := Option.some.inj hschema
    rw [meaning, h.string "unescaped" (by decide)]
    exact ⟨rfl, rfl⟩
  | interpolatedString =>
    rw [meaning, (h.many "parts").nodes]
    exact ⟨rfl, interpolated_present place (h.many "parts").nodes_present⟩
  | integer =>
    obtain rfl := Option.some.inj hschema
    obtain ⟨i, hslot, hpart⟩ := h.integer "value" (by decide)
    simp only [meaning, Lowering.meaning, hslot, hpart, ok_bind]
    cases i with
    | none => exact ⟨rfl, hunknown⟩
    | some i => exact ⟨rfl, rfl⟩
  | float =>
    obtain rfl := Option.some.inj hschema
    obtain ⟨x, hslot, hpart⟩ := h.double "value" (by decide)
    simp only [meaning, Lowering.meaning, hslot, hpart, ok_bind]
    exact ⟨rfl, rfl⟩
  | true_ | false_ | nil | self => exact ⟨rfl, rfl⟩
  | array =>
    rw [meaning, (h.many "elements").nodes]
    exact ⟨rfl, rfl⟩
  | hash | keywordHash =>
    rw [meaning, (h.many "elements").mapM fun _ _ hr => hr.pair]
    exact ⟨rfl, rfl⟩
  | cond =>
    obtain rfl := Option.some.inj hschema
    exact ⟨cond_eq place h false "subsequent" (by decide), rfl⟩
  | «unless» =>
    obtain rfl := Option.some.inj hschema
    exact ⟨cond_eq place h true "else_clause" (by decide), rfl⟩
  | «while» | «until» =>
    obtain rfl := Option.some.inj hschema
    exact ⟨loop_eq place h _ (by decide), rfl⟩
  | method =>
    have hparameters := (h.one "parameters").parameters
    have hbody := (h.one "body").body.1
    have hreceiver := h.one "receiver"
    simp only [meaning, Lowering.meaning]
    generalize Slots.one slots "receiver" = r, Parts.one parts "receiver" = l at hreceiver
    obtain ⟨rfl, rfl⟩ | hreceiver := hreceiver
    · rw [hparameters, hbody, h.const "name" hname]
      exact ⟨rfl, rfl⟩
    · cases hreceiver
      exact ⟨rfl, hunknown⟩
  | ret =>
    refine ⟨ret_eq place (h.one "arguments"), ?_⟩
    simp only [Lowering.meaning, Lowering.ret]
    split <;> rfl
  | embeddedStatements =>
    obtain ⟨hbody, hpresent⟩ := (h.one "statements").body
    simp only [meaning, Lowering.meaning, hbody, ok_bind]
    refine ⟨rfl, ?_⟩
    cases hlast : (Parts.one parts "statements").body.getLast? with
    | none => rfl
    | some n => exact hpresent n (List.mem_of_getLast? hlast)
  | _ => exact ⟨rfl, hunknown⟩

end Guarded

/-! ## Whole trees -/

mutual

/-- A record that obeys its schema is worked out like its lowered record. -/
lemma Record.matches_handle (source : Text) (r : Record) (h : r.Conforms) :
    (r.handle source).Matches (r.lower source) :=
  match r with
  | .absent => h.elim
  | .mk type id loc flags fields => by
    obtain ⟨⟨schema, hschema, hfits⟩, hfields⟩ := h
    have hslots := Value.matches_slots source fields hfields schema.fields hfits
    have hunknown : (Guarded.text source loc).map (Node.unknown (Lowering.span loc) type.name ·)
        = .ok (.unknown (Lowering.span loc) type.name (Lowering.text source loc)) := by
      rw [Guarded.text_eq]
      rfl
    simp only [Record.handle, Record.lower, hschema, hunknown]
    obtain ⟨hmeaning, hpresent⟩ := Guarded.meaning_eq (Lowering.span loc) hschema hslots
      (.unknown (Lowering.span loc) type.name (Lowering.text source loc)) rfl
    rw [hmeaning]
    exact .mk hschema hslots rfl hpresent

lemma Record.allMatch_handles (source : Text) (rs : List Record) (h : Record.AllConform rs) :
    Handle.AllMatch (Record.handles source rs) (Record.lowerAll source rs) :=
  match rs with
  | [] => .nil
  | r :: rest => .cons (Record.matches_handle source r h.1) (Record.allMatch_handles source rest h.2)

lemma Value.matches_slot (source : Text) (v : Value) (h : v.Conforms) {kind : FieldKind}
    (hkind : v.kind? = some kind) : (v.slot source).Matches kind (v.lower source) :=
  match v with
  | .node r => by
    obtain rfl := Option.some.inj hkind
    exact .node (Record.matches_handle source r h)
  | .optNode r => by
    obtain rfl := Option.some.inj hkind
    obtain habsent | hr := h
    · cases r with
      | absent => exact .none
      | mk => cases habsent
    · exact .some (Record.matches_handle source r hr)
  | .nodes rs => by
    obtain rfl := Option.some.inj hkind
    exact .nodes (Record.allMatch_handles source rs h)
  | .const t => by
    obtain rfl := Option.some.inj hkind
    exact .const t
  | .string t => by
    obtain rfl := Option.some.inj hkind
    exact .string t
  | .integer .. => by
    obtain rfl := Option.some.inj hkind
    exact .integer _
  | .double x => by
    obtain rfl := Option.some.inj hkind
    exact .double x
  | .consts _ | .loc _ | .optLoc _ | .uint _ => by
    obtain rfl := Option.some.inj hkind
    exact .other (by decide)
  | .other _ => by cases hkind

lemma Value.matches_slots (source : Text) (vs : List Value) (h : Value.AllConform vs) (specs : List FieldSpec)
    (hfits : vs.map Value.kind? = specs.map fun spec => some spec.kind) :
    Slots.Matches specs ((specs.map FieldSpec.name).zip (Value.slots source vs))
      ((specs.map FieldSpec.name).zip (Value.lowerAll source vs)) :=
  match vs with
  | [] => by
    cases specs with
    | nil => exact .nil
    | cons => cases hfits
  | v :: rest => by
    cases specs with
    | nil => cases hfits
    | cons spec specs =>
      obtain ⟨hkind, hrest⟩ := List.cons.inj hfits
      exact .cons (Value.matches_slot source v h.1 hkind) (Value.matches_slots source rest h.2 specs hrest)

end

/-! ## Documents -/

namespace Guarded

lemma cutAt_eq (place : Nat) {body : List Node} (h : ∀ n ∈ body, n.isAbsent = false) :
    cutAt place body = .ok (body.takeWhile fun n => decide (n.span.start < place),
      body.dropWhile fun n => decide (n.span.start < place)) := by
  induction body with
  | nil => rfl
  | cons n rest ih =>
    rw [List.forall_mem_cons] at h
    rw [cutAt, startOf, h.1, if_neg Bool.false_ne_true, pure_eq_ok, ok_bind, ih h.2, ok_bind,
      List.takeWhile_cons, List.dropWhile_cons]
    by_cases hahead : n.span.start < place
    · rw [if_pos hahead, if_pos (decide_eq_true hahead), if_pos (decide_eq_true hahead)]
      rfl
    · rw [if_neg hahead, if_neg (by simpa using hahead), if_neg (by simpa using hahead), pure_eq_ok]

/-- Comments are placed among nodes that are all there. -/
lemma interleave_eq (source : Text) (comments : List Comment) {body : List Node}
    (h : ∀ n ∈ body, n.isAbsent = false) :
    interleave source comments body = .ok (Lowering.interleave source comments body) := by
  induction comments generalizing body with
  | nil => rfl
  | cons c rest ih =>
    have hrest : ∀ n ∈ body.dropWhile fun n => decide (n.span.start < c.loc.start.toNat), n.isAbsent = false :=
      fun n hn => h n ((List.dropWhile_sublist _).subset hn)
    simp only [interleave, cutAt_eq _ h, text_eq, ih hrest, ok_bind]
    rfl

end Guarded

lemma Document.lowered_of_conforms {doc : Document} (h : doc.root.Conforms) (source : Text) (keepComments : Bool) :
    doc.lowered source keepComments = .ok (doc.parsed source keepComments) := by
  have hroot := Record.matches_handle source doc.root h
  obtain ⟨_, _, slots, _, hslots, hr, _, hspan⟩ := hroot.slots
  obtain ⟨hbody, hpresent⟩ := (hslots.one "statements").body
  rw [Document.lowered, hspan, ok_bind, hr, ok_bind, hbody, ok_bind]
  cases keepComments with
  | true =>
    rw [if_pos rfl, Guarded.interleave_eq source doc.comments hpresent, ok_bind]
    rfl
  | false => rfl

/-- Lowering a document that was read gives what the document means. -/
lemma Document.lowered_of_decode {data : Text} {doc : Document} (h : Document.decode data = .ok doc)
    (source : Text) (keepComments : Bool) :
    doc.lowered source keepComments = .ok (doc.parsed source keepComments) :=
  doc.lowered_of_conforms (Document.sound_of_decode h).1.conforms source keepComments

end Transpiler.Wire

namespace Transpiler.Strategy

/-- The strategy for serialized trees fails exactly when the bytes cannot be read. Otherwise lowering runs to
its end and gives what the document means, and the strategy never breaks down. -/
theorem binary_sound (keepComments : Bool) (data source : Text) :
    (∀ fault, (binary keepComments).run data source = .failed fault ↔ Wire.Document.decode data = .error fault) ∧
      (∀ p, (binary keepComments).run data source = .result p ↔
        ∃ doc, Wire.Document.decode data = .ok doc ∧ p = doc.parsed source keepComments) ∧
      (∀ doc, Wire.Document.decode data = .ok doc →
        doc.lowered source keepComments = .ok (doc.parsed source keepComments)) ∧
      ∀ message, (binary keepComments).run data source ≠ .crashed message := by
  cases hdoc : Wire.Document.decode data with
  | error fault =>
    have hrun : (binary keepComments).run data source = .failed fault := by simp only [binary, hdoc]
    simp [hrun]
  | ok doc =>
    have hlowered := Wire.Document.lowered_of_decode hdoc source keepComments
    have hrun : (binary keepComments).run data source = .result (doc.parsed source keepComments) := by
      simp only [binary, hdoc, hlowered]
    simp [hrun, hlowered, eq_comm]

/-- Lowering relies on schemas: a conjunction without operands breaks it down. -/
example (doc : Wire.Document) (loc : Wire.Location) (source : Text) :
    { doc with root := Wire.Build.program [.mk .and 0 loc 0 []] }.lowered source false = .error .nothing := rfl

end Transpiler.Strategy
