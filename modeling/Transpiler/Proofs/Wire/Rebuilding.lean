import Transpiler.Proofs.Wire.RoundTrip
import Transpiler.Wire.Lowering

/-!
# Records of nodes, and back

Every construct of the language has a record. The nodes that are written that way are singled out (`Node.Writable`),
turned into records (`Build.ofNode`), and shown to come back: the record of a node obeys the schemas, and its meaning
as a value is the node. The main result is `Build.parse_encode_ofProgram`, which goes through the bytes as well.
-/

namespace Transpiler

open List

/-- A place whose start and length can be written in 32 bits. -/
structure Span.Fits (s : Span) : Prop where
  ordered : s.start ≤ s.stop
  start_lt : s.start < 2 ^ 32
  length_lt : s.stop - s.start < 2 ^ 32

lemma Span.fits_iff (s : Span) : s.Fits ↔ s.start ≤ s.stop ∧ s.start < 2 ^ 32 ∧ s.stop - s.start < 2 ^ 32 :=
  ⟨fun h => ⟨h.ordered, h.start_lt, h.length_lt⟩, fun h => ⟨h.1, h.2.1, h.2.2⟩⟩

/-- Names that parameters can have. -/
def ParamNames (params : List Text) : Prop := ∀ p ∈ params, p ≠ [] ∧ p.isUtf8

mutual

/-- A node that is written as a record of its own: no program, block, comment or unknown construct, all
parts in their places and of the same sort, texts in UTF-8, scopes as the names say, and an operator only
in an assignment to a local name. -/
def Node.Writable (n : Node) : Prop :=
  match n with
  | .assignment span name scope operator value =>
    span.Fits ∧ name.isUtf8 ∧ operator.isUtf8 ∧ scope = .ofName name ∧ (operator = [] ∨ scope = .local) ∧ value.Writable
  | .var span name scope => span.Fits ∧ name.isUtf8 ∧ scope = .ofName name
  | .call span receiver name arguments blk =>
    span.Fits ∧ name.isUtf8 ∧ (receiver.isAbsent ∨ receiver.Writable) ∧ Node.AllWritable arguments ∧ blk.WritableBlock
  | .self span | .boolean span _ | .nil span | .integer span _ | .float span _ => span.Fits
  | .string span value | .symbol span value => span.Fits ∧ value.isUtf8
  | .array span elements => span.Fits ∧ Node.AllWritable elements
  | .hash span pairs => span.Fits ∧ Node.PairsWritable pairs
  | .cond span condition _ consequence alternative =>
    span.Fits ∧ condition.Writable ∧ Node.AllWritable consequence ∧ Node.AllWritable alternative
  | .loop span condition _ body => span.Fits ∧ condition.Writable ∧ Node.AllWritable body
  | .method span name params body =>
    span.Fits ∧ name.isUtf8 ∧ ParamNames params ∧ Node.AllWritable body
  | .ret span value => span.Fits ∧ (value.isAbsent ∨ value.Writable)
  | .absent | .program .. | .block .. | .comment .. | .unknown .. => False

/-- A block that a call is written with, or none. -/
def Node.WritableBlock (n : Node) : Prop :=
  match n with
  | .absent => True
  | .block span params body => span.Fits ∧ ParamNames params ∧ Node.AllWritable body
  | _ => False

/-- All the nodes are writable. -/
def Node.AllWritable (ns : List Node) : Prop :=
  match ns with
  | [] => True
  | n :: rest => n.Writable ∧ Node.AllWritable rest

/-- All the pairs are writable. -/
def Node.PairsWritable (ps : List (Node × Node)) : Prop :=
  match ps with
  | [] => True
  | (key, value) :: rest => key.Writable ∧ value.Writable ∧ Node.PairsWritable rest

end

/-- Whether a node can stand in place of an else clause, as a further condition. -/
def Node.isFurther : Node → Bool
  | .cond _ _ negated _ _ => !negated
  | _ => false

namespace Wire.Build

/-! ## Records of nodes -/

/-- Gives a record its span. -/
def withSpan (span : Span) (r : Record) : Record :=
  place r (UInt32.ofNat span.start) (UInt32.ofNat (span.stop - span.start))

/-- Writes a variable. -/
def writeTo : Scope → Text → Record → Record
  | .local => localWrite
  | .object => instanceWrite
  | .global => globalWrite
  | .constant => constantWrite

/-- Reads a variable. -/
def readFrom : Scope → Text → Record
  | .local => localRead
  | .object => instanceRead
  | .global => globalRead
  | .constant => constantRead

/-- What follows the first branch of a condition, from the nodes of its alternative and their records. A
lone further condition is written as such where `further` says so, and else in a clause like other nodes. -/
def alternative (further : Node → Bool) : List Node → List Record → Record
  | [], _ => .absent
  | [n], [r] => if n.isFurther && further n then r else otherwise [r]
  | _, rs => otherwise rs

mutual

/-- The record of a node, made by the constructor for its kind. -/
def ofNode (further : Node → Bool) (n : Node) : Record :=
  match n with
  | .assignment span name scope operator value =>
    let value := ofNode further value
    withSpan span (if operator.isEmpty then writeTo scope name value
      else localOperatorWrite name operator value)
  | .var span name scope => withSpan span (readFrom scope name)
  | .call span receiver name arguments blk =>
    withSpan span (call (ofNode further receiver) name (ofNodes further arguments) (ofNode further blk))
  | .block span params body => withSpan span (block params (ofNodes further body))
  | .self span => withSpan span self
  | .string span value => withSpan span (string value)
  | .symbol span value => withSpan span (symbol value)
  | .integer span value => withSpan span (integer value)
  | .float span value => withSpan span (float value)
  | .boolean span value => withSpan span (if value then true_ else false_)
  | .nil span => withSpan span nil
  | .array span elements => withSpan span (array (ofNodes further elements))
  | .hash span pairs => withSpan span (hash (ofPairs further pairs))
  | .cond span condition negated consequence otherwise =>
    let rs := ofNodes further otherwise
    withSpan span (if negated then
        condNot (ofNode further condition) (ofNodes further consequence) (alternative (fun _ => false) otherwise rs)
      else cond (ofNode further condition) (ofNodes further consequence) (alternative further otherwise rs))
  | .loop span condition negated body =>
    withSpan span (loop (if negated then .until else .while) (ofNode further condition) (ofNodes further body))
  | .method span name params body => withSpan span (method name params (ofNodes further body))
  | .ret span value => withSpan span (ret (ofNode further value))
  | .absent | .program .. | .comment .. | .unknown .. => .absent

/-- The records of nodes. -/
def ofNodes (further : Node → Bool) (ns : List Node) : List Record :=
  match ns with
  | [] => []
  | n :: rest => ofNode further n :: ofNodes further rest

/-- The records of pairs. -/
def ofPairs (further : Node → Bool) (ps : List (Node × Node)) : List Record :=
  match ps with
  | [] => []
  | (key, value) :: rest =>
    assoc (ofNode further key) (ofNode further value) :: ofPairs further rest

end

/-- The record of a program. -/
def ofProgram (further : Node → Bool) (span : Span) (body : List Node) : Record :=
  withSpan span (program (ofNodes further body))

/-! ## The meaning of what was built -/

variable {params : List Text}

section Meaning

variable (source : Text) (span : Span)

/-- The place that is read from what was written for a place. -/
def placed (span : Span) : Span :=
  Lowering.span ⟨UInt32.ofNat span.start, UInt32.ofNat (span.stop - span.start)⟩

lemma placed_eq {span : Span} (h : span.Fits) : placed span = span := by
  simp only [placed, Lowering.span, Location.stop, Read.toNat_ofNat_length h.start_lt,
    Read.toNat_ofNat_length h.length_lt]
  rw [Nat.add_sub_cancel' h.ordered]

/-! Every constructor puts its parts into the fields where the meaning of its type looks for them. -/

lemma node_writeTo (scope : Scope) (name : Text) (value : Record) :
    ((withSpan span (writeTo scope name value)).lower source).node
      = .assignment (placed span) name (.ofName name) [] (value.lower source).node := by
  cases scope <;> rfl

lemma node_localOperatorWrite (name operator : Text) (value : Record) :
    ((withSpan span (localOperatorWrite name operator value)).lower source).node
      = .assignment (placed span) name (.ofName name) operator (value.lower source).node := rfl

lemma node_readFrom (scope : Scope) (name : Text) :
    ((withSpan span (readFrom scope name)).lower source).node = .var (placed span) name (.ofName name) := by
  cases scope <;> rfl

lemma arguments_lower (args : List Record) :
    ((if args.isEmpty then .absent else arguments args).lower source).arguments
      = (Record.lowerAll source args).map Lowered.node := by
  cases args <;> rfl

lemma node_call_absent (receiver : Record) (name : Text) (args : List Record) :
    ((withSpan span (call receiver name args .absent)).lower source).node
      = .call (placed span) (receiver.lower source).node name
        ((Record.lowerAll source args).map Lowered.node) .absent := by
  rw [← arguments_lower]
  rfl

lemma node_call_block (receiver : Record) (name : Text) (args : List Record) {blk : Record}
    (h : (blk.lower source).isType .block) :
    ((withSpan span (call receiver name args blk)).lower source).node
      = .call (placed span) (receiver.lower source).node name
        ((Record.lowerAll source args).map Lowered.node) (blk.lower source).block := by
  rw [← arguments_lower]
  cases blk with
  | absent => simp [Record.lower, Lowered.isType] at h
  | mk type id loc flags fields => exact if_pos h

lemma body_statements (body : List Record) :
    ((if body.isEmpty then .absent else statements body).lower source).body
      = (Record.lowerAll source body).map Lowered.node := by
  cases body <;> rfl

/-- The names of parameters come back, since none of them is empty. -/
lemma parameters_lower (h : ParamNames params) : ((parameters params).lower source).parameters = params := by
  have hwords : ∀ ps : List Text,
      (Record.lowerAll source (ps.map fun n => ofFields .requiredParameter [.const n])).map
        (fun p => Parts.word p.parts "name") = ps := by
    intro ps
    induction ps with
    | nil => rfl
    | cons p ps ih => exact congrArg (p :: ·) ih
  cases params with
  | nil => rfl
  | cons p ps =>
    have hfilter : ((parameters (p :: ps)).lower source).parameters
        = ((Record.lowerAll source ((p :: ps).map fun n => ofFields .requiredParameter [.const n])
          ++ [] ++ []).map fun p : Lowered => Parts.word p.parts "name").filter fun name => !name.isEmpty := rfl
    rw [hfilter, append_nil, append_nil, hwords, filter_eq_self]
    exact fun q hq => by simpa using (h q hq).1

lemma block_lower (h : ParamNames params) (body : List Record) :
    ((withSpan span (block params body)).lower source).block
      = .block (placed span) params ((Record.lowerAll source body).map Lowered.node) := by
  rw [← body_statements]
  cases params with
  | nil => rfl
  | cons p ps => exact congrArg (Node.block (placed span) · _) (parameters_lower source h)

lemma int64?_ofInt64 (i : Int64) : Value.int64? (decide (i < 0)) (UInt64.ofNat i.toInt.natAbs) = some i := by
  have hl := i.le_toInt
  have hu := i.toInt_lt
  have hm : (UInt64.ofNat i.toInt.natAbs).toNat = i.toInt.natAbs := by
    rw [UInt64.toNat_ofNat']
    exact Nat.mod_eq_of_lt (by omega)
  have hneg : i < 0 ↔ i.toInt < 0 := Int64.lt_iff_toInt_lt
  have h63 : Nat.pow 2 63 = 9223372036854775808 := by decide
  rw [Value.int64?, hm, h63]
  by_cases h : i < 0
  · have hi : -(i.toInt.natAbs : Int) = i.toInt := by
      have := hneg.1 h
      omega
    rw [if_pos (by simpa using h), if_neg (by omega), hi, Int64.ofInt_toInt]
  · have hi : (i.toInt.natAbs : Int) = i.toInt := by
      have : ¬ i.toInt < 0 := fun h' => h (hneg.2 h')
      omega
    rw [if_neg (by simpa using h), if_neg (by omega), hi, Int64.ofInt_toInt]

lemma node_integer (i : Int64) : ((withSpan span (integer i)).lower source).node = .integer (placed span) i := by
  have hvalue : (Value.ofInt64 i).lower source = .integer (some i) :=
    congrArg Part.integer (int64?_ofInt64 i)
  change Lowering.meaning (placed span) _ [(Text.ofString "value", (Value.ofInt64 i).lower source)] .integer = _
  rw [hvalue]
  rfl

lemma node_cond (predicate : Record) (body : List Record) (subsequent : Record) :
    ((withSpan span (cond predicate body subsequent)).lower source).node
      = .cond (placed span) (predicate.lower source).node false
        ((Record.lowerAll source body).map Lowered.node) (subsequent.lower source).branch := by
  rw [← body_statements]
  rfl

lemma node_condNot (predicate : Record) (body : List Record) (subsequent : Record) :
    ((withSpan span (condNot predicate body subsequent)).lower source).node
      = .cond (placed span) (predicate.lower source).node true
        ((Record.lowerAll source body).map Lowered.node) (subsequent.lower source).branch := by
  rw [← body_statements]
  rfl

lemma branch_otherwise (body : List Record) :
    ((otherwise body).lower source).branch = (Record.lowerAll source body).map Lowered.node := by
  rw [← body_statements]
  rfl

lemma node_loop (predicate : Record) (negated : Bool) (body : List Record) :
    ((withSpan span (loop (if negated then .until else .while) predicate body)).lower source).node
      = .loop (placed span) (predicate.lower source).node negated ((Record.lowerAll source body).map Lowered.node) := by
  rw [← body_statements]
  cases negated <;> rfl

lemma node_method (name : Text) (h : ParamNames params) (body : List Record) :
    ((withSpan span (method name params body)).lower source).node
      = .method (placed span) name params ((Record.lowerAll source body).map Lowered.node) := by
  rw [← body_statements]
  exact congrArg (Node.method (placed span) name · _) (parameters_lower source h)

lemma node_ret (value : Record) :
    ((withSpan span (ret value)).lower source).node = .ret (placed span) (value.lower source).node := by
  cases value <;> rfl

/-- An alternative comes back, whether it was written as a further condition or as a clause. -/
lemma branch_alternative (further choice : Node → Bool) {ns : List Node}
    (h : (Record.lowerAll source (ofNodes further ns)).map Lowered.node = ns) :
    ((alternative choice ns (ofNodes further ns)).lower source).branch = ns := by
  match ns with
  | [] => rfl
  | [n] =>
    rw [ofNodes, ofNodes] at h ⊢
    rw [alternative]
    split_ifs with hfurther
    · -- only the record of a condition without negation stands for itself
      have hbranch : ((ofNode further n).lower source).branch
          = (Record.lowerAll source [ofNode further n]).map Lowered.node := by
        cases n with
        | cond span condition negated consequence otherwise =>
          cases negated with
          | false => rfl
          | true => simp [Node.isFurther] at hfurther
        | _ => simp [Node.isFurther] at hfurther
      rw [hbranch, h]
    · rw [branch_otherwise, h]
  | n :: n' :: rest => exact (branch_otherwise source _).trans h

end Meaning

/-! ## What was built obeys the schemas -/

section Good

/-- A record that obeys the schemas and holds UTF-8 only. -/
structure Good (r : Record) : Prop where
  conforms : r.Conforms
  utf8 : r.Utf8

/-- A value that fits into a good record. -/
structure GoodValue (v : Value) : Prop where
  conforms : v.Conforms
  utf8 : v.Utf8

lemma good_ofFields {type : RecordType} {schema : Schema} {fields : List Value}
    (hschema : type.schema? = some schema) (hfits : schema.Fits fields)
    (h : ∀ v ∈ fields, GoodValue v) : Good (ofFields type fields) where
  conforms := ⟨⟨schema, hschema, hfits⟩, (valuesConform_iff _).2 fun v hv => (h v hv).conforms⟩
  utf8 := (valuesUtf8_iff _).2 fun v hv => (h v hv).utf8

@[simp] lemma goodValue_node {r : Record} : GoodValue (.node r) ↔ Good r :=
  ⟨fun h => ⟨h.conforms, h.utf8⟩, fun h => ⟨h.conforms, h.utf8⟩⟩

@[simp] lemma goodValue_absent : GoodValue (.optNode .absent) := ⟨.inl rfl, trivial⟩

lemma goodValue_optNode {r : Record} (h : Good r) : GoodValue (.optNode r) := ⟨.inr h.conforms, h.utf8⟩

@[simp] lemma goodValue_nodes {rs : List Record} : GoodValue (.nodes rs) ↔ ∀ r ∈ rs, Good r := by
  constructor
  · rintro ⟨hc, hu⟩ r hr
    exact ⟨(allConform_iff rs).1 hc r hr, (allUtf8_iff rs).1 hu r hr⟩
  · exact fun h => ⟨(allConform_iff rs).2 fun r hr => (h r hr).conforms, (allUtf8_iff rs).2 fun r hr => (h r hr).utf8⟩

variable {name : Text}

@[simp] lemma goodValue_const : GoodValue (.const name) ↔ name.isUtf8 :=
  ⟨fun h => h.utf8, fun h => ⟨trivial, h⟩⟩

@[simp] lemma goodValue_consts {names : List Text} : GoodValue (.consts names) ↔ ∀ t ∈ names, t.isUtf8 :=
  ⟨fun h => h.utf8, fun h => ⟨trivial, h⟩⟩

@[simp] lemma goodValue_string {value : Text} : GoodValue (.string value) ↔ value.isUtf8 :=
  ⟨fun h => h.utf8, fun h => ⟨trivial, h⟩⟩

@[simp] lemma goodValue_noLoc : GoodValue noLoc := ⟨rfl, trivial⟩
@[simp] lemma goodValue_optLoc : GoodValue optLoc := ⟨trivial, trivial⟩
@[simp] lemma goodValue_uint (n : UInt32) : GoodValue (.uint n) := ⟨trivial, trivial⟩
@[simp] lemma goodValue_double (x : Binary64) : GoodValue (.double x) := ⟨trivial, trivial⟩
@[simp] lemma goodValue_ofInt64 (i : Int64) : GoodValue (.ofInt64 i) := ⟨trivial, trivial⟩

lemma good_withSpan {span : Span} {r : Record} (h : Good r) : Good (withSpan span r) := by
  cases r with
  | absent => exact h
  | mk type id loc flags fields => exact ⟨h.conforms, h.utf8⟩

variable {body : List Record}

lemma goodValue_optStatements (h : ∀ r ∈ body, Good r) : GoodValue (optStatements body) := by
  rw [optStatements]
  split_ifs
  · exact goodValue_absent
  · exact goodValue_optNode (good_ofFields rfl rfl (by simpa using h))

lemma goodValue_parameters (h : ParamNames params) : GoodValue (.optNode (parameters params)) := by
  rw [parameters]
  split_ifs
  · exact goodValue_absent
  · refine goodValue_optNode (good_ofFields rfl rfl ?_)
    have hp : ∀ p ∈ params, Good (ofFields .requiredParameter [.const p]) := fun p hp =>
      good_ofFields rfl rfl (by simpa using (h p hp).2)
    simpa using hp

lemma good_writeTo (scope : Scope) {value : Record} (hname : name.isUtf8)
    (hvalue : Good value) : Good (writeTo scope name value) := by
  cases scope <;> exact good_ofFields rfl rfl (by simp [hname, hvalue])

lemma good_readFrom (scope : Scope) (hname : name.isUtf8) : Good (readFrom scope name) := by
  cases scope <;> exact good_ofFields rfl rfl (by simp [hname])

lemma good_arguments {args : List Record} (h : ∀ r ∈ args, Good r) : Good (arguments args) :=
  good_ofFields rfl rfl (by simpa using h)

lemma good_call {receiver : Record} {args : List Record} {blk : Record}
    (hreceiver : GoodValue (.optNode receiver)) (hname : name.isUtf8)
    (hargs : ∀ r ∈ args, Good r) (hblk : GoodValue (.optNode blk)) : Good (call receiver name args blk) := by
  have ha : GoodValue (.optNode (if args.isEmpty then .absent else arguments args)) := by
    split_ifs
    · exact goodValue_absent
    · exact goodValue_optNode (good_arguments hargs)
  refine good_ofFields rfl rfl ?_
  simp only [forall_mem_cons]
  exact ⟨hreceiver, goodValue_optLoc, goodValue_const.2 hname, goodValue_optLoc, goodValue_optLoc, ha,
    goodValue_optLoc, hblk, by simp⟩

lemma good_block (hparams : ParamNames params) (hbody : ∀ r ∈ body, Good r) : Good (block params body) := by
  have hp : GoodValue (.optNode (blockParameters params)) := by
    rw [blockParameters]
    split_ifs
    · exact goodValue_absent
    · exact goodValue_optNode (good_ofFields rfl rfl (by simp [goodValue_parameters hparams]))
  have hnames : ∀ p ∈ params, p.isUtf8 := fun p h => (hparams p h).2
  exact good_ofFields rfl rfl (by simpa [hp, goodValue_optStatements hbody] using hnames)

lemma good_method (hname : name.isUtf8)
    (hparams : ParamNames params) (hbody : ∀ r ∈ body, Good r) : Good (method name params body) := by
  have hnames : ∀ p ∈ params, p.isUtf8 := fun p h => (hparams p h).2
  exact good_ofFields rfl rfl
    (by simpa [hname, goodValue_parameters hparams, goodValue_optStatements hbody] using hnames)

lemma good_loop (negated : Bool) {predicate : Record} (hpredicate : Good predicate)
    (hbody : ∀ r ∈ body, Good r) : Good (loop (if negated then .until else .while) predicate body) := by
  have hfields : ∀ v ∈ [noLoc, optLoc, optLoc, .node predicate, optStatements body], GoodValue v := by
    simp [hpredicate, goodValue_optStatements hbody]
  cases negated <;> exact good_ofFields rfl rfl hfields

lemma good_ret {value : Record} (h : GoodValue (.optNode value)) : Good (ret value) := by
  have hv : GoodValue (.optNode (if value.isAbsent then .absent else arguments [value])) := by
    split_ifs with habsent
    · exact goodValue_absent
    · have hgood : Good value := ⟨h.conforms.resolve_left habsent, h.utf8⟩
      exact goodValue_optNode (good_arguments (by simpa using hgood))
  exact good_ofFields rfl rfl (by simp [hv])

lemma goodValue_alternative (choice : Node → Bool) (ns : List Node) {rs : List Record}
    (h : ∀ r ∈ rs, Good r) : GoodValue (.optNode (alternative choice ns rs)) := by
  have hclause : Good (otherwise rs) :=
    good_ofFields rfl rfl (by simp [goodValue_optStatements h])
  rw [alternative.eq_def]
  split
  · exact goodValue_absent
  · split_ifs
    · exact goodValue_optNode (h _ (by simp))
    · exact goodValue_optNode hclause
  · exact goodValue_optNode hclause

end Good

/-! ## All nodes -/

section Conveys

variable (source : Text) (further : Node → Bool)

/-- A good record whose meaning is a node. -/
structure Conveys (n : Node) (r : Record) : Prop extends Good r where
  node : (r.lower source).node = n

/-- The records convey the nodes. -/
structure ConveysAll (ns : List Node) (rs : List Record) : Prop where
  good : ∀ r ∈ rs, Good r
  nodes : (Record.lowerAll source rs).map Lowered.node = ns

lemma optional_ofNode {n : Node} (h : n.isAbsent ∨ Conveys source n (ofNode further n)) :
    GoodValue (.optNode (ofNode further n)) ∧ ((ofNode further n).lower source).node = n := by
  rcases h with habsent | h
  · rw [Node.eq_absent_of_isAbsent habsent]
    exact ⟨goodValue_absent, rfl⟩
  · exact ⟨goodValue_optNode h.toGood, h.node⟩

mutual

/-- The record of a writable node is good, and its meaning is the node. -/
lemma conveys_ofNode (n : Node) (h : n.Writable) : Conveys source n (ofNode further n) := by
  match n with
  | .assignment span name scope operator value =>
    obtain ⟨hspan, hname, hoperator, hscope, -, hvalue⟩ := h
    have ih := conveys_ofNode value hvalue
    cases operator with
    | nil =>
      refine ⟨good_withSpan (good_writeTo scope hname ih.toGood), ?_⟩
      rw [ofNode, isEmpty_nil, if_pos rfl, node_writeTo, placed_eq hspan, ih.node, ← hscope]
    | cons b rest =>
      refine ⟨good_withSpan (good_ofFields rfl rfl (by simp [ih.toGood, hname, hoperator])), ?_⟩
      rw [ofNode, isEmpty_cons, if_neg (by simp), node_localOperatorWrite, placed_eq hspan, ih.node, ← hscope]
  | .var span name scope =>
    obtain ⟨hspan, hname, hscope⟩ := h
    refine ⟨good_withSpan (good_readFrom scope hname), ?_⟩
    rw [ofNode, node_readFrom, placed_eq hspan, ← hscope]
  | .call span receiver name arguments blk =>
    obtain ⟨hspan, hname, hreceiver, harguments, hblock⟩ := h
    obtain ⟨hr, hreceiver⟩ := optional_ofNode source further (hreceiver.imp_right (conveys_ofNode receiver))
    have ha := conveysAll_ofNodes arguments harguments
    obtain ⟨hb, hblock⟩ := conveys_ofBlock blk hblock
    refine ⟨good_withSpan (good_call hr hname ha.good hb), ?_⟩
    rcases hblock with rfl | ⟨htype, hblock⟩
    · rw [ofNode, ofNode, node_call_absent, placed_eq hspan, hreceiver, ha.nodes]
    · rw [ofNode, node_call_block _ _ _ _ _ htype, placed_eq hspan, hreceiver, ha.nodes, hblock]
  | .self span => exact ⟨good_withSpan (good_ofFields rfl rfl (by simp)), congrArg Node.self (placed_eq h)⟩
  | .nil span => exact ⟨good_withSpan (good_ofFields rfl rfl (by simp)), congrArg Node.nil (placed_eq h)⟩
  | .boolean span value =>
    refine ⟨?_, ?_⟩
    · cases value <;> exact good_withSpan (good_ofFields rfl rfl (by simp))
    · cases value <;> exact congrArg (Node.boolean · _) (placed_eq h)
  | .integer span value =>
    refine ⟨good_withSpan (good_ofFields rfl rfl (by simp)), ?_⟩
    rw [ofNode, node_integer, placed_eq h]
  | .float span value =>
    exact ⟨good_withSpan (good_ofFields rfl rfl (by simp)), congrArg (Node.float · value) (placed_eq h)⟩
  | .string span value =>
    exact ⟨good_withSpan (good_ofFields rfl rfl (by simp [h.2])), congrArg (Node.string · value) (placed_eq h.1)⟩
  | .symbol span value =>
    exact ⟨good_withSpan (good_ofFields rfl rfl (by simp [h.2])), congrArg (Node.symbol · value) (placed_eq h.1)⟩
  | .array span elements =>
    have hes := conveysAll_ofNodes elements h.2
    exact ⟨good_withSpan (good_ofFields rfl rfl (by simpa using hes.good)),
      congrArg₂ Node.array (placed_eq h.1) hes.nodes⟩
  | .hash span pairs =>
    obtain ⟨hgood, hpairs⟩ := conveys_ofPairs pairs h.2
    exact ⟨good_withSpan (good_ofFields rfl rfl (by simpa using hgood)), congrArg₂ Node.hash (placed_eq h.1) hpairs⟩
  | .cond span condition negated consequence otherwise =>
    obtain ⟨hspan, hcondition, hconsequence, hotherwise⟩ := h
    have hc := conveys_ofNode condition hcondition
    have ht := conveysAll_ofNodes consequence hconsequence
    have he := conveysAll_ofNodes otherwise hotherwise
    have hgood := fun choice => goodValue_alternative choice otherwise he.good
    -- the two conditionals are different records
    cases negated with
    | false =>
      refine ⟨good_withSpan (good_ofFields rfl rfl ?_), ?_⟩
      · simp [hc.toGood, goodValue_optStatements ht.good, hgood]
      · rw [ofNode, if_neg (by simp), node_cond, placed_eq hspan, hc.node, ht.nodes, branch_alternative _ _ _ he.nodes]
    | true =>
      refine ⟨good_withSpan (good_ofFields rfl rfl ?_), ?_⟩
      · simp [hc.toGood, goodValue_optStatements ht.good, hgood]
      · rw [ofNode, if_pos rfl, node_condNot, placed_eq hspan, hc.node, ht.nodes, branch_alternative _ _ _ he.nodes]
  | .loop span condition negated body =>
    obtain ⟨hspan, hcondition, hbody⟩ := h
    have hc := conveys_ofNode condition hcondition
    have hb := conveysAll_ofNodes body hbody
    refine ⟨good_withSpan (good_loop negated hc.toGood hb.good), ?_⟩
    rw [ofNode, node_loop, placed_eq hspan, hc.node, hb.nodes]
  | .method span name params body =>
    obtain ⟨hspan, hname, hparams, hbody⟩ := h
    have hb := conveysAll_ofNodes body hbody
    refine ⟨good_withSpan (good_method hname hparams hb.good), ?_⟩
    rw [ofNode, node_method _ _ _ hparams, placed_eq hspan, hb.nodes]
  | .ret span value =>
    obtain ⟨hv, hvalue⟩ := optional_ofNode source further (h.2.imp_right (conveys_ofNode value))
    refine ⟨good_withSpan (good_ret hv), ?_⟩
    rw [ofNode, node_ret, placed_eq h.1, hvalue]

/-- A call's block comes back as such, and no block as none. -/
lemma conveys_ofBlock (n : Node) (h : n.WritableBlock) : GoodValue (.optNode (ofNode further n)) ∧
    (n = .absent ∨ ((ofNode further n).lower source).isType .block ∧ ((ofNode further n).lower source).block = n) := by
  match n with
  | .absent => exact ⟨goodValue_absent, .inl rfl⟩
  | .block span params body =>
    obtain ⟨hspan, hparams, hbody⟩ := h
    have hb := conveysAll_ofNodes body hbody
    refine ⟨goodValue_optNode (good_withSpan (good_block hparams hb.good)), .inr ⟨rfl, ?_⟩⟩
    rw [ofNode, block_lower _ _ hparams, placed_eq hspan, hb.nodes]

lemma conveysAll_ofNodes (ns : List Node) (h : Node.AllWritable ns) : ConveysAll source ns (ofNodes further ns) := by
  match ns with
  | [] => exact ⟨forall_mem_nil _, rfl⟩
  | n :: rest =>
    have hn := conveys_ofNode n h.1
    have hrest := conveysAll_ofNodes rest h.2
    exact ⟨forall_mem_cons.2 ⟨hn.toGood, hrest.good⟩, congrArg₂ List.cons hn.node hrest.nodes⟩

lemma conveys_ofPairs (ps : List (Node × Node)) (h : Node.PairsWritable ps) : (∀ r ∈ ofPairs further ps, Good r) ∧
    (Record.lowerAll source (ofPairs further ps)).map Lowered.pair = ps := by
  match ps with
  | [] => exact ⟨forall_mem_nil _, rfl⟩
  | (key, value) :: rest =>
    have hkey := conveys_ofNode key h.1
    have hvalue := conveys_ofNode value h.2.1
    obtain ⟨hgood, hrest⟩ := conveys_ofPairs rest h.2.2
    have hpair : Good (assoc (ofNode further key) (ofNode further value)) :=
      good_ofFields rfl rfl (by simp [hkey.toGood, hvalue.toGood])
    exact ⟨forall_mem_cons.2 ⟨hpair, hgood⟩, congrArg₂ List.cons (Prod.ext hkey.node hvalue.node) hrest⟩

end

end Conveys

lemma good_ofProgram (further : Node → Bool) (span : Span) {body : List Node}
    (h : Node.AllWritable body) : Good (ofProgram further span body) := by
  have hbody : Good (statements (ofNodes further body)) :=
    good_ofFields rfl rfl (by simpa using (conveysAll_ofNodes [] further body h).good)
  exact good_withSpan (good_ofFields rfl rfl (by simp [hbody]))

/-! ## Through the bytes -/

lemma length_numeral_le {n k : Nat} (h : n < 128 ^ (k + 1)) : (Write.numeral n).length ≤ k + 1 := by
  induction k generalizing n with
  | zero =>
    rw [Write.numeral, if_pos (by simpa using h)]
    exact Nat.le_refl 1
  | succ k ih =>
    rw [Write.numeral]
    split_ifs
    · exact Nat.le_add_left 1 _
    · exact Nat.succ_le_succ (ih (by omega))

lemma length_u32_le (n : UInt32) : (Write.u32 n).length ≤ 5 :=
  length_numeral_le (Nat.lt_trans n.toNat_lt (by decide))

lemma length_name_le (t : Text) : (Write.name t).length ≤ 5 + t.length := by
  rw [Write.name, length_append]
  exact Nat.add_le_add_right (length_u32_le _) _

/-- A document of this root. -/
def document (root : Record) : Document := ⟨.zero, [], 0, [], [], [], root⟩

lemma sound_document {root : Record} (h : Good root) (hdepth : root.depth ≤ maxDepth) : (document root).Sound where
  version := .inl rfl
  conforms := h.conforms
  utf8 := ⟨by simp [document, Text.isUtf8, Text.runes], by simp [document], by simp [document], h.utf8⟩
  depth := hdepth

/-- A program comes back from the document of its record. -/
lemma parsed_document (further : Node → Bool) {span : Span} {body : List Node} (hspan : span.Fits)
    (hbody : Node.AllWritable body) (source : Text) :
    (document (ofProgram further span body)).completed.parsed source false
      = { root := some ⟨span, some body⟩, source, tier := .binary, diagnostics := .empty,
          success := true } := by
  have hroot : (document (ofProgram further span body)).completed.parsed source false
      = { root := some ⟨placed span, some ((Record.lowerAll source (ofNodes further body)).map Lowered.node)⟩
          source, tier := .binary, diagnostics := .empty, success := true } := rfl
  rw [hroot, placed_eq hspan, (conveysAll_ofNodes source further body hbody).nodes]

/-- What is encoded from a program is parsed as that program. -/
lemma parse_of_encode_ofProgram {further : Node → Bool} {span : Span} {body : List Node} (hspan : span.Fits)
    (hbody : Node.AllWritable body) (hdepth : (ofProgram further span body).depth ≤ maxDepth) {bytes : Text}
    (hencode : (document (ofProgram further span body)).encode = .ok bytes) (hlength : bytes.length < 2 ^ 32)
    (source : Text) : Wire.parse false bytes source
      = .ok { root := some ⟨span, some body⟩, source, tier := .binary, diagnostics := .empty, success := true } := by
  have hsound := sound_document (good_ofProgram further span hbody) hdepth
  obtain ⟨records, pool, hassemble, hr⟩ := Document.encode_eq_assemble hsound
  obtain rfl := Except.ok.inj (hassemble.symm.trans hencode)
  rw [Wire.parse, Document.decode, Document.read_assemble hsound hr hlength,
    ← parsed_document further hspan hbody source]
  rfl

/-- A document without comments and messages takes little more than its records and its pool. -/
lemma length_assemble_document_le (root : Record) (records : Text) (pool : List Text) :
    ((document root).assemble records pool).length ≤ 60 + records.length + (pool.flatMap Write.name).length := by
  have hpool := length_u32_le (UInt32.ofNat pool.length)
  have hheader : (document root).header.length ≤ 35 := by
    have hencoding : (Write.name "UTF-8").length ≤ 10 := length_name_le _
    have hmagic : magic.length = 5 := rfl
    have hline : (Write.signedNumeral (0 : Int64).toInt).length = 1 := by
      rw [Write.signedNumeral]
      rfl
    have hlist := length_u32_le (UInt32.ofNat 0)
    simp only [Document.header, Document.listText, document, Document.givenEncoding, isEmpty_nil, if_true,
      length_append, length_cons, length_nil, flatMap_nil]
    omega
  simp only [Document.assemble, length_append, Write.u32le, Read.length_littleEndian]
  omega

/-- **A program survives its records.** A program of writable nodes, turned into records and written, is
parsed as the same program: every node, name, number and place comes back, on whichever side of the choice
between a further condition and an else clause each alternative was written. The bytes have to be numbered
in 32 bits and the records nested no deeper than is read. -/
theorem parse_encode_ofProgram (further : Node → Bool) (span : Span) (body : List Node)
    (hspan : span.Fits) (hbody : Node.AllWritable body)
    (hdepth : (ofProgram further span body).depth ≤ maxDepth) (source : Text) :
    ∃ bytes, (document (ofProgram further span body)).encode = .ok bytes ∧
      (bytes.length < 2 ^ 32 → Wire.parse false bytes source
        = .ok { root := some ⟨span, some body⟩, source, tier := .binary, diagnostics := .empty,
                success := true }) := by
  obtain ⟨records, pool, hencode, -⟩ :=
    Document.encode_eq_assemble (sound_document (good_ofProgram further span hbody) hdepth)
  exact ⟨_, hencode, fun hlength => parse_of_encode_ofProgram hspan hbody hdepth hencode hlength source⟩

/-- A compound assignment of the least integer, and a chain of two conditions with a call in the second
branch, given a string, a hash and a block that returns. -/
def sampleBody : List Node :=
  [.assignment ⟨0, 6⟩ "x" .local "+" (.integer ⟨5, 6⟩ (-9223372036854775808)),
    .cond ⟨7, 80⟩ (.var ⟨10, 11⟩ "x" .local) false [] [
      .cond ⟨12, 80⟩ (.var ⟨18, 20⟩ "@y" .object) false [
        .call ⟨23, 60⟩ (.self ⟨23, 27⟩) "each" [.string ⟨30, 34⟩ "é",
            .hash ⟨35, 40⟩ [(.symbol ⟨35, 36⟩ "a", .float ⟨38, 40⟩ .nan)]]
          (.block ⟨41, 60⟩ ["a"] [.ret ⟨45, 51⟩ .absent])] []]]

theorem parse_encode_ofProgram_sample :
    Span.Fits ⟨0, 80⟩ ∧ Node.AllWritable sampleBody
      ∧ (ofProgram (fun _ => true) ⟨0, 80⟩ sampleBody).depth ≤ maxDepth
      ∧ ∃ bytes, (document (ofProgram (fun _ => true) ⟨0, 80⟩ sampleBody)).encode = .ok bytes
        ∧ bytes.length < 2 ^ 32 ∧ Wire.parse false bytes []
          = .ok { root := some ⟨⟨0, 80⟩, some sampleBody⟩, source := [], tier := .binary,
                  diagnostics := .empty, success := true } := by
  have hspan : Span.Fits ⟨0, 80⟩ := ⟨by decide, by decide, by decide⟩
  have hbody : Node.AllWritable sampleBody := by
    simp only [sampleBody, Node.AllWritable, Node.Writable, Node.WritableBlock, Node.PairsWritable,
      Node.isAbsent, Span.fits_iff, ParamNames, forall_mem_cons,
      not_mem_nil, false_implies, implies_true]
    refine ⟨?_, ⟨?_, ?_, ?_, ?_⟩, ?_⟩ <;> decide +kernel
  have hdepth : (ofProgram (fun _ => true) ⟨0, 80⟩ sampleBody).depth ≤ maxDepth := by decide +kernel
  obtain ⟨bytes, hencode, hparse⟩ :=
    parse_encode_ofProgram (fun _ => true) ⟨0, 80⟩ sampleBody hspan hbody hdepth []
  have hlen : bytes.length < 2 ^ 32 := by
    have hall : ((document (ofProgram (fun _ => true) ⟨0, 80⟩ sampleBody)).encode.toOption.all
        fun bytes => bytes.length < 2 ^ 32) = true := by
      decide +kernel
    simpa [hencode, Except.toOption] using hall
  exact ⟨hspan, hbody, hdepth, bytes, hencode, hlen, hparse hlen⟩

end Wire.Build

end Transpiler
