import Transpiler.Proofs.Syntax.Everywhere
import Transpiler.Script.Generator
import Transpiler.Wire.Lowering

/-!
# Comments leave no trace in generated code

Kept comments are placed between the top-level statements. The generator passes over them, both when it lists the
assignments of a body and when it generates the statements, so programs that differ only in top-level comments have
the same code (`Script.compile_withoutComments`). A document has no comments besides those in its header, hence taking
the kept ones out again gives the plain result (`Wire.parse_keeping_comments`).
-/

namespace Transpiler

open List Node

/-- The statements of a body, without the comments between them. -/
def Node.withoutComments (body : List Node) : List Node := body.filter fun n => !n.isComment

namespace Node

lemma withoutComments_append (body more : List Node) :
    withoutComments (body ++ more) = withoutComments body ++ withoutComments more := filter_append ..

lemma withoutComments_cons_of_comment {n : Node} (h : n.isComment) (rest : List Node) :
    withoutComments (n :: rest) = withoutComments rest := by
  simp [withoutComments, h]

lemma withoutComments_cons_of_code {n : Node} (h : n.isComment = false) (rest : List Node) :
    withoutComments (n :: rest) = n :: withoutComments rest := by
  simp [withoutComments, h]

end Node

/-! ## The generator passes over comments -/

namespace Script

open Node (withoutComments withoutComments_cons_of_comment withoutComments_cons_of_code)

lemma assignedInStatement_of_comment {n : Node} (h : n.isComment) : assignedInStatement n = [] := by
  cases n with
  | comment => rfl
  | _ => cases h

lemma assignedInBody_withoutComments (body : List Node) :
    assignedInBody (withoutComments body) = assignedInBody body := by
  induction body with
  | nil => rfl
  | cons n rest ih =>
    simp only [assignedInBody] at ih ⊢
    cases h : n.isComment with
    | true =>
      rw [withoutComments_cons_of_comment h, flatMap_cons, assignedInStatement_of_comment h, ih]
      rfl
    | false => rw [withoutComments_cons_of_code h, flatMap_cons, flatMap_cons, ih]

lemma ownUsages_withoutComments (outer : List Frame) (params : List Text) (body : List Node) :
    ownUsages outer params (withoutComments body) = ownUsages outer params body := by
  rw [ownUsages, ownUsages, usages, usages, assignedInBody_withoutComments]

lemma hoisted_withoutComments (outer : List Frame) (params : List Text) (body : List Node) :
    hoisted outer params (withoutComments body) = hoisted outer params body := by
  rw [hoisted, hoisted, ownUsages_withoutComments]

lemma Frame.ofBody_withoutComments (outer : List Frame) (params : List Text) (body : List Node) :
    Frame.ofBody outer params (withoutComments body) = Frame.ofBody outer params body := by
  rw [Frame.ofBody, Frame.ofBody, hoisted_withoutComments, ownUsages_withoutComments]

/-- A comment among the top-level nodes becomes nothing and is not counted. -/
lemma topLevel_cons_of_comment (o : Options) {n : Node} (h : n.isComment) (rest : List Node) :
    topLevel o (n :: rest) = topLevel o rest := by
  cases n with
  | comment => exact bind_pure (topLevel o rest)
  | _ => cases h

lemma topLevel_withoutComments (o : Options) (body : List Node) :
    topLevel o (withoutComments body) = topLevel o body := by
  induction body with
  | nil => rfl
  | cons n rest ih =>
    cases h : n.isComment with
    | true => rw [withoutComments_cons_of_comment h, topLevel_cons_of_comment o h, ih]
    | false => rw [withoutComments_cons_of_code h, topLevel, topLevel, ih]

/-- Top-level comments change neither the generated code nor its statistics. -/
lemma compile_withoutComments (o : Options) (body : List Node) : compile o (withoutComments body) = compile o body := by
  rw [compile, compile, script, script, topLevel_withoutComments, Frame.ofBody_withoutComments, hoisted_withoutComments]

end Script

namespace Wire

/-! ## Records mean no comments -/

/-- A tree without comments. -/
abbrev Bare (n : Node) : Prop := n.Everywhere fun m => m.isComment = false

lemma bare_leaf {n : Node} (habsent : n.isAbsent = false) (hcomment : n.isComment = false)
    (hchildren : n.children = []) : Bare n :=
  (everywhere_iff habsent).2 ⟨hcomment, by simp [hchildren]⟩

mutual

/-- A record whose meanings, and those of all records below it, are without comments. -/
inductive Lowered.Bare : Lowered → Prop
  | absent : Lowered.Bare .absent
  | mk {type : RecordType} {span : Span} {unknown node : Node} {parts : Parts} (hunknown : Wire.Bare unknown)
      (hnode : Wire.Bare node) (hparts : ∀ p ∈ parts, Part.Bare p.2) :
      Lowered.Bare (.mk type span unknown node parts)

/-- A field whose records are without comments. -/
inductive Part.Bare : Part → Prop
  | one {r : Lowered} (h : r.Bare) : Part.Bare (.one r)
  | many {rs : List Lowered} (h : ∀ r ∈ rs, Lowered.Bare r) : Part.Bare (.many rs)
  | word (t : Text) : Part.Bare (.word t)
  | integer (i : Option Int64) : Part.Bare (.integer i)
  | double (x : Binary64) : Part.Bare (.double x)
  | other : Part.Bare .other

end

namespace Parts

/-- The fields of a record that is without comments. -/
def Bare (parts : Parts) : Prop := ∀ p ∈ parts, Part.Bare p.2

variable {parts : Parts}

lemma Bare.get (h : Parts.Bare parts) (field : Text) : (get parts field).Bare := by
  rw [Parts.get]
  cases hfind : parts.lookup field with
  | none => exact .other
  | some part =>
    obtain ⟨_, _, rfl, _⟩ := lookup_eq_some_iff.1 hfind
    exact h (field, part) (by simp)

lemma Bare.one (h : Parts.Bare parts) (field : Text) : (one parts field).Bare := by
  have hpart := h.get field
  rw [Parts.one]
  split
  · rename_i r heq
    rw [heq] at hpart
    cases hpart with
    | one hr => exact hr
  · exact .absent

lemma Bare.many (h : Parts.Bare parts) (field : Text) : ∀ r ∈ many parts field, r.Bare := by
  have hpart := h.get field
  rw [Parts.many]
  split
  · rename_i rs heq
    rw [heq] at hpart
    cases hpart with
    | many hrs => exact hrs
  · simp

end Parts

namespace Lowered.Bare

variable {r : Lowered}

lemma parts (h : r.Bare) : Parts.Bare r.parts := by
  cases h with
  | absent => simp [Parts.Bare, Lowered.parts]
  | mk _ _ hparts => exact hparts

lemma node (h : r.Bare) : Wire.Bare r.node := by
  cases h with
  | absent => exact everywhere_absent
  | mk _ hnode _ => exact hnode

lemma unknown (h : r.Bare) : Wire.Bare r.unknown := by
  cases h with
  | absent => exact everywhere_absent
  | mk hunknown _ _ => exact hunknown

lemma node_of_mem {rs : List Lowered} (h : ∀ r ∈ rs, r.Bare) : ∀ n ∈ rs.map Lowered.node, Wire.Bare n := by
  rintro n hn
  obtain ⟨r, hr, rfl⟩ := mem_map.1 hn
  exact (h r hr).node

lemma body (h : r.Bare) : ∀ n ∈ r.body, Wire.Bare n := by
  cases h with
  | absent => simp [Lowered.body]
  | @mk type _ _ _ _ _ hnode hparts =>
    cases type with
    | statements => exact node_of_mem (Parts.Bare.many hparts "body")
    | _ => simpa [Lowered.body] using hnode

lemma branch (h : r.Bare) : ∀ n ∈ r.branch, Wire.Bare n := by
  cases h with
  | absent => simp [Lowered.branch]
  | @mk type _ _ _ _ hunknown hnode hparts =>
    cases type with
    | otherwise => exact (Parts.Bare.one hparts "statements").body
    | cond => simpa [Lowered.branch] using hnode
    | _ => simpa [Lowered.branch] using hunknown

lemma arguments (h : r.Bare) : ∀ n ∈ r.arguments, Wire.Bare n := node_of_mem (h.parts.many "arguments")

lemma pair (h : r.Bare) : Wire.Bare r.pair.1 ∧ Wire.Bare r.pair.2 := by
  have hslot : Wire.Bare r.unknown ∧ Wire.Bare (.nil .none) := ⟨h.unknown, bare_leaf rfl rfl rfl⟩
  cases h with
  | absent => exact hslot
  | @mk type _ _ _ _ _ _ hparts =>
    cases type with
    | assoc => exact ⟨(Parts.Bare.one hparts "key").node, (Parts.Bare.one hparts "value").node⟩
    | _ => exact hslot

lemma block (h : r.Bare) : Wire.Bare r.block :=
  (everywhere_iff rfl).2 ⟨rfl, (h.parts.one "body").body⟩

end Lowered.Bare

namespace Lowering

variable {span : Span} {parts : Parts}

lemma bare_callNode {receiver blk : Node} {name : Text} {arguments : List Node} (hreceiver : Bare receiver)
    (harguments : ∀ n ∈ arguments, Bare n) (hblk : Bare blk) :
    Bare (.call span receiver name arguments blk) := by
  refine (everywhere_iff rfl).2 ⟨rfl, ?_⟩
  simp only [children]
  grind

lemma bare_concat {left right : Node} (hleft : Bare left) (hright : Bare right) : Bare (concat span left right) :=
  bare_callNode hleft (by simpa using hright) everywhere_absent

lemma bare_foldl_concat {ns : List Node} (hns : ∀ n ∈ ns, Bare n) {start : Node} (hstart : Bare start) :
    Bare (ns.foldl (concat span) start) := by
  induction ns generalizing start with
  | nil => exact hstart
  | cons n rest ih =>
    rw [forall_mem_cons] at hns
    exact ih hns.2 (bare_concat hstart hns.1)

lemma bare_interpolated {ns : List Node} (hns : ∀ n ∈ ns, Bare n) : Bare (interpolated span ns) := by
  cases ns with
  | nil => exact bare_leaf rfl rfl rfl
  | cons first rest =>
    rw [forall_mem_cons] at hns
    refine bare_foldl_concat hns.2 ?_
    split
    · exact hns.1
    · exact bare_concat (bare_leaf rfl rfl rfl) hns.1

lemma bare_call (h : Parts.Bare parts) : Bare (call span parts) := by
  have hreceiver := (h.one "receiver").node
  have harguments := (h.one "arguments").arguments
  have hblock := h.one "block"
  rw [call]
  split
  · exact bare_callNode hreceiver harguments everywhere_absent
  · split
    · exact bare_callNode hreceiver harguments hblock.block
    · refine bare_callNode hreceiver ?_ everywhere_absent
      rw [forall_mem_append, forall_mem_singleton]
      exact ⟨harguments, hblock.unknown⟩

lemma bare_ret {r : Lowered} (h : r.Bare) : Bare (ret span r) := by
  have harguments := h.arguments
  rw [ret]
  split
  · exact (everywhere_iff rfl).2 ⟨rfl, by simp [children]⟩
  · rename_i value heq
    refine (everywhere_iff rfl).2 ⟨rfl, ?_⟩
    simpa [children, heq] using harguments
  · refine (everywhere_iff rfl).2 ⟨rfl, ?_⟩
    simp only [children, forall_mem_singleton]
    exact (everywhere_iff rfl).2 ⟨rfl, harguments⟩

/-- What a record means is without comments if what it is made of is. -/
lemma bare_meaning (unknown : Node) (hunknown : Bare unknown) (h : Parts.Bare parts) (type : RecordType) :
    Bare (meaning span unknown parts type) := by
  have hassigned : ∀ name operator : Text,
      Bare (.assignment span name (.ofName name) operator (Parts.one parts "value").node) := fun _ _ =>
    (everywhere_iff rfl).2 ⟨rfl, by simpa [children] using (h.one "value").node⟩
  have hchosen : ∀ negated, ∀ alternative : List Node, (∀ n ∈ alternative, Bare n) →
      Bare (.cond span (Parts.one parts "predicate").node negated (Parts.one parts "statements").body
        alternative) := fun negated alternative halternative => by
    have hpredicate := (h.one "predicate").node
    have hbody := (h.one "statements").body
    refine (everywhere_iff rfl).2 ⟨rfl, ?_⟩
    simp only [children]
    grind
  have hlooped : ∀ negated, Bare (.loop span (Parts.one parts "predicate").node negated
      (Parts.one parts "statements").body) := fun negated =>
    (everywhere_iff rfl).2 ⟨rfl, forall_mem_cons.2 ⟨(h.one "predicate").node, (h.one "statements").body⟩⟩
  have hjoined : ∀ name : Text, Bare (.call span (Parts.one parts "left").node name
      [(Parts.one parts "right").node] .absent) := fun name =>
    bare_callNode (h.one "left").node (by simpa using (h.one "right").node) everywhere_absent
  have hpaired : Bare (.hash span ((Parts.many parts "elements").map Lowered.pair)) := by
    refine (everywhere_iff rfl).2 ⟨rfl, ?_⟩
    have hpairs := h.many "elements"
    simp only [children]
    grind [Lowered.Bare.pair]
  cases type with
  | localWrite | instanceWrite | globalWrite | constantWrite | localOperatorWrite => exact hassigned _ _
  | localRead | instanceRead | globalRead | constantRead | string | symbol | true_ | false_ | nil | self =>
    exact bare_leaf rfl rfl rfl
  | call => exact bare_call h
  | and | or => exact hjoined _
  | parentheses =>
    have hbody := (h.one "body").body
    simp only [meaning]
    split
    · exact bare_leaf rfl rfl rfl
    · rename_i n heq
      simpa [heq] using hbody
    · exact hunknown
  | interpolatedString => exact bare_interpolated (Lowered.Bare.node_of_mem (h.many "parts"))
  | integer | float =>
    simp only [meaning]
    split
    · exact bare_leaf rfl rfl rfl
    · exact hunknown
  | array => exact (everywhere_iff rfl).2 ⟨rfl, Lowered.Bare.node_of_mem (h.many "elements")⟩
  | hash | keywordHash => exact hpaired
  | cond => exact hchosen _ _ (h.one "subsequent").branch
  | «unless» => exact hchosen _ _ (h.one "else_clause").branch
  | «while» | «until» => exact hlooped _
  | method =>
    simp only [meaning]
    split
    · exact (everywhere_iff rfl).2 ⟨rfl, (h.one "body").body⟩
    · exact hunknown
  | ret => exact bare_ret (h.one "arguments")
  | embeddedStatements =>
    have hbody := (h.one "statements").body
    simp only [meaning]
    cases hlast : (Parts.one parts "statements").body.getLast? with
    | none => exact bare_leaf rfl rfl rfl
    | some n => exact hbody n (mem_of_getLast? hlast)
  | _ => exact hunknown

end Lowering

mutual

lemma Record.bare_lower (source : Text) (r : Record) : (r.lower source).Bare :=
  match r with
  | .absent => .absent
  | .mk type _ loc _ fields => by
    have hunknown : Bare (.unknown (Lowering.span loc) type.name (Lowering.text source loc)) :=
      bare_leaf rfl rfl rfl
    have hparts : ∀ names : List Text, Parts.Bare (names.zip (Value.lowerAll source fields)) :=
      fun names p hp => Value.bare_lowerAll source fields p.2 (of_mem_zip hp).2
    exact .mk hunknown (Lowering.bare_meaning _ hunknown (hparts _) type) (hparts _)

lemma Record.bare_lowerAll (source : Text) (rs : List Record) : ∀ r ∈ Record.lowerAll source rs, r.Bare :=
  match rs with
  | [] => by simp [Record.lowerAll]
  | r :: rest => forall_mem_cons.2 ⟨Record.bare_lower source r, Record.bare_lowerAll source rest⟩

lemma Value.bare_lower (source : Text) (v : Value) : (v.lower source).Bare :=
  match v with
  | .node r => .one (Record.bare_lower source r)
  | .optNode r => .one (Record.bare_lower source r)
  | .nodes rs => .many (Record.bare_lowerAll source rs)
  | .const t => .word t
  | .string t => .word t
  | .integer .. => .integer _
  | .double x => .double x
  | .consts _ | .loc _ | .optLoc _ | .uint _ | .other _ => .other

lemma Value.bare_lowerAll (source : Text) (vs : List Value) : ∀ part ∈ Value.lowerAll source vs, part.Bare :=
  match vs with
  | [] => by simp [Value.lowerAll]
  | v :: rest => forall_mem_cons.2 ⟨Value.bare_lower source v, Value.bare_lowerAll source rest⟩

end

/-! ## Taking the kept comments out again -/

namespace Lowering

open Node (withoutComments withoutComments_append withoutComments_cons_of_comment)

/-- Placing comments between statements adds nothing but comments, wherever they are said to stand. -/
lemma withoutComments_interleave (source : Text) (comments : List Comment) (body : List Node) :
    withoutComments (interleave source comments body) = withoutComments body := by
  induction comments generalizing body with
  | nil => rfl
  | cons c rest ih =>
    rw [interleave, withoutComments_append, withoutComments_cons_of_comment rfl, ih, ← withoutComments_append,
      takeWhile_append_dropWhile]

end Lowering

lemma Document.bare_body (doc : Document) (source : Text) : ∀ n ∈ (doc.parsed source false).body, Bare n :=
  ((doc.root.bare_lower source).parts.one "statements").body

lemma withoutComments_of_bare {body : List Node} (h : ∀ n ∈ body, Bare n) : withoutComments body = body := by
  refine filter_eq_self.2 fun n hn => ?_
  cases n with
  | comment => exact absurd ((everywhere_iff rfl).1 (h _ hn)).1 (by simp [isComment])
  | _ => rfl

/-- Keeping comments changes nothing but the comments. With and without them a serialized tree is read or refused alike,
with the same diagnostics; the plain body, in which there is no comment at any depth, is the kept one without its
comments; and both generate the same code. -/
theorem parse_keeping_comments (data source : Text) :
    (∃ fault, parse true data source = .error fault ∧ parse false data source = .error fault) ∨
      ∃ kept plain, parse true data source = .ok kept ∧ parse false data source = .ok plain
        ∧ kept.diagnostics = plain.diagnostics
        ∧ withoutComments kept.body = plain.body
        ∧ (∀ n ∈ walkAll (fun _ => true) plain.body, n.isComment = false)
        ∧ ∀ o : Script.Options, Script.compile o kept.body = Script.compile o plain.body := by
  rw [parse, parse]
  cases Document.decode data with
  | error fault => exact .inl ⟨fault, rfl, rfl⟩
  | ok doc =>
    have hbare := doc.bare_body source
    have hbody : withoutComments (doc.parsed source true).body = (doc.parsed source false).body :=
      (Lowering.withoutComments_interleave source doc.comments _).trans (withoutComments_of_bare hbare)
    refine .inr ⟨doc.parsed source true, doc.parsed source false, rfl, rfl, rfl, hbody, ?_, fun o => ?_⟩
    · rw [walkAll_eq_flatMap, forall_mem_flatMap]
      exact hbare
    · rw [← hbody, Script.compile_withoutComments]

end Wire

end Transpiler
