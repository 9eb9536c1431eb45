import Transpiler.Proofs.Syntax.Escapes
import Transpiler.Proofs.Syntax.Names
import Transpiler.Proofs.Syntax.Nesting
import Transpiler.Wire.Lowering

/-!
# Interpolated strings are concatenations

Both tiers turn a string with code in it into a chain of `+` calls. Whatever the code is, the chain has to begin with
a string literal, since `+` between anything else may be an addition. `Node.concatenated?` takes a chain apart again:
it gives one leaf for every part, behind an empty literal exactly where the first part is no literal itself
(`interpolations_concatenate`).
-/

namespace Transpiler

open List Node Wire.Lowering

/-! ## Chains -/

/-- The leaves of a concatenation of strings from left to right: of a string literal, or of `+` calls that lean to the
left and begin with one. -/
def Node.concatenated? : Node → Option (List Node)
  | .string span value => some [.string span value]
  | .call _ left name [right] .absent => if name == "+" then left.concatenated?.map (· ++ [right]) else none
  | _ => none

namespace Node

variable {span : Span} {left : Node} {leaves : List Node}

lemma concatenated?_string (span : Span) (value : Text) :
    (string span value).concatenated? = some [.string span value] := by
  rw [concatenated?]

lemma concatenated?_plus (h : left.concatenated? = some leaves) (right : Node) :
    (call span left "+" [right] .absent).concatenated? = some (leaves ++ [right]) := by
  rw [concatenated?, if_pos (by decide), h, Option.map_some]

end Node

/-! ## Tokens -/

namespace Lexer

lemma Quoted.ne_nil {quote : UInt8} {pos start stop : Nat} {literal s : Text} {parts all : List StringPart}
    (h : Quoted quote all stop pos literal start parts s) : all ≠ [] := by
  induction h with
  | closed _ hne _ _ => exact hne
  | escaped _ _ ih => exact ih
  | code _ _ _ ih => exact ih
  | plain _ _ ih => exact ih

end Lexer

open Lexer in
/-- Every string token has a part, if only an empty literal. -/
lemma parts_ne_nil_of_mem_lex {offset : Nat} {line : Text} {tokens : List Token} (h : lex offset line = .ok tokens)
    {t : Token} (ht : t ∈ tokens) (hkind : t.kind = .string) : t.parts ≠ [] := by
  rcases (cut_of_lex h).exists_lexeme ht with heof | ⟨before, c, rest, l, -, hlexeme, hk, -, hparts, -⟩
  · cases hkind.symm.trans heof
  · have hl : l.kind = .string := hk.symm.trans hkind
    rw [hparts]
    rcases lexeme_quoted_cases hlexeme with hplain | ⟨-, -, stop, hquoted⟩ | ⟨-, hsymbol⟩
    · rw [hl] at hplain
      cases hplain
    · exact (quoted_of_quotedParts hquoted).ne_nil
    · cases hl.symm.trans (kind_of_symbol hsymbol)

namespace Grammar

open Parse

/-- What a part of a string says where some names are known, and which are known after it: a literal says itself, and
code is a statement of its own, or an empty literal if there is none. -/
inductive ReadsPart (r : Rules) (span : Span) (locals : List Text) (part : StringPart) : Node → List Text → Prop
  | literal (hliteral : part.isCode = false) : ReadsPart r span locals part (.string span part.text) locals
  | blank {tokens : List Token} (hcode : part.isCode) (hlex : lex part.pos part.text = .ok tokens)
      (hend : (Cursor.ofTokens tokens).current.isEof) : ReadsPart r span locals part (.string span []) locals
  | code {tokens : List Token} {n : Node} {s : Parsing} (hcode : part.isCode)
      (hlex : lex part.pos part.text = .ok tokens) (hgoes : (Cursor.ofTokens tokens).current.isEof = false)
      (hread : r.statement ⟨.ofTokens tokens, locals, false⟩ = .ok n s) (hend : s.cursor.current.isEof) :
      ReadsPart r span locals part n s.locals

/-- What the parts of a string say, one after the other. -/
inductive ReadsParts (r : Rules) (span : Span) : List Text → List StringPart → List Node → List Text → Prop
  | nil (locals : List Text) : ReadsParts r span locals [] [] locals
  | cons {locals locals₁ locals₂ : List Text} {part : StringPart} {rest : List StringPart} {n : Node}
      {leaves : List Node} (hpart : ReadsPart r span locals part n locals₁)
      (hrest : ReadsParts r span locals₁ rest leaves locals₂) :
      ReadsParts r span locals (part :: rest) (n :: leaves) locals₂

variable {r : Rules} {span : Span} {s : Parsing}

lemma ReadsPart.eq_string {locals locals' : List Text} {part : StringPart} {n : Node}
    (h : ReadsPart r span locals part n locals') (hliteral : part.isCode = false) : n = .string span part.text := by
  cases h with
  | literal => rfl
  | blank hcode | code hcode => cases hliteral.symm.trans hcode

lemma gives_own {α : Type} (p : Parse α) (s : Parsing) : p.Gives s fun a s' => p s = .ok a s' := by
  unfold Gives After
  split
  · assumption
  · trivial

lemma gives_expectEnd : expectEnd.Gives s fun _ s' => s'.locals = s.locals ∧ s.cursor.current.isEof := by
  refine atEnd_bind (.dite (fun hend => ⟨rfl, hend⟩) fun _ => ?_)
  exact trivial

lemma gives_readsPart {part : StringPart} :
    (if part.isCode then interpolation r span part else pure (.string span part.text)).Gives s
      fun n s' => ReadsPart r span s.locals part n s'.locals := by
  refine .dite (fun hcode => ?_) fun hcode => .pure (.literal (by simpa using hcode))
  rw [interpolation]
  cases hlex : lex part.pos part.text with
  | error fault => exact trivial
  | ok tokens =>
    refine .get_bind (.set_bind (atEnd_bind (.dite (fun hend => ?_) fun hgoes => ?_)))
    · exact .blank hcode hlex hend
    · refine (gives_own r.statement _).bind fun n s₁ hread => ?_
      refine gives_expectEnd.bind ?_
      rintro _ s₂ ⟨hlocals, hend⟩
      have hcodes : ReadsPart r span s.locals part n s₁.locals := .code hcode hlex (by simpa using hgoes) hread hend
      rw [← hlocals] at hcodes
      exact hcodes

/-- The parts are joined behind what was joined before them. -/
lemma gives_joinParts_some {acc : Node} {before : List Node} (hacc : acc.concatenated? = some before)
    (parts : List StringPart) :
    (joinParts r span (some acc) parts).Gives s fun n s' => ∃ leaves,
      ReadsParts r span s.locals parts leaves s'.locals ∧ n.concatenated? = some (before ++ leaves) := by
  induction parts generalizing acc before s with
  | nil => exact ⟨[], .nil _, by rw [hacc, append_nil]⟩
  | cons part rest ih =>
    rw [joinParts, ite_bind]
    refine gives_readsPart.bind fun n s₁ hpart => ?_
    refine (ih (concatenated?_plus hacc n)).mono ?_ fun _ _ => id
    rintro m s₂ ⟨leaves, hrest, hleaves⟩
    refine ⟨n :: leaves, .cons hpart hrest, ?_⟩
    rw [hleaves, append_assoc, singleton_append]

lemma gives_joinParts_none (parts : List StringPart) :
    (joinParts r span none parts).Gives s fun n s' => ∃ leaves,
      ReadsParts r span s.locals parts leaves s'.locals ∧ n.concatenated? =
        some (if parts.head?.any (!·.isCode) then leaves else .string span [] :: leaves) := by
  cases parts with
  | nil => exact ⟨[], .nil _, rfl⟩
  | cons part rest =>
    rw [joinParts, ite_bind]
    refine gives_readsPart.bind fun n s₁ hpart => ?_
    have hjoin : ∀ acc before, acc.concatenated? = some (before ++ [n]) →
        (joinParts r span (some acc) rest).Gives s₁ fun m s' => ∃ leaves,
          ReadsParts r span s.locals (part :: rest) leaves s'.locals ∧ m.concatenated? = some (before ++ leaves) := by
      intro acc before hacc
      refine (gives_joinParts_some hacc rest).mono ?_ fun _ _ => id
      rintro m s₂ ⟨leaves, hrest, hleaves⟩
      refine ⟨n :: leaves, .cons hpart hrest, ?_⟩
      rw [hleaves, append_assoc, singleton_append]
    refine .dite (fun hcode => ?_) fun hcode => ?_
    · rw [head?_cons, Option.any_some, hcode, Bool.not_true]
      exact hjoin _ [.string span []] (concatenated?_plus (concatenated?_string span []) n)
    · have hliteral : part.isCode = false := by simpa using hcode
      rw [head?_cons, Option.any_some, hliteral, Bool.not_false]
      refine hjoin _ [] ?_
      rw [hpart.eq_string hliteral]
      exact concatenated?_string span part.text

lemma gives_operand_string (hkind : s.cursor.current.kind = .string) :
    (operand r).Gives s fun n s' => ∃ leaves,
      ReadsParts r ⟨s.cursor.current.pos, s.cursor.current.stop⟩ s.locals s.cursor.current.parts leaves s'.locals ∧
      n.concatenated? = some (if s.cursor.current.parts.head?.any (!·.isCode) then leaves
        else .string ⟨s.cursor.current.pos, s.cursor.current.stop⟩ [] :: leaves) := by
  have hadvance : advance.Gives s fun t s₁ => t = s.cursor.current ∧ s₁.locals = s.locals := ⟨rfl, rfl⟩
  refine hadvance.bind ?_
  rintro _ s₁ ⟨rfl, hlocals⟩
  simp only [hkind]
  rw [← hlocals]
  exact gives_joinParts_none s.cursor.current.parts

end Grammar

/-! ## Records -/

namespace Wire

/-- The value of a field of a record, by the name that the schema gives the field. -/
def Record.field? (name : Text) : Record → Option Value
  | .absent => none
  | .mk type _ _ _ fields => do
    let schema ← type.schema?
    ((schema.fields.map FieldSpec.name).zip fields).lookup name

/-- The records in a field. -/
def Record.list (name : Text) (r : Record) : List Record :=
  match r.field? name with
  | some (.nodes rs) => rs
  | _ => []

lemma Record.lowerAll_eq_map (source : Text) (rs : List Record) :
    Record.lowerAll source rs = rs.map (Record.lower source) := by
  induction rs with
  | nil => rfl
  | cons r rest ih => rw [Record.lowerAll, ih, map_cons]

lemma lookup_lowerAll (source name : Text) (names : List Text) (fields : List Value) :
    (names.zip (Value.lowerAll source fields)).lookup name =
      ((names.zip fields).lookup name).map (Value.lower source) := by
  induction names generalizing fields with
  | nil => rfl
  | cons first names ih =>
    cases fields with
    | nil => rfl
    | cons v rest =>
      rw [Value.lowerAll, zip_cons_cons, zip_cons_cons, lookup_cons, lookup_cons]
      cases name == first with
      | true => rfl
      | false => exact ih rest

lemma Record.lookup_parts_lower (source name : Text) (r : Record) :
    (r.lower source).parts.lookup name = (r.field? name).map (Value.lower source) := by
  cases r with
  | absent => rfl
  | mk type id loc flags fields =>
    rw [Record.lower, Lowered.parts, lookup_lowerAll, Record.field?]
    cases type.schema? with
    | none => rfl
    | some schema => rfl

lemma Record.many_lower (source name : Text) (r : Record) :
    Parts.many (r.lower source).parts name = (r.list name).map (Record.lower source) := by
  rw [Parts.many, Parts.get, lookup_parts_lower, Record.list]
  cases r.field? name with
  | none => rfl
  | some v =>
    cases v with
    | nodes rs => exact Record.lowerAll_eq_map source rs
    | _ => rfl

namespace Lowering

lemma concatenated?_foldl {span : Span} {start : Node} {before : List Node} (h : start.concatenated? = some before)
    (rest : List Node) : (rest.foldl (concat span) start).concatenated? = some (before ++ rest) := by
  induction rest generalizing start before with
  | nil => rw [foldl_nil, h, append_nil]
  | cons n rest ih =>
    have hstep : (concat span start n).concatenated? = some (before ++ [n]) := concatenated?_plus h n
    rw [foldl_cons, ih hstep, append_assoc, singleton_append]

lemma concatenated?_interpolated (span : Span) (nodes : List Node) :
    (interpolated span nodes).concatenated? =
      some (if nodes.head?.any isString then nodes else .string span [] :: nodes) := by
  cases nodes with
  | nil => rfl
  | cons first rest =>
    rw [interpolated, head?_cons, Option.any_some]
    cases hfirst : isString first with
    | true =>
      cases first with
      | string place value => exact concatenated?_foldl (concatenated?_string place value) rest
      | _ => cases hfirst
    | false => exact concatenated?_foldl (concatenated?_plus (concatenated?_string span []) first) rest

lemma node_interpolatedString (source : Text) (id : UInt32) (loc : Location) (flags : UInt32) (fields : List Value) :
    ((Record.mk .interpolatedString id loc flags fields).lower source).node = interpolated (span loc)
      (((Record.mk .interpolatedString id loc flags fields).list "parts").map fun p => (p.lower source).node) := by
  have hparts := Record.many_lower source "parts" (.mk .interpolatedString id loc flags fields)
  rw [Record.lower] at hparts ⊢
  rw [Lowered.parts] at hparts
  rw [Lowered.node, meaning, hparts, map_map]
  rfl

end Lowering

end Wire

/-- **Interpolated strings are concatenations.** A string token is read as a chain that gives, taken apart, what its
parts say, one leaf for each, behind an empty literal exactly if the first part is code; and every string token of a
line has a first part. The record of an interpolated string means such a chain of the meanings of its parts, behind
an empty literal exactly if the first of them is not a literal. This holds whatever the code is and means. -/
theorem interpolations_concatenate :
    (∀ (r : Rules) (s s' : Parsing) (n : Node), s.cursor.current.kind = .string → Grammar.operand r s = .ok n s' →
      ∃ leaves, Grammar.ReadsParts r ⟨s.cursor.current.pos, s.cursor.current.stop⟩ s.locals s.cursor.current.parts
          leaves s'.locals ∧
        n.concatenated? = some (if s.cursor.current.parts.head?.any (!·.isCode) then leaves
          else .string ⟨s.cursor.current.pos, s.cursor.current.stop⟩ [] :: leaves)) ∧
    (∀ (offset : Nat) (line : Text) (tokens : List Token), lex offset line = .ok tokens →
      ∀ t ∈ tokens, t.kind = .string → t.parts ≠ []) ∧
    ∀ (source : Text) (id : UInt32) (loc : Wire.Location) (flags : UInt32) (fields : List Wire.Value),
      let r := Wire.Record.mk .interpolatedString id loc flags fields
      let leaves := (r.list "parts").map fun p => (p.lower source).node
      (r.lower source).node.concatenated? = some (if leaves.head?.any Wire.Lowering.isString then leaves
        else .string (span loc) [] :: leaves) := by
  refine ⟨?_, ?_, ?_⟩
  · intro r s s' n hkind hrun
    exact (Grammar.gives_operand_string hkind).of_ok hrun
  · intro offset line tokens hlex t ht hkind
    exact parts_ne_nil_of_mem_lex hlex ht hkind
  · intro source id loc flags fields r leaves
    rw [node_interpolatedString]
    exact concatenated?_interpolated (span loc) leaves

/-- The token of a string that begins with code, which is blank, and goes on with a literal and a variable. -/
def mixedString : Token :=
  ⟨.string, "\"#\x7b \x7da#\x7bx\x7d\"", [⟨" ", 3, true⟩, ⟨"a", 5, false⟩, ⟨"x", 8, true⟩], 0, 11, false⟩

theorem interpolations_concatenate_mixedString :
    ∃ n s', Grammar.operand (Rules.upTo 3) ⟨⟨mixedString, [], 0⟩, [], false⟩ = .ok n s' ∧
      ∃ leaves, Grammar.ReadsParts (Rules.upTo 3) ⟨0, 11⟩ [] mixedString.parts leaves s'.locals ∧
        n.concatenated? = some (.string ⟨0, 11⟩ [] :: leaves) := by
  have hreads : ((Grammar.operand (Rules.upTo 3)).run' ⟨⟨mixedString, [], 0⟩, [], false⟩).isSome = true := by
    decide +kernel
  delta EStateM.run' EStateM.run at hreads
  cases hrun : Grammar.operand (Rules.upTo 3) ⟨⟨mixedString, [], 0⟩, [], false⟩ with
  | ok n s' => exact ⟨n, s', rfl, interpolations_concatenate.1 _ _ _ _ rfl hrun⟩
  | error fault s' =>
    rw [hrun] at hreads
    cases hreads

end Transpiler
