import Transpiler.Proofs.Script.Likeness
import Transpiler.Proofs.Script.Spelling
import Transpiler.Proofs.Text.Lines

/-!
# The contents of string literals

The printer looks at the first byte of text it has written, for parentheses, and at its line feeds, for the layout. A
string literal starts with a quotation mark and has no line feed, so it shows nothing of what it contains: the code of
two programs that differ only in the contents of string literals is the same but for those literals, each at its place
(`compile_template`).
-/

namespace Transpiler.Script

open List Text

/-! ## Texts with two versions -/

/-- The two texts are the same up to string literals at the same places, with contents that are related. -/
inductive Matches (R : Text → Text → Prop) : Text → Text → Prop
  | nil : Matches R [] []
  | byte (b : UInt8) {t t' : Text} (h : Matches R t t') : Matches R (b :: t) (b :: t')
  | literal {v v' : Text} (hv : R v v') {t t' : Text} (h : Matches R t t') : Matches R (quote v ++ t) (quote v' ++ t')

lemma exists_quote_eq_cons (v : Text) : ∃ rest, quote v = '"'.toUInt8 :: rest := ⟨_, rfl⟩

namespace Matches

variable {R : Text → Text → Prop} {t t' u u' : Text} {ts ts' : List Text}

lemma refl (R : Text → Text → Prop) (t : Text) : Matches R t t := by
  induction t with
  | nil => exact .nil
  | cons b t ih => exact .byte b ih

lemma append (h : Matches R t t') (hu : Matches R u u') : Matches R (t ++ u) (t' ++ u') := by
  induction h with
  | nil => exact hu
  | byte b _ ih => exact .byte b ih
  | literal hv _ ih =>
    rw [append_assoc, append_assoc]
    exact .literal hv ih

lemma appendSame (h : Matches R t t') (u : Text) : Matches R (t ++ u) (t' ++ u) := h.append (refl R u)

lemma prependSame (u : Text) (h : Matches R t t') : Matches R (u ++ t) (u ++ t') := (refl R u).append h

lemma quote {v v' : Text} (h : R v v') : Matches R (Script.quote v) (Script.quote v') := by
  have := Matches.literal h (Matches.nil (R := R))
  rwa [append_nil, append_nil] at this

lemma join (sep : Text) (h : Forall₂ (Matches R) ts ts') : Matches R (join sep ts) (join sep ts') := by
  induction h with
  | nil => exact .nil
  | @cons t t' ts ts' ht hts ih =>
    cases hts with
    | nil => simpa [Text.join] using ht
    | cons =>
      rw [Text.join, Text.join, intercalate_cons_cons, intercalate_cons_cons]
      exact (ht.appendSame sep).append ih

/-! ### What the printer looks at -/

lemma head?_eq (h : Matches R t t') : t.head? = t'.head? := by
  cases h with
  | nil => rfl
  | byte => rfl
  | @literal v v' =>
    obtain ⟨rest, hrest⟩ := exists_quote_eq_cons v
    obtain ⟨rest', hrest'⟩ := exists_quote_eq_cons v'
    rw [hrest, hrest']
    rfl

lemma isEmpty_eq (h : Matches R t t') : t.isEmpty = t'.isEmpty := by
  have hempty : ∀ t : Text, t.isEmpty = t.head?.isNone := fun t => by cases t <;> rfl
  rw [hempty, hempty, h.head?_eq]

lemma isPrefixOf_eq (b : UInt8) (h : Matches R t t') : List.isPrefixOf [b] t = List.isPrefixOf [b] t' := by
  have hfirst : ∀ t : Text, List.isPrefixOf [b] t = t.head?.any (b == ·) := fun t => by
    cases t <;> simp [List.isPrefixOf]
  rw [hfirst, hfirst, h.head?_eq]

lemma contains_newline_eq (h : Matches R t t') : t.contains newline = t'.contains newline := by
  induction h with
  | nil => rfl
  | byte b _ ih => rw [contains_cons, contains_cons, ih]
  | @literal v v' _ _ _ _ ih =>
    have hquote : ∀ v, (Script.quote v).contains newline = false := fun v => by
      simpa using newline_not_mem_quote v
    rw [contains_append, contains_append, hquote, hquote, ih]

lemma cut (h : Matches R t t') : Matches R (t.cut newline).1 (t'.cut newline).1 ∧
    Option.Rel (Matches R) (t.cut newline).2 (t'.cut newline).2 := by
  induction h with
  | nil => exact ⟨.nil, .none⟩
  | @byte b t t' h ih =>
    rw [Text.cut, Text.cut]
    split_ifs
    · exact ⟨.nil, .some h⟩
    · exact ⟨.byte b ih.1, ih.2⟩
  | @literal v v' hv _ _ _ ih =>
    rw [cut_append_of_not_mem (newline_not_mem_quote v), cut_append_of_not_mem (newline_not_mem_quote v')]
    exact ⟨.literal hv ih.1, ih.2⟩

lemma lines (h : Matches R t t') : Forall₂ (Matches R) t.lines t'.lines := by
  induction h with
  | nil => exact .cons .nil .nil
  | @byte b t t' _ ih =>
    by_cases hb : b = newline
    · rw [hb, lines_cons_newline, lines_cons_newline]
      exact .cons .nil ih
    · obtain ⟨line, more, ht⟩ := exists_lines_eq_cons t
      obtain ⟨line', more', ht'⟩ := exists_lines_eq_cons t'
      rw [lines_cons hb ht, lines_cons hb ht']
      rw [ht, ht'] at ih
      cases ih with
      | cons hline hmore => exact .cons (.byte b hline) hmore
  | @literal v v' hv t t' _ ih =>
    obtain ⟨line, more, ht⟩ := exists_lines_eq_cons t
    obtain ⟨line', more', ht'⟩ := exists_lines_eq_cons t'
    rw [lines_append (newline_not_mem_quote v) ht, lines_append (newline_not_mem_quote v') ht']
    rw [ht, ht'] at ih
    cases ih with
    | cons hline hmore => exact .cons (.literal hv hline) hmore

end Matches

/-! ## The printer keeps to the places -/

section Printer

variable {R : Text → Text → Prop} {t t' : Text} {ts ts' : List Text}

/-- Parentheses where a text starts with some byte: in front of a property access, and around a statement. -/
lemma matches_guarded (b : UInt8) (h : Matches R t t') :
    Matches R (if List.isPrefixOf [b] t then "(" ++ t ++ ")" else t)
      (if List.isPrefixOf [b] t' then "(" ++ t' ++ ")" else t') := by
  rw [h.isPrefixOf_eq b]
  split_ifs
  · exact (h.prependSame _).appendSame _
  · exact h

lemma matches_receiverText (h : Matches R t t') : Matches R (receiverText t) (receiverText t') :=
  matches_guarded '-' h

lemma matches_statementText (h : Matches R t t') : Matches R (statementText t) (statementText t') :=
  matches_guarded '\x7b' h

lemma matches_emitted (unit : Text) (depth : Nat) (h : Matches R t t') :
    Forall₂ (Matches R) (emitted unit depth t) (emitted unit depth t') := by
  obtain ⟨hfirst, hrest⟩ := h.cut
  rw [emitted.eq_def, emitted.eq_def]
  generalize t.cut newline = c at hfirst hrest
  generalize t'.cut newline = c' at hfirst hrest
  obtain ⟨first, rest⟩ := c
  obtain ⟨first', rest'⟩ := c'
  cases hrest with
  | none => exact .cons (hfirst.prependSame _) .nil
  | some hrest =>
    refine .cons (hfirst.prependSame _) ?_
    rw [hrest.isEmpty_eq]
    split_ifs
    · exact .nil
    · exact hrest.lines

/-- The texts of two entries: both code that matches, or the same comment. -/
inductive EntryMatches (R : Text → Text → Prop) : EntryText → EntryText → Prop
  | code {t t' : Text} (h : Matches R t t') : EntryMatches R (.code t) (.code t')
  | comment (t : Text) : EntryMatches R (.comment t) (.comment t)

variable {e e' : EntryText} {es es' : List EntryText}

lemma EntryMatches.text (h : EntryMatches R e e') : Matches R e.text e'.text := by
  cases h with
  | code h => exact h
  | comment t => exact .refl R t

lemma EntryMatches.isCode_eq (h : EntryMatches R e e') : e.isCode = e'.isCode := by
  cases h <;> rfl

lemma EntryMatches.needsOwnLine_eq (h : EntryMatches R e e') : e.needsOwnLine = e'.needsOwnLine := by
  rw [EntryText.needsOwnLine, EntryText.needsOwnLine, h.isCode_eq, h.text.contains_newline_eq]

lemma any_eq_of_forall₂ {p : EntryText → Bool} (hp : ∀ {e e'}, EntryMatches R e e' → p e = p e')
    (h : Forall₂ (EntryMatches R) es es') : es.any p = es'.any p := by
  induction h with
  | nil => rfl
  | cons he _ ih => rw [any_cons, any_cons, hp he, ih]

lemma matches_entryLines (indent : Text) (h : Forall₂ (EntryMatches R) es es') :
    Matches R (entryLines indent es) (entryLines indent es') := by
  induction h with
  | nil => exact .nil
  | cons he hes ih =>
    rw [entryLines, entryLines, he.isCode_eq, any_eq_of_forall₂ EntryMatches.isCode_eq hes]
    exact ((he.text.prependSame _).appendSame _).append ih

lemma matches_literalText (unit : Text) (depth : Nat) (opening closing pad : Text)
    (h : Forall₂ (EntryMatches R) es es') :
    Matches R (literalText unit depth opening closing pad es) (literalText unit depth opening closing pad es') := by
  -- whether a literal breaks its line is read off the texts of its entries
  have hempty : es.isEmpty = es'.isEmpty := by cases h <;> rfl
  have htexts : Forall₂ (Matches R) (es.map (·.text)) (es'.map (·.text)) :=
    rel_map (fun _ _ he => he.text) h
  rw [literalText, literalText, hempty, any_eq_of_forall₂ EntryMatches.needsOwnLine_eq h]
  split_ifs
  · exact .refl R _
  · exact ((((matches_entryLines _ h).prependSame _).appendSame _).appendSame _).appendSame _
  · exact (((Matches.join _ htexts).prependSame _).appendSame _).appendSame _

lemma matches_arrowText (unit : Text) (depth : Nat) (params : List Text)
    (h : Forall₂ (Matches R) ts ts') :
    Matches R (arrowText unit depth params ts) (arrowText unit depth params ts') := by
  have hempty : ts.isEmpty = ts'.isEmpty := by cases h <;> rfl
  rw [arrowText, arrowText, hempty]
  split_ifs
  · exact .refl R _
  · exact ((((Matches.join _ h).prependSame _).appendSame _).appendSame _).appendSame _

/-! ### Trees -/

/-- The expressions are printed the same up to string literals, at every level and with every unit of
indentation. -/
def ExprMatches (R : Text → Text → Prop) (e e' : Expr) : Prop :=
  ∀ unit depth, Matches R (e.text unit depth) (e'.text unit depth)

/-- As `ExprMatches`, for the statements of a body. -/
def StmtMatches (R : Text → Text → Prop) (s s' : Stmt) : Prop :=
  ∀ unit depth, Forall₂ (Matches R) (s.lines unit depth) (s'.lines unit depth)

lemma matches_texts {es es' : List Expr} (unit : Text) (depth : Nat)
    (h : Forall₂ (ExprMatches R) es es') :
    Forall₂ (Matches R) (Expr.texts unit depth es) (Expr.texts unit depth es') := by
  induction h with
  | nil => exact .nil
  | cons he _ ih => exact .cons (he unit depth) ih

lemma matches_entryTexts {es es' : List Entry} (unit : Text) (depth : Nat)
    (h : Forall₂ (fun e e' : Entry => ∀ unit depth, EntryMatches R (e.text unit depth) (e'.text unit depth))
      es es') : Forall₂ (EntryMatches R) (Entry.texts unit depth es) (Entry.texts unit depth es') := by
  induction h with
  | nil => exact .nil
  | cons he _ ih => exact .cons (he unit depth) ih

lemma matches_allLines {ss ss' : List Stmt} (unit : Text) (depth : Nat)
    (h : Forall₂ (StmtMatches R) ss ss') :
    Forall₂ (Matches R) (Stmt.allLines unit depth ss) (Stmt.allLines unit depth ss') := by
  induction h with
  | nil => exact .nil
  | cons hs _ ih => exact rel_append (hs unit depth) ih

end Printer

/-- Generated trees whose texts match at every level and with every unit of indentation. -/
def matching (o : Options) (l : Likeness) : Congruence o l where
  expr := ExprMatches l.value
  entry e e' := ∀ unit depth, EntryMatches l.value (e.text unit depth) (e'.text unit depth)
  stmt := StmtMatches l.value
  alternative a a' := ∀ unit depth, Forall₂ (Matches l.value) (a.lines unit depth) (a'.lines unit depth)
  atom _ unit depth := .refl _ _
  literal h unit depth := .quote h
  host _ unit depth := .refl _ _
  member h property unit depth := (matches_receiverText (h unit depth)).appendSame _
  index h hk unit depth :=
    (((matches_receiverText (h unit depth)).appendSame _).append (hk unit depth)).appendSame _
  call h hs unit depth :=
    (((h unit depth).appendSame _).append (.join _ (matches_texts unit depth hs))).appendSame _
  construct _ hs unit depth := ((Matches.join _ (matches_texts unit depth hs)).prependSame _).appendSame _
  unary _ he unit depth := (he unit depth).prependSame _
  binary _ he hr unit depth :=
    ((((he unit depth).appendSame _).appendSame _).appendSame _).append (hr unit depth)
  conditional hc ht he unit depth :=
    ((((hc unit depth).appendSame _).append (ht unit depth)).appendSame _).append (he unit depth)
  assign h hv unit depth := ((h unit depth).appendSame _).append (hv unit depth)
  group h unit depth := ((h unit depth).prependSame _).appendSame _
  arrow params _ _ h unit depth := matches_arrowText unit depth params (matches_allLines unit (depth + 1) h)
  array h unit depth := matches_literalText unit depth _ _ _ (matches_entryTexts unit (depth + 1) h)
  object h unit depth := matches_literalText unit depth _ _ _ (matches_entryTexts unit (depth + 1) h)
  value h unit depth := .code (h unit depth)
  named key _ _ h unit depth := .code ((h unit depth).prependSame _)
  computed hk h unit depth := .code ((((hk unit depth).prependSame _).appendSame _).append (h unit depth))
  commented _ unit depth := .comment _
  comment _ unit depth := matches_emitted unit depth (.refl _ _)
  hoist _ unit depth := matches_emitted unit depth (.refl _ _)
  assignment declaration _ _ _ _ _ _ h hv unit depth := matches_emitted unit depth
    ((((((h unit depth).prependSame _).appendSame _).appendSame _).appendSame _).append (hv unit depth)
      |>.appendSame _)
  expression h unit depth := matches_emitted unit depth ((matches_statementText (h unit depth)).appendSame _)
  ret h unit depth := matches_emitted unit depth (((h unit depth).prependSame _).appendSame _)
  leave unit depth := by
    rw [Stmt.lines]
    exact matches_emitted unit depth (.refl _ _)
  branch hc h ha unit depth :=
    rel_append (rel_append (rel_append
      (matches_emitted unit depth (((hc unit depth).prependSame _).appendSame _))
      (matches_allLines unit (depth + 1) h)) (ha unit depth)) (matches_emitted unit depth (.refl _ _))
  loop hc h unit depth :=
    rel_append (rel_append
      (matches_emitted unit depth (((hc unit depth).prependSame _).appendSame _))
      (matches_allLines unit (depth + 1) h)) (matches_emitted unit depth (.refl _ _))
  function _ _ _ _ h unit depth :=
    rel_append (rel_append (matches_emitted unit depth (.refl _ _))
      (matches_allLines unit (depth + 1) h)) (matches_emitted unit depth (.refl _ _))
  none unit depth := .nil
  otherwise h unit depth :=
    rel_append (matches_emitted unit depth (.refl _ _)) (matches_allLines unit (depth + 1) h)
  elif hc h ha unit depth :=
    rel_append (rel_append
      (matches_emitted unit depth (((hc unit depth).prependSame _).appendSame _))
      (matches_allLines unit (depth + 1) h)) (ha unit depth)

/-! ## Templates -/

/-- A piece of a text of which there are two versions. -/
inductive Piece where
  /-- A byte of both. -/
  | byte (b : UInt8)
  /-- The place of a string literal, with its contents in the one and in the other. -/
  | literal (value value' : Text)

/-- A text in which the string literals are places to be filled in. -/
abbrev Template := List Piece

namespace Template

/-- The text of the first version. -/
def first (m : Template) : Text := m.flatMap fun
  | .byte b => [b]
  | .literal v _ => quote v

/-- The text of the second version. -/
def second (m : Template) : Text := m.flatMap fun
  | .byte b => [b]
  | .literal _ v' => quote v'

/-- The contents at each place are related. -/
def Fills (R : Text → Text → Prop) (m : Template) : Prop := ∀ v v', .literal v v' ∈ m → R v v'

end Template

lemma Matches.exists_template {R : Text → Text → Prop} {t t' : Text} (h : Matches R t t') :
    ∃ m : Template, m.Fills R ∧ m.first = t ∧ m.second = t' := by
  induction h with
  | nil => exact ⟨[], by simp [Template.Fills], rfl, rfl⟩
  | byte b _ ih =>
    obtain ⟨m, hm, rfl, rfl⟩ := ih
    exact ⟨.byte b :: m, fun v v' hv => hm v v' (by simpa using hv), rfl, rfl⟩
  | @literal v v' hv _ _ _ ih =>
    obtain ⟨m, hm, rfl, rfl⟩ := ih
    refine ⟨.literal v v' :: m, fun w w' hw => ?_, rfl, rfl⟩
    rcases mem_cons.1 hw with heq | hw
    · obtain ⟨rfl, rfl⟩ := Piece.literal.inj heq
      exact hv
    · exact hm w w' hw

lemma exists_templates {R : Text → Text → Prop} {ts ts' : List Text} (h : Forall₂ (Matches R) ts ts') :
    ∃ ms : List Template, (∀ m ∈ ms, m.Fills R) ∧ ts = ms.map (·.first) ∧ ts' = ms.map (·.second) := by
  induction h with
  | nil => exact ⟨[], by simp, rfl, rfl⟩
  | cons ht _ ih =>
    obtain ⟨m, hm, rfl, rfl⟩ := ht.exists_template
    obtain ⟨ms, hms, rfl, rfl⟩ := ih
    exact ⟨m :: ms, by simpa using ⟨hm, hms⟩, rfl, rfl⟩

/-- The contents of string literals do not reach the structure of the code. If two programs differ only in such
contents, related by `R`, then both have the same statistics and the same lines, up to string literals at the same
places whose contents are related by `R`. -/
theorem compile_template (o : Options) (R : Text → Text → Prop) {nodes nodes' : List Node}
    (h : Forall₂ (Node.Alike (.upTo R)) nodes nodes') :
    (compile o nodes).lines.length = (compile o nodes').lines.length
      ∧ (compile o nodes).statements = (compile o nodes').statements
      ∧ (compile o nodes).unsupported = (compile o nodes').unsupported
      ∧ ∃ ms : List Template, (∀ m ∈ ms, m.Fills R) ∧ (compile o nodes).lines = ms.map (·.first)
        ∧ (compile o nodes').lines = ms.map (·.second) := by
  obtain ⟨hstmts, hcounts⟩ := (matching o (.upTo R)).script_alike h
  have hlines : Forall₂ (Matches R) (compile o nodes).lines (compile o nodes').lines :=
    matches_allLines o.indent 0 hstmts
  exact ⟨hlines.length_eq, congrArg Prod.fst hcounts, congrArg Prod.snd hcounts, exists_templates hlines⟩

/-- A program that prints a list of two strings, one of them under a key, and calls a method of the other. -/
def greeting (v w : Text) : List Node :=
  [.assignment Span.none "xs" .local "" (.array Span.none [.string Span.none v,
      .hash .none [(.string Span.none "key", .string Span.none w)], .ret .none .absent]),
    .call .none (.string .none v) "size" [] (.block .none ["x"] [.string Span.none w]),
    .call .none .absent "puts" [.var Span.none "xs" .local] .absent]

lemma alike_greeting {R : Text → Text → Prop} {v v' w w' : Text} (hv : R v v') (hw : R w w') :
    Forall₂ (Node.Alike (.upTo R)) (greeting v w) (greeting v' w') := by
  have hstring : Node.Alike (.upTo R) (.string .none v) (.string .none v') := .string _ hv
  have hstring' : Node.Alike (.upTo R) (.string .none w) (.string .none w') := .string _ hw
  refine .cons (.assignment _ _ _ trivial (.array _ (.cons hstring (.cons ?_ (.cons (.ret _ .absent) .nil)))))
    (.cons (.call _ _ hstring .nil (.block _ _ (.cons hstring' .nil)))
      (.cons (.call _ _ .absent (.cons (.var _ _ _) .nil) .absent) .nil))
  exact .hash _ (.cons (.named _ _ hstring') .nil)

/-- Line feeds, quotation marks, brackets, comment marks, a sign in front and bytes that are no text. -/
theorem compile_template_greeting :
    let R : Text → Text → Prop := fun v v' => (v, v') ∈
      ([("ok", "-1\n\x7d // [\""), ("plain", [0xff, 10, 0x7b, 0x22, 0xc3])] : List (Text × Text))
    let nodes := greeting "ok" "plain"
    let nodes' := greeting "-1\n\x7d // [\"" [0xff, 10, 0x7b, 0x22, 0xc3]
    Forall₂ (Node.Alike (.upTo R)) nodes nodes'
      ∧ (compile .default nodes).lines.length = (compile .default nodes').lines.length
      ∧ (compile .default nodes).statements = (compile .default nodes').statements
      ∧ (compile .default nodes).unsupported = (compile .default nodes').unsupported
      ∧ ∃ ms : List Template, (∀ m ∈ ms, m.Fills R) ∧ (compile .default nodes).lines = ms.map (·.first)
        ∧ (compile .default nodes').lines = ms.map (·.second) :=
  ⟨alike_greeting (by simp) (by simp), compile_template .default _ (alike_greeting (by simp) (by simp))⟩

end Transpiler.Script
