import Mathlib.Data.List.Infix
import Transpiler.Proofs.Script.Layout
import Transpiler.Proofs.Script.Munch
import Transpiler.Proofs.Script.Operators

/-!
# The pieces of generated code

Every expression of generated code is cut like an expression, wherever it stands (`cutting`). What is printed
around it starts with a byte that ends it, or it stands behind blanks, a bracket or a sign. The lines of a body are
cut from blanks to blanks: a line feed ends what stands before it, be it code or a comment.
-/

namespace Transpiler.Script

open List Text Js.Lexeme

/-! ## Lines -/

/-- Lines, each with its end. -/
def ended (lines : List Text) : Text := lines.flatMap (· ++ [newline])

lemma ended_append (ls ls' : List Text) : ended (ls ++ ls') = ended ls ++ ended ls' := flatMap_append

lemma newline_cons_ended (ls : List Text) : newline :: ended ls = ls.flatMap (newline :: ·) ++ [newline] := by
  induction ls with
  | nil => rfl
  | cons l ls ih =>
    rw [flatMap_cons, append_assoc, ← ih]
    simp [ended]

lemma ended_lines (t : Text) : ended (lines t) = t ++ [newline] := by
  have hlines := newline_cons_ended (lines t)
  rw [flatMap_lines] at hlines
  exact (List.cons.inj hlines).2

lemma ended_emitted {unit : Text} (hunit : ∀ b ∈ unit, isBlank b) (depth : Nat) {t : Text}
    (ht : t.getLast? ≠ some newline) :
    ended (emitted unit depth t) = indentation unit depth ++ t ++ [newline] := by
  rw [emitted_eq_lines (newline_not_mem_of_blank (blank_indentation hunit depth)) ht, ended_lines]

/-! ## Separators -/

section Texts

variable {unit t head : Text} {depth brackets : Nat} {tag : Text}

/-- Whether a text has no bracket in it and ends with a blank. -/
def isGap (t : Text) : Bool :=
  (Js.cut .blank t).any fun c => c.2 == .blank && c.1.all fun l => !l.isOpening && !l.isClosing

lemma gap_of_isGap (h : isGap t) : Js.Gap (brackets + 1) t := by
  cases hcut : Js.cut .blank t with
  | none =>
    rw [isGap, hcut] at h
    cases h
  | some c =>
    rw [isGap, hcut, Option.any_some, Bool.and_eq_true, beq_iff_eq, all_eq_true] at h
    have hplain : ∀ l ∈ c.1, l.isOpening = false ∧ l.isClosing = false := fun l hl => by simpa using h.2 l hl
    refine ⟨c.1, ?_, (Js.balanced_plain hplain).1.keeps brackets⟩
    rw [Js.Cuts, hcut, ← h.1]

lemma gap_newline : Js.Gap (brackets + 1) [newline] := gap_of_isGap (by decide)

lemma gap_indentation (hunit : ∀ b ∈ unit, isBlank b) (depth : Nat) : Js.Gap brackets (indentation unit depth) := by
  refine Js.gap_blanks fun b hb => ?_
  have hblank := blank_indentation hunit depth b hb
  simp only [isBlank, Bool.or_eq_true, beq_iff_eq] at hblank
  rcases hblank with rfl | rfl <;> decide

lemma inside_nil : Js.Inside brackets [] := (Js.gap_blanks (by simp)).inside

lemma inside_join {ts : List Text} (h : ∀ t ∈ ts, Js.Inside (brackets + 1) t) :
    Js.Inside (brackets + 1) (join ", " ts) := by
  induction ts with
  | nil => exact inside_nil
  | cons t ts ih =>
    have ht := h t (by simp)
    cases ts with
    | nil => simpa [join] using ht
    | cons u ts =>
      have hrest := ih fun v hv => h v (mem_cons_of_mem t hv)
      have hcomma : Js.Gap (brackets + 1) (", " : Text) := gap_of_isGap (by decide)
      rw [join, intercalate_cons_cons, append_assoc]
      exact ht.append (hcomma.append_inside hrest) (.append (t := ", ") (by decide) _)

lemma inside_bindingList (names : List Text) : Js.Inside (brackets + 1) (bindingList names) := by
  refine inside_join fun t ht => ?_
  obtain ⟨name, -, rfl⟩ := mem_map.1 ht
  exact (Js.reads_word (isWord_binding name)).inside brackets

/-! ## Comments -/

/-- A comment takes in what follows on its line. -/
lemma cuts_comment {p : Text} (hp : slashes.isPrefixOf p)
    (h : ∀ u, u <+: t → Js.endsLine (p ++ u) = false) : Js.Cuts (.punct p) t [] (.punct (p ++ t)) := by
  induction t generalizing p with
  | nil => simpa using Js.Cuts.nil (.punct p)
  | cons b t ih =>
    have hb : Js.endsLine (p ++ [b]) = false := h [b] (by simp)
    have hprefix : slashes.isPrefixOf (p ++ [b]) := by
      rw [List.isPrefixOf_iff_prefix] at hp ⊢
      exact hp.trans (prefix_append p [b])
    have hrest := ih hprefix fun u hu => by simpa using h (b :: u) (by simpa using hu)
    have hprolong : (punct p).prolong b = some (.punct (p ++ [b])) := by
      rw [prolong, if_pos hp, hb]
      rfl
    exact Js.cuts_prolong hprolong (by simpa using hrest)

lemma gap_commentText (h : Js.isOneLine (commentText tag)) : Js.Gap brackets (commentText tag ++ [newline]) := by
  obtain ⟨rest, hrest⟩ : ∃ rest, commentText tag = slashes ++ rest := ⟨commentMark.drop 2 ++ tag, rfl⟩
  rw [hrest] at h ⊢
  have hprefixes : ∀ u, u <+: rest → Js.endsLine (slashes ++ u) = false := by
    intro u hu
    have hall := all_eq_true.1 h (slashes ++ u) ((mem_inits _ _).2 ((prefix_append_right_inj _).2 hu))
    simpa using hall
  have hstart : Js.Cuts .blank slashes [] (.punct slashes) := by decide
  have hcomment := hstart.append (cuts_comment (by decide) hprefixes)
  -- the line feed is the first byte that ends the comment
  have hend : Js.Cuts (.punct (slashes ++ rest)) [newline] [] .blank := by
    have hslashes : slashes.isPrefixOf (slashes ++ rest) :=
      isPrefixOf_iff_prefix.2 (prefix_append _ _)
    have hprolong : (punct (slashes ++ rest)).prolong newline = some .blank := by
      rw [prolong, if_pos hslashes, Js.endsLine_newline]
      rfl
    exact Js.cuts_prolong hprolong (.nil _)
  exact ⟨[], hcomment.append hend, .nil⟩

/-! ## Statements -/

section Statements

variable (hunit : ∀ b ∈ unit, isBlank b) (depth : Nat)

include hunit

lemma gap_statement (h : Js.Inside 1 t) : Js.Gap 1 (ended (emitted unit depth (t ++ ";"))) := by
  have hlast : (t ++ ofString ";").getLast? ≠ some newline := by
    rw [getLast?_append_of_ne_nil _ (by decide)]
    decide
  have hend : Js.Gap 1 (";" ++ [newline]) := gap_of_isGap (by decide)
  rw [ended_emitted hunit depth hlast, append_assoc, append_assoc]
  exact (gap_indentation hunit depth).append (h.append_gap hend (by decide))

lemma gap_block (hhead : Js.Inside 1 head) {body : Text} (hbody : Js.Gap 2 body) :
    Js.Gap 1 (ended (emitted unit depth (head ++ " \x7b")) ++ body ++ ended (emitted unit depth "\x7d")) := by
  have hlast : (head ++ ofString " \x7b").getLast? ≠ some newline := by
    rw [getLast?_append_of_ne_nil _ (by decide)]
    decide
  have hindent : ∀ {k}, Js.Gap k (indentation unit depth) := gap_indentation hunit depth
  have hspace : Js.Gap 1 (" " : Text) := gap_of_isGap (by decide)
  have hcontent : Js.Gap 2 ([newline] ++ body ++ indentation unit depth) :=
    (gap_newline.append hbody).append hindent
  have hbraces := Js.Inside.enclosed (o := '\x7b') (c := '\x7d') (by decide) hcontent.inside
  have hblock := (hhead.append (hspace.append_inside hbraces) (.append (t := " ") (by decide) _)).append_gap
    gap_newline (by decide)
  have hopen : ofString " \x7b" = " " ++ ['\x7b'.toUInt8] := by decide
  have hclose : ofString "\x7d" = ['\x7d'] := by decide
  rw [ended_emitted hunit depth hlast, ended_emitted hunit depth (by decide), hopen, hclose]
  simpa using hindent.append hblock

lemma gap_reopening (hhead : Js.Inside 1 head) :
    Js.Gap 2 (ended (emitted unit depth ("\x7d " ++ head ++ " \x7b"))) := by
  have hlast : (ofString "\x7d " ++ head ++ ofString " \x7b").getLast? ≠ some newline := by
    rw [getLast?_append_of_ne_nil _ (by decide)]
    decide
  obtain ⟨ls, last, hcuts, hend, hkeeps⟩ := hhead
  have hclose : Js.Cuts .blank ("\x7d " : Text) [.punct "\x7d"] .blank := by decide
  have hopen : Js.Cuts .blank (" \x7b" ++ [newline]) [.punct "\x7b"] .blank := by decide
  have hline := hclose.append (hcuts.resume hend (by decide) hopen)
  have hgap : Js.Gap 2 ("\x7d " ++ (head ++ (" \x7b" ++ [newline]))) :=
    ⟨_, hline, by simpa using hkeeps.reopened (c := .punct "\x7d") (o := .punct "\x7b") (by decide) (by decide)⟩
  rw [ended_emitted hunit depth hlast]
  simpa using (gap_indentation hunit depth).append hgap

end Statements

/-! ## Literals and functions -/

/-- The text of an entry of a literal: code, or a comment on one line. -/
def EntryText.Cut : EntryText → Prop
  | .code t => Js.Inside 1 t
  | .comment t => ∀ brackets, Js.Gap brackets (t ++ [newline])

lemma gap_entryLines (hunit : ∀ b ∈ unit, isBlank b) (depth : Nat) {es : List EntryText}
    (h : ∀ e ∈ es, e.Cut) : Js.Gap 1 (entryLines (indentation unit depth) es ++ [newline]) := by
  have hlines : ∃ rest, entryLines (indentation unit depth) es ++ [newline] = [newline] ++ rest ∧ Js.Gap 1 rest := by
    induction es with
    | nil => exact ⟨[], rfl, Js.gap_blanks (by simp)⟩
    | cons e es ih =>
      obtain ⟨rest, hrest, hgap⟩ := ih fun e' he' => h e' (by simp [he'])
      have he := h e (by simp)
      refine ⟨_, by simp only [entryLines, append_assoc, hrest]; rfl, (gap_indentation hunit depth).append ?_⟩
      cases e with
      | code t =>
        have hcomma : Js.Gap 1 ((if EntryText.isCode (.code t) && es.any (·.isCode) then ("," : Text) else [])
            ++ ([newline] ++ rest)) := by
          rw [← append_assoc]
          refine .append (gap_of_isGap ?_) hgap
          split_ifs <;> decide
        refine Js.Inside.append_gap he hcomma ?_
        split_ifs <;> exact Js.Breaks.append (t := _ :: []) (by decide) _
      | comment t => simpa [EntryText.text, EntryText.isCode] using (he 1).append hgap
  obtain ⟨rest, heq, hgap⟩ := hlines
  rw [heq]
  exact gap_newline.append hgap

lemma reads_literalText (hunit : ∀ b ∈ unit, isBlank b) (depth : Nat) {opening closing : UInt8}
    (hpair : (opening, closing) ∈ Js.bracketPairs) {pad : Text} (hpad : pad = [] ∨ pad = " ") {es : List EntryText}
    (h : ∀ e ∈ es, e.Cut) :
    Js.Reads (literalText unit depth [opening] [closing] pad es) false (.punct [closing]) := by
  rw [literalText]
  split_ifs with hempty hown
  · simpa using Js.reads_enclosed hpair inside_nil
  · have hgap := (gap_entryLines hunit (depth + 1) h).append (gap_indentation hunit depth)
    simpa using Js.reads_enclosed hpair hgap.inside
  · rw [Bool.not_eq_true, any_eq_false] at hown
    have htexts : ∀ t ∈ es.map (·.text), Js.Inside 1 t := by
      intro t ht
      obtain ⟨e, he, rfl⟩ := mem_map.1 ht
      cases e with
      | code t => exact h _ he
      | comment t => exact absurd rfl (hown _ he)
    have hgap : Js.Gap 1 pad := by
      rcases hpad with rfl | rfl
      · exact Js.gap_blanks (by simp)
      · exact gap_of_isGap (by decide)
    have hcontent : Js.Inside 1 (pad ++ join ", " (es.map (·.text)) ++ pad) := by
      have hjoined := hgap.append_inside (inside_join htexts)
      rcases hpad with rfl | rfl
      · simpa using hjoined
      · exact hjoined.append hgap.inside (by decide)
    simpa using Js.reads_enclosed hpair hcontent

lemma reads_arrowText (hunit : ∀ b ∈ unit, isBlank b) (depth : Nat) (params : List Text) {ls : List Text}
    (h : Js.Gap 1 (ended ls)) : Js.Reads (arrowText unit depth params ls) false (.punct "\x7d") := by
  have hparams := Js.reads_enclosed (o := '(') (c := ')') (by decide) (inside_bindingList params)
  have harrow : ∀ {body}, Js.Inside 1 body →
      Js.Reads ("(" ++ bindingList params ++ ") => \x7b" ++ (body ++ "\x7d")) false (.punct "\x7d") := by
    intro body hbody
    have hbraces := Js.reads_enclosed (o := '\x7b') (c := '\x7d') (by decide) hbody
    have hsplit : ofString ") => \x7b" = ")" ++ " " ++ "=>" ++ " " ++ ['\x7b'.toUInt8] := by decide
    have hopen : ofString "(" = ['('] := by decide
    have hclose : ofString ")" = [')'] := by decide
    have hbrace : ofString "\x7d" = ['\x7d'] := by decide
    rw [hsplit, hopen, hclose, hbrace]
    have hloose : (punct "=>").isLoose = false := by decide
    simpa [hloose] using hparams.between (p := "=>") (by decide) hbraces
  cases hempty : ls.isEmpty with
  | true =>
    rw [arrowText, if_pos hempty]
    exact harrow inside_nil
  | false =>
    have hne : ls ≠ [] := by
      rintro rfl
      cases hempty
    have hlines : [newline] ++ join [newline] ls ++ [newline] = [newline] ++ ended ls := by
      rw [singleton_append, newline_cons_join hne, ← newline_cons_ended]
      rfl
    have hbody := harrow ((gap_newline.append h).append (gap_indentation hunit depth)).inside
    rw [← hlines] at hbody
    rw [arrowText, if_neg (by simp [hempty])]
    simpa using hbody

end Texts

/-! ## Expressions -/

section Forms

variable {t u c : Text} {a b : Bool} {l r last : Js.Lexeme}

lemma reads_call (h : Js.Reads t a l) (hu : Js.Inside 1 u) : Js.Reads (t ++ "(" ++ u ++ ")") a (.punct ")") := by
  have hcall := h.enclosed (o := '(') (c := ')') (by decide) hu
  have hopen : ofString "(" = ['('] := by decide
  have hclose : ofString ")" = [')'] := by decide
  rw [hopen, hclose]
  simpa using hcall

lemma reads_index (h : Js.Reads t a l) (hu : Js.Inside 1 u) : Js.Reads (t ++ "[" ++ u ++ "]") a (.punct "]") := by
  have hindex := h.enclosed (o := '[') (c := ']') (by decide) hu
  have hopen : ofString "[" = ['['] := by decide
  have hclose : ofString "]" = [']'] := by decide
  rw [hopen, hclose]
  simpa using hindex

lemma reads_group (h : Js.Reads t a l) : Js.Reads ("(" ++ t ++ ")") false (.punct ")") :=
  Js.reads_enclosed (o := '(') (c := ')') (by decide) (h.inside 0)

lemma reads_construct (h : Js.Reads t a l) (hu : Js.Inside 1 u) :
    Js.Reads ("new " ++ t ++ "(" ++ u ++ ")") a (.punct ")") := by
  have hnew : Js.IsWord (ofString "new") := by decide
  have htype := (Js.reads_word hnew).spaced h
  have hsplit : ofString "new " = "new" ++ " " := by decide
  rw [hsplit]
  exact reads_call htype hu

lemma reads_assign (h : Js.Reads t a l) (hu : Js.Reads u b r) : Js.Reads (t ++ " = " ++ u) true r := by
  have hassign := h.between (p := "=") (by decide) hu
  have hloose : (a || ((punct "=").isLoose || b)) = true := by
    have hequals : (punct "=").isLoose = true := by decide
    simp [hequals]
  have hsplit : ofString " = " = " " ++ "=" ++ " " := by decide
  rw [hloose] at hassign
  rw [hsplit]
  simpa using hassign

lemma reads_conditional (hc : Js.Reads c a l) (ht : Js.Reads t b r) {loose : Bool} (hu : Js.Reads u loose last) :
    Js.Reads (c ++ " ? " ++ t ++ " : " ++ u) true last := by
  have hboth := (hc.between (p := "?") (by decide) ht).between (p := ":") (by decide) hu
  have hloose : ((a || ((punct "?").isLoose || b)) || ((punct ":").isLoose || loose)) = true := by
    have hquestion : (punct "?").isLoose = true := by decide
    simp [hquestion]
  have hsplit : ofString " ? " = " " ++ "?" ++ " " := by decide
  have hcolon : ofString " : " = " " ++ ":" ++ " " := by decide
  rw [hloose] at hboth
  rw [hsplit, hcolon]
  simpa using hboth

end Forms

/-! ## Generated code -/

section Trees

variable (unit : Text)

/-- The expression is cut like one at every level. -/
def ExprCut (e : Expr) : Prop := ∀ depth, ∃ loose last, Js.Reads (e.text unit depth) loose last

/-- Cut at every depth. -/
def EntryCut (e : Entry) : Prop := ∀ depth, (e.text unit depth).Cut

/-- The lines of the statement are cut from blanks to blanks inside the braces of a body. -/
def StmtCut (s : Stmt) : Prop := ∀ depth, Js.Gap 1 (ended (s.lines unit depth))

/-- What follows a branch closes the braces of its body and opens others. -/
def AlternativeCut (a : Alternative) : Prop := ∀ depth, Js.Gap 2 (ended (a.lines unit depth))

variable {unit}

lemma ExprCut.inside {e : Expr} (h : ExprCut unit e) (depth brackets : Nat) :
    Js.Inside (brackets + 1) (e.text unit depth) := by
  obtain ⟨loose, last, hreads⟩ := h depth
  exact hreads.inside brackets

lemma forall_of_forall₂ {α : Type} {p : α → Prop} {xs xs' : List α} (h : Forall₂ (fun x _ => p x) xs xs') :
    ∀ x ∈ xs, p x := by
  induction h with
  | nil => exact fun x hx => absurd hx not_mem_nil
  | cons hx _ ih => exact forall_mem_cons.2 ⟨hx, ih⟩

lemma inside_arguments {es : List Expr} (h : ∀ e ∈ es, ExprCut unit e) (depth : Nat) :
    Js.Inside 1 (join ", " (Expr.texts unit depth es)) := by
  refine inside_join ?_
  induction es with
  | nil => exact fun t ht => absurd ht not_mem_nil
  | cons e es ih =>
    obtain ⟨he, hes⟩ := forall_mem_cons.1 h
    exact forall_mem_cons.2 ⟨he.inside depth 0, ih hes⟩

lemma cut_entries {es : List Entry} (h : ∀ e ∈ es, EntryCut unit e) (depth : Nat) :
    ∀ e ∈ Entry.texts unit depth es, e.Cut := by
  induction es with
  | nil => exact fun t ht => absurd ht not_mem_nil
  | cons e es ih =>
    obtain ⟨he, hes⟩ := forall_mem_cons.1 h
    exact forall_mem_cons.2 ⟨he depth, ih hes⟩

lemma gap_allLines {ss : List Stmt} (h : ∀ s ∈ ss, StmtCut unit s) (depth : Nat) :
    Js.Gap 1 (ended (Stmt.allLines unit depth ss)) := by
  induction ss with
  | nil => exact Js.gap_blanks (by simp [ended, Stmt.allLines])
  | cons s ss ih =>
    obtain ⟨hs, hss⟩ := forall_mem_cons.1 h
    rw [Stmt.allLines, ended_append]
    exact (hs depth).append (ih hss)

lemma exists_reads_of_isSigned {t : Text} (h : IsSigned t) : ∃ last, Js.Reads t false last := by
  obtain ⟨sign, body, hsign, hbody, rfl⟩ := h
  rcases hbody with hword | ⟨s, hs, hreaches⟩
  · exact ⟨_, (Js.reads_word hword).signed hsign⟩
  · exact ⟨_, (Js.reads_number hs hreaches).signed hsign⟩

lemma reads_atom {e : Expr} (h : e.isAtom) : ExprCut unit e := by
  intro depth
  rcases Expr.isSigned_or_eq_string h unit depth with hsigned | ⟨v, rfl⟩
  · exact ⟨_, exists_reads_of_isSigned hsigned⟩
  · exact ⟨_, _, Js.reads_quote v⟩

/-- Parentheses where a text starts with some byte: in front of a property access, and around a statement. -/
lemma ExprCut.guarded {e : Expr} (h : ExprCut unit e) (depth : Nat) (b : UInt8) : ∃ loose last,
    Js.Reads (if List.isPrefixOf [b] (e.text unit depth) then "(" ++ e.text unit depth ++ ")"
      else e.text unit depth) loose last := by
  split_ifs
  · obtain ⟨loose, last, hreads⟩ := h depth
    exact ⟨_, _, reads_group hreads⟩
  · exact h depth

end Trees

lemma reads_path {t : Text} (h : IsPath t) : ∃ w, Js.Reads t false (.word w) := by
  induction h with
  | word h => exact ⟨_, Js.reads_word h⟩
  | @member t w _ hw ih =>
    obtain ⟨v, ih⟩ := ih
    rw [append_assoc]
    exact ⟨w, ih.dot rfl hw⟩

/-- What may stand verbatim in the code: tags whose comments are on one line, and the operators of compound
assignments. -/
def lexical : Likeness where
  value _ _ := True
  tag t := Js.isOneLine (commentText t)
  operator := spelled.operator

lemma isOneLine_of_shown {tag : Text} (h : lexical.Shown tag) : Js.isOneLine (commentText tag) := by
  have hhandled : ∀ t ∈ Node.handledTags, Js.isOneLine (commentText t) := by decide
  exact h.elim id (hhandled tag)

lemma isInfix_operator {op : Text} (h : lexical.operator op) : Js.isInfix (op ++ "=") = true := by
  have htable : ∀ t ∈ [[], ("+" : Text), "-", "*", "/", "%", "**", "||", "&&", "|", "&"],
      Js.isInfix (t ++ "=") = true := by decide
  exact htable op (mem_of_operator h)

lemma gap_infix {p : Text} (h : Js.isInfix p = true) : Js.Gap 1 (" " ++ p ++ " ") := by
  simp only [Js.isInfix, Bool.and_eq_true, decide_eq_true_eq, Bool.not_eq_true'] at h
  exact ⟨_, h.1.1, (Js.balanced_plain (by simpa using ⟨h.1.2, h.2⟩)).1.keeps 0⟩

lemma isInfix_of_binaryOperator? {name op : Text} (h : binaryOperator? name = some op) :
    Js.isInfix op ∧ (punct op).isLoose = false := by
  have htable : ∀ p ∈ binaryOperators, Js.isInfix p.2 ∧ (punct p.2).isLoose = false := by decide
  exact htable _ (mem_binaryOperators h)

lemma gap_declaration (declaration : Option Declaration) : Js.Gap 1 (Declaration.text declaration) := by
  match declaration with
  | .none => exact gap_of_isGap (by decide)
  | some .const => exact gap_of_isGap (by decide)
  | some .let => exact gap_of_isGap (by decide)

lemma inside_propertyKey (key : Text) : Js.Inside 1 (propertyKey key) := by
  rw [propertyKey]
  split_ifs with hproperty
  · exact (Js.reads_word (isWord_of_isProperty hproperty)).inside 0
  · exact (Js.reads_quote key).inside 0

lemma inside_head {w t : Text} (hw : Js.IsWord w) (h : Js.Inside 2 t) : Js.Inside 1 (w ++ (" (" ++ t ++ ")")) := by
  have hspace : Js.Gap 1 (" " : Text) := gap_of_isGap (by decide)
  have hcondition := hspace.append_inside (.enclosed (o := '(') (c := ')') (by decide) h)
  exact ((Js.reads_word hw).inside 0).append hcondition (Js.Breaks.append (t := " ") (by decide) _)

lemma getLast?_of_isOneLine {t : Text} (h : Js.isOneLine t) : t.getLast? ≠ some newline := by
  intro hlast
  obtain ⟨front, rfl⟩ := getLast?_eq_some_iff.1 hlast
  have hall := all_eq_true.1 h _ ((mem_inits _ _).2 prefix_rfl)
  simp [Js.endsLine_newline] at hall

/-- Generated trees that are cut piece by piece. -/
def cutting {o : Options} (ho : o.Regular) : Congruence o lexical where
  expr e _ := ExprCut o.indent e
  entry e _ := EntryCut o.indent e
  stmt s _ := StmtCut o.indent s
  alternative a _ := AlternativeCut o.indent a
  atom := reads_atom
  literal _ _ := ⟨_, _, Js.reads_quote _⟩
  host h _ := by
    obtain ⟨w, hreads⟩ := reads_path (ho.hosts _ h)
    exact ⟨_, _, hreads⟩
  member h property depth := by
    obtain ⟨loose, last, hreads⟩ := h.guarded depth '-'
    obtain ⟨last', hmember⟩ := hreads.member property
    exact ⟨_, _, hmember⟩
  index h hk depth := by
    obtain ⟨loose, last, hreads⟩ := h.guarded depth '-'
    exact ⟨_, _, reads_index hreads (hk.inside depth 0)⟩
  call h hs depth := by
    obtain ⟨loose, last, hreads⟩ := h depth
    exact ⟨_, _, reads_call hreads (inside_arguments (forall_of_forall₂ hs) depth)⟩
  construct h hs depth := by
    obtain ⟨w, hreads⟩ := reads_path (ho.baseTypes _ h)
    exact ⟨_, _, reads_construct hreads (inside_arguments (forall_of_forall₂ hs) depth)⟩
  unary h he depth := by
    obtain ⟨loose, last, hreads⟩ := he depth
    exact ⟨_, _, hreads.sign (unaryOperator?_eq h).2⟩
  binary h he hr depth := by
    obtain ⟨_, _, hleft⟩ := he depth
    obtain ⟨_, _, hright⟩ := hr depth
    exact ⟨_, _, hleft.between (isInfix_of_binaryOperator? h).1 hright⟩
  conditional hc ht he depth := by
    obtain ⟨_, _, hcondition⟩ := hc depth
    obtain ⟨_, _, hconsequence⟩ := ht depth
    obtain ⟨_, _, halternative⟩ := he depth
    exact ⟨_, _, reads_conditional hcondition hconsequence halternative⟩
  assign h hv depth := by
    obtain ⟨_, _, htarget⟩ := h depth
    obtain ⟨_, _, hvalue⟩ := hv depth
    exact ⟨_, _, reads_assign htarget hvalue⟩
  group h depth := by
    obtain ⟨_, _, hreads⟩ := h depth
    exact ⟨_, _, reads_group hreads⟩
  arrow params _ _ h depth :=
    ⟨_, _, reads_arrowText ho.indent depth params (gap_allLines (forall_of_forall₂ h) (depth + 1))⟩
  array h depth :=
    ⟨_, _, reads_literalText ho.indent depth (by decide) (.inl rfl) (cut_entries (forall_of_forall₂ h) (depth + 1))⟩
  object h depth :=
    ⟨_, _, reads_literalText ho.indent depth (by decide) (.inr rfl) (cut_entries (forall_of_forall₂ h) (depth + 1))⟩
  value h depth := h.inside depth 0
  named key _ _ h depth := by
    have hcolon : Js.Gap 1 (": " : Text) := gap_of_isGap (by decide)
    have hentry := (inside_propertyKey key).append (hcolon.append_inside (h.inside depth 0))
      (.append (t := ": ") (by decide) _)
    rwa [← append_assoc] at hentry
  computed hk h depth := by
    have hcolon : Js.Gap 1 (": " : Text) := gap_of_isGap (by decide)
    have hkey := Js.Inside.enclosed (o := '[') (c := ']') (by decide) (hk.inside depth 1)
    have hentry := hkey.append (hcolon.append_inside (h.inside depth 0)) (.append (t := ": ") (by decide) _)
    have hsplit : ofString "]: " = [']'.toUInt8] ++ ": " := by decide
    have hopen : ofString "[" = ['['] := by decide
    rw [Entry.text, hsplit, hopen, ← append_assoc]
    rwa [← append_assoc] at hentry
  commented h _ _ := gap_commentText (isOneLine_of_shown h)
  comment h depth := by
    have hline := isOneLine_of_shown h
    rw [Stmt.lines, ended_emitted ho.indent depth (getLast?_of_isOneLine hline), append_assoc]
    exact (gap_indentation ho.indent depth).append (gap_commentText hline)
  hoist names depth := by
    have hlet : Js.Gap 1 ("let " : Text) := gap_of_isGap (by decide)
    exact gap_statement ho.indent depth (hlet.append_inside (inside_bindingList names))
  assignment declaration _ _ _ _ _ hop h hv depth := by
    have hbetween := gap_infix (isInfix_operator hop)
    have hvalue := (hbetween.append_inside (hv.inside depth 0))
    have hassign := ((gap_declaration declaration).append_inside (h.inside depth 0)).append hvalue
      (((Js.Breaks.append (t := " ") (by decide) _).append " ").append _)
    have hsplit : ofString "= " = "=" ++ " " := by decide
    have hstatement := gap_statement ho.indent depth hassign
    rw [Stmt.lines, hsplit]
    simpa using hstatement
  expression h depth := by
    obtain ⟨_, _, hreads⟩ := h.guarded depth '\x7b'
    exact gap_statement ho.indent depth (hreads.inside 0)
  ret h depth := by
    have hreturn : Js.Gap 1 ("return " : Text) := gap_of_isGap (by decide)
    exact gap_statement ho.indent depth (hreturn.append_inside (h.inside depth 0))
  leave depth := by
    have hreturn : Js.IsWord (ofString "return") := by decide
    exact gap_statement ho.indent depth ((Js.reads_word hreturn).inside 0)
  branch hc h ha depth := by
    have hhead := inside_head (w := "if") (by decide) (hc.inside depth 1)
    have hblock := gap_block ho.indent depth hhead
      ((gap_allLines (forall_of_forall₂ h) (depth + 1)).succ.append (ha depth))
    have hopen : ofString "if (" = "if" ++ " (" := by decide
    have hclose : ofString ") \x7b" = ")" ++ " \x7b" := by decide
    rw [Stmt.lines, ended_append, ended_append, ended_append, hopen, hclose]
    simpa using hblock
  loop hc h depth := by
    have hhead := inside_head (w := "while") (by decide) (hc.inside depth 1)
    have hblock := gap_block ho.indent depth hhead (gap_allLines (forall_of_forall₂ h) (depth + 1)).succ
    have hopen : ofString "while (" = "while" ++ " (" := by decide
    have hclose : ofString ") \x7b" = ")" ++ " \x7b" := by decide
    rw [Stmt.lines, ended_append, ended_append, hopen, hclose]
    simpa using hblock
  function name params _ _ h depth := by
    have hfunction : Js.IsWord (ofString "function") := by decide
    have hname := (Js.reads_word hfunction).spaced (Js.reads_word (isWord_binding name))
    have hhead := (reads_call hname (inside_bindingList params)).inside 0
    have hblock := gap_block ho.indent depth hhead (gap_allLines (forall_of_forall₂ h) (depth + 1)).succ
    have hopen : ofString "function " = "function" ++ " " := by decide
    have hclose : ofString ") \x7b" = ")" ++ " \x7b" := by decide
    rw [Stmt.lines, ended_append, ended_append, hopen, hclose]
    simpa using hblock
  none _ := Js.gap_blanks (by simp [ended, Alternative.lines])
  otherwise h depth := by
    have helse : Js.IsWord (ofString "else") := by decide
    have hhead := gap_reopening ho.indent depth ((Js.reads_word helse).inside 0)
    have hsplit : ofString "\x7d else \x7b" = "\x7d " ++ "else" ++ " \x7b" := by decide
    rw [Alternative.lines, ended_append, hsplit]
    exact hhead.append (gap_allLines (forall_of_forall₂ h) (depth + 1)).succ
  elif hc h ha depth := by
    have helse : Js.Gap 1 ("else " : Text) := gap_of_isGap (by decide)
    have hcondition := inside_head (w := "if") (by decide) (hc.inside depth 1)
    have hhead := gap_reopening ho.indent depth (helse.append_inside hcondition)
    have hopen : ofString "\x7d else if (" = "\x7d " ++ "else " ++ "if" ++ " (" := by decide
    have hclose : ofString ") \x7b" = ")" ++ " \x7b" := by decide
    rw [Alternative.lines, ended_append, ended_append, hopen, hclose]
    simpa using (hhead.append (gap_allLines (forall_of_forall₂ h) (depth + 1)).succ).append (ha depth)

end Transpiler.Script
