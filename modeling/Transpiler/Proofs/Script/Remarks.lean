import Transpiler.Proofs.Script.Layout
import Transpiler.Proofs.Script.Operators
import Transpiler.Proofs.Script.Rendering

/-!
# Comments on their own lines

A diagnostic comment has a line to itself, so it never hides code, and the lines that are comments are those of the
script (`Remarked`). A text that spans lines goes through them one by one: the lines it completes hold the comments
inside it, and the line it leaves unfinished is a line of code (`Passes`). The count of comments is the number of
these lines and of the comments lost with dropped expressions (`unsupported_eq_remarks_add_lost`).
-/

namespace Transpiler.Script

open List Text Script.Expr Node

/-! ## Lines of code and of comments -/

/-- Whether a line is a diagnostic comment: behind its indentation it starts with the mark. -/
def isRemark (line : Text) : Bool := commentMark.isPrefixOf (line.dropWhile isBlank)

/-- The start of a line of code. -/
structure Solid (a : Text) : Prop where
  newline_not_mem : newline ∉ a
  code : ∃ b rest, a.dropWhile isBlank = b :: rest ∧ b ≠ '/'

/-- A byte that starts code and no comment. -/
def startsCode (b : UInt8) : Bool := !isBlank b && b != '/' && b != newline

section Solid

variable {a u : Text}

lemma Solid.append (h : Solid a) (hu : newline ∉ u) : Solid (a ++ u) := by
  obtain ⟨b, rest, hdrop, hb⟩ := h.code
  refine ⟨by simpa using ⟨h.newline_not_mem, hu⟩, b, rest ++ u, ?_, hb⟩
  rw [dropWhile_append, hdrop]
  rfl

lemma Solid.not_isRemark (h : Solid a) : isRemark a = false := by
  obtain ⟨b, rest, hdrop, hb⟩ := h.code
  have hmark : commentMark = '/'.toUInt8 :: commentMark.tail := by decide
  have hne : ('/' == b) = false := beq_eq_false_iff_ne.2 (Ne.symm hb)
  rw [isRemark, hdrop, hmark, isPrefixOf_cons_cons, hne, Bool.false_and]

lemma Solid.ne_nil (h : Solid a) : a ≠ [] := by
  rintro rfl
  obtain ⟨b, rest, hdrop, -⟩ := h.code
  cases hdrop

lemma startsCode_iff {b : UInt8} : startsCode b ↔ isBlank b = false ∧ b ≠ '/' ∧ b ≠ newline := by
  simp [startsCode, and_assoc]

lemma solid_of_startsCode (h : ∀ c ∈ a, isBlank c) {b : UInt8} (hb : startsCode b) : Solid (a ++ [b]) := by
  obtain ⟨hblank, hslash, hnewline⟩ := startsCode_iff.1 hb
  refine ⟨by simpa using ⟨newline_not_mem_of_blank h, Ne.symm hnewline⟩, b, [], ?_, hslash⟩
  rw [dropWhile_append_of_pos h, dropWhile_cons_of_neg (by simp [hblank])]

end Solid

/-- A line that is the comment for a tag and nothing else. -/
def RemarkLine (shown : Text → Prop) (unit line tag : Text) : Prop :=
  shown tag ∧ ∃ depth, line = indentation unit depth ++ commentText tag

/-- The comments among some lines are those for the tags, each on a line of its own. -/
structure Remarked (shown : Text → Prop) (unit : Text) (lines tags : List Text) : Prop where
  newline_not_mem : ∀ l ∈ lines, newline ∉ l
  remarks : Forall₂ (RemarkLine shown unit) (lines.filter isRemark) tags

section Passes

variable {shown : Text → Prop} {unit : Text} {tags tags' : List Text} {ls ls' : List Text} {a t u : Text}

namespace Remarked

lemma nil : Remarked shown unit [] [] := ⟨by simp, .nil⟩

lemma append (h : Remarked shown unit ls tags) (h' : Remarked shown unit ls' tags') :
    Remarked shown unit (ls ++ ls') (tags ++ tags') := by
  refine ⟨fun l hl => (mem_append.1 hl).elim (h.newline_not_mem l) (h'.newline_not_mem l), ?_⟩
  rw [filter_append]
  exact rel_append h.remarks h'.remarks

lemma code (h : Solid a) : Remarked shown unit [a] [] := by
  refine ⟨by simpa using h.newline_not_mem, ?_⟩
  rw [filter_cons_of_neg (by simp [h.not_isRemark])]
  exact .nil

lemma comment (hunit : ∀ b ∈ unit, isBlank b) {tag : Text} (htag : newline ∉ tag) (h : shown tag)
    (depth : Nat) : Remarked shown unit [indentation unit depth ++ commentText tag] [tag] := by
  have hblank := blank_indentation hunit depth
  have hmark : newline ∉ commentMark := by decide
  have hremark : isRemark (indentation unit depth ++ commentText tag) := by
    have hdrop : (commentMark ++ tag).dropWhile isBlank = commentMark ++ tag := rfl
    rw [isRemark, dropWhile_append_of_pos hblank, commentText, hdrop, isPrefixOf_iff_prefix]
    exact prefix_append _ _
  refine ⟨?_, ?_⟩
  · simp only [mem_singleton, forall_eq, commentText, mem_append, not_or]
    exact ⟨newline_not_mem_of_blank hblank, hmark, htag⟩
  · rw [filter_cons_of_pos hremark]
    exact .cons ⟨h, depth, rfl⟩ .nil

/-- A comment among the lines is the comment for a tag. -/
lemma exists_tag (h : Remarked shown unit ls tags) (ha : a ∈ ls) (hremark : isRemark a) :
    ∃ tag, RemarkLine shown unit a tag := by
  have hmem : a ∈ ls.filter isRemark := mem_filter.2 ⟨ha, hremark⟩
  obtain ⟨-, hremarks⟩ := h
  generalize ls.filter isRemark = remarks at hmem hremarks
  induction hremarks with
  | nil => cases hmem
  | @cons line tag _ _ hline _ ih =>
    rcases mem_cons.1 hmem with rfl | hmem
    · exact ⟨tag, hline⟩
    · exact ih hmem

end Remarked

/-! ## Texts that span lines -/

/-- A text inside lines of code. Behind the start of such a line it completes some lines, which hold the
comments for the tags, and goes on with a line of code. -/
def Passes (shown : Text → Prop) (unit t : Text) (tags : List Text) : Prop :=
  ∀ a, Solid a → ∃ init last, (∀ u, lines (a ++ (t ++ u)) = init ++ lines (last ++ u)) ∧ Solid last
    ∧ Remarked shown unit init tags

/-- A text that can start a line of code. -/
def Noted (shown : Text → Prop) (unit t : Text) (tags : List Text) : Prop :=
  ∃ b rest, t = b :: rest ∧ startsCode b ∧ Passes shown unit rest tags

lemma Passes.flat (h : newline ∉ t) : Passes shown unit t [] := by
  intro a ha
  refine ⟨[], a ++ t, fun u => ?_, ha.append h, .nil⟩
  rw [append_assoc]
  rfl

lemma Passes.append (h : Passes shown unit t tags) (hu : Passes shown unit u tags') :
    Passes shown unit (t ++ u) (tags ++ tags') := by
  intro a ha
  obtain ⟨init, last, hlines, hlast, hinit⟩ := h a ha
  obtain ⟨init', last', hlines', hlast', hinit'⟩ := hu last hlast
  refine ⟨init ++ init', last', fun w => ?_, hlast', hinit.append hinit'⟩
  rw [append_assoc t, hlines, hlines', append_assoc]

lemma Passes.append_flat (h : Passes shown unit t tags) (hu : newline ∉ u) : Passes shown unit (t ++ u) tags := by
  have happend := h.append (.flat hu)
  rwa [append_nil] at happend

lemma Passes.broken (hfirst : newline ∉ t) (h : Remarked shown unit ls tags) (hu : Solid u) :
    Passes shown unit (t ++ (ls.flatMap (newline :: ·) ++ newline :: u)) tags := by
  intro a ha
  refine ⟨(a ++ t) :: ls, u, fun w => ?_, hu, (Remarked.code (ha.append hfirst)).append h⟩
  have hlines := lines_flatMap (ha.append hfirst).newline_not_mem h.newline_not_mem (u ++ w)
  simpa using hlines

namespace Noted

lemma passes (h : Noted shown unit t tags) : Passes shown unit t tags := by
  obtain ⟨b, rest, rfl, hb, hrest⟩ := h
  exact (Passes.flat (t := [b]) (by simpa using Ne.symm (startsCode_iff.1 hb).2.2)).append hrest

lemma append (h : Noted shown unit t tags) (hu : Passes shown unit u tags') :
    Noted shown unit (t ++ u) (tags ++ tags') := by
  obtain ⟨b, rest, rfl, hb, hrest⟩ := h
  exact ⟨b, rest ++ u, rfl, hb, hrest.append hu⟩

lemma append_flat (h : Noted shown unit t tags) (hu : newline ∉ u) : Noted shown unit (t ++ u) tags := by
  obtain ⟨b, rest, rfl, hb, hrest⟩ := h
  exact ⟨b, rest ++ u, rfl, hb, hrest.append_flat hu⟩

lemma flat (h : newline ∉ t) (hhead : t.head?.any startsCode) : Noted shown unit t [] := by
  cases t with
  | nil => cases hhead
  | cons b rest => exact ⟨b, rest, rfl, hhead, .flat fun hmem => h (mem_cons_of_mem b hmem)⟩

variable (h : Noted shown unit t tags)

include h

lemma exists_lines (ha : ∀ c ∈ a, isBlank c) :
    ∃ init last, lines (a ++ t) = init ++ [last] ∧ Solid last ∧ Remarked shown unit init tags := by
  obtain ⟨b, rest, rfl, hb, hrest⟩ := h
  obtain ⟨init, last, hlines, hlast, hinit⟩ := hrest (a ++ [b]) (solid_of_startsCode ha hb)
  refine ⟨init, last, ?_, hlast, hinit⟩
  have hlines := hlines []
  rw [append_nil, append_nil, lines_of_not_mem hlast.newline_not_mem] at hlines
  simpa using hlines

lemma lines (ha : ∀ c ∈ a, isBlank c) : Remarked shown unit (lines (a ++ t)) tags := by
  obtain ⟨init, last, hlines, hlast, hinit⟩ := h.exists_lines ha
  have hcode := hinit.append (.code hlast)
  rwa [append_nil, ← hlines] at hcode

lemma tags_eq_nil (hflat : newline ∉ t) : tags = [] := by
  obtain ⟨init, last, hlines, -, hinit⟩ := h.exists_lines (a := []) (by simp)
  rw [nil_append, lines_of_not_mem hflat] at hlines
  have hnil : init = [] := by
    have hlength := congrArg List.length hlines
    exact length_eq_zero_iff.1 (by simpa using hlength)
  have hforall := hinit.remarks
  rw [hnil] at hforall
  cases hforall
  rfl

lemma getLast?_ne_newline : t.getLast? ≠ some newline := by
  intro hlast
  obtain ⟨front, rfl⟩ := getLast?_eq_some_iff.1 hlast
  obtain ⟨init, last, hlines, hsolid, -⟩ := h.exists_lines (a := []) (by simp)
  rw [nil_append, lines_append_newline_append] at hlines
  -- behind a line feed at the end there would be one more line, which is empty
  have hempty : ([] : Text) = last := List.cons.inj (append_inj_right' hlines rfl) |>.1
  exact hsolid.ne_nil hempty.symm

lemma emitted (hunit : ∀ b ∈ unit, isBlank b) (depth : Nat) :
    Remarked shown unit (Script.emitted unit depth t) tags := by
  have hblank := blank_indentation hunit depth
  rw [emitted_eq_lines (newline_not_mem_of_blank hblank) h.getLast?_ne_newline]
  exact h.lines hblank

end Noted

/-! ## Literals and functions -/

/-- The text of an entry of a literal: code, or the comment for one tag. -/
def EntryNoted (shown : Text → Prop) (unit : Text) (e : EntryText) (tags : List Text) : Prop :=
  match e with
  | .code t => Noted shown unit t tags
  | .comment t => ∃ tag, shown tag ∧ newline ∉ tag ∧ t = commentText tag ∧ tags = [tag]

variable (hunit : ∀ b ∈ unit, isBlank b)

include hunit

lemma exists_entryLines (depth : Nat) {es : List EntryText}
    {tagss : List (List Text)} (h : Forall₂ (EntryNoted shown unit) es tagss) :
    ∃ ls, entryLines (indentation unit depth) es = ls.flatMap (newline :: ·)
      ∧ Remarked shown unit ls tagss.flatten := by
  have hblank := blank_indentation hunit depth
  induction h with
  | nil => exact ⟨[], rfl, .nil⟩
  | @cons e tags es tagss he _ ih =>
    obtain ⟨ls, hls, hremarked⟩ := ih
    rw [entryLines, hls]
    cases e with
    | code t =>
      -- a comma that may follow belongs to the last line of the entry
      have hcomma : Noted shown unit (t ++ if EntryText.isCode (.code t) && es.any (·.isCode) then ("," : Text)
          else []) tags := he.append_flat (by split_ifs <;> decide)
      refine ⟨_, ?_, (hcomma.lines hblank).append hremarked⟩
      rw [flatMap_append, flatMap_lines]
      simp [EntryText.text]
    | comment t =>
      obtain ⟨tag, hshown, hflat, rfl, rfl⟩ := he
      refine ⟨_, ?_, (Remarked.comment hunit hflat hshown depth).append hremarked⟩
      simp [EntryText.text, EntryText.isCode]

lemma noted_literalText (depth : Nat) {opening closing : UInt8}
    (hopening : startsCode opening) (hclosing : startsCode closing) {pad : Text}
    (hpad : newline ∉ pad) {es : List EntryText} {tagss : List (List Text)}
    (h : Forall₂ (EntryNoted shown unit) es tagss) :
    Noted shown unit (literalText unit depth [opening] [closing] pad es) tagss.flatten := by
  have hblank := blank_indentation hunit depth
  have hopen := Ne.symm (startsCode_iff.1 hopening).2.2
  have hclose := Ne.symm (startsCode_iff.1 hclosing).2.2
  rw [literalText]
  split_ifs with hempty hown
  · cases h with
    | nil => exact ⟨opening, [closing], rfl, hopening, .flat (by simpa using hclose)⟩
    | cons => cases hempty
  · obtain ⟨ls, hls, hremarked⟩ := exists_entryLines hunit (depth + 1) h
    refine ⟨opening, _, rfl, hopening, ?_⟩
    have hbroken := Passes.broken (t := []) (by simp) hremarked (solid_of_startsCode hblank hclosing)
    rw [hls]
    simpa using hbroken
  · -- no entry has a line feed, or the literal would not be on one line
    rw [Bool.not_eq_true, any_eq_false] at hown
    have hflat : ∀ e ∈ es, e.isCode ∧ newline ∉ e.text := by
      intro e he
      have hline := hown e he
      rw [EntryText.needsOwnLine, Bool.not_eq_true, Bool.or_eq_false_iff] at hline
      exact ⟨by simpa using hline.1, by simpa using hline.2⟩
    have htags : tagss.flatten = [] := by
      clear hempty hown
      induction h with
      | nil => rfl
      | @cons e tags es tagss he _ ih =>
        have hcode := hflat e (by simp)
        cases e with
        | code t =>
          rw [flatten_cons, he.tags_eq_nil hcode.2, ih fun e' he' => hflat e' (by simp [he'])]
          rfl
        | comment => cases hcode.1
    have htexts : ∀ t ∈ es.map (·.text), newline ∉ t := by
      intro t ht
      obtain ⟨e, he, rfl⟩ := mem_map.1 ht
      exact (hflat e he).2
    rw [htags]
    refine ⟨opening, pad ++ join ", " (es.map (·.text)) ++ pad ++ [closing], by simp, hopening, .flat ?_⟩
    simp only [mem_append, not_or, mem_singleton]
    exact ⟨⟨⟨hpad, newline_not_mem_join (by decide) htexts⟩, hpad⟩, hclose⟩

lemma noted_arrowText (depth : Nat) (params : List Text)
    (h : Remarked shown unit ls tags) : Noted shown unit (arrowText unit depth params ls) tags := by
  have hparams := newline_not_mem_bindingList params
  have hopen : ofString "(" = ['('] := by decide
  have hclose : ofString "\x7d" = ['\x7d'] := by decide
  have hfirst : newline ∉ bindingList params ++ ofString ") => \x7b" := by
    rw [mem_append, not_or]
    exact ⟨hparams, by decide⟩
  cases hempty : ls.isEmpty with
  | true =>
    obtain rfl := List.isEmpty_iff.1 hempty
    cases h.remarks
    rw [arrowText, if_pos hempty]
    refine ⟨'(', bindingList params ++ ofString ") => \x7b" ++ "\x7d", ?_, by decide, .flat ?_⟩
    · rw [hopen]
      simp
    rw [mem_append, not_or]
    exact ⟨hfirst, by decide⟩
  | false =>
    have hne : ls ≠ [] := by
      rintro rfl
      cases hempty
    have hsolid := solid_of_startsCode (blank_indentation hunit depth) (b := '\x7d') (by decide)
    have hbroken := Passes.broken hfirst h hsolid
    rw [arrowText, if_neg (by simp [hempty])]
    refine ⟨'(', _, ?_, by decide, hbroken⟩
    rw [← newline_cons_join hne, hopen, hclose]
    simp

omit hunit

/-! ## Words, numbers and strings -/

lemma head_ne_slash (h : Js.IsWord t ∨ Js.IsNumeral t) : ∀ b ∈ t.head?, b ≠ '/' := by
  have hfirst : ∀ b ∈ t.head?, Js.prolongs b = false := by
    rcases h with h | h
    · exact ((Js.spells_word h).first (by simp)).2
    · exact ((Js.spells_number h).first (by simp)).2
  rintro b hb rfl
  exact absurd (hfirst _ hb) (by decide)

lemma noted_of_plain (h : Plain t) (hhead : ∀ b ∈ t.head?, b ≠ '/') : Noted shown unit t [] := by
  obtain ⟨b, rest, rfl⟩ := exists_cons_of_ne_nil h.ne_nil
  refine .flat h.flat ?_
  have hb := h.bytes b (by simp)
  simp only [isPlain, Bool.and_eq_true, Bool.not_eq_true', bne_iff_ne] at hb
  exact startsCode_iff.2 ⟨hb.1.1.1, hhead b rfl, hb.2⟩

lemma noted_word (h : Js.IsWord t) : Noted shown unit t [] :=
  noted_of_plain (plain_of_isWord h) (head_ne_slash (.inl h))

lemma noted_signed (h : IsSigned t) : Noted shown unit t [] := by
  refine noted_of_plain (plain_of_isSigned h) fun b hb => ?_
  obtain ⟨sign, body, hsign, hbody, rfl⟩ := h
  simp only [mem_cons, not_mem_nil, or_false] at hsign
  rcases hsign with rfl | rfl | rfl
  · exact head_ne_slash hbody b hb
  · obtain rfl : '-' = b := Option.some.inj hb
    decide
  · obtain rfl : '+' = b := Option.some.inj hb
    decide

lemma noted_quote (v : Text) : Noted shown unit (quote v) [] :=
  .flat (newline_not_mem_quote v) (by rw [quote]; rfl)

lemma noted_propertyKey (key : Text) : Noted shown unit (propertyKey key) [] := by
  rw [propertyKey]
  split_ifs with hproperty
  · exact noted_word (isWord_of_isProperty hproperty)
  · exact noted_quote key

lemma newline_not_mem_member (property : Text) : newline ∉ member property := by
  rw [member]
  split_ifs with hproperty
  · rw [mem_append, not_or]
    exact ⟨by decide, (plain_of_isWord (isWord_of_isProperty hproperty)).flat⟩
  · rw [mem_append, mem_append, not_or, not_or]
    exact ⟨⟨by decide, newline_not_mem_quote property⟩, by decide⟩

variable (h : Noted shown unit t tags)

include h

lemma Noted.parenthesised : Noted shown unit ("(" ++ t ++ ")") tags := by
  have hopen : Noted shown unit ("(" : Text) [] := .flat (by decide) (by decide)
  exact (hopen.append h.passes).append_flat (by decide)

/-- Parentheses where a text starts with some byte: in front of a property access, and around a statement. -/
lemma Noted.guarded (b : UInt8) : Noted shown unit (if List.isPrefixOf [b] t then "(" ++ t ++ ")" else t) tags := by
  split_ifs
  · exact h.parenthesised
  · exact h

lemma Noted.receiverText : Noted shown unit (Script.receiverText t) tags :=
  h.guarded '-'

lemma Noted.statementText : Noted shown unit (Script.statementText t) tags :=
  h.guarded '\x7b'

omit h

lemma remarks_atom {e : Expr} (h : e.isAtom) : e.remarks = [] := by
  cases e <;> first | rfl | cases h

lemma noted_atom {e : Expr} (h : e.isAtom) (depth : Nat) : Noted shown unit (e.text unit depth) e.remarks := by
  rw [remarks_atom h]
  rcases isSigned_or_eq_string h unit depth with hsigned | ⟨v, rfl⟩
  · exact noted_signed hsigned
  · exact noted_quote v

end Passes

/-! ## Generated code -/

section Trees

variable (shown : Text → Prop) (unit : Text)

/-- The comments of an expression are in its text. -/
def ExprNoted (e : Expr) : Prop := ∀ depth, Noted shown unit (e.text unit depth) e.remarks

/-- Noted at every depth. -/
def EntryTreeNoted (e : Entry) : Prop := ∀ depth, EntryNoted shown unit (e.text unit depth) e.remarks

/-- Noted at every depth. -/
def StmtNoted (s : Stmt) : Prop := ∀ depth, Remarked shown unit (s.lines unit depth) s.remarks

/-- The comments of what follows a branch are in its lines. -/
def AlternativeNoted (a : Alternative) : Prop := ∀ depth, Remarked shown unit (a.lines unit depth) a.remarks

variable {shown unit}

lemma passes_arguments {es es' : List Expr} (h : Forall₂ (fun e _ => ExprNoted shown unit e) es es')
    (depth : Nat) : Passes shown unit (join ", " (texts unit depth es)) (allRemarks es) := by
  induction h with
  | nil => exact .flat (by simp [texts, join])
  | @cons e _ es _ he hes ih =>
    cases hes with
    | nil => simpa [texts, allRemarks, join] using (he depth).passes
    | cons =>
      have happend := ((he depth).passes.append_flat (u := ", ") (by decide)).append ih
      rw [texts, texts, join, intercalate_cons_cons]
      exact happend

lemma notedEntries {es es' : List Entry} (h : Forall₂ (fun e _ => EntryTreeNoted shown unit e) es es')
    (depth : Nat) : ∃ tagss, tagss.flatten = Entry.allRemarks es
      ∧ Forall₂ (EntryNoted shown unit) (Entry.texts unit depth es) tagss := by
  induction h with
  | nil => exact ⟨[], rfl, .nil⟩
  | @cons e _ es _ he _ ih =>
    obtain ⟨tagss, htags, hes⟩ := ih
    refine ⟨e.remarks :: tagss, ?_, .cons (he depth) hes⟩
    rw [flatten_cons, htags]
    rfl

lemma remarked_allLines {ss ss' : List Stmt} (h : Forall₂ (fun s _ => StmtNoted shown unit s) ss ss')
    (depth : Nat) : Remarked shown unit (Stmt.allLines unit depth ss) (Stmt.allRemarks ss) := by
  induction h with
  | nil => exact .nil
  | cons hs _ ih => exact (hs depth).append ih

end Trees

/-- Settings that put no line feed into the code and start no line of it with a slash. -/
structure Options.Inline (o : Options) : Prop where
  hosts : ∀ t ∈ o.hosts, newline ∉ t ∧ t.head?.any startsCode
  baseTypes : ∀ t ∈ o.baseTypes, newline ∉ t
  indent : ∀ b ∈ o.indent, isBlank b

lemma Options.inline_default : Options.default.Inline :=
  ⟨by decide, by decide, all_eq_true.1 (by decide)⟩

/-- Tags and operators without a line feed, where the tags are those of some nodes. -/
def inlined (nodes : List Node) : Likeness where
  value _ _ := True
  tag t := newline ∉ t ∧ ∃ span text, .unknown span t text ∈ walkAll (fun _ => true) nodes
  operator op := newline ∉ op

section Noting

variable {nodes : List Node} {unit : Text} {depth : Nat}

lemma newline_not_mem_of_shown {tag : Text} (h : (inlined nodes).Shown tag) : newline ∉ tag := by
  have hhandled : ∀ t ∈ handledTags, newline ∉ t := by decide
  exact h.elim (·.1) (hhandled tag)

lemma noted_start {shown : Text → Prop} {t u : Text} {tags : List Text} (ht : newline ∉ t)
    (hhead : t.head?.any startsCode) (hu : Passes shown unit u tags) : Noted shown unit (t ++ u) tags :=
  (Noted.flat ht hhead).append hu

lemma noted_declaration {shown : Text → Prop} (declaration : Option Declaration) {t : Text} {tags : List Text}
    (h : Noted shown unit t tags) : Noted shown unit (Declaration.text declaration ++ t) tags := by
  match declaration with
  | none => exact h
  | some .const => exact noted_start (by decide) (by decide) h.passes
  | some .let => exact noted_start (by decide) (by decide) h.passes

lemma remarked_closing {shown : Text → Prop} (hunit : ∀ b ∈ unit, isBlank b) (depth : Nat) :
    Remarked shown unit (emitted unit depth "\x7d") [] :=
  (Noted.flat (by decide) (by decide)).emitted hunit depth

end Noting

/-- Generated trees whose comments are the lines of comments in their text. -/
def noting {o : Options} (ho : o.Inline) (nodes : List Node) : Congruence o (inlined nodes) where
  expr e _ := ExprNoted (inlined nodes).Shown o.indent e
  entry e _ := EntryTreeNoted (inlined nodes).Shown o.indent e
  stmt s _ := StmtNoted (inlined nodes).Shown o.indent s
  alternative a _ := AlternativeNoted (inlined nodes).Shown o.indent a
  atom h depth := noted_atom h depth
  literal _ _ := noted_quote _
  host h _ := .flat (ho.hosts _ h).1 (ho.hosts _ h).2
  member h property depth := (h depth).receiverText.append_flat (newline_not_mem_member property)
  index h hk depth := (((h depth).receiverText.append_flat (by decide)).append (hk depth).passes).append_flat (by decide)
  call h hs depth := (((h depth).append_flat (by decide)).append (passes_arguments hs depth)).append_flat (by decide)
  construct {type} _ _ h hs depth := by
    have hhead : newline ∉ type ++ ofString "(" := by
      rw [mem_append, not_or]
      exact ⟨ho.baseTypes type h, by decide⟩
    have hcall := (noted_start (t := "new ") (by decide) (by decide) (.flat hhead)).append (passes_arguments hs depth)
    simpa [text, remarks] using hcall.append_flat (u := ")") (by decide)
  unary {_ op} _ _ h he depth := by
    have hhead : op.head?.any startsCode := by
      rw [unaryOperator?] at h
      split_ifs at h <;> rw [← Option.some.inj h] <;> decide
    exact noted_start (plain_of_unaryOperator? h).flat hhead (he depth).passes
  binary h he hr depth :=
    ((((he depth).append_flat (by decide)).append_flat (flat_of_binaryOperator? h)).append_flat (by decide)).append
      (hr depth).passes
  conditional hc ht he depth :=
    ((((hc depth).append_flat (by decide)).append (ht depth).passes).append_flat (by decide)).append (he depth).passes
  assign h hv depth := ((h depth).append_flat (by decide)).append (hv depth).passes
  group h depth := (h depth).parenthesised
  arrow params _ _ h depth := noted_arrowText ho.indent depth params (remarked_allLines h (depth + 1))
  array h depth := by
    obtain ⟨tagss, htags, hes⟩ := notedEntries h (depth + 1)
    rw [text, remarks, ← htags]
    exact noted_literalText ho.indent depth (by decide) (by decide) not_mem_nil hes
  object h depth := by
    obtain ⟨tagss, htags, hes⟩ := notedEntries h (depth + 1)
    rw [text, remarks, ← htags]
    exact noted_literalText ho.indent depth (by decide) (by decide) (by decide) hes
  value h depth := h depth
  named key _ _ h depth := ((noted_propertyKey key).append_flat (by decide)).append (h depth).passes
  computed hk h depth :=
    ((noted_start (by decide) (by decide) (hk depth).passes).append_flat (by decide)).append (h depth).passes
  commented h _ := ⟨_, h, newline_not_mem_of_shown h, rfl, rfl⟩
  comment {tag} h depth := by
    have hflat : newline ∉ commentText tag := by
      rw [commentText, mem_append, not_or]
      exact ⟨by decide, newline_not_mem_of_shown h⟩
    have hindent := newline_not_mem_of_blank (blank_indentation ho.indent depth)
    have hline : newline ∉ indentation o.indent depth ++ commentText tag := by
      rw [mem_append, not_or]
      exact ⟨hindent, hflat⟩
    rw [Stmt.lines, emitted_eq_lines hindent fun hlast => hflat (mem_of_getLast? hlast), lines_of_not_mem hline]
    exact .comment ho.indent (newline_not_mem_of_shown h) h depth
  hoist names depth := by
    have hlet : Noted (inlined nodes).Shown o.indent ("let " ++ bindingList names) [] :=
      noted_start (by decide) (by decide) (.flat (newline_not_mem_bindingList names))
    exact (hlet.append_flat (u := ";") (by decide)).emitted ho.indent depth
  assignment declaration _ _ _ _ _ hop h hv depth :=
    ((((((noted_declaration declaration (h depth)).append_flat (by decide)).append_flat hop).append_flat
      (by decide)).append (hv depth).passes).append_flat (by decide)).emitted ho.indent depth
  expression h depth := ((h depth).statementText.append_flat (by decide)).emitted ho.indent depth
  ret h depth :=
    ((noted_start (by decide) (by decide) (h depth).passes).append_flat (by decide)).emitted ho.indent depth
  leave depth := by
    have hreturn : Noted (inlined nodes).Shown o.indent "return;" [] := .flat (by decide) (by decide)
    exact hreturn.emitted ho.indent depth
  branch hc h ha depth := by
    have hhead := ((noted_start (t := "if (") (by decide) (by decide) (hc depth).passes).append_flat
      (u := ") \x7b") (by decide)).emitted ho.indent depth
    have hlines := ((hhead.append (remarked_allLines h (depth + 1))).append (ha depth)).append
      (remarked_closing ho.indent depth)
    rwa [append_nil] at hlines
  loop hc h depth := by
    have hhead := ((noted_start (t := "while (") (by decide) (by decide) (hc depth).passes).append_flat
      (u := ") \x7b") (by decide)).emitted ho.indent depth
    have hlines := (hhead.append (remarked_allLines h (depth + 1))).append (remarked_closing ho.indent depth)
    rwa [append_nil] at hlines
  function name params _ _ h depth := by
    have hname : Noted (inlined nodes).Shown o.indent ("function " ++ binding name) [] :=
      noted_start (by decide) (by decide) (.flat (plain_binding name).flat)
    have hhead := (((hname.append_flat (u := "(") (by decide)).append_flat
      (newline_not_mem_bindingList params)).append_flat (u := ") \x7b") (by decide)).emitted ho.indent depth
    have hlines := (hhead.append (remarked_allLines h (depth + 1))).append (remarked_closing ho.indent depth)
    rwa [append_nil] at hlines
  none _ := .nil
  otherwise h depth :=
    ((Noted.flat (by decide) (by decide)).emitted ho.indent depth).append (remarked_allLines h (depth + 1))
  elif hc h ha depth := by
    have hhead := ((noted_start (t := "\x7d else if (") (by decide) (by decide) (hc depth).passes).append_flat
      (u := ") \x7b") (by decide)).emitted ho.indent depth
    exact (hhead.append (remarked_allLines h (depth + 1))).append (ha depth)

/-! ## Programs -/

/-- Whether what a node has verbatim in the code is on one line: the tag of a construct without a representation,
and the operator of an assignment. -/
def isInline : Node → Bool
  | .unknown _ tag _ => !tag.contains newline
  | .assignment _ _ _ operator _ => !operator.contains newline
  | _ => true

lemma alike_inlined {nodes : List Node} (h : ∀ n ∈ walkAll (fun _ => true) nodes, isInline n) :
    Forall₂ (Node.Alike (inlined nodes)) nodes nodes := by
  refine Node.allAlike_self nodes fun n hn => ?_
  have hinline := h n hn
  cases n with
  | unknown span tag text => exact ⟨by simpa [isInline] using hinline, span, text, hn⟩
  | assignment => simpa [isInline, inlined, Likeness.Admits] using hinline
  | _ => trivial

lemma remarked_compile {o : Options} (ho : o.Inline) {nodes : List Node}
    (h : ∀ n ∈ walkAll (fun _ => true) nodes, isInline n) :
    Remarked (inlined nodes).Shown o.indent (compile o nodes).lines (Stmt.allRemarks (script o nodes).1) := by
  obtain ⟨hstmts, -⟩ := (noting ho nodes).script_alike (alike_inlined h)
  exact remarked_allLines hstmts 0

/-- The count of diagnostic comments is the number of lines that are such comments, and of the comments made inside
expressions which were dropped later. A line that starts with the mark of a comment is the whole of a comment: it
names a construct that has no expression, or one without a representation. -/
theorem unsupported_eq_remarks_add_lost {o : Options} (ho : o.Inline) {nodes : List Node}
    (h : ∀ n ∈ walkAll (fun _ => true) nodes, isInline n = true) :
    (compile o nodes).unsupported = ((compile o nodes).lines.filter isRemark).length + lostRemarks o nodes
    ∧ ∀ line ∈ (compile o nodes).lines, newline ∉ line ∧ (isRemark line = true →
        ∃ tag depth, line = indentation o.indent depth ++ commentText tag
          ∧ (tag ∈ handledTags ∨ ∃ span text, .unknown span tag text ∈ walkAll (fun _ => true) nodes)) := by
  have hremarked := remarked_compile ho h
  refine ⟨?_, fun line hline => ⟨hremarked.newline_not_mem line hline, fun hremark => ?_⟩⟩
  · rw [hremarked.remarks.length_eq]
    exact unsupported_script o nodes
  · obtain ⟨tag, hshown, depth, hline⟩ := hremarked.exists_tag hline hremark
    exact ⟨tag, depth, hline, hshown.elim (fun htag => .inr htag.2) .inl⟩

/-- A call whose first argument has a comment in it, and whose second argument cannot be an expression. -/
def droppedArray : List Node :=
  [.call Span.none .absent "puts"
    [.array Span.none [.unknown Span.none "Lambda" "->"], .unknown Span.none "Splat" "*xs"] .absent]

theorem unsupported_droppedArray :
    (Options.default.Inline ∧ ∀ n ∈ walkAll (fun _ => true) droppedArray, isInline n = true)
    ∧ (compile .default droppedArray).unsupported
        = ((compile .default droppedArray).lines.filter isRemark).length + lostRemarks .default droppedArray := by
  have hinline : ∀ n ∈ walkAll (fun _ => true) droppedArray, isInline n = true :=
    all_eq_true.1 (by decide)
  exact ⟨⟨Options.inline_default, hinline⟩, (unsupported_eq_remarks_add_lost Options.inline_default hinline).1⟩

/-- The comment for the array is counted although its line is not in the code. -/
theorem unsupported_exceeds_remarks : (compile .default droppedArray).unsupported = 2
    ∧ (compile .default droppedArray).lines = [commentText "Splat"] := by
  decide

end Transpiler.Script
