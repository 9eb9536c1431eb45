import Transpiler.Proofs.Script.Likeness
import Transpiler.Proofs.Script.Spelling
import Transpiler.Proofs.Text.Lines
import Transpiler.Syntax.Grammar

/-!
# Levels of the generated lines

A line that ends with an opening brace or bracket starts a level, a line that begins with a closing one ends it, and
every line is indented by two spaces for each level it is in (`scan_compile`). The indentation comes from several
places, and a text that spans lines is only indented where it starts. What carries the argument is its shape
(`Spread`): a first line that ends with an opening bracket, lines one level deeper, and a last line that begins with
the closing bracket, after which the text may go on in the same way.
-/

namespace Transpiler.Script

open List Text Options

/-! ## Counting levels -/

/-- A space or tab. -/
def isBlank (b : UInt8) : Bool := b == ' ' || b == '\t'

/-- An opening brace or bracket. -/
def isOpening (b : UInt8) : Bool := b == '\x7b' || b == '['

/-- A closing brace or bracket. -/
def isClosing (b : UInt8) : Bool := b == '\x7d' || b == ']'

lemma isOpening_brace : isOpening '\x7b' := by decide

lemma isOpening_bracket : isOpening '[' := by decide

lemma isClosing_brace : isClosing '\x7d' := by decide

lemma isClosing_bracket : isClosing ']' := by decide

/-- The blanks of a level. -/
def margin (level : Nat) : Text := List.replicate (2 * level) ' '

/-- The level after a line, from the level before it. A closing bracket at the start of a line ends a level
before the line, an opening one at its end starts a level after it. There is no level after a line that closes
what is not open, or that is not indented by its level. -/
def scanLine (level : Nat) (line : Text) : Option Nat :=
  let closes := (line.dropWhile isBlank).head?.any isClosing
  let opens := line.getLast?.any isOpening
  if closes && level == 0 then none
  else
    let here := if closes then level - 1 else level
    if line.takeWhile isBlank == margin here then some (if opens then here + 1 else here) else none

/-- The level after lines. -/
def scan (level : Nat) (lines : List Text) : Option Nat := lines.foldlM scanLine level

/-- The lines lead from a level to another. -/
structure Leads (level : Nat) (lines : List Text) (level' : Nat) : Prop where
  newline_not_mem : ∀ l ∈ lines, newline ∉ l
  scan_eq : scan level lines = some level'

namespace Leads

variable {level level' level'' : Nat} {ls ls' : List Text}

lemma nil : Leads level [] level := ⟨by simp, rfl⟩

lemma append (h : Leads level ls level') (h' : Leads level' ls' level'') : Leads level (ls ++ ls') level'' := by
  refine ⟨fun l hl => (mem_append.1 hl).elim (h.newline_not_mem l) (h'.newline_not_mem l), ?_⟩
  have hls := h.scan_eq
  rw [scan] at hls
  rw [scan, foldlM_append, hls]
  exact h'.scan_eq

end Leads

lemma margin_blank {level : Nat} : ∀ b ∈ margin level, isBlank b := by
  intro b hb
  rw [eq_of_mem_replicate hb]
  rfl

lemma newline_not_mem_margin (level : Nat) : newline ∉ margin level := fun h =>
  absurd (margin_blank _ h) (by decide)

/-- Where the scan stands before a line at a level that starts with a byte. -/
def before (level : Nat) (b : UInt8) : Nat := if isClosing b then level + 1 else level

/-- Where the scan stands after a text at a level. -/
def after (level : Nat) (t : Text) : Nat := if t.getLast?.any isOpening then level + 1 else level

lemma after_append (level : Nat) (s : Text) {t : Text} (ht : t ≠ []) : after level (s ++ t) = after level t := by
  rw [after, after, getLast?_append_of_ne_nil s ht]

variable {b : UInt8}

lemma leads_line (level : Nat) {t : Text} (hhead : t.head? = some b) (hb : isBlank b = false)
    (h : newline ∉ t) : Leads (before level b) [margin level ++ t] (after level t) := by
  obtain ⟨t, rfl⟩ := head?_eq_some_iff.1 hhead
  have hdrop : (margin level ++ b :: t).dropWhile isBlank = b :: t := by
    rw [dropWhile_append_of_pos margin_blank, dropWhile_cons_of_neg (by simp [hb])]
  have htake : (margin level ++ b :: t).takeWhile isBlank = margin level := by
    rw [takeWhile_append_of_pos margin_blank, takeWhile_cons_of_neg (by simp [hb]), append_nil]
  have hlast : (margin level ++ b :: t).getLast? = (b :: t).getLast? :=
    getLast?_append_of_ne_nil _ (cons_ne_nil b t)
  have hline : scanLine (before level b) (margin level ++ b :: t) = some (after level (b :: t)) := by
    rw [scanLine, hdrop, htake, hlast, before, after]
    cases hclosing : isClosing b <;> simp [hclosing]
  refine ⟨fun l hl => ?_, by simpa [scan] using hline⟩
  rw [mem_singleton.1 hl, mem_append, not_or]
  exact ⟨newline_not_mem_margin level, h⟩

/-! ## Texts that span lines -/

/-- A text at a level: it is on one line, or it opens a bracket at the end of a line and closes it at the start
of a later one, with lines of the next level in between. -/
inductive Spread (level : Nat) : Text → Prop
  | flat {t : Text} (h : newline ∉ t) : Spread level t
  | broken {first : Text} (hfirst : newline ∉ first) {opening closing : UInt8}
      (hopening : isOpening opening) {body : List Text} (hbody : Leads (level + 1) body (level + 1))
      (hclosing : isClosing closing) {rest : Text} (hrest : Spread level rest) :
      Spread level (first ++ opening :: (body.flatMap (newline :: ·) ++ newline :: (margin level ++ closing :: rest)))

lemma Spread.append {level : Nat} {t u : Text} (h : Spread level t) (hu : Spread level u) : Spread level (t ++ u) := by
  induction h with
  | flat ht =>
    cases hu with
    | flat hu => exact .flat (by simpa using ⟨ht, hu⟩)
    | broken hfirst hopening hbody hclosing hrest =>
      rw [← append_assoc]
      exact .broken (by simpa using ⟨ht, hfirst⟩) hopening hbody hclosing hrest
  | broken hfirst hopening hbody hclosing _ ih =>
    simp only [append_assoc, cons_append]
    exact .broken hfirst hopening hbody hclosing ih

lemma not_newline_of_isOpening (h : isOpening b) : b ≠ newline := by
  rintro rfl
  exact absurd h (by decide)

lemma not_blank_of_isClosing (h : isClosing b) : isBlank b = false ∧ b ≠ newline := by
  rw [isClosing, Bool.or_eq_true, beq_iff_eq, beq_iff_eq] at h
  rcases h with rfl | rfl <;> decide

/-- The lines of a text at its level, behind what stands on its first line already. -/
lemma Spread.leads {level : Nat} {t : Text} (h : Spread level t) {a : Text}
    (hhead : (a ++ t).head? = some b) (hb : isBlank b = false) (ha : newline ∉ a) :
    Leads (before level b) (lines (margin level ++ (a ++ t))) (after level (a ++ t)) := by
  have hmargin := newline_not_mem_margin level
  induction h generalizing a b with
  | @flat t ht =>
    have hline : newline ∉ a ++ t := by simpa using ⟨ha, ht⟩
    rw [lines_of_not_mem (by simpa using ⟨hmargin, ha, ht⟩)]
    exact leads_line level hhead hb hline
  | @broken first hfirst opening closing hopening body hbody hclosing rest _ ih =>
    have hne := (not_newline_of_isOpening hopening).symm
    obtain ⟨hblank, hne'⟩ := not_blank_of_isClosing hclosing
    -- the first line opens the level of the body, and the line after the body closes it
    have hopen : Leads (before level b) [margin level ++ (a ++ first ++ [opening])] (level + 1) := by
      have hline := leads_line level (t := a ++ first ++ [opening]) (by simpa using hhead) hb
        (by simpa using ⟨ha, hfirst, hne⟩)
      rw [after_append _ _ (cons_ne_nil _ _)] at hline
      simpa [after, hopening] using hline
    have hclose : Leads (level + 1) (lines (margin level ++ closing :: rest)) (after level (closing :: rest)) := by
      have hrest := ih (a := [closing]) rfl hblank (by simpa using hne'.symm)
      simpa [before, hclosing] using hrest
    have hlines := lines_flatMap (a := margin level ++ (a ++ first ++ [opening]))
      (by simpa using ⟨hmargin, ha, hfirst, hne⟩) hbody.newline_not_mem (margin level ++ closing :: rest)
    have hsplit : a ++ (first ++ opening :: (body.flatMap (newline :: ·)
        ++ newline :: (margin level ++ closing :: rest)))
          = (a ++ first ++ opening :: (body.flatMap (newline :: ·) ++ newline :: margin level))
            ++ closing :: rest := by simp
    rw [hsplit, after_append _ _ (cons_ne_nil _ _), ← hsplit]
    have htext : margin level ++ (a ++ (first ++ opening :: (body.flatMap (newline :: ·)
        ++ newline :: (margin level ++ closing :: rest))))
          = margin level ++ (a ++ first ++ [opening]) ++ (body.flatMap (newline :: ·)
            ++ newline :: (margin level ++ closing :: rest)) := by simp
    rw [htext, hlines]
    exact hopen.append (hbody.append hclose)

/-! ## Texts at a level -/

/-- Whether a text starts with something else than a blank or a closing bracket. -/
def startsLine (t : Text) : Bool := t.head?.any fun b => !isBlank b && !isClosing b

/-- Whether a text ends with something else than an opening bracket or a line feed. -/
def endsLine (t : Text) : Bool := t.getLast?.any fun b => !isOpening b && b != newline

lemma startsLine_append {t : Text} (h : startsLine t) (u : Text) : startsLine (t ++ u) := by
  cases t with
  | nil => cases h
  | cons b t => exact h

lemma endsLine_append (t : Text) {u : Text} (h : endsLine u) : endsLine (t ++ u) := by
  have hne : u ≠ [] := by
    rintro rfl
    cases h
  rw [endsLine, getLast?_append_of_ne_nil t hne]
  exact h

lemma startsLine_of_isOpening (h : isOpening b) : startsLine [b] := by
  rw [isOpening, Bool.or_eq_true, beq_iff_eq, beq_iff_eq] at h
  rcases h with rfl | rfl <;> decide

lemma endsLine_of_isClosing (h : isClosing b) : endsLine [b] := by
  rw [isClosing, Bool.or_eq_true, beq_iff_eq, beq_iff_eq] at h
  rcases h with rfl | rfl <;> decide

/-- A text at a level that can start a line. -/
structure Begun (level : Nat) (t : Text) : Prop where
  spread : Spread level t
  starts : startsLine t

/-- A text at a level that can have lines to itself. -/
structure Laid (level : Nat) (t : Text) : Prop extends Begun level t where
  ends : endsLine t

section Laid

variable {level : Nat} {t u : Text} {ts : List Text}

lemma Begun.append (h : Begun level t) (hu : Spread level u) : Begun level (t ++ u) :=
  ⟨h.spread.append hu, startsLine_append h.starts u⟩

lemma Begun.laid (h : Begun level t) (hu : Spread level u) (hends : endsLine u) : Laid level (t ++ u) :=
  ⟨h.append hu, endsLine_append t hends⟩

lemma Spread.join {sep : Text} (hsep : newline ∉ sep) (h : ∀ t ∈ ts, Spread level t) : Spread level (join sep ts) :=
  join_of_append (.flat not_mem_nil) (fun _ _ => .append) (.flat hsep) h

/-! ### Words, numbers and strings -/

/-- A byte with no part in the layout. -/
def isPlain (b : UInt8) : Bool := !isBlank b && !isOpening b && !isClosing b && b != newline

lemma isPlain_iff : isPlain b ↔ b.toNat ≠ 9 ∧ b.toNat ≠ 10 ∧ b.toNat ≠ 32 ∧ b.toNat ≠ 91
    ∧ b.toNat ≠ 93 ∧ b.toNat ≠ 123 ∧ b.toNat ≠ 125 := by
  have hbyte : ∀ c : UInt8, b = c ↔ b.toNat = c.toNat := fun c => UInt8.toNat_inj.symm
  simp only [isPlain, isBlank, isOpening, isClosing, Bool.and_eq_true, Bool.not_eq_true', Bool.or_eq_false_iff,
    beq_eq_false_iff_ne, bne_iff_ne, ne_eq, hbyte]
  simp only [show ' '.toUInt8.toNat = 32 from rfl, show '\t'.toUInt8.toNat = 9 from rfl,
    show '\x7b'.toUInt8.toNat = 123 from rfl, show '['.toUInt8.toNat = 91 from rfl,
    show '\x7d'.toUInt8.toNat = 125 from rfl, show ']'.toUInt8.toNat = 93 from rfl,
    show newline.toNat = 10 from rfl]
  tauto

/-- A text with no part in the layout. -/
structure Plain (t : Text) : Prop where
  ne_nil : t ≠ []
  bytes : ∀ b ∈ t, isPlain b

lemma Plain.flat (h : Plain t) : newline ∉ t := fun hmem => absurd (h.bytes _ hmem) (by decide)

lemma Plain.append (h : Plain t) (hu : ∀ b ∈ u, isPlain b) : Plain (t ++ u) :=
  ⟨by simp [h.ne_nil], fun b hb => (mem_append.1 hb).elim (h.bytes b) (hu b)⟩

lemma Plain.laid (h : Plain t) (level : Nat) : Laid level t := by
  obtain ⟨b, rest, rfl⟩ := exists_cons_of_ne_nil h.ne_nil
  have hplain : ∀ b, isPlain b → (!isBlank b && !isClosing b) ∧ (!isOpening b && b != newline) := fun b hb => by
    simp only [isPlain, Bool.and_eq_true] at hb ⊢
    exact ⟨⟨hb.1.1.1, hb.1.2⟩, hb.1.1.2, hb.2⟩
  refine ⟨⟨.flat h.flat, (hplain b (h.bytes b (by simp))).1⟩, ?_⟩
  rw [endsLine, getLast?_eq_some_getLast (cons_ne_nil b rest)]
  exact (hplain _ (h.bytes _ (getLast_mem _))).2

lemma isPlain_of_isWordByte (h : Js.isWordByte b) : isPlain b := by
  rw [Js.isWordByte_iff] at h
  rw [isPlain_iff]
  omega

lemma plain_of_isWord (h : Js.IsWord t) : Plain t :=
  ⟨h.ne_nil, fun b hb => isPlain_of_isWordByte (h.bytes b hb)⟩

lemma plain_binding (name : Text) : Plain (binding name) := plain_of_isWord (isWord_binding name)

lemma isPlain_of_next {r s : Js.Stage} (h : r.next b = some s) : isPlain b := by
  rw [Js.Stage.next.eq_def] at h
  split_ifs at h with hdigit hpoint hstage hmark hstage hsign
  · exact isPlain_of_isWordByte (by simp [Js.isWordByte, hdigit])
  · rw [beq_iff_eq.1 hpoint]
    decide
  · rcases Bool.or_eq_true_iff.1 hmark with hb | hb <;> rw [beq_iff_eq.1 hb] <;> decide
  · rcases Bool.or_eq_true_iff.1 hsign with hb | hb <;> rw [beq_iff_eq.1 hb] <;> decide

lemma plain_of_isNumeral (h : Js.IsNumeral t) : Plain t := by
  obtain ⟨s, -, h⟩ := h
  refine Js.Reaches.number_induction (I := fun _ u => Plain u) (fun b hb => ?_) (fun r s u b hu hb => ?_) h (by simp)
  · exact ⟨by simp, forall_mem_singleton.2 (isPlain_of_isWordByte (by simp [Js.isWordByte, hb]))⟩
  · exact hu.append (forall_mem_singleton.2 (isPlain_of_next hb))

lemma plain_of_isSigned (h : IsSigned t) : Plain t := by
  obtain ⟨sign, body, hsign, hbody, rfl⟩ := h
  have hsigns : ∀ sign ∈ [[], ("-" : Text), "+"], sign.all isPlain = true := by decide
  have hplain : Plain body := hbody.elim plain_of_isWord plain_of_isNumeral
  exact ⟨by simp [hplain.ne_nil], forall_mem_append.2 ⟨all_eq_true.1 (hsigns sign hsign), hplain.bytes⟩⟩

/-- An expression without parts is a word, a number or a string. -/
lemma Expr.isSigned_or_eq_string {e : Expr} (h : e.isAtom) (unit : Text) (depth : Nat) :
    IsSigned (e.text unit depth) ∨ ∃ v, e = .string v := by
  have hword : ∀ t ∈ [("null" : Text), "this", "false", "true"], Js.IsWord t := by decide
  cases e with
  | null => exact .inl (isSigned_of_isWord (hword "null" (by simp)))
  | this => exact .inl (isSigned_of_isWord (hword "this" (by simp)))
  | boolean b =>
    cases b with
    | false => exact .inl (isSigned_of_isWord (hword "false" (by simp)))
    | true => exact .inl (isSigned_of_isWord (hword "true" (by simp)))
  | integer v => exact .inl (isSigned_ofInt v.toInt)
  | float x => exact .inl (isSigned_floatLiteral x)
  | delay x => exact .inl (isSigned_floatInFull x)
  | name source => exact .inl (isSigned_of_isWord (isWord_binding source))
  | string v => exact .inr ⟨v, rfl⟩
  | _ => cases h

lemma laid_quote (level : Nat) (v : Text) : Laid level (quote v) := by
  refine ⟨⟨.flat (newline_not_mem_quote v), rfl⟩, ?_⟩
  rw [quote]
  exact endsLine_append _ (by decide)

lemma Laid.member (h : Laid level t) (property : Text) : Laid level (t ++ Script.member property) := by
  rw [Script.member]
  split_ifs with hproperty
  · have hname := plain_of_isWord (isWord_of_isProperty hproperty)
    exact h.toBegun.laid ((Spread.flat (by decide)).append (.flat hname.flat))
      (endsLine_append _ (hname.laid level).ends)
  · exact h.toBegun.laid (((Spread.flat (by decide)).append (.flat (newline_not_mem_quote property))).append
      (.flat (by decide))) (endsLine_append _ (by decide))

lemma laid_propertyKey (level : Nat) (key : Text) : Laid level (propertyKey key) := by
  rw [propertyKey]
  split_ifs with hproperty
  · exact (plain_of_isWord (isWord_of_isProperty hproperty)).laid level
  · exact laid_quote level key

lemma newline_not_mem_bindingList (names : List Text) : newline ∉ bindingList names := by
  refine newline_not_mem_join (by decide) fun t ht => ?_
  obtain ⟨name, -, rfl⟩ := mem_map.1 ht
  exact (plain_binding name).flat

/-! ### Larger texts -/

lemma Laid.parenthesised (h : Spread level t) : Laid level ("(" ++ t ++ ")") :=
  (Begun.append ⟨.flat (by decide), rfl⟩ h).laid (.flat (by decide)) (by decide)

/-- Parentheses where a text starts with some byte: in front of a property access, and around a statement. -/
lemma Laid.guarded (h : Laid level t) (b : UInt8) :
    Laid level (if List.isPrefixOf [b] t then "(" ++ t ++ ")" else t) := by
  split_ifs
  · exact .parenthesised h.spread
  · exact h

lemma Laid.receiverText (h : Laid level t) : Laid level (Script.receiverText t) := h.guarded '-'

lemma Laid.statementText (h : Laid level t) : Laid level (Script.statementText t) := h.guarded '\x7b'

lemma indentation_default (depth : Nat) : indentation default.indent depth = margin depth := by
  have hunit : default.indent = List.replicate 2 ' '.toUInt8 := by decide
  rw [indentation, margin, hunit, flatten_replicate_replicate, Nat.mul_comm]

lemma newline_not_mem_of_blank {a : Text} (h : ∀ b ∈ a, isBlank b) : newline ∉ a := fun hmem =>
  absurd (h _ hmem) (by decide)

lemma blank_indentation {unit : Text} (h : ∀ b ∈ unit, isBlank b) (depth : Nat) :
    ∀ b ∈ indentation unit depth, isBlank b := by
  intro b hb
  obtain ⟨t, ht, hb⟩ := mem_flatten.1 hb
  rw [eq_of_mem_replicate ht] at hb
  exact h b hb

/-- Only the first line of a text is indented here, so the lines are those of the indented text. -/
lemma emitted_eq_lines {unit : Text} {depth : Nat} (hunit : newline ∉ indentation unit depth)
    (ht : t.getLast? ≠ some newline) : emitted unit depth t = lines (indentation unit depth ++ t) := by
  rw [emitted.eq_def]
  rcases cut_cases newline t with ⟨hmem, hcut⟩ | ⟨first, rest, hfirst, rfl, hcut⟩
  · rw [hcut, lines_of_not_mem (by simpa using ⟨hunit, hmem⟩)]
  · have hrest : rest.isEmpty = false := by
      cases rest with
      | nil => simp at ht
      | cons => rfl
    rw [hcut, ← append_assoc, lines_append_newline (by simpa using ⟨hunit, hfirst⟩)]
    simp [hrest]

lemma emitted_default (level : Nat) (ht : t.getLast? ≠ some newline) :
    emitted default.indent level t = lines (margin level ++ t) := by
  rw [← indentation_default]
  exact emitted_eq_lines (by rw [indentation_default]; exact newline_not_mem_margin level) ht

lemma leads_emitted (h : Spread level t) (hhead : t.head? = some b) (hb : isBlank b = false)
    (hlast : t.getLast? ≠ some newline) :
    Leads (before level b) (emitted default.indent level t) (after level t) := by
  rw [emitted_default level hlast]
  exact h.leads (a := []) hhead hb not_mem_nil

lemma exists_head?_of_startsLine (h : startsLine t) :
    ∃ b, t.head? = some b ∧ isBlank b = false ∧ isClosing b = false := by
  obtain ⟨b, hhead, hb⟩ := (Option.any_eq_true _ _).1 h
  exact ⟨b, hhead, by simpa using hb⟩

lemma getLast?_of_endsLine (h : endsLine t) : t.getLast?.any isOpening = false ∧ t.getLast? ≠ some newline := by
  obtain ⟨b, hlast, hb⟩ := (Option.any_eq_true _ _).1 h
  simpa [hlast] using hb

lemma Laid.leads (h : Laid level t) : Leads level (emitted default.indent level t) level := by
  obtain ⟨b, hhead, hb, hclosing⟩ := exists_head?_of_startsLine h.starts
  obtain ⟨hopening, hlast⟩ := getLast?_of_endsLine h.ends
  have hleads := leads_emitted h.spread hhead hb hlast
  simpa [before, after, hclosing, hopening] using hleads

lemma Laid.flatMap_emitted (h : Laid level t) :
    (emitted default.indent level t).flatMap (newline :: ·) = newline :: (margin level ++ t) := by
  rw [emitted_default level (getLast?_of_endsLine h.ends).2, flatMap_lines]

lemma Begun.leads_opening (h : Begun level t) :
    Leads level (emitted default.indent level (t ++ ") \x7b")) (level + 1) := by
  have hopening : Spread level (t ++ ") \x7b") := h.spread.append (.flat (by decide))
  obtain ⟨b, hhead, hb, hclosing⟩ := exists_head?_of_startsLine h.starts
  have hlast : (t ++ (") \x7b" : Text)).getLast? = some '\x7b' :=
    getLast?_append_of_ne_nil t (by decide)
  have hleads := leads_emitted hopening (by simp [hhead]) hb (by rw [hlast]; decide)
  have hafter : after level (t ++ ") \x7b") = level + 1 := by simp [after, hlast, isOpening]
  simpa [before, hclosing, hafter] using hleads

lemma leads_closing (level : Nat) : Leads (level + 1) (emitted default.indent level "\x7d") level :=
  leads_emitted (.flat (by decide)) (b := '\x7d') rfl (by decide) (by decide)

lemma leads_reopening (h : Spread level t) (hhead : t.head? = some '\x7d')
    (hlast : t.getLast? = some '\x7b') :
    Leads (level + 1) (emitted default.indent level t) (level + 1) := by
  have hleads := leads_emitted h hhead (by decide) (by rw [hlast]; decide)
  have hbefore : before level '\x7d' = level + 1 := by simp [before, isClosing]
  have hafter : after level t = level + 1 := by simp [after, hlast, isOpening]
  rwa [hbefore, hafter] at hleads

lemma Laid.broken {first : Text} (hfirst : newline ∉ first) {opening closing : UInt8}
    (hopening : isOpening opening) (hclosing : isClosing closing) {body : List Text}
    (hbody : Leads (level + 1) body (level + 1)) (hstarts : startsLine (first ++ [opening])) :
    Laid level (first ++ opening :: (body.flatMap (newline :: ·) ++ newline :: (margin level ++ [closing]))) := by
  refine ⟨⟨.broken hfirst hopening hbody hclosing (.flat not_mem_nil), ?_⟩, ?_⟩
  · have hstarts := startsLine_append hstarts (body.flatMap (newline :: ·) ++ newline :: (margin level ++ [closing]))
    rwa [append_assoc] at hstarts
  · have hends := endsLine_append (first ++ opening :: (body.flatMap (newline :: ·)
      ++ newline :: margin level)) (endsLine_of_isClosing hclosing)
    simpa using hends

lemma laid_arrowText (params : List Text) {body : List Text} (h : Leads (level + 1) body (level + 1)) :
    Laid level (arrowText default.indent level params body) := by
  have hparams := newline_not_mem_bindingList params
  have hhead : Begun level ("(" ++ bindingList params) := Begun.append ⟨.flat (by decide), rfl⟩ (.flat hparams)
  cases hempty : body.isEmpty with
  | true =>
    rw [arrowText, if_pos hempty]
    exact (hhead.append (.flat (by decide))).laid (.flat (by decide)) (by decide)
  | false =>
    have hne : body ≠ [] := by
      rintro rfl
      cases hempty
    have hopen : ofString ") => \x7b" = ofString ") => " ++ ['\x7b'.toUInt8] := by decide
    have hclose : ofString "\x7d" = ['\x7d'] := by decide
    have hfirst : newline ∉ ("(" : Text) ++ bindingList params ++ ") => " := by
      simpa using ⟨by decide, hparams, by decide⟩
    have hbroken := Laid.broken hfirst isOpening_brace isClosing_brace h
      (startsLine_append (startsLine_append hhead.starts _) _)
    -- the lines joined after the head, and the brace that closes them, are the broken shape
    rw [arrowText, if_neg (by simp [hempty]), indentation_default, hopen, hclose]
    rw [← newline_cons_join hne] at hbroken
    simpa using hbroken

lemma exists_entryLines_eq {es : List EntryText} (h : ∀ e ∈ es, Laid level e.text) : ∃ body,
    entryLines (margin level) es = body.flatMap (newline :: ·) ∧ Leads level body level := by
  induction es with
  | nil => exact ⟨[], rfl, .nil⟩
  | cons e es ih =>
    obtain ⟨body, hbody, hleads⟩ := ih fun e he => h e (mem_cons_of_mem _ he)
    -- with the comma that may follow it an entry still has lines to itself
    have hentry : Laid level (e.text ++ if e.isCode && es.any (·.isCode) then ("," : Text) else []) := by
      split_ifs
      · exact (h e (by simp)).toBegun.laid (.flat (by decide)) (by decide)
      · rw [append_nil]
        exact h e (by simp)
    refine ⟨_, ?_, hentry.leads.append hleads⟩
    rw [flatMap_append, hentry.flatMap_emitted, ← hbody, entryLines]
    simp

lemma laid_literalText {opening closing : UInt8} (hopening : isOpening opening)
    (hclosing : isClosing closing) {pad : Text} (hpad : newline ∉ pad) {es : List EntryText}
    (h : ∀ e ∈ es, Laid (level + 1) e.text) :
    Laid level (literalText default.indent level [opening] [closing] pad es) := by
  have hopen : Begun level [opening] :=
    ⟨.flat (by simpa using (not_newline_of_isOpening hopening).symm), startsLine_of_isOpening hopening⟩
  have hclose : Spread level [closing] := .flat (by simpa using (not_blank_of_isClosing hclosing).2.symm)
  have hends := endsLine_of_isClosing hclosing
  rw [literalText]
  split_ifs with hempty hown
  · exact hopen.laid hclose hends
  · obtain ⟨body, hbody, hleads⟩ := exists_entryLines_eq h
    have hbroken := Laid.broken not_mem_nil hopening hclosing hleads hopen.starts
    rw [indentation_default, indentation_default, hbody]
    simpa using hbroken
  · -- no entry has a line feed, or the literal would not be on one line
    have hflat : ∀ t ∈ es.map (·.text), newline ∉ t := by
      intro t ht
      obtain ⟨e, he, rfl⟩ := mem_map.1 ht
      rw [Bool.not_eq_true, any_eq_false] at hown
      have hline := hown e he
      rw [EntryText.needsOwnLine, Bool.not_eq_true, Bool.or_eq_false_iff] at hline
      simpa using hline.2
    exact (((hopen.append (.flat hpad)).append (.flat (newline_not_mem_join (by decide) hflat))).append
      (.flat hpad)).laid hclose hends

end Laid

/-! ## Generated code -/

/-- Laid out at every level. -/
def ExprLaid (e : Expr) : Prop := ∀ level, Laid level (e.text default.indent level)

/-- Laid out at every level. -/
def EntryLaid (e : Entry) : Prop := ∀ level, Laid level (e.text default.indent level).text

/-- The statement leaves the level as it was. -/
def StmtLaid (s : Stmt) : Prop := ∀ level, Leads level (s.lines default.indent level) level

/-- What follows a branch stands between its lines and the bracket that closes them. -/
def AlternativeLaid (a : Alternative) : Prop :=
  ∀ level, Leads (level + 1) (a.lines default.indent level) (level + 1)

section Trees

variable {level : Nat}

lemma laid_of_mem_texts {es es' : List Expr} (h : Forall₂ (fun e _ => ExprLaid e) es es') :
    ∀ t ∈ Expr.texts default.indent level es, Laid level t := by
  induction h with
  | nil => exact fun t ht => absurd ht not_mem_nil
  | cons he _ ih =>
    intro t ht
    rcases mem_cons.1 ht with rfl | ht
    · exact he level
    · exact ih t ht

lemma laid_of_mem_entryTexts {es es' : List Entry} (h : Forall₂ (fun e _ => EntryLaid e) es es') :
    ∀ e ∈ Entry.texts default.indent level es, Laid level e.text := by
  induction h with
  | nil => exact fun t ht => absurd ht not_mem_nil
  | cons he _ ih =>
    intro t ht
    rcases mem_cons.1 ht with rfl | ht
    · exact he level
    · exact ih t ht

lemma leads_allLines {ss ss' : List Stmt} (h : Forall₂ (fun s _ => StmtLaid s) ss ss') :
    Leads level (Stmt.allLines default.indent level ss) level := by
  induction h with
  | nil => exact .nil
  | cons hs _ ih => exact (hs level).append ih

lemma spread_arguments {es es' : List Expr} (h : Forall₂ (fun e _ => ExprLaid e) es es') :
    Spread level (join ", " (Expr.texts default.indent level es)) :=
  .join (by decide) fun t ht => (laid_of_mem_texts h t ht).spread

lemma plain_of_unaryOperator? {name op : Text} (h : unaryOperator? name = some op) : Plain op := by
  rw [unaryOperator?] at h
  split_ifs at h <;>
    · rw [← Option.some.inj h]
      exact ⟨by decide, all_eq_true.1 (by decide)⟩

lemma flat_of_binaryOperator? {name op : Text} (h : binaryOperator? name = some op) : newline ∉ op := by
  have htable : ∀ p ∈ binaryOperators, newline ∉ p.2 := by decide
  exact htable _ (mem_binaryOperators h)

lemma laid_atom {e : Expr} (h : e.isAtom) : ExprLaid e := by
  intro level
  rcases Expr.isSigned_or_eq_string h default.indent level with hsigned | ⟨v, rfl⟩
  · exact (plain_of_isSigned hsigned).laid level
  · exact laid_quote level v

lemma laid_host {t : Text} (h : t ∈ default.hosts) : ExprLaid (.host t) := by
  have hplain : ∀ t ∈ default.hosts, t ≠ [] ∧ t.all isPlain := by decide
  exact fun level => Plain.laid ⟨(hplain t h).1, all_eq_true.1 (hplain t h).2⟩ level

end Trees

/-- Words with dots between them. -/
inductive IsPath : Text → Prop
  | word {w : Text} (h : Js.IsWord w) : IsPath w
  | member {t w : Text} (h : IsPath t) (hw : Js.IsWord w) : IsPath (t ++ "." ++ w)

/-- Settings that name functions and types of the host, and indent with blanks. -/
structure Options.Regular (o : Options) : Prop where
  hosts : ∀ t ∈ o.hosts, IsPath t
  baseTypes : ∀ t ∈ o.baseTypes, IsPath t
  indent : ∀ b ∈ o.indent, isBlank b

lemma Options.regular_default : default.Regular := by
  have hword : ∀ t ∈ [("console" : Text), "log", "setTimeout", "document", "getElementById", "globalThis",
      "VisualObject"], Js.IsWord t := by decide
  refine ⟨fun t ht => ?_, fun t ht => ?_, all_eq_true.1 (by decide)⟩
  · simp only [hosts, default, mem_cons, not_mem_nil, or_false] at ht
    rcases ht with rfl | rfl | rfl | rfl
    · exact .member (.word (hword "console" (by simp))) (hword "log" (by simp))
    · exact .word (hword "setTimeout" (by simp))
    · exact .member (.word (hword "document" (by simp))) (hword "getElementById" (by simp))
    · exact .word (hword "globalThis" (by simp))
  · simp only [default, mem_cons, not_mem_nil, or_false] at ht
    rw [ht]
    exact .word (hword "VisualObject" (by simp))

/-- What may stand verbatim in the code: tags that are spelled like words, and the operators of compound
assignments. -/
def spelled : Likeness where
  value _ _ := True
  tag t := t.all Js.isWordByte
  operator op := op = [] ∨ Grammar.compound? (op ++ "=") = some op

lemma laid_commentText {tag : Text} (h : spelled.Shown tag) (level : Nat) : Laid level (commentText tag) := by
  have hhandled : ∀ t ∈ Node.handledTags, t.all Js.isWordByte := by decide
  have hword : ∀ b ∈ tag, isPlain b := by
    have hall : tag.all Js.isWordByte := h.elim id (hhandled tag)
    exact fun b hb => isPlain_of_isWordByte (all_eq_true.1 hall b hb)
  have hmark : Laid level commentMark := ⟨⟨.flat (by decide), by decide⟩, by decide⟩
  by_cases hempty : tag = []
  · rw [commentText, hempty, append_nil]
    exact hmark
  · have hplain : Plain tag := ⟨hempty, hword⟩
    exact hmark.toBegun.laid (.flat hplain.flat) (hplain.laid level).ends

lemma mem_of_operator {op : Text} (h : spelled.operator op) :
    op ∈ [[], ("+" : Text), "-", "*", "/", "%", "**", "||", "&&", "|", "&"] := by
  rcases h with rfl | h
  · exact mem_cons_self
  · rw [Grammar.compound?] at h
    split_ifs at h with hmem
    have hop := mem_map_of_mem (f := List.dropLast) (contains_iff_mem.1 hmem)
    rw [Option.some.inj h] at hop
    exact mem_cons_of_mem _ hop

lemma flat_operator {op : Text} (h : spelled.operator op) : newline ∉ op := by
  have htable : ∀ t ∈ [[], ("+" : Text), "-", "*", "/", "%", "**", "||", "&&", "|", "&"], newline ∉ t := by decide
  exact htable op (mem_of_operator h)

lemma begun_declaration {level : Nat} (declaration : Option Declaration) {t : Text} (h : Begun level t) :
    Begun level (Declaration.text declaration ++ t) := by
  match declaration with
  | none => exact h
  | some .const => exact .append ⟨.flat (by decide), by decide⟩ h.spread
  | some .let => exact .append ⟨.flat (by decide), by decide⟩ h.spread

/-- Generated trees that keep to their levels. -/
def laying : Congruence .default spelled where
  expr e _ := ExprLaid e
  entry e _ := EntryLaid e
  stmt s _ := StmtLaid s
  alternative a _ := AlternativeLaid a
  atom := laid_atom
  literal _ level := laid_quote level _
  host := laid_host
  member h property level := (h level).receiverText.member property
  index h hk level := ((h level).receiverText.toBegun.append (.flat (by decide))).append (hk level).spread
    |>.laid (.flat (by decide)) (by decide)
  call h hs level := ((h level).toBegun.append (.flat (by decide))).append (spread_arguments hs)
    |>.laid (.flat (by decide)) (by decide)
  construct {type} _ _ h hs level := by
    have htypes : ∀ t ∈ default.baseTypes, newline ∉ t := by decide
    have hnew : Begun level "new " := ⟨.flat (by decide), by decide⟩
    exact ((hnew.append (.flat (htypes type h))).append (.flat (by decide))).append (spread_arguments hs)
      |>.laid (.flat (by decide)) (by decide)
  unary h he level := ((plain_of_unaryOperator? h).laid level).toBegun.laid (he level).spread (he level).ends
  binary h he hr level :=
    (((he level).toBegun.append (.flat (by decide))).append (.flat (flat_of_binaryOperator? h))).append
      (.flat (by decide)) |>.laid (hr level).spread (hr level).ends
  conditional hc ht he level :=
    (((hc level).toBegun.append (.flat (by decide))).append (ht level).spread).append (.flat (by decide))
      |>.laid (he level).spread (he level).ends
  assign h hv level := ((h level).toBegun.append (.flat (by decide))).laid (hv level).spread (hv level).ends
  group h level := .parenthesised (h level).spread
  arrow params _ _ h level := laid_arrowText params (leads_allLines h)
  array h level :=
    laid_literalText isOpening_bracket isClosing_bracket not_mem_nil (laid_of_mem_entryTexts h)
  object h level := laid_literalText isOpening_brace isClosing_brace (by decide) (laid_of_mem_entryTexts h)
  value h level := h level
  named key _ _ h level :=
    ((laid_propertyKey level key).toBegun.append (.flat (by decide))).laid (h level).spread (h level).ends
  computed hk h level := by
    have hopen : Begun level "[" := ⟨.flat (by decide), by decide⟩
    exact (hopen.append (hk level).spread).append (.flat (by decide)) |>.laid (h level).spread (h level).ends
  commented h level := laid_commentText h level
  comment h level := (laid_commentText h level).leads
  hoist names level := by
    have hlet : Begun level "let " := ⟨.flat (by decide), by decide⟩
    exact ((hlet.append (.flat (newline_not_mem_bindingList names))).laid (.flat (by decide)) (by decide)).leads
  assignment declaration _ _ _ _ _ hop h hv level :=
    ((((begun_declaration declaration (h level).toBegun).append (.flat (by decide))).append
      (.flat (flat_operator hop))).append (.flat (by decide))).append (hv level).spread
      |>.laid (.flat (by decide)) (by decide) |>.leads
  expression h level := ((h level).statementText.toBegun.laid (.flat (by decide)) (by decide)).leads
  ret h level := by
    have hreturn : Begun level "return " := ⟨.flat (by decide), by decide⟩
    exact ((hreturn.append (h level).spread).laid (.flat (by decide)) (by decide)).leads
  leave level := by
    have hreturn : Laid level "return;" := ⟨⟨.flat (by decide), by decide⟩, by decide⟩
    rw [Stmt.lines]
    exact hreturn.leads
  branch hc h ha level := by
    have hif : Begun level "if (" := ⟨.flat (by decide), by decide⟩
    exact (((hif.append (hc level).spread).leads_opening.append (leads_allLines h)).append (ha level)).append
      (leads_closing level)
  loop hc h level := by
    have hwhile : Begun level "while (" := ⟨.flat (by decide), by decide⟩
    exact ((hwhile.append (hc level).spread).leads_opening.append (leads_allLines h)).append (leads_closing level)
  function name params _ _ h level := by
    have hfunction : Begun level "function " := ⟨.flat (by decide), by decide⟩
    have hhead : Begun level ("function " ++ binding name ++ "(" ++ bindingList params) :=
      ((hfunction.append (.flat (plain_binding name).flat)).append (.flat (by decide))).append
        (.flat (newline_not_mem_bindingList params))
    exact (hhead.leads_opening.append (leads_allLines h)).append (leads_closing level)
  none level := .nil
  otherwise h level := (leads_reopening (.flat (by decide)) (by decide) (by decide)).append (leads_allLines h)
  elif {c} _ _ _ _ _ hc h ha level := by
    have hhead : Spread level ("\x7d else if (" ++ c.text default.indent level ++ ") \x7b") :=
      ((Spread.flat (by decide)).append (hc level).spread).append (.flat (by decide))
    exact ((leads_reopening hhead rfl (getLast?_append_of_ne_nil _ (by decide))).append
      (leads_allLines h)).append (ha level)

/-! ## Programs -/

/-- Whether what a node has verbatim in the code is spelled like a word or is an operator: the tag of a
construct without a representation, and the operator of an assignment. -/
def isSpelled : Node → Bool
  | .unknown _ tag _ => tag.all Js.isWordByte
  | .assignment _ _ _ operator _ => operator.isEmpty || Grammar.compound? (operator ++ "=") == some operator
  | _ => true

lemma admits_of_isSpelled {n : Node} (h : isSpelled n) : spelled.Admits n := by
  cases n with
  | unknown => exact h
  | assignment => simpa [isSpelled, spelled, Likeness.Admits] using h
  | _ => trivial

lemma allAlike_self (ns : List Node) (h : ∀ m ∈ Node.walkAll (fun _ => true) ns, isSpelled m) :
    Forall₂ (Node.Alike spelled) ns ns :=
  Node.allAlike_self ns fun m hm => admits_of_isSpelled (h m hm)

/-- The lines of generated code show its brackets: scanned from level 0, every line closes only what is open
and is indented by two spaces for each level it is in, and all levels are closed at the end. -/
theorem scan_compile {nodes : List Node}
    (h : ∀ n ∈ Node.walkAll (fun _ => true) nodes, isSpelled n = true) :
    scan 0 (compile .default nodes).lines = some 0 := by
  obtain ⟨hstmts, -⟩ := laying.script_alike (allAlike_self nodes h)
  have hleads : Leads 0 (compile .default nodes).lines 0 := leads_allLines hstmts
  exact hleads.scan_eq

/-- A condition over several lines: a block whose array has a comment and a hash with a block of its own in it.
Its branches have a compound assignment, a further condition and a construct without a representation. -/
def nestedBlocks : List Node :=
  let inner : Node := .hash .none [(.symbol Span.none "k",
    .call .none .absent "wait" [] (.block .none [] [.call Span.none .absent "puts" [] .absent]))]
  [.cond Span.none (.call Span.none (.var Span.none "xs" .local) "all?" []
      (.block .none ["x"] [.array Span.none [.unknown Span.none "Lambda" "->", inner, .string Span.none "["]]))
    false [.assignment Span.none "n" .local "+" (.integer Span.none 1)]
    [.cond Span.none (.boolean Span.none true) true [.unknown Span.none "Yield2" "yield"] [.self Span.none]]]

theorem scan_compile_nestedBlocks : (∀ n ∈ Node.walkAll (fun _ => true) nestedBlocks, isSpelled n = true)
    ∧ scan 0 (compile .default nestedBlocks).lines = some 0 := by
  have hspelled : ∀ n ∈ Node.walkAll (fun _ => true) nestedBlocks, isSpelled n = true :=
    all_eq_true.1 (by decide)
  exact ⟨hspelled, scan_compile hspelled⟩

-- a tag that is no word can open a level that nothing closes
example : scan 0 (compile .default [.unknown Span.none "\x7b" ""]).lines = some 1 := by decide

end Transpiler.Script
