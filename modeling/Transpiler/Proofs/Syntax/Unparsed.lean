import Transpiler.Proofs.Syntax.Climbing
import Transpiler.Proofs.Syntax.CodeLines
import Transpiler.Proofs.Text.Trimming

/-!
# Lines that cannot be read

A line that cannot be read is kept with its text and a place. The text is the line without the blank characters at its
ends, but the place is found by passing over spaces and tabs alone. So the place is that of the text exactly if only
those stand before it (`Parsed.between_unparsed_iff`). No reading gives a node of this kind, so such a node always
stands for a whole line (`tag_of_parseLine`).
-/

namespace Transpiler

open List Text Lexer

lemma tag_of_parseLine {locals locals' : List Text} {offset : Nat} {line : Text} {n : Node}
    (h : parseLine locals offset line = (.ok n, locals')) (hn : n.isUnknown) :
    n.tag ∈ Grammar.structuralKeywords := by
  obtain ⟨-, hread⟩ := read_parseLine (.refl locals) offset line
  exact (hread n (by rw [h])).2.1 hn

/-! ## Names -/

open Formula in
lemma exists_parseLine_name {word : Text} (h : isName word ∧ keywords.contains word = false)
    (locals : List Text) (offset : Nat) : ∃ n, parseLine locals offset word = (.ok n, locals) := by
  obtain ⟨tokens, hlex, hfaces⟩ := (Formula.atom (.name word h)).lex_text offset
  have htext : (Formula.atom (.name word h)).text = word := by
    simp [Formula.text, words, Word.text, Atom.text, join]
  have hreads : Reads Grammar.loosest none (Formula.atom (.name word h)).words (.atom (.name word h)) [] :=
    .atom (.stop trivial)
  have hdepth := hfaces.le_depth
  have hline : (Grammar.line (Rules.upTo (Cursor.ofTokens tokens).depth)).Yields locals
      (Formula.atom (.name word h)).words (.atom (.name word h)) [] := hreads.yields_line (by omega)
  obtain ⟨n, hparse, -⟩ := exists_parseLine_of_makes hlex hfaces hline
  rw [htext] at hparse
  exact ⟨n, hparse⟩

lemma isName_of_wide {text : Text} (hne : text ≠ []) (h : ∀ b ∈ text, 0x80 ≤ b) :
    isName text ∧ keywords.contains text = false := by
  have hstart : ∀ b ∈ text, isNameStart b := fun b hb => by simp [isNameStart, h b hb]
  have hascii : keywords.all (fun w => w.all (· < 0x80)) := by decide
  obtain ⟨b, rest, rfl⟩ := exists_cons_of_ne_nil hne
  constructor
  · rw [isName, hstart b (by simp), Bool.true_and, all_eq_true]
    intro c hc
    rw [isNameByte, hstart c (mem_cons_of_mem b hc), Bool.true_or]
  · rw [Bool.eq_false_iff]
    intro hmem
    have hb := all_eq_true.1 (all_eq_true.1 hascii _ (contains_iff_mem.1 hmem)) b (by simp)
    exact UInt8.not_lt.2 (h b (by simp)) (of_decide_eq_true hb)

/-! ## Indentation -/

namespace Lines

lemma indentation_cons_of_pos {b : UInt8} (hb : b = ' ' ∨ b = '\t') (rest : Text) :
    indentation (b :: rest) = indentation rest + 1 := by
  rw [indentation, takeWhile_cons_of_pos (by simpa using hb), length_cons, indentation]

lemma indentation_cons_of_neg {b : UInt8} (hb : ¬(b = ' ' ∨ b = '\t')) (rest : Text) : indentation (b :: rest) = 0 := by
  rw [indentation, takeWhile_cons_of_neg (by simpa using hb), length_nil]

/-- Indentation covers the characters in front of a text if they are all spaces and tabs. Otherwise it ends before
the first other one. -/
lemma indentation_ofChars_append (cs : List Char) {rest : Text} (hrest : indentation rest = 0) :
    ((∀ b ∈ ofChars cs, b = ' ' ∨ b = '\t') ∧ indentation (ofChars cs ++ rest) = (ofChars cs).length) ∨
    (¬∀ b ∈ ofChars cs, b = ' ' ∨ b = '\t') ∧ ∃ c ∈ cs, ∃ more,
      (ofChars cs ++ rest).drop (indentation (ofChars cs ++ rest)) = String.utf8EncodeChar c ++ more := by
  induction cs with
  | nil => exact .inl ⟨forall_mem_nil _, hrest⟩
  | cons c cs ih =>
    obtain ⟨b, more, henc, hways⟩ := exists_encodes c
    have hcons : ofChars (c :: cs) = b :: (more ++ ofChars cs) := by
      rw [ofChars, flatMap_cons, henc, cons_append, ofChars]
    rw [hcons, cons_append]
    by_cases hb : b = ' ' ∨ b = '\t'
    · have hascii : b.toNat < 0x80 := by rcases hb with rfl | rfl <;> decide
      obtain rfl : more = [] := hways.eq_nil_iff.2 hascii
      rw [nil_append, indentation_cons_of_pos hb]
      rcases ih with ⟨hlead, hlength⟩ | ⟨hlead, d, hd, after, hdrop⟩
      · exact .inl ⟨forall_mem_cons.2 ⟨hb, hlead⟩, by rw [hlength, length_cons]⟩
      · exact .inr ⟨fun h => hlead (forall_mem_cons.1 h).2, d, mem_cons_of_mem c hd, after, hdrop⟩
    · rw [indentation_cons_of_neg hb]
      refine .inr ⟨fun h => hb (h b mem_cons_self), c, mem_cons_self, ofChars cs ++ rest, ?_⟩
      rw [drop_zero, henc, append_assoc, cons_append]

/-- What stands behind the indentation of a line is its trimmed text exactly if the line begins with nothing but
spaces and tabs. Bytes that are no whole character could look like the start of a blank one. -/
lemma slice_indentation_iff {line : Text} (hnarrow : ∃ b ∈ line.trimmed, b < 0x80) :
    ∃ lead trail, line = lead ++ (line.trimmed ++ trail) ∧ Text.AllBlank lead ∧ Text.AllBlank trail ∧
      ((line.drop (indentation line)).take line.trimmed.length = line.trimmed ↔ ∀ b ∈ lead, b = ' ' ∨ b = '\t') := by
  obtain ⟨lead, trail, hline, hlead, htrail, hfirst⟩ := line.exists_trimmed
  refine ⟨lead, trail, hline, hlead, htrail, ?_⟩
  generalize line.trimmed = text at hnarrow hline hfirst
  subst hline
  obtain ⟨cs, rfl, hcs⟩ := hlead
  have hrest : indentation (text ++ trail) = 0 := by
    obtain ⟨b, hb, -⟩ := hnarrow
    obtain ⟨d, more, rfl⟩ := exists_cons_of_ne_nil (ne_nil_of_mem hb)
    refine indentation_cons_of_neg (fun hd => ?_) _
    rcases hd with rfl | rfl
    · exact hfirst ' ' (more ++ trail) (by decide) rfl
    · exact hfirst '\t' (more ++ trail) (by decide) rfl
  rcases indentation_ofChars_append cs hrest with ⟨hspaces, hlength⟩ | ⟨hspaces, c, hc, more, hdrop⟩
  · rw [hlength, drop_left, take_left]
    exact iff_of_true rfl hspaces
  · refine iff_of_false (fun hslice => ?_) hspaces
    rw [hdrop] at hslice
    have htext : text <+: String.utf8EncodeChar c ++ more := hslice ▸ take_prefix ..
    have hwhole : ¬String.utf8EncodeChar c <+: text := by
      rintro ⟨after, rfl⟩
      exact hfirst c (after ++ trail) (hcs c hc) (append_assoc ..)
    rcases prefix_or_prefix_of_prefix htext (prefix_append _ more) with hpart | hpart
    · -- a part of a character with an ASCII byte in it is the whole character
      obtain ⟨b, hb, hascii⟩ := hnarrow
      by_cases hc' : c.toNat < 128
      · rw [utf8EncodeChar_ascii hc'] at hpart hwhole
        rcases prefix_cons_iff.1 hpart with rfl | ⟨t, rfl, ht⟩
        · cases hb
        · exact hwhole (by rw [prefix_nil.1 ht])
      · exact UInt8.not_le.2 hascii (forall_utf8EncodeChar (fun h => absurd h hc') (fun _ => id) b (hpart.subset hb))
    · exact hwhole hpart

/-! ## Places of lines -/

lemma start_cons (line : Text) (rest : List Text) (i : Nat) :
    start (line :: rest) (i + 1) = line.length + 1 + start rest i := by
  rw [start, take_succ_cons, flatMap_cons, length_append, length_cons, start]

/-- Each node is that of a line of code, at the place where the indentation of the line ends. -/
lemma exists_of_mem_nodes {n : Node} {offset : Nat} {inDoc : Bool} {locals : List Text} {ls : List Text}
    (h : n ∈ nodes offset inDoc locals ls) :
    ∃ i line locals', ls[i]? = some line ∧ holdsCode line.trimmed ∧
      n = (node locals' (offset + start ls i + indentation line) line.trimmed).1 := by
  induction ls generalizing offset inDoc locals with
  | nil => cases h
  | cons line rest ih =>
    have hlater : ∀ inDoc locals, n ∈ nodes (offset + line.length + 1) inDoc locals rest →
        ∃ i line' locals', (line :: rest)[i]? = some line' ∧ holdsCode line'.trimmed ∧
          n = (node locals' (offset + start (line :: rest) i + indentation line') line'.trimmed).1 := by
      intro inDoc locals hmem
      obtain ⟨i, line', locals', hline', hcode, hn⟩ := ih hmem
      refine ⟨i + 1, line', locals', hline', hcode, ?_⟩
      rw [hn, start_cons]
      simp only [Nat.add_assoc]
    rw [nodes_cons] at h
    split_ifs at h with hdoc hbegin hcode
    · exact hlater _ _ h
    · exact hlater _ _ h
    · rcases mem_cons.1 h with rfl | h
      · exact ⟨0, line, locals, rfl, hcode, rfl⟩
      · exact hlater _ _ h
    · exact hlater _ _ h

/-- The line that cannot be read is kept whole, and one of its bytes is ASCII. -/
lemma unparsed_of_node {locals : List Text} {offset : Nat} {line : Text} {span : Span} {text : Text}
    (hne : line ≠ []) (h : .unknown span unparsedTag text = (node locals offset line).1) :
    span = ⟨offset, offset + line.length⟩ ∧ text = line ∧ ∃ b ∈ line, b < 0x80 := by
  rw [node] at h
  split at h
  · next n locals' hparse =>
    obtain rfl : .unknown span unparsedTag text = n := h
    have htag : unparsedTag ∈ Grammar.structuralKeywords := tag_of_parseLine hparse rfl
    exact absurd htag (by decide)
  · next fault locals' hparse =>
    obtain ⟨hspan, -, htext⟩ := Node.unknown.inj h
    refine ⟨hspan, htext, ?_⟩
    by_contra hascii
    have hwide : ∀ b ∈ line, 0x80 ≤ b := fun b hb => UInt8.not_lt.1 fun hlt => hascii ⟨b, hb, hlt⟩
    obtain ⟨n, hn⟩ := exists_parseLine_name (isName_of_wide hne hwide) locals offset
    rw [hn] at hparse
    cases hparse

lemma slice_line {source line : Text} {i : Nat} (h : source.lines[i]? = some line) {skip count : Nat}
    (hle : skip + count ≤ line.length) :
    (source.drop (start source.lines i + skip)).take count = (line.drop skip).take count := by
  have hline := slice_start h
  rw [← drop_drop]
  generalize source.drop (start source.lines i) = rest at hline
  have hcount : count ≤ line.length - skip := by omega
  conv_rhs => rw [← hline, drop_take, take_take, Nat.min_eq_left hcount]

end Lines

/-- The lines that could not be read: where each is said to stand, and its text. -/
def Parsed.unparsed (p : Parsed) : List (Span × Text) :=
  p.body.filterMap fun
    | .unknown span tag text => if tag = Lines.unparsedTag then some (span, text) else none
    | _ => none

lemma Parsed.mem_body_of_unparsed {p : Parsed} {u : Span × Text} (h : u ∈ p.unparsed) :
    .unknown u.1 Lines.unparsedTag u.2 ∈ p.body := by
  obtain ⟨n, hn, hu⟩ := mem_filterMap.1 h
  cases n with
  | unknown span tag text =>
    rw [Option.ite_none_right_eq_some] at hu
    obtain ⟨rfl, hu⟩ := hu
    obtain rfl := Option.some.inj hu
    exact hn
  | _ => cases hu

open Lines in
/-- A line that could not be read is kept without the blank characters at its ends, and its place begins where the
indentation of the line ends. What the source has at this place is the text exactly if nothing but spaces and tabs
stands before it on the line. -/
theorem Parsed.between_unparsed_iff (source : Text) (u : Span × Text) (h : u ∈ (Parsed.ofLines source).unparsed) :
    ∃ i line lead trail, source.lines[i]? = some line ∧ line = lead ++ (u.2 ++ trail) ∧ Text.AllBlank lead ∧
      Text.AllBlank trail ∧ u.1.start = start source.lines i + indentation line ∧
      u.1.stop = u.1.start + u.2.length ∧
      (source.between 0 u.1.start u.1.stop = u.2 ↔ ∀ b ∈ lead, b = ' ' ∨ b = '\t') := by
  obtain ⟨i, line, locals, hline, hcode, hnode⟩ := exists_of_mem_nodes (Parsed.mem_body_of_unparsed h)
  obtain ⟨hspan, htext, hnarrow⟩ := unparsed_of_node (holdsCode_iff.1 hcode).1 hnode
  obtain ⟨lead, trail, hsplit, hlead, htrail, hiff⟩ := slice_indentation_iff hnarrow
  have hslice := slice_line hline (indentation_add_length_le line)
  obtain ⟨span, text⟩ := u
  subst hspan htext
  refine ⟨i, line, lead, trail, hline, hsplit, hlead, htrail, by rw [Nat.zero_add], rfl, ?_⟩
  rw [between, Nat.zero_add, Nat.sub_zero, Nat.add_sub_cancel_left, hslice]
  exact hiff

open Lines in
theorem Parsed.between_unparsed_indented :
    ((⟨3, 4⟩, ")") : Span × Text) ∈ (Parsed.ofLines "a\n\t) \r").unparsed ∧
      ∃ i, ∃ line lead trail : Text, (lines "a\n\t) \r")[i]? = some line ∧ line = lead ++ (")" ++ trail) ∧
        Text.AllBlank lead ∧ Text.AllBlank trail ∧
        3 = start (lines "a\n\t) \r") i + indentation line ∧ 4 = 3 + (")" : Text).length ∧
        (between "a\n\t) \r" 0 3 4 = ")" ↔ ∀ b ∈ lead, b = ' ' ∨ b = '\t') := by
  have h : ((⟨3, 4⟩, ")") : Span × Text) ∈ (Parsed.ofLines "a\n\t) \r").unparsed := by decide +kernel
  exact ⟨h, Parsed.between_unparsed_iff "a\n\t) \r" (⟨3, 4⟩, ")") h⟩

/-- A no-break space is trimmed but is no indentation, so the place of the line is two bytes too early. -/
theorem Parsed.between_unparsed_no_break_space :
    ((⟨0, 7⟩, "x = = 2") : Span × Text) ∈ (Parsed.ofLines "\u00a0x = = 2").unparsed ∧
      between "\u00a0x = = 2" 0 0 7 ≠ "x = = 2" ∧ between "\u00a0x = = 2" 0 2 9 = "x = = 2" := by
  decide +kernel

end Transpiler
