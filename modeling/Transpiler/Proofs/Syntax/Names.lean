import Mathlib.Data.List.Basic
import Transpiler.Proofs.Syntax.Tokens

/-!
# Names that are read

A token that is a name without a sigil is read in one way only (`lexeme_eq_name`): as a stem of letters, digits and
underscores, with the question or exclamation mark that stands right behind it unless an equals sign follows.
-/

namespace Transpiler

open List

namespace Lexer

/-- The kinds of tokens that are names without a sigil. -/
def isNameKind : TokenKind → Bool
  | .ident | .const | .label | .keyword => true
  | _ => false

/-- The lexer reads some text with this name as a token. -/
def ReadsName (name : Text) : Prop :=
  ∃ offset s tokens, lex offset s = .ok tokens ∧ ∃ t ∈ tokens, isNameKind t.kind ∧ t.text = name

lemma kind_of_symbol {offset : Nat} {rest : Text} {l : Lexeme} (h : symbol offset rest = .ok l) : l.kind = .symbol := by
  rcases symbol_cases h with ⟨after, part, stop, -, -, -, rfl⟩ | ⟨name, mark, -, -, -, rfl⟩
  · rfl
  · rfl

lemma lexeme_eq_name {offset : Nat} {c : UInt8} {rest : Text} {l : Lexeme} (h : lexeme offset c rest = .ok l)
    (hkind : isNameKind l.kind) : isNameStart c ∧ l = name (c :: rest) := by
  cases scans_lexeme h with
  | name hc => exact ⟨hc, rfl⟩
  | number hnumber hn => rcases hnumber with rfl | rfl <;> cases hkind
  | sigil hsigil => rcases hsigil with rfl | rfl <;> cases hkind
  | symbol hc hsymbol =>
    rw [kind_of_symbol hsymbol] at hkind
    cases hkind
  | string hc hparts => cases hkind
  | operator hop => cases hkind

/-- A name without a mark: ASCII letters, digits and underscores, and no digit first. -/
structure IsStem (w : Text) : Prop where
  isName : isName w
  ascii : ∀ b ∈ w, b < 0x80

lemma IsStem.append {w x : Text} (hw : IsStem w) (hx : ∀ b ∈ x, b < 0x80 ∧ isNameByte b) : IsStem (w ++ x) := by
  obtain ⟨hname, hascii⟩ := hw
  constructor
  · cases w with
    | nil => cases hname
    | cons b w =>
      rw [Lexer.isName, Bool.and_eq_true] at hname
      rw [cons_append, Lexer.isName, hname.1, all_append, hname.2, Bool.true_and, Bool.true_and, all_eq_true]
      exact fun b hb => (hx b hb).2
  · exact forall_mem_append.2 ⟨hascii, fun b hb => (hx b hb).1⟩

lemma IsStem.isNameByte {w : Text} (hw : IsStem w) : ∀ b ∈ w, isNameByte b := by
  obtain ⟨hname, -⟩ := hw
  cases w with
  | nil => cases hname
  | cons b w =>
    rw [Lexer.isName, Bool.and_eq_true, all_eq_true] at hname
    intro c hc
    rcases mem_cons.1 hc with rfl | hc
    · rw [Lexer.isNameByte, hname.1, Bool.true_or]
    · exact hname.2 c hc

/-- The marks that can end a name. -/
def marks : List Text := ["?", "!"]

/-- A name of ASCII characters: a stem, with a mark behind it or none. -/
inductive IsSourceName : Text → Prop
  | plain {w : Text} (h : IsStem w) : IsSourceName w
  | marked {w mark : Text} (h : IsStem w) (hmark : mark ∈ marks) : IsSourceName (w ++ mark)

lemma nameMark_cases (s : Text) : nameMark s = [] ∨ nameMark s ∈ marks := by
  cases s with
  | nil => exact .inl rfl
  | cons m more =>
    rw [nameMark]
    split_ifs with h
    · right
      rcases Bool.or_eq_true_iff.1 (Bool.and_eq_true_iff.1 h).1 with hm | hm
      · rw [beq_iff_eq.1 hm]
        decide
      · rw [beq_iff_eq.1 hm]
        decide
    · exact .inl rfl

lemma exists_stem_of_name {c : UInt8} (hc : isNameStart c) (rest : Text) :
    ∃ stem mark, (name (c :: rest)).text = stem ++ mark ∧ isName stem ∧ (mark = [] ∨ mark ∈ marks) := by
  have hfirst : isNameByte c := by rw [isNameByte, hc, Bool.true_or]
  have hstem : (c :: rest).takeWhile isNameByte = c :: rest.takeWhile isNameByte :=
    takeWhile_cons_of_pos hfirst
  refine ⟨(c :: rest).takeWhile isNameByte, nameMark ((c :: rest).drop ((c :: rest).takeWhile isNameByte).length),
    ?_, ?_, nameMark_cases _⟩
  · unfold name
    dsimp only
    split_ifs <;> rfl
  · rw [hstem, isName, hc, Bool.true_and]
    exact all_takeWhile

lemma ReadsName.isSourceName {name : Text} (h : ReadsName name) (hascii : ∀ b ∈ name, b < 0x80) :
    IsSourceName name := by
  obtain ⟨offset, s, tokens, hlex, t, ht, hkind, rfl⟩ := h
  rcases (cut_of_lex hlex).exists_lexeme ht with heof | ⟨before, c, rest, l, -, hlexeme, htkind, htext, -⟩
  · rw [heof] at hkind
    cases hkind
  · rw [htkind] at hkind
    obtain ⟨hc, rfl⟩ := lexeme_eq_name hlexeme hkind
    obtain ⟨stem, mark, hname, hstem, hmark⟩ := exists_stem_of_name hc rest
    rw [htext, hname] at hascii ⊢
    have hw : IsStem stem := ⟨hstem, fun b hb => hascii b (mem_append_left mark hb)⟩
    rcases hmark with rfl | hmark
    · rw [append_nil]
      exact .plain hw
    · exact .marked hw hmark

end Lexer

end Transpiler
