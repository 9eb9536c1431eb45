import Mathlib.Data.List.Flatten
import Mathlib.Data.List.Forall2
import Transpiler.Parsed
import Transpiler.Proofs.Syntax.Nesting
import Transpiler.Proofs.Text.Lines
import Transpiler.Proofs.Text.Runes

/-!
# Line accounting

Which lines of a source hold code is said here without reading them: a line holds code unless it is blank,
starts with `#` or stands in a documentation block. Reading the source line by line gives one node for each of
these lines, in their order and in their place, and what comes later changes nothing about it
(`Parsed.ofLines_accounts`).
-/

namespace Transpiler

open List Nat

namespace Text

/-! ## Trimming -/

lemma length_ofRunes_le {rs rs' : List Rune} (h : rs.Sublist rs') : (ofRunes rs).length ≤ (ofRunes rs').length :=
  (h.flatMap Rune.bytes).length_le

lemma runes_indent {b : UInt8} (hb : (b == ' ' || b == '\t')) (rest : Text) :
    ∃ c, runes (b :: rest) = .char c :: runes rest ∧ Rune.isBlank (.char c) := by
  rw [Bool.or_eq_true, beq_iff_eq, beq_iff_eq] at hb
  rcases hb with rfl | rfl
  · exact ⟨' ', by rw [runes]; rfl, by decide⟩
  · exact ⟨'\t', by rw [runes]; rfl, by decide⟩

/-- Spaces and tabs in front of a text are blank, so indentation and what is left between the blanks at both
ends do not overlap. -/
lemma indentation_add_length_le (line : Text) : Lines.indentation line + line.trimmed.length ≤ line.length := by
  have htrimmed : line.trimmed.length ≤ (ofRunes ((runes line).dropWhile Rune.isBlank)).length := by
    refine length_ofRunes_le ?_
    have hback := (dropWhile_sublist Rune.isBlank (l := ((runes line).dropWhile Rune.isBlank).reverse)).reverse
    rwa [reverse_reverse] at hback
  refine (Nat.add_le_add_left htrimmed _).trans ?_
  clear htrimmed
  induction line with
  | nil => simp [Lines.indentation, ofRunes, runes]
  | cons b rest ih =>
    by_cases hb : (b == ' ' || b == '\t')
    · obtain ⟨c, hrunes, hblank⟩ := runes_indent hb rest
      rw [hrunes, dropWhile_cons_of_pos hblank, Lines.indentation, takeWhile_cons, if_pos hb, length_cons, length_cons]
      rw [Lines.indentation] at ih
      omega
    · rw [Lines.indentation, takeWhile_cons, if_neg hb, length_nil, zero_add]
      refine (length_ofRunes_le (dropWhile_sublist _)).trans ?_
      rw [ofRunes_runes]

end Text

namespace Lines

/-- The offset at which a line begins: the lines before it, with a line feed each. -/
def start (ls : List Text) (i : Nat) : Nat := ((ls.take i).flatMap (Text.newline :: ·)).length

/-- Whether a line is there and starts with a word. -/
def startsWith (word : Text) (ls : List Text) (i : Nat) : Bool := ls[i]?.any word.isPrefixOf

/-- A line from one that starts with `=begin` up to the next that starts with `=end`, or up to the last if
there is none. -/
def Documented (ls : List Text) (i : Nat) : Prop :=
  ∃ j ≤ i, startsWith "=begin" ls j = true ∧ ∀ k < i, j ≤ k → startsWith "=end" ls k = false

/-- A line that is not blank, does not start with `#` and stands in no documentation block. -/
def BearsCode (ls : List Text) (i : Nat) : Prop :=
  (∃ line ∈ ls[i]?, line.trimmed ≠ [] ∧ line.trimmed.head? ≠ some '#') ∧ ¬Documented ls i

instance (ls : List Text) (i : Nat) : Decidable (Documented ls i) :=
  inferInstanceAs (Decidable (∃ j ≤ i, _))

instance (ls : List Text) (i : Nat) : Decidable (BearsCode ls i) :=
  inferInstanceAs (Decidable (_ ∧ _))

/-! ## Documentation blocks -/

variable {ls : List Text}

lemma documented_zero : Documented ls 0 ↔ startsWith "=begin" ls 0 = true := by
  constructor
  · rintro ⟨j, hj, hbegin, -⟩
    rwa [le_zero.1 hj] at hbegin
  · exact fun hbegin => ⟨0, le_refl 0, hbegin, nofun⟩

lemma documented_succ {i : Nat} : Documented ls (i + 1) ↔
    startsWith "=begin" ls (i + 1) = true ∨ Documented ls i ∧ startsWith "=end" ls i = false := by
  constructor
  · rintro ⟨j, hj, hbegin, hopen⟩
    rcases le_succ_iff.1 hj with hj | rfl
    · exact .inr ⟨⟨j, hj, hbegin, fun k hk => hopen k (lt_succ_of_lt hk)⟩, hopen i (lt_succ_self i) hj⟩
    · exact .inl hbegin
  · rintro (hbegin | ⟨⟨j, hj, hbegin, hopen⟩, hend⟩)
    · exact ⟨i + 1, le_refl _, hbegin, fun k hk hk' => absurd hk' (not_le.2 hk)⟩
    · refine ⟨j, le_succ_of_le hj, hbegin, fun k hk hk' => ?_⟩
      rcases Nat.lt_succ_iff_lt_or_eq.1 hk with hk | rfl
      · exact hopen k hk hk'
      · exact hend

/-- A block is open before line `i`. -/
def Open (ls : List Text) : Nat → Prop
  | 0 => False
  | i + 1 => Documented ls i ∧ startsWith "=end" ls i = false

lemma documented_iff {i : Nat} : Documented ls i ↔ startsWith "=begin" ls i = true ∨ Open ls i := by
  cases i with
  | zero => simp [documented_zero, Open]
  | succ i => exact documented_succ

/-! ## One node for each line of code -/

lemma holdsCode_iff {trimmed : Text} : holdsCode trimmed ↔ trimmed ≠ [] ∧ trimmed.head? ≠ some '#' := by
  cases trimmed with
  | nil => simp [holdsCode]
  | cons b rest => simp [holdsCode]

/-- The node of a line lies within the line, whether it could be read or not. -/
lemma fits_node (locals : List Text) (offset : Nat) (text : Text) :
    (node locals offset text).1.isAbsent = false ∧ (node locals offset text).1.Fits offset (offset + text.length) := by
  rw [node]
  split
  · next n locals' h => exact fits_parseLine h
  · exact ⟨rfl, .leaf rfl (le_refl _) (le_add_right _ _) (le_refl _)⟩

/-- The node lies within line `i`, which begins at `start`. -/
def LiesOn (ls : List Text) (n : Node) (i : Nat) : Prop :=
  ∃ line ∈ ls[i]?, start ls i ≤ n.span.start ∧ n.span.start ≤ n.span.stop ∧ n.span.stop ≤ start ls i + line.length

lemma start_succ {i : Nat} {line : Text} (h : ls[i]? = some line) :
    start ls (i + 1) = start ls i + line.length + 1 := by
  rw [start, take_add_one, h, flatMap_append, length_append]
  simp [start, add_assoc]

lemma not_end_of_begin {line : Text} (h : ("=begin" : Text).isPrefixOf line = true) :
    ("=end" : Text).isPrefixOf line = false := by
  rw [Bool.eq_false_iff]
  intro hend
  have hle : ("=end" : Text).length ≤ ("=begin" : Text).length := by decide
  have hprefix := prefix_of_prefix_length_le (List.isPrefixOf_iff_prefix.1 hend) (List.isPrefixOf_iff_prefix.1 h) hle
  exact absurd hprefix (by decide)

lemma nodes_cons (offset : Nat) (inDoc : Bool) (locals : List Text) (line : Text) (rest : List Text) :
    nodes offset inDoc locals (line :: rest) =
      if inDoc then nodes (offset + line.length + 1) (!("=end" : Text).isPrefixOf line) locals rest
      else if ("=begin" : Text).isPrefixOf line then nodes (offset + line.length + 1) true locals rest
      else if holdsCode line.trimmed then
        (node locals (offset + indentation line) line.trimmed).1 ::
          nodes (offset + line.length + 1) false (node locals (offset + indentation line) line.trimmed).2 rest
      else nodes (offset + line.length + 1) false locals rest := by
  rw [nodes]

/-- The nodes from line `k` on are those of the lines of code from there on. -/
lemma forall₂_nodes {k : Nat} {inDoc : Bool} (hdoc : inDoc ↔ Open ls k)
    (locals : List Text) :
    Forall₂ (LiesOn ls) (nodes (start ls k) inDoc locals (ls.drop k))
      ((List.range' k (ls.length - k)).filter (BearsCode ls ·)) := by
  induction hm : ls.length - k generalizing k inDoc locals with
  | zero =>
    rw [drop_eq_nil_of_le (by omega)]
    exact .nil
  | succ m ih =>
    have hk : k < ls.length := by omega
    have hline : ls[k]? = some ls[k] := getElem?_eq_getElem hk
    have hstarts : ∀ word, startsWith word ls k = word.isPrefixOf ls[k] := fun word => by
      rw [startsWith, hline, Option.any_some]
    have hstart := start_succ hline
    rw [drop_eq_getElem_cons hk, range'_succ, filter_cons]
    generalize ls[k] = line at hline hstarts hstart
    -- what is left after this line, if it is known whether a block is open then
    have hrest : ∀ (inDoc' : Bool) locals, (inDoc' ↔ Open ls (k + 1)) →
        Forall₂ (LiesOn ls) (nodes (start ls k + line.length + 1) inDoc' locals (ls.drop (k + 1)))
          ((List.range' (k + 1) m).filter (BearsCode ls ·)) := fun inDoc' locals hdoc' => by
      rw [← hstart]
      exact ih hdoc' locals (by omega)
    have hskip : Documented ls k → ¬decide (BearsCode ls k) := fun hd hcode =>
      (of_decide_eq_true hcode).2 hd
    rw [nodes_cons]
    by_cases hin : inDoc
    · have hd : Documented ls k := documented_iff.2 (.inr (hdoc.1 hin))
      rw [if_pos hin, if_neg (hskip hd)]
      refine hrest _ locals ?_
      rw [Open, hstarts, Bool.not_eq_true']
      exact ⟨fun h => ⟨hd, h⟩, And.right⟩
    by_cases hbegin : ("=begin" : Text).isPrefixOf line = true
    · have hd : Documented ls k := documented_iff.2 (.inl ((hstarts _).trans hbegin))
      rw [if_neg hin, if_pos hbegin, if_neg (hskip hd)]
      refine hrest _ locals ⟨fun _ => ⟨hd, ?_⟩, fun _ => rfl⟩
      rw [hstarts]
      exact not_end_of_begin hbegin
    · have hd : ¬Documented ls k := by
        rw [documented_iff, hstarts, ← hdoc]
        exact not_or.2 ⟨hbegin, hin⟩
      have hclosed := fun locals => hrest false locals ⟨nofun, fun h => absurd h.1 hd⟩
      rw [if_neg hin, if_neg hbegin]
      by_cases hcode : holdsCode line.trimmed
      · have hbears : BearsCode ls k := ⟨⟨line, hline, holdsCode_iff.1 hcode⟩, hd⟩
        rw [if_pos hcode, if_pos (decide_eq_true hbears)]
        refine .cons ⟨line, hline, ?_⟩ (hclosed _)
        obtain ⟨hpresent, hfits⟩ := fits_node locals (start ls k + indentation line) line.trimmed
        obtain ⟨hlo, hle, hhi⟩ := hfits.bounds hpresent
        have hlength := Text.indentation_add_length_le line
        exact ⟨by omega, hle, by omega⟩
      · have hbears : ¬BearsCode ls k := by
          rintro ⟨⟨line', hline', hcode'⟩, -⟩
          obtain rfl := Option.some.inj (hline.symm.trans hline')
          exact hcode (holdsCode_iff.2 hcode')
        rw [if_neg hcode, if_neg (by simpa using hbears)]
        exact hclosed locals

lemma nodes_prefix (offset : Nat) (inDoc : Bool) (locals : List Text) (ls more : List Text) :
    nodes offset inDoc locals ls <+: nodes offset inDoc locals (ls ++ more) := by
  induction ls generalizing offset inDoc locals with
  | nil => exact nil_prefix
  | cons line rest ih =>
    rw [cons_append, nodes_cons, nodes_cons]
    split_ifs
    · exact ih ..
    · exact ih ..
    · exact (prefix_cons_inj _).2 (ih ..)
    · exact ih ..

lemma slice_start {source line : Text} {i : Nat} (h : source.lines[i]? = some line) :
    (source.drop (start source.lines i)).take line.length = line := by
  obtain ⟨hi, hline⟩ := List.getElem?_eq_some_iff.1 h
  have hsplit := take_append_drop i source.lines
  rw [drop_eq_getElem_cons hi, hline] at hsplit
  have hsource := source.flatMap_lines
  rw [← hsplit, flatMap_append, flatMap_cons] at hsource
  rw [start]
  generalize (source.lines.take i).flatMap (Text.newline :: ·) = before at hsource ⊢
  have hdrop := congrArg (List.drop (before.length + 1)) hsource
  rw [drop_length_add_append, drop_succ_cons, cons_append, drop_succ_cons, drop_zero] at hdrop
  rw [← hdrop, take_left]

end Lines

open Lines in
/-- Line accounting. Reading a source line by line always succeeds; its body has one node for each line of
code, in their order, and each lies within its own line; and lines that are added at the end only add nodes at
the end. -/
theorem Parsed.ofLines_accounts (source : Text) :
    (Parsed.ofLines source).success = true ∧
      Forall₂ (fun n i => ∃ line ∈ source.lines[i]?,
          (source.drop (start source.lines i)).take line.length = line
          ∧ start source.lines i ≤ n.span.start ∧ n.span.start ≤ n.span.stop
          ∧ n.span.stop ≤ start source.lines i + line.length)
        (Parsed.ofLines source).body
        ((List.range source.lines.length).filter (BearsCode source.lines ·)) ∧
      ∀ more : Text, (Parsed.ofLines source).body <+: (Parsed.ofLines (source ++ Text.newline :: more)).body := by
  refine ⟨rfl, ?_, fun more => ?_⟩
  · have hdoc : false = true ↔ Open source.lines 0 := ⟨nofun, nofun⟩
    have hnodes := forall₂_nodes hdoc []
    rw [drop_zero, Nat.sub_zero, ← range_eq_range'] at hnodes
    refine hnodes.imp fun n i h => ?_
    obtain ⟨line, hline, hplace⟩ := h
    exact ⟨line, hline, slice_start hline, hplace⟩
  · have hprefix := nodes_prefix 0 false [] source.lines (Text.lines more)
    rw [← Text.lines_append_newline_append] at hprefix
    exact hprefix

example : (List.range 7).filter (Lines.BearsCode (Text.lines "a\n # b\n=begin\nc\n=end\n=end\n\td") ·)
    = [0, 5, 6] := by decide +kernel

end Transpiler
