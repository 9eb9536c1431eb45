import Mathlib.Tactic.SplitIfs
import Transpiler.Text.Basic

/-!
# Lines of a text

A text is cut into lines at its line feeds. What stands in front of the first line feed belongs to the first
line, so a piece without one only makes the first line longer.
-/

namespace Transpiler.Text

open List

lemma cut_append_of_not_mem {b : UInt8} {a : Text} (h : b ∉ a) (t : Text) :
    (a ++ t).cut b = (a ++ (t.cut b).1, (t.cut b).2) := by
  induction a with
  | nil => rfl
  | cons c a ih =>
    have hc : ¬(c == b) := fun heq => h (by simp [beq_iff_eq.1 heq])
    rw [cons_append, cut, if_neg hc, ih fun hb => h (mem_cons_of_mem c hb)]
    rfl

lemma cut_cases (b : UInt8) (t : Text) : (b ∉ t ∧ t.cut b = (t, none)) ∨
    ∃ first rest, b ∉ first ∧ t = first ++ b :: rest ∧ t.cut b = (first, some rest) := by
  by_cases h : b ∈ t
  · obtain ⟨first, rest, rfl, hfirst⟩ := eq_append_cons_of_mem h
    refine .inr ⟨first, rest, hfirst, rfl, ?_⟩
    rw [cut_append_of_not_mem hfirst, cut, if_pos (beq_self_eq_true b), append_nil]
  · have hcut := cut_append_of_not_mem h []
    rw [append_nil] at hcut
    exact .inl ⟨h, hcut.trans (by rw [cut, append_nil])⟩

lemma exists_lines_eq_cons (t : Text) : ∃ line more, lines t = line :: more := by
  cases t with
  | nil => exact ⟨[], [], rfl⟩
  | cons b t =>
    rw [lines]
    split_ifs
    · exact ⟨_, _, rfl⟩
    · split
      · exact ⟨_, _, rfl⟩
      · exact ⟨_, _, rfl⟩

lemma lines_cons_newline (t : Text) : lines (newline :: t) = [] :: lines t := by
  rw [lines, if_pos (beq_self_eq_true newline)]

lemma lines_cons {b : UInt8} (hb : b ≠ newline) {t line : Text} {more : List Text}
    (h : lines t = line :: more) : lines (b :: t) = (b :: line) :: more := by
  rw [lines, if_neg (by simpa using hb), h]

lemma lines_append {a : Text} (ha : newline ∉ a) {t line : Text} {more : List Text}
    (h : lines t = line :: more) : lines (a ++ t) = (a ++ line) :: more := by
  induction a with
  | nil => exact h
  | cons b a ih =>
    have hb : b ≠ newline := fun heq => ha (by simp [heq])
    exact lines_cons hb (ih fun hmem => ha (mem_cons_of_mem b hmem))

lemma lines_of_not_mem {t : Text} (h : newline ∉ t) : lines t = [t] := by
  simpa using lines_append h (t := []) rfl

lemma lines_append_newline {a : Text} (ha : newline ∉ a) (t : Text) : lines (a ++ newline :: t) = a :: lines t := by
  simpa using lines_append ha (lines_cons_newline t)

/-- The lines of two texts with a line feed between them are the lines of the one and then of the other. -/
lemma lines_append_newline_append (a b : Text) : lines (a ++ newline :: b) = lines a ++ lines b := by
  induction a with
  | nil => exact lines_cons_newline b
  | cons c a ih =>
    obtain ⟨first, more, ha⟩ := exists_lines_eq_cons a
    by_cases hc : c = newline
    · rw [hc, cons_append, lines_cons_newline, lines_cons_newline, ih]
      rfl
    · rw [ha, cons_append] at ih
      rw [cons_append, lines_cons hc ha, lines_cons hc ih]
      rfl

/-- A text is its lines, each after a line feed. -/
lemma flatMap_lines (t : Text) : (lines t).flatMap (newline :: ·) = newline :: t := by
  induction t with
  | nil => rfl
  | cons b t ih =>
    obtain ⟨first, more, ht⟩ := exists_lines_eq_cons t
    by_cases hb : b = newline
    · rw [hb, lines_cons_newline, flatMap_cons, ih]
      rfl
    · rw [ht, flatMap_cons, cons_append, List.cons.injEq] at ih
      rw [lines_cons hb ht, flatMap_cons, cons_append, cons_append, ih.2]

/-- The lines of a text that starts with some lines, each but the first after a line feed. -/
lemma lines_flatMap {a : Text} (ha : newline ∉ a) {ls : List Text} (hls : ∀ l ∈ ls, newline ∉ l) (t : Text) :
    lines (a ++ (ls.flatMap (newline :: ·) ++ newline :: t)) = a :: (ls ++ lines t) := by
  induction ls generalizing a with
  | nil => exact lines_append_newline ha t
  | cons l ls ih =>
    rw [flatMap_cons, cons_append, cons_append, lines_append_newline ha, append_assoc,
      ih (hls l (by simp)) fun m hm => hls m (by simp [hm])]
    rfl

lemma join_of_append {P : Text → Prop} (hnil : P []) (happend : ∀ t u, P t → P u → P (t ++ u)) {sep : Text}
    (hsep : P sep) {ts : List Text} (h : ∀ t ∈ ts, P t) : P (join sep ts) := by
  induction ts with
  | nil => exact hnil
  | cons t ts ih =>
    cases ts with
    | nil => simpa [join] using h
    | cons u ts =>
      rw [join, intercalate_cons_cons]
      exact happend _ _ (happend t sep (h t (by simp)) hsep) (ih fun v hv => h v (mem_cons_of_mem t hv))

lemma newline_not_mem_join {sep : Text} (hsep : newline ∉ sep) {ts : List Text} (h : ∀ t ∈ ts, newline ∉ t) :
    newline ∉ join sep ts :=
  join_of_append not_mem_nil (fun t u ht hu => by simpa using ⟨ht, hu⟩) hsep h

lemma newline_cons_join {ls : List Text} (h : ls ≠ []) : newline :: join [newline] ls = ls.flatMap (newline :: ·) := by
  induction ls with
  | nil => exact absurd rfl h
  | cons l ls ih =>
    cases ls with
    | nil => simp [join]
    | cons m ls =>
      rw [join, intercalate_cons_cons, flatMap_cons, ← ih (by simp)]
      simp [join]

end Transpiler.Text
