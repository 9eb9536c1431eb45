import Transpiler.Proofs.Script.Rendering
import Transpiler.Proofs.Text.Lines

/-!
# Literals with elements that cannot be expressed

An element of an array or a hash that cannot be expressed becomes a comment at its place. The others stand around the
comments as they would without them, with a comma between any two and none behind the last (`literals_arranged`).
What comes of an element depends on the element alone, not on the elements before it.
-/

namespace Transpiler.Script

open List EntryText Text

/-! ## The text of a literal -/

/-- The text of an entry: what cannot be expressed is a comment. -/
def EntryText.ofOutcome : Except Text Text → EntryText
  | .ok t => .code t
  | .error tag => .comment (commentText tag)

/-- The lines of one element: a comment, or code that may have a comma behind it. -/
def Row (indent : Text) : Except Text Text → Text → Prop
  | .error tag, row => row = newline :: indent ++ commentText tag
  | .ok t, row => row = newline :: indent ++ t ∨ row = newline :: indent ++ t ++ ","

/-- The rows of the elements that can be expressed. -/
def codeRows (outcomes : List (Except Text Text)) (rows : List Text) : List Text :=
  ((outcomes.zip rows).filter (·.1.isOk)).map Prod.snd

/-- The text of a literal whose elements have these outcomes, each a text or the tag of what cannot be expressed. -/
structure Arranged (unit : Text) (depth : Nat) (opening closing pad : Text) (outcomes : List (Except Text Text))
    (text : Text) : Prop where
  empty : outcomes = [] → text = opening ++ closing
  /-- It is on one line exactly if all elements can be expressed and none spans lines. -/
  oneLine : outcomes ≠ [] → (newline ∉ text ↔ ∀ r ∈ outcomes, ∃ t, r = .ok t ∧ newline ∉ t)
  flat : outcomes ≠ [] → newline ∉ text →
    text = opening ++ pad ++ join ", " (outcomes.filterMap Except.toOption) ++ pad ++ closing
  /-- Otherwise each element begins on a line of its own. Without the comments just the elements are left, with a comma
  between any two. -/
  broken : newline ∈ text → ∃ rows, Forall₂ (Row (indentation unit (depth + 1))) outcomes rows
    ∧ text = opening ++ rows.flatten ++ [newline] ++ indentation unit depth ++ closing
    ∧ (codeRows outcomes rows).flatten =
        join "," ((outcomes.filterMap Except.toOption).map (newline :: indentation unit (depth + 1) ++ ·))

section Arranged

variable {outcomes : List (Except Text Text)}

lemma any_isCode (outcomes : List (Except Text Text)) :
    (outcomes.map ofOutcome).any (·.isCode) = !(outcomes.filterMap Except.toOption).isEmpty := by
  induction outcomes with
  | nil => rfl
  | cons r rest ih =>
    cases r with
    | ok t => rfl
    | error tag => exact ih

lemma needsOwnLine_ofOutcome (r : Except Text Text) :
    (ofOutcome r).needsOwnLine = false ↔ ∃ t, r = .ok t ∧ newline ∉ t := by
  cases r with
  | ok t => simp [ofOutcome, needsOwnLine, isCode, text]
  | error tag => simp [ofOutcome, needsOwnLine, isCode]

lemma exists_rows (indent : Text) (outcomes : List (Except Text Text)) :
    ∃ rows, Forall₂ (Row indent) outcomes rows
      ∧ entryLines indent (outcomes.map ofOutcome) = rows.flatten
      ∧ (codeRows outcomes rows).flatten =
          join "," ((outcomes.filterMap Except.toOption).map (newline :: indent ++ ·)) := by
  induction outcomes with
  | nil => exact ⟨[], .nil, rfl, rfl⟩
  | cons r rest ih =>
    obtain ⟨rows, hrows, hlines, hkept⟩ := ih
    cases r with
    | error tag =>
      refine ⟨(newline :: indent ++ commentText tag) :: rows, .cons rfl hrows, ?_, hkept⟩
      simp [entryLines, ofOutcome, text, isCode, hlines]
    | ok t =>
      have hcode := any_isCode rest
      have hrow : ∀ row, (codeRows (.ok t :: rest) (row :: rows)).flatten = row ++ (codeRows rest rows).flatten :=
        fun row => rfl
      have hfirst : (.ok t :: rest).filterMap Except.toOption = t :: rest.filterMap Except.toOption := rfl
      rw [hfirst]
      -- a comma stands behind the text if another element behind it can be expressed
      cases hrest : rest.filterMap Except.toOption with
      | nil =>
        rw [hrest] at hcode hkept
        refine ⟨(newline :: indent ++ t) :: rows, .cons (.inl rfl) hrows, ?_, ?_⟩
        · rw [map_cons, entryLines, hcode, hlines]
          simp [ofOutcome, text]
        · rw [hrow, hkept]
          simp [join]
      | cons u us =>
        rw [hrest] at hcode hkept
        refine ⟨(newline :: indent ++ t ++ ",") :: rows, .cons (.inr rfl) hrows, ?_, ?_⟩
        · rw [map_cons, entryLines, hcode, hlines]
          simp [ofOutcome, text, isCode]
        · rw [hrow, hkept]
          simp only [map_cons, join, intercalate_cons_cons]

lemma exists_texts (h : ∀ r ∈ outcomes, ∃ t, r = .ok t ∧ newline ∉ t) :
    ∃ ts : List Text, outcomes = ts.map .ok ∧ ∀ t ∈ ts, newline ∉ t := by
  choose! text htext using h
  refine ⟨outcomes.map text, ?_, forall_mem_map.2 fun r hr => (htext r hr).2⟩
  rw [map_map]
  exact (map_id' outcomes).symm.trans (map_congr_left fun r hr => (htext r hr).1)

lemma arranged_literalText (unit : Text) (depth : Nat) (opening closing pad : Text)
    (h : newline ∉ opening ++ pad ++ closing) (outcomes : List (Except Text Text)) :
    Arranged unit depth opening closing pad outcomes
      (literalText unit depth opening closing pad (outcomes.map ofOutcome)) := by
  simp only [mem_append, not_or] at h
  obtain ⟨⟨hopening, hpad⟩, hclosing⟩ := h
  have hlines : (outcomes.map ofOutcome).any (·.needsOwnLine) = false ↔
      ∀ r ∈ outcomes, ∃ t, r = .ok t ∧ newline ∉ t := by
    rw [any_eq_false, forall_mem_map]
    exact forall₂_congr fun r _ => by rw [Bool.not_eq_true, needsOwnLine_ofOutcome]
  by_cases hempty : outcomes = []
  · subst hempty
    have hnone : newline ∉ opening ++ closing := by simp [hopening, hclosing]
    exact ⟨fun _ => rfl, fun h => absurd rfl h, fun h => absurd rfl h, fun h => absurd h hnone⟩
  have hsome : (outcomes.map ofOutcome).isEmpty = false := by simp [hempty]
  rw [literalText, if_neg (by simp [hsome])]
  cases hneeds : (outcomes.map ofOutcome).any (·.needsOwnLine) with
  | false =>
    have hall := hlines.1 hneeds
    obtain ⟨ts, rfl, hts⟩ := exists_texts hall
    have htexts : ((ts.map Except.ok).map ofOutcome).map (·.text) = ts := by
      simp [ofOutcome, text, Function.comp_def]
    have hkept : (ts.map (Except.ok (ε := Text))).filterMap Except.toOption = ts := by
      simp [Except.toOption, Function.comp_def]
    rw [if_neg (by simp), htexts]
    have hjoin : newline ∉ join ", " ts := newline_not_mem_join (by decide) hts
    have hnone : newline ∉ opening ++ pad ++ join ", " ts ++ pad ++ closing := by
      simp [hopening, hclosing, hpad, hjoin]
    exact ⟨fun h => absurd h hempty, fun _ => iff_of_true hnone hall, fun _ _ => by rw [hkept], fun h => absurd h hnone⟩
  | true =>
    obtain ⟨rows, hrows, hjoined, hkept⟩ := exists_rows (indentation unit (depth + 1)) outcomes
    rw [if_pos rfl, hjoined]
    have hsome : newline ∈ opening ++ rows.flatten ++ [newline] ++ indentation unit depth ++ closing := by
      simp
    refine ⟨fun h => absurd h hempty, fun _ => iff_of_false (not_not.2 hsome) fun hall => ?_,
      fun _ h => absurd hsome h, fun _ => ⟨rows, hrows, rfl, hkept⟩⟩
    rw [hlines.2 hall] at hneeds
    cases hneeds

end Arranged

/-! ## The entries of a literal -/

variable {α β : Type} {o : Options} {frames : List Frame}

/-- How a step ends in some frames, whatever has been counted before. The frames stay as they are. -/
def Settles (frames : List Frame) (x : Emit α) (r : Except Text α) : Prop :=
  ∀ count, ∃ count', x ⟨frames, count⟩ = concluded r ⟨frames, count'⟩

namespace Settles

lemma pure (a : α) : Settles frames (pure a) (.ok a) := fun count => ⟨count, rfl⟩

lemma bind {x : Emit α} {f : α → Emit β} {a : α} {r : Except Text β} (hx : Settles frames x (.ok a))
    (hf : Settles frames (f a) r) : Settles frames (x >>= f) r := by
  intro count
  obtain ⟨count₁, hrun⟩ := hx count
  obtain ⟨count₂, hrun'⟩ := hf count₁
  exact ⟨count₂, (bind_of_eq_ok hrun).trans hrun'⟩

lemma map {x : Emit α} {r : Except Text α} (h : Settles frames x r) (f : α → β) :
    Settles frames (do return f (← x)) (r.map f) := by
  cases r with
  | ok a => exact h.bind (.pure _)
  | error tag =>
    intro count
    obtain ⟨count', hrun⟩ := h count
    exact ⟨count', bind_of_eq_error hrun⟩

end Settles

lemma exists_settles (o : Options) (frames : List Frame) (n : Node) : ∃ r, Settles frames (expr o n) r := by
  obtain ⟨r, -, hrun⟩ := renders_expr o (.inFrames frames) n (.of_covers (covers_true [n]) (mem_singleton_self n))
  rw [Draft.frames_inFrames] at hrun
  exact ⟨r, fun count => ⟨_, (hrun count).1⟩⟩

/-- A refusal becomes a comment. -/
def Entry.ofOutcome : Except Text Entry → Entry
  | .ok e => e
  | .error tag => .comment tag

/-- The entry is code if there is one. -/
def Codes (r : Except Text Entry) : Prop := ∀ tag, r ≠ .ok (.comment tag)

lemma codes_map {f : α → Entry} (hf : ∀ a tag, f a ≠ .comment tag) (r : Except Text α) : Codes (r.map f) := by
  intro tag h
  cases r with
  | ok a => exact hf a tag (Except.ok.inj h)
  | error t => cases h

lemma exists_settles_pairEntry (o : Options) (frames : List Frame) (key value : Node) :
    ∃ r, Settles frames (pairEntry key (expr o key) (expr o value)) r ∧ Codes r := by
  obtain ⟨v, hv⟩ := exists_settles o frames value
  obtain ⟨k, hk⟩ := exists_settles o frames key
  have hnamed : ∀ name, ∃ r, Settles frames (do return .named name (← expr o value)) r ∧ Codes r := fun name =>
    ⟨_, hv.map (Entry.named name), codes_map (by simp) v⟩
  have hcomputed : ∃ r, Settles frames (do
      let k ← expr o key
      return .computed k (← expr o value)) r ∧ Codes r := by
    cases k with
    | ok k => exact ⟨_, hk.bind (hv.map (Entry.computed k)), codes_map (by simp) v⟩
    | error tag =>
      refine ⟨.error tag, fun count => ?_, fun _ h => by cases h⟩
      obtain ⟨count', hrun⟩ := hk count
      exact ⟨count', bind_of_eq_error hrun⟩
  cases key with
  | symbol _ name => exact hnamed name
  | string _ name => exact hnamed name
  | _ => exact hcomputed

lemma settles_entryOr {x : Emit Entry} {r : Except Text Entry} (h : Settles frames x r) :
    Settles frames (entryOr x) (.ok (.ofOutcome r)) := by
  intro count
  obtain ⟨count', hrun⟩ := h count
  rw [entryOr, bind_of_eq_ok (Emit.attempt_of_eq_concluded hrun)]
  cases r with
  | ok e => exact ⟨count', rfl⟩
  | error tag => exact ⟨count' + 1, rfl⟩

lemma settles_elementEntries {outcome : Node → Except Text Expr} (h : ∀ n, Settles frames (expr o n) (outcome n))
    (ns : List Node) : Settles frames (elementEntries o ns)
      (.ok ((ns.map fun n => (outcome n).map Entry.value).map .ofOutcome)) := by
  induction ns with
  | nil => exact .pure []
  | cons n ns ih => exact (settles_entryOr ((h n).map Entry.value)).bind (ih.bind (.pure _))

lemma settles_pairEntries {member : Node × Node → Except Text Entry}
    (h : ∀ p, Settles frames (pairEntry p.1 (expr o p.1) (expr o p.2)) (member p)) (ps : List (Node × Node)) :
    Settles frames (pairEntries o ps) (.ok ((ps.map member).map .ofOutcome)) := by
  induction ps with
  | nil => exact .pure []
  | cons p ps ih => exact (settles_entryOr (h p)).bind (ih.bind (.pure _))

lemma texts_ofOutcome (unit : Text) (depth : Nat) {rs : List (Except Text Entry)} (h : ∀ r ∈ rs, Codes r) :
    Entry.texts unit depth (rs.map .ofOutcome) =
      (rs.map (Except.map fun e => (e.text unit depth).text)).map ofOutcome := by
  induction rs with
  | nil => rfl
  | cons r rs ih =>
    obtain ⟨hr, hrs⟩ := forall_mem_cons.1 h
    have htext : (Entry.ofOutcome r).text unit depth = ofOutcome (r.map fun e => (e.text unit depth).text) := by
      cases r with
      | error tag => rfl
      | ok e =>
        cases e with
        | comment tag => exact absurd rfl (hr tag)
        | _ => rfl
    rw [map_cons, Entry.texts, htext, ih hrs]
    rfl

/-- A literal is arranged by what comes of its elements, and can always be expressed. What comes of an element is the
same at every place of every literal, whatever was counted before. -/
theorem literals_arranged (o : Options) (frames : List Frame) (depth : Nat) :
    ∃ (outcome : Node → Except Text Expr) (member : Node × Node → Except Text Entry),
      (∀ n, Settles frames (expr o n) (outcome n))
      ∧ (∀ p, Settles frames (pairEntry p.1 (expr o p.1) (expr o p.2)) (member p))
      ∧ (∀ span elements, ∃ e, Settles frames (expr o (.array span elements)) (.ok e)
        ∧ Arranged o.indent depth "[" "]" [] (elements.map fun n => (outcome n).map (Expr.text o.indent (depth + 1)))
            (e.text o.indent depth))
      ∧ ∀ span pairs, ∃ e, Settles frames (expr o (.hash span pairs)) (.ok e)
        ∧ Arranged o.indent depth "\x7b" "\x7d" " "
            ((pairs.map member).map (Except.map fun e => (e.text o.indent (depth + 1)).text))
            (e.text o.indent depth) := by
  choose outcome houtcome using exists_settles o frames
  choose member hmember hcodes using fun p : Node × Node => exists_settles_pairEntry o frames p.1 p.2
  refine ⟨outcome, member, houtcome, hmember, fun span elements => ?_, fun span pairs => ?_⟩
  · refine ⟨_, (settles_elementEntries houtcome elements).bind (.pure _), ?_⟩
    rw [Expr.text, texts_ofOutcome _ _ (forall_mem_map.2 fun n _ => codes_map (by simp) (outcome n))]
    have htexts : (elements.map fun n => (outcome n).map Entry.value).map
        (Except.map fun e => (e.text o.indent (depth + 1)).text) =
          elements.map fun n => (outcome n).map (Expr.text o.indent (depth + 1)) := by
      rw [map_map]
      refine map_congr_left fun n _ => ?_
      cases h : outcome n <;> simp [h, Except.map, Entry.text, text]
    rw [htexts]
    exact arranged_literalText o.indent depth "[" "]" [] (by decide) _
  · refine ⟨_, (settles_pairEntries hmember pairs).bind (.pure _), ?_⟩
    rw [Expr.text, texts_ofOutcome _ _ (forall_mem_map.2 fun p _ => hcodes p)]
    exact arranged_literalText o.indent depth "\x7b" "\x7d" " " (by decide) _

end Transpiler.Script
