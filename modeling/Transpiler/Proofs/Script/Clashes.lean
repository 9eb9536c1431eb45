import Transpiler.Proofs.Script.Naming
import Transpiler.Proofs.Syntax.Names

/-!
# Names that clash

The binding of a name spells out a question or exclamation mark with letters, and sets a reserved word apart with an
underscore. So there are names that are spelled the same. Among the names that the lexer reads, two have the same
binding exactly if one has a mark and the other its letters, or one is a reserved word and the other has the
underscore (`binding_eq_iff_clash`).
-/

namespace Transpiler.Script

open List Text Lexer Bool
open Lexer (IsStem IsSourceName)

/-! ## How names are spelled -/

/-- The character of a byte below `0x80`. -/
def asciiChar (b : UInt8) : Char := Char.ofNat b.toNat

variable {b : UInt8}

lemma toNat_asciiChar (h : b < 0x80) : (asciiChar b).toNat = b.toNat := by
  have hvalid : b.toNat.isValidChar := .inl (Nat.lt_trans h (by decide))
  rw [asciiChar, Char.ofNat, dif_pos hvalid]
  rfl

lemma utf8EncodeChar_asciiChar (h : b < 0x80) : String.utf8EncodeChar (asciiChar b) = [b] := by
  have hb : b.toNat < 128 := h
  rw [utf8EncodeChar_ascii (by rw [toNat_asciiChar h]; exact hb), toNat_asciiChar h, UInt8.ofNat_toNat]

lemma shown_runes_ascii {t : Text} (h : ∀ b ∈ t, b < 0x80) : t.runes.map Rune.shown = t.map asciiChar := by
  have hchars : t = ofChars (t.map asciiChar) := by
    induction t with
    | nil => rfl
    | cons b t ih =>
      rw [map_cons, ofChars, flatMap_cons, utf8EncodeChar_asciiChar (h b mem_cons_self)]
      exact congrArg (b :: ·) (ih fun c hc => h c (mem_cons_of_mem b hc))
  have hrunes : t.runes = (t.map asciiChar).map .char := by
    rw [← runes_ofChars, ← hchars]
  rw [hrunes, map_map]
  exact map_id _

lemma ascii_of_all {t : Text} (h : t.all (· < 0x80)) : ∀ b ∈ t, b < 0x80 := by
  simpa using h

lemma isLetter_of_latin {c : Char} (h : (65 ≤ c.toNat ∧ c.toNat ≤ 90) ∨ (97 ≤ c.toNat ∧ c.toNat ≤ 122)) :
    isLetter c := by
  -- the first two runs of the table
  have htable : isLetter c = inRuns (65 :: 26 :: 6 :: 26 :: letters.drop 4) c.toNat := rfl
  rw [htable]
  simp only [inRuns]
  grind

lemma isDecimalDigit_of_arabic {c : Char} (h : 48 ≤ c.toNat ∧ c.toNat ≤ 57) : isDecimalDigit c := by
  have htable : isDecimalDigit c = inRuns (48 :: 10 :: decimalDigits.drop 2) c.toNat := rfl
  rw [htable]
  simp only [inRuns]
  grind

lemma toNat_of_isNameStart (hb : b < 0x80) (h : Lexer.isNameStart b) :
    b.toNat = 95 ∨ (65 ≤ b.toNat ∧ b.toNat ≤ 90) ∨ (97 ≤ b.toNat ∧ b.toNat ≤ 122) := by
  have hb' : b.toNat < 128 := hb
  simp only [Lexer.isNameStart, Lexer.isCapital, or_eq_true, and_eq_true, decide_eq_true_eq, beq_iff_eq,
    UInt8.le_iff_toNat_le, ← UInt8.toNat_inj] at h
  change ((b.toNat = 95 ∨ 97 ≤ b.toNat ∧ b.toNat ≤ 122) ∨ 65 ≤ b.toNat ∧ b.toNat ≤ 90) ∨ 128 ≤ b.toNat at h
  omega

lemma toNat_of_isDigit (h : isDigit b) : 48 ≤ b.toNat ∧ b.toNat ≤ 57 := by
  simp only [isDigit, and_eq_true, decide_eq_true_eq, UInt8.le_iff_toNat_le] at h
  exact h

lemma bindingChar_asciiChar (first : Bool) (hb : b < 0x80)
    (h : Lexer.isNameStart b ∨ first = false ∧ Lexer.isDigit b) :
    bindingChar first (asciiChar b) = [b] := by
  have hnat := toNat_asciiChar hb
  have hne : ∀ d : Char, b.toNat ≠ d.toNat → asciiChar b ≠ d := by
    rintro d hd rfl
    exact hd hnat.symm
  have hmarks : b.toNat ≠ 63 ∧ b.toNat ≠ 33 ∧ b.toNat ≠ 61 := by
    rcases h with h | ⟨-, h⟩
    · have := toNat_of_isNameStart hb h
      omega
    · have := toNat_of_isDigit h
      omega
  unfold bindingChar
  rw [if_neg (hne '?' hmarks.1), if_neg (hne '!' hmarks.2.1), if_neg (hne '=' hmarks.2.2), utf8EncodeChar_asciiChar hb]
  rcases h with h | ⟨rfl, h⟩
  · refine if_pos ?_
    rcases toNat_of_isNameStart hb h with hline | hletter
    · rw [isNameStart, Char.toNat_inj.1 (hnat.trans hline : (asciiChar b).toNat = '_'.toNat)]
      rfl
    · rw [isNameStart, isLetter_of_latin (hnat ▸ hletter), Bool.or_true]
  · rw [isDecimalDigit_of_arabic (hnat ▸ toNat_of_isDigit h)]
    exact ite_self _

/-- The characters of a stem stand for themselves, and what follows is spelled behind them. -/
lemma bindingChars_stem_append {w : Text} (hw : IsStem w) (mark : Text) (hmark : ∀ b ∈ mark, b < 0x80) :
    bindingChars ((w ++ mark).runes.map Rune.shown) = w ++ (mark.map asciiChar).flatMap (bindingChar false) := by
  have hascii : ∀ b ∈ w ++ mark, b < 0x80 := forall_mem_append.2 ⟨hw.ascii, hmark⟩
  have hlater : ∀ t : Text, (∀ b ∈ t, b < 0x80) → t.all isNameByte →
      (t.map asciiChar).flatMap (bindingChar false) = t := by
    intro t ht hname
    induction t with
    | nil => rfl
    | cons b t ih =>
      rw [all_cons, and_eq_true] at hname
      have hb := bindingChar_asciiChar false (ht b mem_cons_self)
        ((or_eq_true_iff.1 hname.1).imp_right fun hd => ⟨rfl, hd⟩)
      rw [map_cons, flatMap_cons, hb, ih (fun c hc => ht c (mem_cons_of_mem b hc)) hname.2]
      rfl
  rw [shown_runes_ascii hascii]
  obtain ⟨hname, hbytes⟩ := hw
  cases w with
  | nil => cases hname
  | cons b w =>
    rw [isName, and_eq_true] at hname
    rw [cons_append, map_cons, bindingChars, map_append, flatMap_append,
      bindingChar_asciiChar true (hbytes b mem_cons_self) (.inl hname.1),
      hlater w (fun c hc => hbytes c (mem_cons_of_mem b hc)) hname.2]
    rfl

/-! ### The bindings -/

lemma binding_eq_of_spelled {name spelled : Text} (h : bindingChars (name.runes.map Rune.shown) = spelled)
    (hne : spelled ≠ []) (hfree : spelled ∉ reservedWords) : binding name = spelled := by
  unfold binding
  rw [h]
  exact if_neg (by simpa [hne] using hfree)

lemma not_mem_reservedWords_of_mem {w : Text} (h : '_'.toUInt8 ∈ w) : w ∉ reservedWords := by
  have htable : (reservedWords.all fun w => !w.contains '_'.toUInt8) := by decide
  intro hw
  have := all_eq_true.1 htable w hw
  simp [h] at this

variable {w : Text}

lemma bindingChars_stem (hw : IsStem w) : bindingChars (w.runes.map Rune.shown) = w := by
  simpa using bindingChars_stem_append hw [] (by simp)

lemma ne_nil_of_isStem (hw : IsStem w) : w ≠ [] := by
  rintro rfl
  cases hw.isName

lemma binding_of_free (hw : IsStem w) (hfree : w ∉ reservedWords) : binding w = w :=
  binding_eq_of_spelled (bindingChars_stem hw) (ne_nil_of_isStem hw) hfree

lemma binding_of_reserved (hw : IsStem w) (h : w ∈ reservedWords) : binding w = w ++ "_" := by
  unfold binding
  rw [bindingChars_stem hw]
  exact if_pos (by simp [h])

/-- The marks and the letters that spell them out. -/
def spelledMarks : List (Text × Text) := [("?", "_q"), ("!", "_b")]

variable {m : Text × Text}

lemma spelledMarks_table (hm : m ∈ spelledMarks) :
    ((∀ b ∈ m.1, b < 0x80) ∧ (∀ b ∈ m.2, b < 0x80 ∧ isNameByte b)) ∧ '_'.toUInt8 ∈ m.2 ∧
      (m.1.map asciiChar).flatMap (bindingChar false) = m.2 := by
  have htable : (spelledMarks.all fun m => (m.1.all (· < 0x80) && m.2.all fun b => b < 0x80 && isNameByte b) &&
      (m.2.contains '_' && (m.1.map asciiChar).flatMap (bindingChar false) == m.2)) := by decide
  simpa using all_eq_true.1 htable m hm

lemma binding_marked (hw : IsStem w) (hm : m ∈ spelledMarks) : binding (w ++ m.1) = w ++ m.2 := by
  obtain ⟨⟨hascii, -⟩, hline, hspelled⟩ := spelledMarks_table hm
  refine binding_eq_of_spelled ?_ ?_ (not_mem_reservedWords_of_mem (mem_append_right w hline))
  · rw [bindingChars_stem_append hw m.1 hascii, hspelled]
  · exact append_ne_nil_of_left_ne_nil (ne_nil_of_isStem hw) m.2

/-! ## Clashes -/

/-- Two names that are spelled the same: one with a mark and one with the letters that spell it out, or a reserved
word and the word with the underscore that sets it apart. -/
inductive Clash : Text → Text → Prop
  | marked (w : Text) {m : Text × Text} (hm : m ∈ spelledMarks) : Clash (w ++ m.1) (w ++ m.2)
  | reserved {w : Text} (h : w ∈ reservedWords) : Clash w (w ++ "_")

lemma getLast?_eq_of_append_eq {x y s t : Text} (h : x ++ s = y ++ t) (hs : s ≠ []) (ht : t ≠ []) :
    s.getLast? = t.getLast? := by
  have hlast := congrArg List.getLast? h
  rwa [getLast?_append_of_ne_nil _ hs, getLast?_append_of_ne_nil _ ht] at hlast

variable {v : Text}

lemma clash_of_stems (hw : IsStem w) (hv : IsStem v) (h : binding w = binding v) : w = v ∨ Clash w v ∨ Clash v w := by
  by_cases hwr : w ∈ reservedWords
  · rw [binding_of_reserved hw hwr] at h
    by_cases hvr : v ∈ reservedWords
    · rw [binding_of_reserved hv hvr] at h
      exact .inl (append_cancel_right h)
    · rw [binding_of_free hv hvr] at h
      exact .inr (.inl (h ▸ .reserved hwr))
  · rw [binding_of_free hw hwr] at h
    by_cases hvr : v ∈ reservedWords
    · rw [binding_of_reserved hv hvr] at h
      exact .inr (.inr (h ▸ .reserved hvr))
    · rw [binding_of_free hv hvr] at h
      exact .inl h

/-- A stem has the binding of a name with a mark only if it is spelled out: an underscore behind a reserved word
ends neither. -/
lemma clash_of_stem_marked (hw : IsStem w) (hv : IsStem v) (hm : m ∈ spelledMarks)
    (h : binding w = binding (v ++ m.1)) : Clash (v ++ m.1) w := by
  rw [binding_marked hv hm] at h
  by_cases hwr : w ∈ reservedWords
  · have htable : (spelledMarks.all fun m => (ofString "_").getLast? != m.2.getLast?) = true := by decide
    have hne : m.2 ≠ [] := ne_nil_of_mem (spelledMarks_table hm).2.1
    rw [binding_of_reserved hw hwr] at h
    have hlast := getLast?_eq_of_append_eq h (by decide) hne
    have hdiffers := all_eq_true.1 htable m hm
    rw [hlast] at hdiffers
    simp at hdiffers
  · rw [binding_of_free hw hwr] at h
    exact h ▸ .marked v hm

lemma eq_of_marked (hw : IsStem w) (hv : IsStem v) {m n : Text × Text} (hm : m ∈ spelledMarks)
    (hn : n ∈ spelledMarks) (h : binding (w ++ m.1) = binding (v ++ n.1)) : w ++ m.1 = v ++ n.1 := by
  have htable : ∀ m ∈ spelledMarks, ∀ n ∈ spelledMarks, m.2.getLast? = n.2.getLast? → m = n := by decide
  rw [binding_marked hw hm, binding_marked hv hn] at h
  have hlast := getLast?_eq_of_append_eq h (ne_nil_of_mem (spelledMarks_table hm).2.1)
    (ne_nil_of_mem (spelledMarks_table hn).2.1)
  obtain rfl := htable m hm n hn hlast
  rw [append_cancel_right h]

lemma isStem_of_marked (hm : m ∈ spelledMarks) (h : IsSourceName (w ++ m.1)) : IsStem w := by
  generalize heq : w ++ m.1 = name at h
  cases h with
  | plain hname =>
    -- a mark is no byte of a stem
    have htable : (spelledMarks.all fun m => m.1.any fun b => !Lexer.isNameByte b) := by decide
    obtain ⟨b, hb, hno⟩ := any_eq_true.1 (all_eq_true.1 htable m hm)
    rw [hname.isNameByte b (heq ▸ mem_append_right w hb)] at hno
    cases hno
  | @marked v mark hv hmark =>
    have htable : ∀ mark ∈ marks, ∀ m ∈ spelledMarks, m.1 ≠ [] ∧ mark ≠ [] ∧
        (m.1.getLast? = mark.getLast? → m.1 = mark) := by decide
    obtain ⟨hm1, hne, hsame⟩ := htable mark hmark m hm
    have hmark' := hsame (getLast?_eq_of_append_eq heq hm1 hne)
    rw [hmark'] at heq
    exact append_cancel_right heq ▸ hv

lemma binding_eq_of_clash {a b : Text} (ha : IsSourceName a) (h : Clash a b) : binding a = binding b := by
  cases h with
  | @marked w m hm =>
    obtain ⟨⟨-, hletters⟩, hline, -⟩ := spelledMarks_table hm
    have hw := isStem_of_marked hm ha
    rw [binding_marked hw hm, binding_of_free (hw.append hletters)
      (not_mem_reservedWords_of_mem (mem_append_right w hline))]
  | reserved hword =>
    have htable : (reservedWords.all fun w => isName w && w.all (· < 0x80)) := by decide
    have hline : ∀ b ∈ ofString "_", b < 0x80 ∧ isNameByte b = true := by
      have hall : ((ofString "_").all fun b => decide (b < 0x80) && isNameByte b) = true := by decide
      simpa using hall
    have hw : IsStem a := by
      obtain ⟨hname, hascii⟩ := and_eq_true_iff.1 (all_eq_true.1 htable a hword)
      exact ⟨hname, ascii_of_all hascii⟩
    rw [binding_of_reserved hw hword, binding_of_free (hw.append hline)
      (not_mem_reservedWords_of_mem (mem_append_right a (by decide)))]

/-- **When two names clash.** Two names that the lexer reads, of ASCII characters, have the same binding exactly if
they are the same name or one of them is spelled as the other. -/
theorem binding_eq_iff_clash {a b : Text} (ha : Lexer.ReadsName a) (hb : Lexer.ReadsName b)
    (ha' : ∀ x ∈ a, x < 0x80) (hb' : ∀ x ∈ b, x < 0x80) :
    binding a = binding b ↔ a = b ∨ Clash a b ∨ Clash b a := by
  have hmarks : ∀ mark ∈ marks, ∃ m ∈ spelledMarks, mark = m.1 := by decide
  have hsa := ha.isSourceName ha'
  have hsb := hb.isSourceName hb'
  constructor
  · intro h
    cases hsa with
    | plain hw =>
      cases hsb with
      | plain hv => exact clash_of_stems hw hv h
      | marked hv hmark =>
        obtain ⟨m, hm, rfl⟩ := hmarks _ hmark
        exact .inr (.inr (clash_of_stem_marked hw hv hm h))
    | marked hw hmark =>
      obtain ⟨m, hm, rfl⟩ := hmarks _ hmark
      cases hsb with
      | plain hv => exact .inr (.inl (clash_of_stem_marked hv hw hm h.symm))
      | marked hv hmark' =>
        obtain ⟨n, hn, rfl⟩ := hmarks _ hmark'
        exact .inl (eq_of_marked hw hv hm hn h)
  · rintro (rfl | h | h)
    · rfl
    · exact binding_eq_of_clash hsa h
    · exact (binding_eq_of_clash hsb h).symm

/-- Names that clash in pairs. -/
def clashingLine : Text := "a? a_q new new_"

lemma readsName_clashingLine (name : Text) (h : name ∈ ([("a?" : Text), "a_q", "new", "new_"] : List Text)) :
    Lexer.ReadsName name := by
  have hall : (([("a?" : Text), "a_q", "new", "new_"] : List Text).all fun name => (lex 0 clashingLine).toOption.any
      fun tokens => tokens.any fun t => isNameKind t.kind && t.text == name) := by decide +kernel
  have hname := all_eq_true.1 hall name h
  cases hlex : lex 0 clashingLine with
  | error fault =>
    rw [hlex] at hname
    cases hname
  | ok tokens =>
    rw [hlex] at hname
    obtain ⟨t, ht, hok⟩ := any_eq_true.1 hname
    rw [and_eq_true, beq_iff_eq] at hok
    exact ⟨0, clashingLine, tokens, hlex, t, ht, hok⟩

/-- A reserved word, and the same word with an underscore. -/
theorem binding_eq_iff_clash_reserved : Lexer.ReadsName "new" ∧ Lexer.ReadsName "new_" ∧
    Clash "new" "new_" ∧ binding "new" = binding "new_" := by
  have hnew := readsName_clashingLine "new" (by decide)
  have hline := readsName_clashingLine "new_" (by decide)
  have hclash : Clash "new" "new_" := .reserved (w := "new") (by decide)
  have hiff := binding_eq_iff_clash hnew hline (ascii_of_all (by decide)) (ascii_of_all (by decide))
  exact ⟨hnew, hline, hclash, hiff.2 (.inr (.inl hclash))⟩

/-- Different names of one line with the same binding. -/
theorem binding_question_eq : Lexer.ReadsName "a?" ∧ Lexer.ReadsName "a_q" ∧ ofString "a?" ≠ "a_q" ∧
    binding "a?" = binding "a_q" := by
  have hstem : IsStem "a" := ⟨rfl, ascii_of_all (by decide)⟩
  have hmark : ofString "?" ∈ marks := by decide
  have hname : IsSourceName "a?" := .marked hstem hmark
  have hclash : Clash "a?" "a_q" := .marked "a" (m := ("?", "_q")) (by decide)
  exact ⟨readsName_clashingLine "a?" (by decide), readsName_clashingLine "a_q" (by decide), by decide,
    binding_eq_of_clash hname hclash⟩

end Transpiler.Script
