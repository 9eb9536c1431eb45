import Transpiler.Proofs.Text.Utf8
import Transpiler.Text.Classes

/-!
# What trimming takes away

A text is the blank characters at its start, what is left when it is trimmed, and the blank characters at its end
(`exists_trimmed`). What is left begins with no blank character, also together with what stands behind it.
-/

namespace Transpiler.Text

open List Rune

/-- What is left of the runes of a text is read as these runes again. -/
lemma runes_ofRunes_of_suffix {rs : List Rune} {t : Text} (h : rs <:+ runes t) : runes (ofRunes rs) = rs := by
  fun_induction runes t with
  | case1 =>
    rw [suffix_nil.1 h, ofRunes, flatMap_nil, runes]
  | case2 b rest c more hc ih =>
    rcases suffix_cons_iff.1 h with rfl | h
    · have hrunes : runes (b :: rest) = .char c :: runes (rest.drop more) := by rw [runes, hc]
      rw [← hrunes, ofRunes_runes]
    · exact ih h
  | case3 b rest hb ih =>
    rcases suffix_cons_iff.1 h with rfl | h
    · have hrunes : runes (b :: rest) = .stray b :: runes rest := by rw [runes, hb]
      rw [← hrunes, ofRunes_runes]
    · exact ih h

/-- A text of blank characters. -/
abbrev AllBlank : Text → Prop := MadeOf fun c => isBlank (.char c)

lemma allBlank_ofRunes {rs : List Rune} (h : ∀ r ∈ rs, r.isBlank) : AllBlank (ofRunes rs) := by
  refine ⟨rs.map Rune.shown, ofRunes_eq_ofChars fun r hr => ?_, fun c hc => ?_⟩
  · cases r with
    | char c => rfl
    | stray b => cases h _ hr
  · obtain ⟨r, hr, rfl⟩ := mem_map.1 hc
    cases r with
    | char c => exact h _ hr
    | stray b => cases h _ hr

/-- A text without its blank ends. No blank character stands where it begins. -/
lemma exists_trimmed (t : Text) : ∃ lead trail, t = lead ++ (t.trimmed ++ trail) ∧ AllBlank lead ∧ AllBlank trail ∧
    ∀ c rest, isBlank (.char c) → t.trimmed ++ trail ≠ String.utf8EncodeChar c ++ rest := by
  obtain ⟨body, hbody⟩ : ∃ body, (runes t).dropWhile isBlank = body := ⟨_, rfl⟩
  have hfront : (runes t).takeWhile isBlank ++ body = runes t := hbody ▸ takeWhile_append_dropWhile
  have hback : (body.reverse.dropWhile isBlank).reverse ++ (body.reverse.takeWhile isBlank).reverse = body := by
    rw [← reverse_append, takeWhile_append_dropWhile, reverse_reverse]
  have htrimmed : t.trimmed = ofRunes (body.reverse.dropWhile isBlank).reverse := by rw [trimmed, hbody]
  have hrest : t.trimmed ++ ofRunes (body.reverse.takeWhile isBlank).reverse = ofRunes body := by
    rw [htrimmed, ofRunes, ofRunes, ← flatMap_append, hback]
    rfl
  refine ⟨ofRunes ((runes t).takeWhile isBlank), ofRunes (body.reverse.takeWhile isBlank).reverse, ?_,
    allBlank_ofRunes (all_eq_true.1 all_takeWhile), allBlank_ofRunes fun r hr => ?_, ?_⟩
  · have ht := ofRunes_runes t
    rw [← hfront, ofRunes, flatMap_append] at ht
    rw [hrest]
    exact ht.symm
  · exact all_eq_true.1 all_takeWhile r (mem_reverse.1 hr)
  · intro c rest hblank heq
    -- the blank character would be the first rune of what is left
    have hread : runes (ofRunes body) = body := runes_ofRunes_of_suffix ⟨_, hfront⟩
    rw [hrest] at heq
    rw [heq, runes_utf8EncodeChar_append] at hread
    have hfirst := head?_dropWhile_not isBlank (runes t)
    rw [hbody, ← hread] at hfirst
    simp [hblank] at hfirst

/-- A text with no blank character at its ends is left as it is. -/
lemma trimmed_ofChars {cs : List Char} (hhead : ∀ c ∈ cs.head?, isBlank (.char c) = false)
    (hlast : ∀ c ∈ cs.getLast?, isBlank (.char c) = false) : (ofChars cs).trimmed = ofChars cs := by
  have hdrop : ∀ rs : List Rune, (∀ r ∈ rs.head?, r.isBlank = false) → rs.dropWhile isBlank = rs := by
    intro rs h
    cases rs with
    | nil => rfl
    | cons r rs => rw [dropWhile_cons, h r rfl, if_neg Bool.false_ne_true]
  rw [trimmed, runes_ofChars, hdrop (cs.map .char), hdrop, reverse_reverse, ofRunes, ofChars, flatMap_map]
  · rfl
  · simpa [← map_reverse] using hlast
  · simpa using hhead

end Transpiler.Text
