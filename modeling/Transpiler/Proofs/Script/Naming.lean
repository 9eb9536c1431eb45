import Transpiler.Proofs.Script.Quoting

/-!
# Names in generated code

A name of the generated code is an identifier. Whatever the source calls a thing, its binding is an identifier that is
not reserved. A property keeps its name, after a dot or in front of a colon if the name is an identifier and as a
string literal if not, so two properties that differ stay apart (`names_wellFormed`).
-/

namespace Transpiler.Script

open List Text

/-! ## Identifiers -/

/-- A character that can stand in an identifier after the first. -/
def IsNameChar (c : Char) : Prop := isNameStart c ∨ isDecimalDigit c

/-- An identifier, as characters and not as bytes. -/
def IsIdentifier (t : Text) : Prop :=
  ∃ c cs, t = ofChars (c :: cs) ∧ isNameStart c ∧ ∀ d ∈ cs, IsNameChar d

lemma IsIdentifier.append {t u : Text} (h : IsIdentifier t) (hu : Text.MadeOf IsNameChar u) :
    IsIdentifier (t ++ u) := by
  obtain ⟨c, cs, rfl, hc, hcs⟩ := h
  obtain ⟨ds, rfl, hds⟩ := hu
  refine ⟨c, cs ++ ds, ?_, hc, forall_mem_append.2 ⟨hcs, hds⟩⟩
  rw [← cons_append, ofChars_append]

lemma isProperty_iff (name : Text) : isProperty name ↔ IsIdentifier name := by
  constructor
  · intro h
    unfold isProperty at h
    cases hrs : name.runes with
    | nil => simp [hrs] at h
    | cons r rs =>
      simp only [hrs, map_cons, Bool.and_eq_true, all_eq_true, Bool.or_eq_true] at h
      obtain ⟨hfirst, hrest⟩ := h
      refine ⟨r.shown, rs.map Rune.shown, ?_, hfirst, hrest⟩
      -- a rune that can stand in a name is a character
      have hchars : ∀ r' ∈ r :: rs, r'.bytes = String.utf8EncodeChar r'.shown := by
        intro r' hr'
        rcases mem_cons.1 hr' with rfl | hr'
        · exact bytes_of_name (.inl hfirst)
        · exact bytes_of_name (hrest _ (mem_map_of_mem hr'))
      rw [← map_cons, ← ofRunes_eq_ofChars hchars, ← hrs, ofRunes_runes]
  · rintro ⟨c, cs, rfl, hc, hcs⟩
    have hshown : (runes (ofChars (c :: cs))).map Rune.shown = c :: cs := by
      rw [runes_ofChars, map_map]
      exact map_id _
    unfold isProperty
    rw [hshown]
    simpa [hc, IsNameChar] using hcs

/-! ## Bindings -/

/-- What a character of a source name is spelled as: characters of a name, and at the start of one that can
start it. -/
lemma exists_chars_bindingChar (first : Bool) (c : Char) : ∃ d ds, bindingChar first c = ofChars (d :: ds) ∧
    (first → isNameStart d) ∧ ∀ e ∈ d :: ds, IsNameChar e := by
  have hword : ∀ {ds : List Char}, (ds.all isNameStart) → ∀ e ∈ ds, IsNameChar e := by
    intro ds hds e he
    exact .inl (all_eq_true.1 hds e he)
  unfold bindingChar
  split_ifs with hq hb hset hstart hdigit
  · exact ⟨'_', ['q'], rfl, fun _ => rfl, hword (by decide)⟩
  · exact ⟨'_', ['b'], rfl, fun _ => rfl, hword (by decide)⟩
  · exact ⟨'_', ['s', 'e', 't'], rfl, fun _ => rfl, hword (by decide)⟩
  · exact ⟨c, [], by simp [ofChars], fun _ => hstart, hword (by simpa using hstart)⟩
  · obtain ⟨hlater, hdigit⟩ := Bool.and_eq_true_iff.1 hdigit
    refine ⟨c, [], by simp [ofChars], ?_, ?_⟩
    · rintro rfl
      cases hlater
    · intro e he
      rw [mem_singleton.1 he]
      exact .inr hdigit
  · exact ⟨'_', [], rfl, fun _ => rfl, hword (by decide)⟩

lemma isIdentifier_bindingChars {cs : List Char} (h : cs ≠ []) : IsIdentifier (bindingChars cs) := by
  cases cs with
  | nil => exact absurd rfl h
  | cons c cs =>
    obtain ⟨d, ds, hc, hfirst, hds⟩ := exists_chars_bindingChar true c
    have hstart : IsIdentifier (bindingChar true c) :=
      ⟨d, ds, hc, hfirst rfl, fun e he => hds e (mem_cons_of_mem d he)⟩
    have hlater : Text.MadeOf IsNameChar (cs.flatMap (bindingChar false)) := by
      refine .flatMap (fun c => ?_) cs
      obtain ⟨d, ds, hc, -, hds⟩ := exists_chars_bindingChar false c
      exact ⟨d :: ds, hc, hds⟩
    exact hstart.append hlater

lemma isIdentifier_binding (name : Text) : IsIdentifier (binding name) := by
  have hmark : Text.MadeOf IsNameChar "_" := .singleton (c := '_') (.inl rfl)
  unfold binding
  dsimp only
  cases hcs : name.runes.map Rune.shown with
  | nil => exact ⟨'_', [], rfl, rfl, by simp⟩
  | cons c cs =>
    have hspelled : IsIdentifier (bindingChars (c :: cs)) := isIdentifier_bindingChars (cons_ne_nil c cs)
    split_ifs
    · exact hspelled.append hmark
    · exact hspelled

/-! ## Properties -/

lemma ne_quote_of_isIdentifier {name : Text} (h : IsIdentifier name) (t : Text) : name ≠ quote t := by
  rintro rfl
  have hword := (isWord_of_isProperty ((isProperty_iff _).2 h)).bytes '"' (by simp [quote_eq])
  exact absurd hword (by decide)

lemma member_injOn {name other : Text} (hname : name.isUtf8) (hother : other.isUtf8)
    (h : member name = member other) : name = other := by
  unfold member at h
  split_ifs at h
  · exact append_cancel_left h
  · cases (List.cons.inj h).1
  · cases (List.cons.inj h).1
  · exact quote_injOn hname hother (append_cancel_left (append_cancel_right h))

lemma propertyKey_injOn {name other : Text} (hname : name.isUtf8) (hother : other.isUtf8)
    (h : propertyKey name = propertyKey other) : name = other := by
  unfold propertyKey at h
  split_ifs at h with hn ho ho
  · exact h
  · exact absurd h (ne_quote_of_isIdentifier ((isProperty_iff name).1 hn) other)
  · exact absurd h.symm (ne_quote_of_isIdentifier ((isProperty_iff other).1 ho) name)
  · exact quote_injOn hname hother h

/-- **Names are well-formed.** The binding of any name is an identifier that is not reserved. A property is an
identifier after a dot, or the literal of its name in brackets; a key is the identifier itself, or the literal
of its name. Well-formed names are kept apart by both. -/
theorem names_wellFormed (name : Text) :
    (binding name ≠ [] ∧ IsIdentifier (binding name) ∧ binding name ∉ reservedWords) ∧
    (IsIdentifier name ∧ member name = "." ++ name ∨ ¬ IsIdentifier name ∧ member name = "[" ++ quote name ++ "]") ∧
    (IsIdentifier name ∧ propertyKey name = name ∨ ¬ IsIdentifier name ∧ propertyKey name = quote name) ∧
    ∀ other : Text, name.isUtf8 = true → other.isUtf8 = true →
      (member name = member other → name = other) ∧ (propertyKey name = propertyKey other → name = other) := by
  refine ⟨⟨(isWord_binding name).ne_nil, isIdentifier_binding name, binding_not_mem_reservedWords name⟩, ?_, ?_, ?_⟩
  · by_cases h : isProperty name = true
    · exact .inl ⟨(isProperty_iff name).1 h, if_pos h⟩
    · exact .inr ⟨fun hid => h ((isProperty_iff name).2 hid), if_neg h⟩
  · by_cases h : isProperty name = true
    · exact .inl ⟨(isProperty_iff name).1 h, if_pos h⟩
    · exact .inr ⟨fun hid => h ((isProperty_iff name).2 hid), if_neg h⟩
  · intro other hname hother
    exact ⟨member_injOn hname hother, propertyKey_injOn hname hother⟩

/-- A letter beyond ASCII, with a mark behind the name and without. -/
theorem names_wellFormed_accented :
    let name : Text := "naïve?"
    let other : Text := "naïve"
    name.isUtf8 = true ∧ other.isUtf8 = true ∧ IsIdentifier (binding name) ∧ member name ≠ member other ∧
      propertyKey name ≠ propertyKey other := by
  intro name other
  have hname : name.isUtf8 = true := (isUtf8_iff name).2 ⟨['n', 'a', 'ï', 'v', 'e', '?'], by decide⟩
  have hother : other.isUtf8 = true := (isUtf8_iff other).2 ⟨['n', 'a', 'ï', 'v', 'e'], by decide⟩
  have hne : name ≠ other := by decide
  obtain ⟨⟨-, hbinding, -⟩, -, -, hapart⟩ := names_wellFormed name
  obtain ⟨hmember, hkey⟩ := hapart other hname hother
  exact ⟨hname, hother, hbinding, fun h => hne (hmember h), fun h => hne (hkey h)⟩

end Transpiler.Script
