import Transpiler.Proofs.Text.Utf8
import Transpiler.Proofs.Wire.Exact

/-!
# What a draft reads as

A draft is written step by step: items are put behind each other, words are reserved, and reserved words are filled,
in any order and as often as one likes. What is then read, type by type, are the items in the order in which they were
put, with each reserved word in its place and of the value that it was filled with last (`Draft.items`). The main
result is `Draft.read_written`.
-/

namespace Transpiler.Wire

open List Item Nat Read

/-! ## Items -/

/-- What can be read back: a name has to be well-formed, and its length has to fit into a word. -/
def Item.Sound : Item → Prop
  | .name t => t.isUtf8 ∧ t.length < 2 ^ 32
  | _ => True

lemma Item.takes_read {item : Item} (h : item.Sound) : Read.Takes item.type.read item.write item := by
  cases item with
  | byte b => exact (takes_byte b).map _
  | bytes t => exact (takes_bytes rfl).map bytes
  | u32 n => exact (takes_u32 n).map _
  | u64 n => exact (takes_u64 n).map _
  | s64 n => exact (takes_s64 n).map _
  | name t => exact (takes_name h.1 h.2).map _
  | u32le n => exact (takes_u32le n).map _
  | f64le x => exact (takes_f64le x).map _

lemma Item.takes_mapM {items : List Item} (h : ∀ item ∈ items, item.Sound) :
    Read.Takes ((items.map type).mapM ItemType.read) (items.flatMap write) items := by
  induction items with
  | nil =>
    rw [map_nil, mapM_nil]
    exact .pure []
  | cons item rest ih =>
    obtain ⟨hitem, hrest⟩ := forall_mem_cons.1 h
    rw [map_cons, mapM_cons]
    exact (takes_read hitem).bind ((ih hrest).map fun items => item :: items)

namespace Draft

/-! ## Steps -/

/-- A step in writing a draft. -/
inductive Step where
  | put (item : Item)
  | reserve
  | fill (i : Nat) (n : UInt32)

/-- Takes a step. -/
def Step.run (d : Draft) : Step → Draft
  | .put item => d.put item
  | .reserve => d.reserve
  | .fill i n => d.fill i n

/-- The draft of the steps. -/
def written (steps : List Step) : Draft := steps.foldl Step.run empty

/-- What a step fills the `i`-th reserved word with. -/
def Step.filling? (i : Nat) : Step → Option UInt32
  | .fill j n => if j = i then some n else none
  | _ => none

/-- What the `i`-th reserved word is filled with last; a word that is not filled is zero. -/
def lastFilling (i : Nat) (steps : List Step) : UInt32 := (steps.reverse.findSome? (Step.filling? i)).getD 0

/-- The items of a draft. A reserved word is filled by later steps only; `reserved` counts the words before. -/
def items : (reserved : Nat) → List Step → List Item
  | _, [] => []
  | k, .put item :: rest => item :: items k rest
  | k, .reserve :: rest => .u32le (lastFilling k rest) :: items (k + 1) rest
  | k, .fill _ _ :: rest => items k rest

/-- The places reserved. -/
def places : (offset : Nat) → List Step → List Nat
  | _, [] => []
  | offset, .put item :: rest => places (offset + item.write.length) rest
  | offset, .reserve :: rest => offset :: places (offset + 4) rest
  | offset, .fill _ _ :: rest => places offset rest

lemma lastFilling_concat (i : Nat) (steps : List Step) (s : Step) :
    lastFilling i (steps ++ [s]) = (s.filling? i).getD (lastFilling i steps) := by
  rw [lastFilling, reverse_append, reverse_singleton, singleton_append, findSome?_cons]
  cases s.filling? i with
  | none => rfl
  | some n => rfl

lemma length_u32le (n : UInt32) : (Write.u32le n).length = 4 := length_littleEndian 4 _

/-! ## One more step -/

section

variable (k offset : Nat) (steps : List Step)

lemma items_concat {s : Step} (hs : ∀ i, s.filling? i = none) :
    items k (steps ++ [s]) = items k steps ++ items 0 [s] := by
  induction steps generalizing k with
  | nil =>
    cases s with
    | put x => rfl
    | reserve => rfl
    | fill i n => rfl
  | cons t rest ih =>
    cases t with
    | put x => simp only [cons_append, items, ih]
    | reserve => simp only [cons_append, items, ih, lastFilling_concat, hs, Option.getD_none]
    | fill i n => exact ih k

lemma places_concat_reserve :
    places offset (steps ++ [.reserve]) = places offset steps ++ [offset + ((items k steps).flatMap write).length] := by
  induction steps generalizing k offset with
  | nil => rfl
  | cons s rest ih =>
    cases s with
    | put x =>
      simp only [cons_append, places, items, ih k, flatMap_cons, length_append, add_assoc]
    | reserve =>
      simp only [cons_append, places, items, ih (k + 1), flatMap_cons, write, length_append, length_u32le, add_assoc]
    | fill i n => exact ih k offset

lemma places_concat_of_ne {s : Step} (h : s ≠ .reserve) : places offset (steps ++ [s]) = places offset steps := by
  induction steps generalizing offset with
  | nil =>
    cases s with
    | put x => rfl
    | reserve => exact absurd rfl h
    | fill i n => rfl
  | cons t rest ih =>
    cases t with
    | put x => exact ih _
    | reserve => simp only [cons_append, places, ih]
    | fill i n => exact ih _

/-- Words that are not among those reserved here are of no account. -/
lemma items_concat_fill_of_none {i : Nat} (h : ∀ j, i = k + j → (places offset steps)[j]? = none) (n : UInt32) :
    items k (steps ++ [.fill i n]) = items k steps := by
  induction steps generalizing k offset with
  | nil => rfl
  | cons s rest ih =>
    cases s with
    | put x => simp only [cons_append, items, ih k _ h]
    | reserve =>
      have hne : ¬i = k := fun heq => Option.some_ne_none offset (h 0 heq)
      have hrest := ih (k + 1) (offset + 4) fun j hj => h (j + 1) (by omega)
      simp only [cons_append, items, hrest, lastFilling_concat, Step.filling?, if_neg hne, Option.getD_none]
    | fill j m => exact ih k _ h

end

/-- Filling a word replaces its four bytes by others and keeps what stands before and behind them. -/
lemma items_concat_fill {k offset j place : Nat} {steps : List Step} (h : (places offset steps)[j]? = some place)
    (n : UInt32) : ∃ before word after, (items k steps).flatMap write = before ++ word ++ after ∧
      offset + before.length = place ∧ word.length = 4 ∧
      (items k (steps ++ [.fill (k + j) n])).flatMap write = before ++ Write.u32le n ++ after := by
  induction steps generalizing k offset j with
  | nil => cases h
  | cons s rest ih =>
    cases s with
    | put x =>
      obtain ⟨before, word, after, hbytes, hplace, hword, hfilled⟩ := ih (k := k) h
      refine ⟨x.write ++ before, word, after, ?_, ?_, hword, ?_⟩
      · simp only [items, flatMap_cons, hbytes, append_assoc]
      · rw [length_append, ← add_assoc, hplace]
      · simp only [cons_append, items, flatMap_cons, hfilled, append_assoc]
    | reserve =>
      cases j with
      | zero =>
        have hrest := items_concat_fill_of_none (k + 1) 0 rest (i := k) (fun j hj => by omega) n
        refine ⟨[], Write.u32le (lastFilling k rest), (items (k + 1) rest).flatMap write, rfl,
          Option.some.inj h, length_u32le _, ?_⟩
        simp only [cons_append, items, flatMap_cons, write, lastFilling_concat, Step.filling?,
          add_zero, hrest, if_pos, Option.getD_some, nil_append]
      | succ j =>
        obtain ⟨before, word, after, hbytes, hplace, hword, hfilled⟩ := ih (k := k + 1) h
        have hne : ¬k + (j + 1) = k := by omega
        rw [add_right_comm, add_assoc] at hfilled
        refine ⟨Write.u32le (lastFilling k rest) ++ before, word, after, ?_, ?_, hword, ?_⟩
        · simp only [items, flatMap_cons, write, hbytes, append_assoc]
        · rw [length_append, length_u32le, ← add_assoc, hplace]
        · simp only [cons_append, items, flatMap_cons, write, lastFilling_concat, Step.filling?,
            if_neg hne, Option.getD_none, hfilled, append_assoc]
    | fill i m => exact ih h

/-! ## Drafts -/

lemma patch_eq {before word : Text} (after : Text) (hword : word.length = 4) (n : UInt32) :
    Write.patch (before ++ word ++ after) before.length n = before ++ Write.u32le n ++ after := by
  have hlength : before.length + 4 = (before ++ word).length := by rw [length_append, hword]
  rw [Write.patch, hlength, drop_left, append_assoc before, take_left]

/-- A draft holds the bytes of its items, and it knows where the reserved words stand. The last step decides: only a
filling changes what is there already. -/
lemma written_eq (steps : List Step) : written steps = ⟨(items 0 steps).flatMap write, places 0 steps⟩ := by
  induction steps using List.reverseRecOn with
  | nil => rfl
  | append_singleton steps s ih =>
    have hlast : written (steps ++ [s]) = s.run (written steps) := by
      rw [written, foldl_append]
      rfl
    rw [hlast, ih]
    cases s with
    | put item =>
      rw [items_concat 0 steps fun _ => rfl, places_concat_of_ne 0 steps (by simp), flatMap_append]
      simp only [Step.run, put, items, flatMap_singleton]
    | reserve =>
      rw [items_concat 0 steps fun _ => rfl, places_concat_reserve 0 0, flatMap_append, zero_add]
      rfl
    | fill i n =>
      rw [places_concat_of_ne 0 steps (by simp), Step.run, fill]
      cases hplace : (places 0 steps)[i]? with
      | none =>
        rw [items_concat_fill_of_none 0 0 steps (fun j hj => ?_) n]
        rwa [← zero_add j, ← hj]
      | some place =>
        obtain ⟨before, word, after, hbytes, rfl, hword, hfilled⟩ := items_concat_fill (k := 0) hplace n
        rw [zero_add] at hfilled
        simp only [hbytes, hfilled, zero_add, patch_eq after hword]

lemma sound_of_mem_items {steps : List Step} (h : ∀ item, .put item ∈ steps → item.Sound) (k : Nat) :
    ∀ item ∈ items k steps, item.Sound := by
  induction steps generalizing k with
  | nil => exact forall_mem_nil _
  | cons s rest ih =>
    have hrest := ih fun item hitem => h item (mem_cons_of_mem _ hitem)
    cases s with
    | put x => exact forall_mem_cons.2 ⟨h x mem_cons_self, hrest k⟩
    | reserve => exact forall_mem_cons.2 ⟨trivial, hrest (k + 1)⟩
    | fill i n => exact hrest k

/-- **What was written is read back.** However a draft was written, from its bytes with anything behind them the types
of its items are read without a fault, and give the items. A reserved word has the value that it was filled with
last. Filling it once more makes it read as the new value and changes no other byte. -/
theorem read_written (steps : List Step) (h : ∀ item, .put item ∈ steps → item.Sound) :
    (∀ pos suffix, ((items 0 steps).map type).mapM ItemType.read ⟨pos, (written steps).bytes ++ suffix⟩ =
      .ok (items 0 steps) ⟨pos + (written steps).bytes.length, suffix⟩) ∧
    ∀ i n place, (written steps).reserved[i]? = some place →
      ((written steps).fill i n).bytes.length = (written steps).bytes.length ∧
      (∀ j, j < place ∨ place + 4 ≤ j → ((written steps).fill i n).bytes[j]? = (written steps).bytes[j]?) ∧
      u32le ⟨place, ((written steps).fill i n).bytes.drop place⟩ =
        .ok n ⟨place + 4, ((written steps).fill i n).bytes.drop (place + 4)⟩ := by
  have hitems := takes_mapM (sound_of_mem_items h 0)
  refine ⟨fun pos suffix => ?_, fun i n place hplace => ?_⟩
  · rw [written_eq]
    exact hitems pos suffix
  · have hfill : (written steps).fill i n = written (steps ++ [.fill i n]) := by
      rw [written, written, foldl_append]
      rfl
    rw [hfill, written_eq, written_eq]
    rw [written_eq] at hplace
    obtain ⟨before, word, after, hbytes, rfl, hword, hfilled⟩ := items_concat_fill (k := 0) hplace n
    rw [zero_add] at hfilled
    simp only [hbytes, hfilled, zero_add]
    refine ⟨?_, fun j hj => ?_, ?_⟩
    · simp only [length_append, length_u32le, hword]
    · rcases hj with hj | hj
      · simp only [append_assoc, getElem?_append_left hj]
      · rw [getElem?_append_right (by simpa [length_u32le] using hj), getElem?_append_right (by simpa [hword] using hj)]
        simp only [length_append, length_u32le, hword]
    · have hdrop : before.length + 4 = (before ++ Write.u32le n).length := by rw [length_append, length_u32le]
      rw [hdrop, drop_left, append_assoc, drop_left, takes_u32le, ← hdrop, length_u32le]

/-- A word that is filled twice, the least of all numbers, and a name of two bytes. -/
def sample : List Step :=
  [.reserve, .put (.s64 Int64.minValue), .fill 0 7, .put (.name (Text.ofChars ['é'])), .fill 0 9]

theorem read_written_sample :
    [ItemType.u32le, .s64, .name].mapM ItemType.read ⟨0, (written sample).bytes ++ [1]⟩ =
      .ok [.u32le 9, .s64 Int64.minValue, .name (Text.ofChars ['é'])] ⟨0 + (written sample).bytes.length, [1]⟩ := by
  have hsound : ∀ item, .put item ∈ sample → item.Sound := by
    intro item hitem
    simp only [sample, mem_cons, Step.put.injEq, reduceCtorEq, not_mem_nil, false_or, or_false] at hitem
    rcases hitem with rfl | rfl
    · trivial
    · exact ⟨(Text.isUtf8_iff _).2 ⟨_, rfl⟩, by decide⟩
  exact (read_written sample hsound).1 0 [1]

end Draft

end Transpiler.Wire
