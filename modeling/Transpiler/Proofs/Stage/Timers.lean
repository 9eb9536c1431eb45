import Mathlib.Data.List.Nodup
import Mathlib.Data.List.Perm.Basic
import Transpiler.Proofs.Number.Rounding
import Transpiler.Stage.Timeline

/-!
# Timers in order

Timers are ordered by due time and number. A delay never leads back in time (`le_after`), so a timer that is
scheduled comes after all that have fired.
-/

namespace Transpiler.Stage

open List Int64

variable {κ : Type}

/-! ## The order of timers -/

namespace Timer

variable {a b c : Timer κ}

lemma before_iff : a.before b ↔ a.due.toInt < b.due.toInt ∨ a.due = b.due ∧ a.id < b.id := by
  simp [before, lt_iff_toInt_lt]

lemma before_trans (hab : a.before b) (hbc : b.before c) : a.before c := by
  rw [before_iff] at hab hbc ⊢
  rcases hab with hab | ⟨hab, hab'⟩
  · rcases hbc with hbc | ⟨hbc, -⟩
    · exact .inl (hab.trans hbc)
    · exact .inl (hbc ▸ hab)
  · rcases hbc with hbc | ⟨hbc, hbc'⟩
    · exact .inl (hab ▸ hbc)
    · exact .inr ⟨hab.trans hbc, hab'.trans hbc'⟩

/-- Of two timers with different numbers one fires before the other. -/
lemma before_of_not_before (hid : a.id ≠ b.id) (h : ¬a.before b) : b.before a := by
  rw [before_iff] at h ⊢
  obtain ⟨hdue, hsame⟩ := not_or.1 h
  rcases (Int.not_lt.1 hdue).lt_or_eq with hlt | heq
  · exact .inl hlt
  · have heq := toInt_inj.1 heq
    exact .inr ⟨heq, Nat.lt_of_le_of_ne (Nat.le_of_not_lt fun hlt => hsame ⟨heq.symm, hlt⟩) hid.symm⟩

lemma due_le_of_before (h : a.before b) : a.due ≤ b.due := by
  rw [le_iff_toInt_le]
  rcases before_iff.1 h with h | ⟨h, -⟩
  · exact h.le
  · rw [h]

end Timer

namespace Timeline

lemma perm_insert (t : Timer κ) (ts : List (Timer κ)) : (insert t ts).Perm (t :: ts) := by
  induction ts with
  | nil => exact .refl _
  | cons u rest ih =>
    rw [insert]
    split
    · exact (ih.cons u).trans (.swap t u rest)
    · exact .refl _

/-- A timer with a new number is put where it belongs. -/
lemma pairwise_insert {t : Timer κ} {ts : List (Timer κ)} (h : ts.Pairwise (·.before ·))
    (ht : ∀ u ∈ ts, u.id ≠ t.id) : (insert t ts).Pairwise (·.before ·) := by
  induction ts with
  | nil => exact pairwise_singleton _ _
  | cons u rest ih =>
    obtain ⟨hu, hrest⟩ := pairwise_cons.1 h
    rw [insert]
    split
    · next hbefore =>
      refine pairwise_cons.2 ⟨fun v hv => ?_, ih hrest fun v hv => ht v (mem_cons_of_mem u hv)⟩
      rcases mem_cons.1 ((perm_insert t rest).mem_iff.1 hv) with rfl | hv
      · exact hbefore
      · exact hu v hv
    · next hnot =>
      have htu := Timer.before_of_not_before (ht u (by simp)) hnot
      refine pairwise_cons.2 ⟨fun v hv => ?_, h⟩
      rcases mem_cons.1 hv with rfl | hv
      · exact htu
      · exact Timer.before_trans htu (hu v hv)

lemma lt_due_of_next?_eq_none {limit : Int64} {l : Timeline κ} (h : l.next? limit = none)
    (hordered : l.pending.Pairwise (·.before ·)) : ∀ t ∈ l.pending, limit < t.due := by
  intro t ht
  rw [next?] at h
  split at h
  · next hpending => rw [hpending] at ht; cases ht
  · next u rest hpending =>
    rw [hpending] at hordered ht
    split at h
    · cases h
    · next hu =>
      have hu := Int64.not_le.1 hu
      rcases mem_cons.1 ht with rfl | ht
      · exact hu
      · exact Int64.lt_of_lt_of_le hu (Timer.due_le_of_before ((pairwise_cons.1 hordered).1 t ht))

lemma next?_eq_some {limit : Int64} {l l' : Timeline κ} {t : Timer κ} (h : l.next? limit = some (t, l')) :
    ∃ rest, l.pending = t :: rest ∧ t.due ≤ limit ∧ l' = { l with now := t.due, pending := rest } := by
  rw [next?] at h
  split at h
  · cases h
  · next u rest hpending =>
    split at h
    · next hdue =>
      cases h
      exact ⟨rest, hpending, hdue, rfl⟩
    · cases h

/-! ## Delays -/

lemma isNegative_effective (ms : Binary64) : (effective ms).isNegative = false := by
  unfold effective
  split
  · rfl
  · next h => exact (Bool.or_eq_false_iff.1 (Bool.eq_false_iff.2 h)).2

/-- A delay below the bound is a number of nanoseconds in 64 bits. -/
lemma nanos_of_not_isAtLeast {ms : Binary64} (hsign : ms.isNegative = false)
    (h : isAtLeast ms (Nat.pow 2 63 / nanosPerMilli) = false) :
    ∃ n : Nat, (ms.scale nanosPerMilli).truncate?.getD 0 = n ∧ n < 2 ^ 63 := by
  cases hvalue : ms.value with
  | nan =>
    refine ⟨0, ?_, by decide⟩
    rw [Binary64.scale, hvalue]
    rfl
  | infinite negative =>
    rw [isAtLeast, hvalue, ← Binary64.isNegative_of_infinite hvalue, hsign] at h
    cases h
  | finite negative m q =>
    obtain ⟨whole, hwhole⟩ := Binary64.exists_truncate? hvalue
    rw [isAtLeast, hvalue, hwhole, Option.getD_some, decide_eq_false_iff_not, Int.not_le] at h
    have hbound : 2 * (Nat.pow 2 63 / nanosPerMilli * nanosPerMilli) + 2 ^ 10 ≤ 2 ^ 54 * 2 ^ 10 := by decide
    obtain ⟨n, hn, hlt⟩ := Binary64.truncate?_scale hsign hwhole (by decide) h (by decide) hbound
    exact ⟨n, by rw [hn, Option.getD_some], hlt⟩

lemma le_after {now : Int64} (hnow : 0 ≤ now) (ms : Binary64) : now ≤ after now (effective ms) := by
  unfold after
  split
  · exact le_maxValue now
  · next hsmall =>
    obtain ⟨n, hn, hlt⟩ := nanos_of_not_isAtLeast (isNegative_effective ms) (Bool.eq_false_iff.2 hsmall)
    rw [hn]
    dsimp only
    have hdelay : (ofInt n).toInt = n := toInt_ofInt_of_le (by omega) (by omega)
    split
    · exact le_maxValue now
    · next hfits =>
      have hroom := toInt_sub_of_le forever now hnow (le_maxValue now)
      rw [le_iff_toInt_le] at hnow
      rw [gt_iff_lt, lt_iff_toInt_lt, hroom, hdelay, forever, toInt_maxValue] at hfits
      rw [le_iff_toInt_le, toInt_add, hdelay]
      have hzero : (0 : Int64).toInt = 0 := rfl
      rw [Int.bmod_eq_of_le (by omega) (by omega)]
      omega

end Timeline

end Transpiler.Stage
