import Transpiler.Proofs.Stage.Chronicle

/-!
# The clock of a stage

Along a chronicle the clock only goes forward, as long as it is never advanced past the last time there is. Delays
are cut off at that time, but advances are not: the first one that leads past it wraps around and sets the clock to a
time before the start (`clock_onward_iff`).
-/

namespace Transpiler.Stage

open List Timeline

/-! ## Requests one after the other -/

lemma serve_append (s : Stage) (requests requests' : List Request) :
    serve s (requests ++ requests') = serve (serve s requests) requests' := foldl_append

lemma chronicle_append (s : Stage) (requests requests' : List Request) :
    chronicle s (requests ++ requests') = chronicle s requests ++ chronicle (serve s requests) requests' := by
  induction requests generalizing s with
  | nil => rfl
  | cons r rest ih =>
    rw [cons_append, chronicle, ih, chronicle, append_assoc]
    rfl

/-- The first advance that leads too far. -/
lemma exists_of_not_inRange {s : Stage} {requests : List Request} (h : ¬InRange s requests) :
    ∃ earlier d later, requests = earlier ++ .advance d :: later ∧ InRange s earlier ∧
      ¬(Request.advance d).InRange (serve s earlier) := by
  induction requests generalizing s with
  | nil => exact absurd trivial h
  | cons r rest ih =>
    by_cases hr : r.InRange s
    · obtain ⟨earlier, d, later, rfl, hearlier, hd⟩ := ih fun hrest => h ⟨hr, hrest⟩
      exact ⟨r :: earlier, d, later, rfl, ⟨hr, hearlier⟩, hd⟩
    · cases r with
      | evaluate script => exact absurd trivial hr
      | advance d => exact ⟨[], d, rest, rfl, trivial, hr⟩
      | runTimers => exact absurd trivial hr

/-! ## Advances that lead too far -/

lemma Timeline.next?_eq_none {κ : Type} {limit : Int64} {l : Timeline κ} (h : ∀ t ∈ l.pending, limit < t.due) :
    l.next? limit = none := by
  rw [next?]
  cases hpending : l.pending with
  | nil => rfl
  | cons t rest =>
    rw [hpending] at h
    exact if_neg (Int64.not_le.2 (h t mem_cons_self))

lemma fire_eq_of_next?_eq_none {limit : Int64} {s : Stage} (h : s.timeline.next? limit = none) (runs ran : Nat) :
    fire limit runs ran s = ⟨ran, none, s⟩ := by
  cases runs with
  | zero => rfl
  | succ runs => rw [fire, h]

/-- A time past the last one is one before the first. -/
lemma target_neg {now d : Int64} (hnow : 0 ≤ now)
    (hrange : ¬now.toInt + max d.toInt 0 ≤ forever.toInt) : now + max d 0 < 0 := by
  have hlt := d.toInt_lt
  have hlt' := now.toInt_lt
  have hzero : (0 : Int64).toInt = 0 := rfl
  rw [Int64.le_iff_toInt_le, hzero] at hnow
  rw [forever, Int64.toInt_maxValue] at hrange
  rw [Int64.lt_iff_toInt_lt, hzero, Int64.toInt_add, toInt_max_zero, Int.bmod_def]
  omega

/-- No timer is due before the start, so an advance that leads too far fires none and sets the clock there. -/
lemma Sound.now_advance {log : List (Moment Callback)} {s : Stage} (h : Sound log none s.timeline) {d : Int64}
    (hd : ¬(Request.advance d).InRange s) :
    (Stage.advance d s).2.2.timeline.now = s.timeline.now + max d 0 ∧ s.timeline.now + max d 0 < 0 := by
  have hneg := target_neg h.nonneg.1 hd
  have hnone : s.timeline.next? (s.timeline.now + max d 0) = none :=
    next?_eq_none fun t ht => Int64.lt_of_lt_of_le hneg (h.nonneg.2 t ht)
  rw [Stage.advance, fire_eq_of_next?_eq_none hnone]
  exact ⟨rfl, hneg⟩

/-! ## All runs -/

/-- From the start on, the clock never goes back, whatever a stage is asked to do, exactly if it is never advanced
past the last time there is; and the first advance that leads past it sets the clock to a time before the start. -/
theorem clock_onward_iff (options : Options) (requests : List Request)
    (hissued : (serve (new options) requests).timeline.issued ≤ unlimited) :
    (((0 : Int64) :: (chronicle (new options) requests).map (·.timeline.now)).Pairwise (· ≤ ·) ↔
        InRange (new options) requests) ∧
      ∀ earlier d later, requests = earlier ++ .advance d :: later → InRange (new options) earlier →
        ¬(Request.advance d).InRange (serve (new options) earlier) →
          (serve (new options) (earlier ++ [.advance d])).timeline.now =
              (serve (new options) earlier).timeline.now + max d 0 ∧
            (serve (new options) (earlier ++ [.advance d])).timeline.now < 0 := by
  have hnew : Sound [⟨none, .nothing, .start⟩] none (new options).timeline := Sound.nil.pass
  have hwraps : ∀ {earlier d}, InRange (new options) earlier →
      ¬(Request.advance d).InRange (serve (new options) earlier) →
        (serve (new options) (earlier ++ [.advance d])).timeline.now =
            (serve (new options) earlier).timeline.now + max d 0 ∧
          (serve (new options) (earlier ++ [.advance d])).timeline.now < 0 := by
    intro earlier d hearlier hd
    obtain ⟨hnow, hneg⟩ := (hnew.chronicle earlier hearlier).now_advance hd
    rw [serve_append]
    exact ⟨hnow, hnow ▸ hneg⟩
  refine ⟨⟨fun honward => ?_, fun hrange => ?_⟩, ?_⟩
  · by_contra hnot
    obtain ⟨earlier, d, later, rfl, hearlier, hd⟩ := exists_of_not_inRange hnot
    have hneg := (hwraps hearlier hd).2
    rw [serve_append] at hneg
    -- the moment after that advance is one of the chronicle
    have hmem : (⟨none, .nothing, (serve (serve (new options) earlier) [.advance d]).timeline⟩ : Moment Callback) ∈
        chronicle (new options) (earlier ++ .advance d :: later) := by
      rw [chronicle_append, chronicle, Request.record]
      simp [serve]
    have hzero := (pairwise_cons.1 honward).1 _ (mem_map_of_mem hmem)
    exact Int64.not_lt.2 hzero hneg
  · have hascending := ((hnew.chronicle requests hrange).onward hissued).ascending
    exact pairwise_map.2 hascending
  · rintro earlier d later -
    exact hwraps

/-- A run up to the last time there is: a delay that leads past it is cut off there, and so is one that begins
there. -/
def runToTheEnd : List Request :=
  let ms (n : Int) : Literal := .number (.ofInt n)
  [.advance (forever - 5000000), .evaluate [.timeout (ms 10) [.timeout (ms 1) [] []] []], .runTimers, .advance 0]

theorem clock_onward_runToTheEnd :
    (serve (new ⟨0, false⟩) runToTheEnd).timeline.issued ≤ unlimited ∧ InRange (new ⟨0, false⟩) runToTheEnd ∧
      (serve (new ⟨0, false⟩) runToTheEnd).timeline.now = forever ∧
      ((0 : Int64) :: (chronicle (new ⟨0, false⟩) runToTheEnd).map (·.timeline.now)).Pairwise (· ≤ ·) := by
  have hrun : (serve (new ⟨0, false⟩) runToTheEnd).timeline.issued ≤ unlimited ∧
      InRange (new ⟨0, false⟩) runToTheEnd ∧
      (serve (new ⟨0, false⟩) runToTheEnd).timeline.now = forever := by
    decide +kernel
  obtain ⟨hissued, hrange, hnow⟩ := hrun
  exact ⟨hissued, hrange, hnow, (clock_onward_iff ⟨0, false⟩ runToTheEnd hissued).1.2 hrange⟩

/-- Advanced by one from the last time there is, the clock goes back. -/
theorem clock_back_from_forever :
    (serve (new ⟨0, false⟩) [.advance forever, .advance 1]).timeline.now <
        (serve (new ⟨0, false⟩) [.advance forever]).timeline.now ∧
      (serve (new ⟨0, false⟩) [.advance forever, .advance 1]).timeline.now < 0 := by
  decide +kernel

end Transpiler.Stage
