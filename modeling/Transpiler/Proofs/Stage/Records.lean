import Mathlib.Data.List.Nodup
import Mathlib.Data.List.Pairwise
import Transpiler.Proofs.Stage.Timers
import Transpiler.Stage.Basic

/-!
# Records of timers

A record is a list of moments: at each of them a timer fires, is scheduled or is cleared, or nothing of that
kind happens. `Sound` relates a record to the timeline it led to. Each thing that can happen on a timeline
keeps it, so it holds of every run.
-/

namespace Transpiler.Stage

open List

variable {κ : Type}

/-- What happens to timers at a moment. -/
inductive Deed (κ : Type) where
  | fired (t : Timer κ)
  | scheduled (t : Timer κ)
  | cleared (id : Int)
  | nothing

/-- A moment of a run: the timer whose callback is running, what happens, and the timeline afterwards. -/
structure Moment (κ : Type) where
  running : Option (Timer κ)
  deed : Deed κ
  timeline : Timeline κ

/-- The timer fired. -/
def Deed.fired? : Deed κ → Option (Timer κ)
  | .fired t => some t
  | _ => none

/-- The timer scheduled. -/
def Deed.scheduled? : Deed κ → Option (Timer κ)
  | .scheduled t => some t
  | _ => none

/-- The timers fired. -/
def firedIn (log : List (Moment κ)) : List (Timer κ) := log.filterMap (·.deed.fired?)

/-- The timers scheduled. -/
def scheduledIn (log : List (Moment κ)) : List (Timer κ) := log.filterMap (·.deed.scheduled?)

/-- The timer that a call schedules. -/
def Timeline.timer (ms : Binary64) (callback : κ) (l : Timeline κ) : Timer κ :=
  ⟨after l.now (effective ms), l.issued + 1, callback⟩

/-- While a timer runs the clock is at its due time, and no pending timer is overdue. The latter holds as long
as timers can be numbered in 64 bits: `advance` gives up after that many. -/
structure Timely (running : Option (Timer κ)) (l : Timeline κ) : Prop where
  onTime : ∀ t ∈ running, l.now = t.due
  notOverdue : l.issued ≤ unlimited → ∀ t ∈ l.pending, l.now ≤ t.due

/-- The clock has not gone back from one moment to the next, nor since the last one. -/
structure Onward (log : List (Moment κ)) (l : Timeline κ) : Prop where
  ascending : log.Pairwise fun m n => m.timeline.now ≤ n.timeline.now
  reached : ∀ m ∈ log, m.timeline.now ≤ l.now

lemma Onward.concat {log : List (Moment κ)} {l : Timeline κ} {m : Moment κ} (h : Onward log l)
    (hnow : l.now ≤ m.timeline.now) : Onward (log ++ [m]) m.timeline := by
  have hreached : ∀ n ∈ log, n.timeline.now ≤ m.timeline.now := fun n hn => Int64.le_trans (h.reached n hn) hnow
  refine ⟨pairwise_append.2 ⟨h.ascending, pairwise_singleton _ _, ?_⟩, ?_⟩
  · intro n hn m' hm'
    obtain rfl := mem_singleton.1 hm'
    exact hreached n hn
  · refine forall_mem_append.2 ⟨hreached, ?_⟩
    exact forall_mem_singleton.2 (Int64.le_refl _)

/-- After `log` the timeline is `l`, and a callback of `running` is being run. -/
structure Sound (log : List (Moment κ)) (running : Option (Timer κ)) (l : Timeline κ) : Prop where
  numbered : (scheduledIn log).map (·.id) = List.range' 1 l.issued
  known : ∀ t ∈ firedIn log ++ l.pending, t ∈ scheduledIn log
  /-- A timer that fires only moves from one part of this list to the other. -/
  ordered : (firedIn log ++ l.pending).Pairwise (·.before ·)
  past : ∀ t ∈ firedIn log, t.due ≤ l.now
  nonneg : 0 ≤ l.now ∧ ∀ t ∈ l.pending, 0 ≤ t.due
  timely : Timely running l
  /-- This too holds as long as timers can be numbered in 64 bits: one that is overdue sets the clock back. -/
  onward : l.issued ≤ unlimited → Onward log l
  always : ∀ m ∈ log, Timely m.running m.timeline
  begun : ∀ m ∈ log, ∀ t, m.deed = .fired t → m.running = some t
  cleared : ∀ earlier m later id, log = earlier ++ m :: later → m.deed = .cleared id →
    ∀ t ∈ scheduledIn earlier, (t.id : Int) = id → t ∉ firedIn later ++ l.pending

@[simp] lemma firedIn_append (log log' : List (Moment κ)) :
    firedIn (log ++ log') = firedIn log ++ firedIn log' := filterMap_append

@[simp] lemma scheduledIn_append (log log' : List (Moment κ)) :
    scheduledIn (log ++ log') = scheduledIn log ++ scheduledIn log' := filterMap_append

namespace Sound

variable {log : List (Moment κ)} {running : Option (Timer κ)} {l : Timeline κ}

lemma nil : Sound ([] : List (Moment κ)) none .start where
  numbered := rfl
  known := nofun
  ordered := .nil
  past := nofun
  nonneg := ⟨Int64.le_refl 0, nofun⟩
  timely := ⟨nofun, nofun⟩
  onward := fun _ => ⟨.nil, nofun⟩
  always := nofun
  begun := nofun
  cleared := by
    intro earlier m later id h
    simp at h

/-! ## What a sound record tells -/

variable (h : Sound log running l)

include h

lemma id_le {t : Timer κ} (ht : t ∈ scheduledIn log) : t.id ≤ l.issued := by
  have hid : t.id ∈ List.range' 1 l.issued := h.numbered ▸ mem_map_of_mem ht
  have := mem_range'_1.1 hid
  omega

lemma nodup_ids : ((firedIn log ++ l.pending).map (·.id)).Nodup := by
  rw [List.Nodup, pairwise_map]
  refine h.ordered.imp_of_mem fun {a b} ha hb hbefore hid => ?_
  have hinj := inj_on_of_nodup_map (h.numbered ▸ nodup_range')
  obtain rfl : a = b := hinj (h.known a ha) (h.known b hb) hid
  rcases Timer.before_iff.1 hbefore with hlt | ⟨-, hlt⟩
  · exact Int.lt_irrefl _ hlt
  · exact Nat.lt_irrefl _ hlt

lemma length_le : (firedIn log).length + l.pending.length ≤ l.issued := by
  have hsub : (firedIn log ++ l.pending).map (·.id) ⊆ List.range' 1 l.issued := by
    intro i hi
    obtain ⟨t, ht, rfl⟩ := mem_map.1 hi
    exact h.numbered ▸ mem_map_of_mem (h.known t ht)
  have hle := (subperm_of_subset h.nodup_ids hsub).length_le
  simpa using hle

lemma id_lt_timer (ms : Binary64) (callback : κ) {t : Timer κ}
    (ht : t ∈ firedIn log ++ l.pending) : t.id < (l.timer ms callback).id :=
  Nat.lt_succ_of_le (h.id_le (h.known t ht))

/-- A timer is due no earlier than the clock, where all that have fired are due at the latest. -/
lemma before_timer (ms : Binary64) (callback : κ) {t : Timer κ}
    (ht : t ∈ firedIn log) : t.before (l.timer ms callback) := by
  have hle : t.due.toInt ≤ (l.timer ms callback).due.toInt :=
    Int64.le_iff_toInt_le.1 (Int64.le_trans (h.past t ht) (Timeline.le_after h.nonneg.1 ms))
  rw [Timer.before_iff]
  rcases hle.lt_or_eq with hlt | heq
  · exact .inl hlt
  · exact .inr ⟨Int64.toInt_inj.1 heq, h.id_lt_timer ms callback (mem_append_left _ ht)⟩

lemma pending_ordered : l.pending.Pairwise (·.before ·) :=
  (pairwise_append.1 h.ordered).2.1

/-! ## What keeps a record sound -/

/-- What was cleared stays cleared when nothing comes up that was known before. -/
lemma cleared_concat {m : Moment κ} {l' : Timeline κ}
    (hnew : ∀ t ∈ firedIn [m] ++ l'.pending, t ∈ scheduledIn log → t ∈ l.pending)
    (hcleared : ∀ id, m.deed = .cleared id → ∀ t ∈ l'.pending, (t.id : Int) ≠ id) :
    ∀ earlier n later id, log ++ [m] = earlier ++ n :: later → n.deed = .cleared id →
      ∀ t ∈ scheduledIn earlier, (t.id : Int) = id → t ∉ firedIn later ++ l'.pending := by
  intro earlier n later id hlog hdeed t ht hid hmem
  rcases eq_nil_or_concat later with rfl | ⟨later, n', rfl⟩
  · obtain ⟨rfl, hm⟩ := append_inj' hlog rfl
    obtain rfl := singleton_inj.1 hm
    exact hcleared id hdeed t hmem hid
  · rw [concat_eq_append, ← cons_append, ← append_assoc] at hlog
    obtain ⟨rfl, hn⟩ := append_inj' hlog rfl
    obtain rfl := singleton_inj.1 hn
    have hknown : t ∈ scheduledIn (earlier ++ n :: later) := by
      rw [scheduledIn_append]
      exact mem_append_left _ ht
    rw [concat_eq_append, firedIn_append, append_assoc] at hmem
    refine h.cleared earlier n later id rfl hdeed t ht hid ?_
    rcases mem_append.1 hmem with hmem | hmem
    · exact mem_append_left _ hmem
    · exact mem_append_right _ (hnew t hmem hknown)

lemma always_concat {m : Moment κ} (hm : Timely m.running m.timeline) : ∀ n ∈ log ++ [m], Timely n.running n.timeline :=
  forall_mem_append.2 ⟨h.always, by simpa using hm⟩

lemma begun_concat {m : Moment κ} (hm : ∀ t, m.deed = .fired t → m.running = some t) :
    ∀ n ∈ log ++ [m], ∀ t, n.deed = .fired t → n.running = some t :=
  forall_mem_append.2 ⟨h.begun, by simpa using hm⟩

lemma pass : Sound (log ++ [⟨running, .nothing, l⟩]) running l := by
  have hfired : firedIn (log ++ [⟨running, .nothing, l⟩]) = firedIn log := by simp [firedIn, Deed.fired?]
  have hscheduled : scheduledIn (log ++ [⟨running, .nothing, l⟩]) = scheduledIn log := by
    simp [scheduledIn, Deed.scheduled?]
  exact {
    numbered := hscheduled ▸ h.numbered
    known := by rw [hfired, hscheduled]; exact h.known
    ordered := by rw [hfired]; exact h.ordered
    past := by rw [hfired]; exact h.past
    nonneg := h.nonneg
    timely := h.timely
    onward := fun hissued => (h.onward hissued).concat (Int64.le_refl _)
    always := h.always_concat h.timely
    begun := h.begun_concat nofun
    cleared := h.cleared_concat (fun t ht _ => ht) nofun }

lemma schedule (ms : Binary64) (callback : κ) :
    Sound (log ++ [⟨running, .scheduled (l.timer ms callback), (l.schedule ms callback).2⟩]) running
      (l.schedule ms callback).2 := by
  set t := l.timer ms callback
  set l' := (l.schedule ms callback).2
  have hfired : firedIn (log ++ [⟨running, .scheduled t, l'⟩]) = firedIn log := by
    simp [firedIn, Deed.fired?]
  have hscheduled : scheduledIn (log ++ [⟨running, .scheduled t, l'⟩]) = scheduledIn log ++ [t] := by
    simp [scheduledIn, Deed.scheduled?]
  have hmem : ∀ u, u ∈ l'.pending ↔ u = t ∨ u ∈ l.pending := fun u =>
    (Timeline.perm_insert t l.pending).mem_iff.trans mem_cons
  have hlate : l.now ≤ t.due := Timeline.le_after h.nonneg.1 ms
  have htimely : Timely running l' := by
    refine ⟨h.timely.onTime, fun hissued u hu => ?_⟩
    rcases (hmem u).1 hu with rfl | hu
    · exact hlate
    · exact h.timely.notOverdue (Nat.le_of_succ_le hissued) u hu
  obtain ⟨hordered, hpending, hcross⟩ := pairwise_append.1 h.ordered
  refine {
    numbered := ?_
    known := ?_
    ordered := ?_
    past := by rw [hfired]; exact h.past
    nonneg := ⟨h.nonneg.1, ?_⟩
    timely := htimely
    onward := fun hissued => (h.onward (Nat.le_of_succ_le hissued)).concat (Int64.le_refl _)
    always := h.always_concat htimely
    begun := h.begun_concat nofun
    cleared := h.cleared_concat ?_ nofun }
  · rw [hscheduled, map_append, h.numbered]
    exact (range'_1_concat.trans (by rw [Nat.add_comm]; rfl)).symm
  · intro u hu
    rw [hfired, mem_append, hmem] at hu
    rw [hscheduled, mem_append, mem_singleton]
    rcases hu with hu | rfl | hu
    · exact .inl (h.known u (mem_append_left _ hu))
    · exact .inr rfl
    · exact .inl (h.known u (mem_append_right _ hu))
  · rw [hfired]
    refine pairwise_append.2 ⟨hordered, ?_, fun u hu v hv => ?_⟩
    · refine Timeline.pairwise_insert hpending fun u hu => ?_
      exact (h.id_lt_timer ms callback (mem_append_right _ hu)).ne
    · rcases (hmem v).1 hv with rfl | hv
      · exact h.before_timer ms callback hu
      · exact hcross u hu v hv
  · intro u hu
    rcases (hmem u).1 hu with rfl | hu
    · exact Int64.le_trans h.nonneg.1 hlate
    · exact h.nonneg.2 u hu
  · intro u hu hknown
    rcases (hmem u).1 hu with rfl | hu
    · exact absurd (h.id_le hknown) (Nat.not_succ_le_self _)
    · exact hu

lemma cancel (id : Int) : Sound (log ++ [⟨running, .cleared id, l.cancel id⟩]) running (l.cancel id) := by
  have hfired : firedIn (log ++ [⟨running, .cleared id, l.cancel id⟩]) = firedIn log := by
    simp [firedIn, Deed.fired?]
  have hscheduled : scheduledIn (log ++ [⟨running, .cleared id, l.cancel id⟩]) = scheduledIn log := by
    simp [scheduledIn, Deed.scheduled?]
  have hsub : (l.cancel id).pending.Sublist l.pending := filter_sublist
  have htimely : Timely running (l.cancel id) :=
    ⟨h.timely.onTime, fun hissued t ht => h.timely.notOverdue hissued t (hsub.mem ht)⟩
  exact {
    numbered := hscheduled ▸ h.numbered
    known := by
      rw [hfired, hscheduled]
      exact fun t ht => h.known t ((hsub.append_left _).mem ht)
    ordered := by
      rw [hfired]
      exact h.ordered.sublist (hsub.append_left _)
    past := by rw [hfired]; exact h.past
    nonneg := ⟨h.nonneg.1, fun t ht => h.nonneg.2 t (hsub.mem ht)⟩
    timely := htimely
    onward := fun hissued => (h.onward hissued).concat (Int64.le_refl _)
    always := h.always_concat htimely
    begun := h.begun_concat nofun
    cleared := h.cleared_concat (fun t ht _ => hsub.mem ht) fun id' hdeed t ht => by
      obtain rfl : id = id' := Deed.cleared.inj hdeed
      simpa using (mem_filter.1 ht).2 }

lemma fire {limit : Int64} {t : Timer κ} {l' : Timeline κ}
    (hnext : l.next? limit = some (t, l')) : Sound (log ++ [⟨some t, .fired t, l'⟩]) (some t) l' := by
  obtain ⟨rest, hpending, -, rfl⟩ := Timeline.next?_eq_some hnext
  set l' : Timeline κ := { l with now := t.due, pending := rest }
  have hfired : firedIn (log ++ [⟨some t, .fired t, l'⟩]) = firedIn log ++ [t] := by
    simp [firedIn, Deed.fired?]
  have hscheduled : scheduledIn (log ++ [⟨some t, .fired t, l'⟩]) = scheduledIn log := by
    simp [scheduledIn, Deed.scheduled?]
  have hsame : firedIn (log ++ [⟨some t, .fired t, l'⟩]) ++ rest = firedIn log ++ l.pending := by
    rw [hfired, hpending, append_assoc, singleton_append]
  obtain ⟨-, hrest, hcross⟩ := pairwise_append.1 h.ordered
  rw [hpending] at hrest hcross
  have htimely : Timely (some t) l' := by
    refine ⟨fun u hu => ?_, fun _ u hu => Timer.due_le_of_before ((pairwise_cons.1 hrest).1 u hu)⟩
    obtain rfl := Option.some.inj hu
    rfl
  exact {
    numbered := hscheduled ▸ h.numbered
    known := by
      rw [hsame, hscheduled]
      exact h.known
    ordered := by
      rw [hsame]
      exact h.ordered
    past := by
      intro u hu
      rw [hfired, mem_append, mem_singleton] at hu
      rcases hu with hu | rfl
      · exact Timer.due_le_of_before (hcross u hu t mem_cons_self)
      · exact Int64.le_refl _
    nonneg := by
      refine ⟨h.nonneg.2 t ?_, fun u hu => h.nonneg.2 u ?_⟩
      · rw [hpending]
        exact mem_cons_self
      · rw [hpending]
        exact mem_cons_of_mem t hu
    timely := htimely
    onward := by
      intro hissued
      refine (h.onward hissued).concat (h.timely.notOverdue hissued t ?_)
      rw [hpending]
      exact mem_cons_self
    always := h.always_concat htimely
    begun := h.begun_concat fun u hu => congrArg some (Deed.fired.inj hu)
    cleared := h.cleared_concat (fun u hu _ => by rw [hpending]; exact hu) nofun }

lemma idle : Sound log none l :=
  { h with timely := ⟨nofun, h.timely.notOverdue⟩ }

omit h

/-- The clock may be moved to a time at which all pending timers are still to come. -/
lemma settle (h : Sound log none l) {target : Int64} (hforward : l.now ≤ target)
    (hclear : l.issued ≤ unlimited → ∀ t ∈ l.pending, target ≤ t.due) :
    Sound log none { l with now := target } :=
  { h with
    past := fun t ht => Int64.le_trans (h.past t ht) hforward
    nonneg := ⟨Int64.le_trans h.nonneg.1 hforward, h.nonneg.2⟩
    timely := ⟨nofun, hclear⟩
    onward := fun hissued =>
      ⟨(h.onward hissued).ascending, fun m hm => Int64.le_trans ((h.onward hissued).reached m hm) hforward⟩ }

end Sound

end Transpiler.Stage
