import Transpiler.Proofs.After
import Transpiler.Proofs.Stage.Records

/-!
# The chronicle of a stage

The record of all that happens to timers while a stage is asked to run scripts, to advance its clock and to
run its timers. The record is sound whatever the scripts and the callbacks do, and however they fail.
-/

namespace Transpiler.Stage

open List Int64 Timeline

/-! ## Records of scripts and requests -/

/-- The stage an action leaves behind, whether or not it fails. -/
def left {α : Type} (act : Act α) (s : Stage) : Stage :=
  match act s with
  | .ok _ s' => s'
  | .error _ s' => s'

/-- What an action does to timers. -/
def deed (p : Place) (a : Action) (s : Stage) : Deed Callback :=
  match a with
  | .timeout delay body args =>
    .scheduled (s.timeline.timer (s.value delay).toNumber ⟨body, args.map s.value, p.scope⟩)
  | .again label delay =>
    .scheduled (s.timeline.timer (s.value delay).toNumber ⟨[.again label delay], [], p.scope⟩)
  | .clear id =>
    match (s.value id).toInteger? with
    | some n => .cleared n
    | none => .nothing
  | _ => .nothing

/-- The record of actions done while a timer is running. -/
def moments (running : Option (Timer Callback)) (p : Place) : Actions → Stage → List (Moment Callback)
  | [], _ => []
  | a :: rest, s =>
    ⟨running, deed p a s, (left (perform p a) s).timeline⟩ ::
      match perform p a s with
      | .ok _ s' => moments running p rest s'
      | .error _ _ => []

/-- The record of a script that runs in a frame of its own. -/
def momentsInside (running : Option (Timer Callback)) (outer : List Nat) (args : List (Value Nat))
    (script : Actions) (s : Stage) : List (Moment Callback) :=
  moments running ⟨s.frames.size :: outer, args⟩ script
    { s with frames := s.frames.push (unreached (declaredNames script)) }

/-- The record of a script that is run. -/
def momentsOf (script : Actions) (s : Stage) : List (Moment Callback) :=
  if s.options.isolate then momentsInside none [0] [] script s
  else
    match s.clash? script with
    | some _ => []
    | none =>
      moments none ⟨[0], []⟩ script { s with frames := s.frames.modify 0 (· ++ unreached (declaredNames script)) }

/-- The record of firing timers due at `limit`, at most `runs` of them. -/
def firings (limit : Int64) : (runs : Nat) → Stage → List (Moment Callback)
  | 0, _ => []
  | runs + 1, s =>
    match s.timeline.next? limit with
    | none => []
    | some (t, timeline) =>
      let c := t.callback
      let s := { s with timeline := timeline }
      ⟨some t, .fired t, timeline⟩ :: momentsInside (some t) c.scope c.args c.script s ++
        match runInside c.scope c.args c.script s with
        | .ok _ s' => firings limit runs s'
        | .error _ _ => []

/-- What a stage is asked to do. -/
inductive Request where
  | evaluate (script : Actions)
  | advance (d : Int64)
  | runTimers

namespace Request

/-- What a request leaves. -/
def stage (s : Stage) : Request → Stage
  | .evaluate script => left (Stage.evaluate script) s
  | .advance d => (Stage.advance d s).2.2
  | .runTimers => (Stage.runTimers s).2.2

/-- What happens meanwhile. -/
def during (s : Stage) : Request → List (Moment Callback)
  | .evaluate script => momentsOf script s
  | .advance d => firings (s.timeline.now + max d 0) unlimited s
  | .runTimers => firings forever (timerRuns s.options) s

/-- The record of a request. It ends with the moment at which the stage is at rest again. -/
def record (s : Stage) (r : Request) : List (Moment Callback) :=
  r.during s ++ [⟨none, .nothing, (r.stage s).timeline⟩]

/-- The clock is not to be advanced past the last time there is. -/
def InRange (s : Stage) : Request → Prop
  | .advance d => s.timeline.now.toInt + max d.toInt 0 ≤ forever.toInt
  | _ => True

instance (s : Stage) : (r : Request) → Decidable (r.InRange s)
  | .advance d => inferInstanceAs (Decidable (s.timeline.now.toInt + max d.toInt 0 ≤ forever.toInt))
  | .evaluate _ => .isTrue trivial
  | .runTimers => .isTrue trivial

end Request

/-- What requests leave. -/
def serve (s : Stage) (requests : List Request) : Stage := requests.foldl Request.stage s

/-- What happens in turn. -/
def chronicle : Stage → List Request → List (Moment Callback)
  | _, [] => []
  | s, r :: rest => r.record s ++ chronicle (r.stage s) rest

/-- The clock is never to be advanced past the last time there is. -/
def InRange : Stage → List Request → Prop
  | _, [] => True
  | s, r :: rest => r.InRange s ∧ InRange (r.stage s) rest

instance decidableInRange : (s : Stage) → (requests : List Request) → Decidable (InRange s requests)
  | _, [] => .isTrue trivial
  | s, r :: rest =>
    have := decidableInRange (r.stage s) rest
    inferInstanceAs (Decidable (r.InRange s ∧ InRange (r.stage s) rest))

/-! ## Actions -/

/-- The action leaves the timeline as it is, whether or not it fails. -/
def KeepsTimeline {α : Type} (act : Act α) (s : Stage) : Prop :=
  After act s (fun _ s' => s'.timeline = s.timeline) (fun _ s' => s'.timeline = s.timeline)

namespace KeepsTimeline

variable {α β : Type} {s : Stage}

lemma pure (a : α) : KeepsTimeline (pure a) s := rfl

lemma throw (e : Thrown) : KeepsTimeline (throw e : Act α) s := rfl

lemma get_bind {f : Stage → Act α} (h : KeepsTimeline (f s) s) : KeepsTimeline (get >>= f) s := h

lemma bind {act : Act α} {f : α → Act β} (h : KeepsTimeline act s) (hf : ∀ a s', KeepsTimeline (f a) s') :
    KeepsTimeline (act >>= f) s := by
  refine After.bind h fun a s' hs' => ?_
  rw [← hs']
  exact hf a s'

lemma set {s' : Stage} (h : s'.timeline = s.timeline) : KeepsTimeline (set s') s := h

lemma logValues (vs : List (Value Nat)) : KeepsTimeline (logValues vs) s := rfl

end KeepsTimeline

lemma timeline_method? {name : Text} {args : List (Value Nat)} {r : Nat} {s s' : Stage} {v : Value Nat}
    (h : s.method? name args r = some (v, s')) : s'.timeline = s.timeline := by
  unfold method? at h
  split at h
  · cases h
    rfl
  split at h
  · cases h
    rfl
  split at h
  · cases h
    rfl
  split at h
  · split at h
    · cases h
      rfl
    · next id _ =>
      obtain rfl : (s.removeId id).2 = s' := congrArg Prod.snd (Option.some.inj h)
      rfl
  · cases h

lemma keepsTimeline_callOn (target : Value Nat) (name : Text) (args : List (Value Nat)) (s : Stage) :
    KeepsTimeline (callOn target name args) s := by
  unfold callOn
  split
  · refine .get_bind ?_
    split
    · exact .throw _
    · split
      · next hmethod => exact (KeepsTimeline.set (timeline_method? hmethod)).bind fun _ _ => .pure _
      · exact .throw _
  · exact .throw _

lemma keepsTimeline_chain (target : Value Nat) (args : List (Value Nat)) (s : Stage) :
    KeepsTimeline (do
      let target ← callOn target "hide" []
      let target ← callOn target "move_to" args
      let target ← callOn target "show" []
      let target ← callOn target "hide" []
      logValues [target]) s := by
  refine (keepsTimeline_callOn _ _ _ s).bind fun _ s => ?_
  refine (keepsTimeline_callOn _ _ _ s).bind fun _ s => ?_
  refine (keepsTimeline_callOn _ _ _ s).bind fun _ s => ?_
  exact (keepsTimeline_callOn _ _ _ s).bind fun _ _ => .logValues _

lemma timeline_createElement (options : Value Nat) (s : Stage) : (s.createElement options).2.timeline = s.timeline := by
  unfold createElement
  dsimp only
  split
  · rfl
  · rfl

lemma left_bind {α β : Type} (act : Act α) (f : α → Act β) (s : Stage) :
    left (act >>= f) s =
      match act s with
      | .ok a s' => left (f a) s'
      | .error _ s' => s' := by
  have hrun : (act >>= f) s = EStateM.bind act f s := rfl
  rw [left, hrun, EStateM.bind]
  cases act s with
  | ok a s' => rfl
  | error e s' => rfl

lemma timeline_left {α : Type} {act : Act α} {s : Stage} (h : KeepsTimeline act s) :
    (left act s).timeline = s.timeline := by
  rw [KeepsTimeline, After] at h
  rw [left]
  cases hrun : act s with
  | ok a s' =>
    rw [hrun] at h
    exact h
  | error e s' =>
    rw [hrun] at h
    exact h

section

variable {log : List (Moment Callback)} {running : Option (Timer Callback)} {s : Stage}

lemma Sound.leave (h : Sound log running s.timeline) {act : Act Unit} (hact : KeepsTimeline act s) :
    Sound (log ++ [⟨running, .nothing, (left act s).timeline⟩]) running (left act s).timeline := by
  rw [timeline_left hact]
  exact h.pass

/-- One action keeps a record sound: one case for each kind of action. -/
lemma Sound.perform (h : Sound log running s.timeline) (p : Place) (a : Action) :
    Sound (log ++ [⟨running, deed p a s, (left (perform p a) s).timeline⟩]) running
      (left (perform p a) s).timeline := by
  cases a with
  | timeout delay body args => exact h.schedule _ _
  | again label delay => exact h.schedule _ _
  | clear id =>
    have hrun : left (Stage.perform p (.clear id)) s = left (
      match (s.value id).toInteger? with
      | some n => set { s with timeline := s.timeline.cancel n }
      | none => pure () : Act Unit) s := rfl
    rw [hrun, deed]
    cases (s.value id).toInteger? with
    | some n => exact h.cancel n
    | none => exact h.leave (.pure _)
  | log args => exact h.leave (.get_bind (.logValues _))
  | logArguments => exact h.leave (.get_bind (.logValues _))
  | timeoutOf value => exact h.leave (.get_bind (.throw _))
  | fail message => exact h.leave (.get_bind (.throw _))
  | declare name value =>
    refine h.leave (.get_bind ?_)
    dsimp only
    split
    · exact .set rfl
    · exact .pure _
  | showDeclared name =>
    refine h.leave (.get_bind ?_)
    dsimp only
    split
    · exact .logValues _
    · exact .throw _
  | create args =>
    exact h.leave (.get_bind ((KeepsTimeline.set (timeline_createElement _ s)).bind fun _ _ => .logValues _))
  | lookup args => exact h.leave (.get_bind (.logValues _))
  | call id name args =>
    exact h.leave (.get_bind ((keepsTimeline_callOn _ _ _ s).bind fun _ _ => .logValues _))
  | chain id args => exact h.leave (.get_bind (keepsTimeline_chain _ _ s))
  | assign id key value =>
    refine h.leave (.get_bind ?_)
    dsimp only
    split
    · exact .set rfl
    · exact .throw _

/-! ## Scripts -/

lemma Sound.performAll (h : Sound log running s.timeline) (p : Place) (script : Actions) :
    Sound (log ++ moments running p script s) running (left (performAll p script) s).timeline := by
  induction script generalizing log s with
  | nil =>
    rw [moments, append_nil]
    exact h
  | cons a rest ih =>
    have hstep := h.perform p a
    rw [Stage.performAll, left_bind, moments, append_cons]
    rw [left] at hstep ⊢
    cases hperform : Stage.perform p a s with
    | ok _ s' =>
      rw [hperform] at hstep
      exact ih hstep
    | error e s' =>
      rw [hperform] at hstep
      rw [append_nil]
      exact hstep

lemma Sound.runInside (h : Sound log running s.timeline) (outer : List Nat) (args : List (Value Nat))
    (script : Actions) :
    Sound (log ++ momentsInside running outer args script s) running
      (left (runInside outer args script) s).timeline := by
  let inner : Stage := { s with frames := s.frames.push (unreached (declaredNames script)) }
  have hinner : Sound log running inner.timeline := h
  exact hinner.performAll _ script

lemma Sound.evaluate (h : Sound log none s.timeline) (script : Actions) :
    Sound (log ++ momentsOf script s) none (left (evaluate script) s).timeline := by
  have hrun : left (Stage.evaluate script) s =
      left (if s.options.isolate then Stage.runInside [0] [] script else runOpenly script) s := rfl
  rw [hrun, momentsOf]
  split
  · exact h.runInside _ _ _
  · have hrun : left (runOpenly script) s = left (
      match s.clash? script with
      | some name => throw (.redeclared name)
      | none => do
        set { s with frames := s.frames.modify 0 (· ++ unreached (declaredNames script)) }
        Stage.performAll ⟨[0], []⟩ script : Act Unit) s := rfl
    rw [hrun]
    split
    · rw [append_nil]
      exact h
    · let opened : Stage := { s with frames := s.frames.modify 0 (· ++ unreached (declaredNames script)) }
      have hopened : Sound log none opened.timeline := h
      exact hopened.performAll _ script

/-! ## Firing -/

lemma firedIn_moments (running : Option (Timer Callback)) (p : Place) (script : Actions) (s : Stage) :
    firedIn (moments running p script s) = [] := by
  induction script generalizing s with
  | nil => rfl
  | cons a rest ih =>
    have hdeed : (deed p a s).fired? = none := by
      unfold deed
      repeat' split
      all_goals rfl
    rw [moments, firedIn, filterMap_cons, hdeed]
    dsimp only
    split
    · exact ih _
    · rfl

lemma length_firedIn_run (t : Timer Callback) (l : Timeline Callback) (s : Stage)
    (later : List (Moment Callback)) :
    (firedIn (⟨some t, .fired t, l⟩ ::
      momentsInside (some t) t.callback.scope t.callback.args t.callback.script s ++ later)).length =
        (firedIn later).length + 1 := by
  have hnone : firedIn (momentsInside (some t) t.callback.scope t.callback.args t.callback.script s) = [] :=
    firedIn_moments _ _ _ _
  rw [firedIn_append, length_append, firedIn, filterMap_cons, ← firedIn, hnone]
  exact Nat.add_comm _ _

/-- What firing timers due at `limit` comes to, when it may fire `runs` of them. -/
structure FiredSoundly (limit : Int64) (runs : Nat) (log record : List (Moment Callback)) (f : Fired) :
    Prop where
  sound : Sound (log ++ record) none f.stage.timeline
  within : f.stage.timeline.now ≤ limit
  /-- When no callback fails, it stops for want of timers or of runs. -/
  exhausted : f.thrown = none → f.stage.timeline.next? limit = none ∨ (firedIn record).length = runs

lemma firedSoundly_fire (limit : Int64) (runs ran : Nat) (h : Sound log none s.timeline)
    (hnow : s.timeline.now ≤ limit) :
    FiredSoundly limit runs log (firings limit runs s) (fire limit runs ran s) := by
  induction runs generalizing ran log s with
  | zero => exact ⟨by rw [firings, append_nil]; exact h, hnow, fun _ => .inr rfl⟩
  | succ runs ih =>
    rw [fire, firings]
    cases hnext : s.timeline.next? limit with
    | none => exact ⟨by rw [append_nil]; exact h, hnow, fun _ => .inl hnext⟩
    | some taken =>
      obtain ⟨t, timeline⟩ := taken
      dsimp only
      set begun : Stage := { s with timeline := timeline }
      have hfire : Sound (log ++ [⟨some t, .fired t, timeline⟩]) (some t) begun.timeline := h.fire hnext
      have hrun := hfire.runInside t.callback.scope t.callback.args t.callback.script
      -- The clock stands at the timer's due time until its callback is done.
      have hclock := hrun.timely.onTime t rfl
      obtain ⟨-, -, hdue, -⟩ := next?_eq_some hnext
      rw [left] at hrun hclock
      cases hinside : runInside t.callback.scope t.callback.args t.callback.script begun with
      | error thrown s' =>
        rw [hinside] at hrun hclock
        refine ⟨?_, ?_, nofun⟩
        · rw [append_nil, append_cons]
          exact hrun.idle
        · rw [hclock]
          exact hdue
      | ok _ s' =>
        rw [hinside] at hrun hclock
        have hrest := ih (ran + 1) hrun.idle (by rw [hclock]; exact hdue)
        refine ⟨?_, hrest.within, fun hthrown => (hrest.exhausted hthrown).imp_right fun hlength => ?_⟩
        · rw [cons_append, append_cons, ← append_assoc]
          exact hrest.sound
        · rw [length_firedIn_run, hlength]

/-- A firing that may go on without limit leaves no timer that is due, unless there are more timers than can be
numbered in 64 bits. -/
lemma FiredSoundly.lt_due {limit : Int64} {record : List (Moment Callback)} {f : Fired}
    (h : FiredSoundly limit unlimited log record f) (hthrown : f.thrown = none)
    (hissued : f.stage.timeline.issued ≤ unlimited) : ∀ t ∈ f.stage.timeline.pending, limit < t.due := by
  rcases h.exhausted hthrown with hnone | hlength
  · exact lt_due_of_next?_eq_none hnone h.sound.pending_ordered
  · have hle := h.sound.length_le
    rw [firedIn_append, length_append, hlength] at hle
    have hempty : f.stage.timeline.pending = [] := eq_nil_of_length_eq_zero (by omega)
    rw [hempty]
    nofun

/-! ## Requests -/

lemma toInt_max_zero (d : Int64) : (max d 0).toInt = max d.toInt 0 := by
  rw [show max d 0 = if d ≤ 0 then 0 else d from rfl]
  have hzero : (0 : Int64).toInt = 0 := rfl
  split
  · next hle =>
    rw [le_iff_toInt_le, hzero] at hle
    rw [hzero, max_eq_right hle]
  · next hnot =>
    rw [le_iff_toInt_le, hzero] at hnot
    rw [max_eq_left (by omega)]

lemma toInt_target {now d : Int64} (hnow : 0 ≤ now)
    (hrange : now.toInt + max d.toInt 0 ≤ forever.toInt) :
    (now + max d 0).toInt = now.toInt + max d.toInt 0 := by
  rw [le_iff_toInt_le] at hnow
  have hzero : (0 : Int64).toInt = 0 := rfl
  rw [forever, toInt_maxValue] at hrange
  rw [toInt_add, toInt_max_zero]
  exact Int.bmod_eq_of_le (by omega) (by omega)

lemma Sound.advance (h : Sound log none s.timeline) {d : Int64} (hrange : (Request.advance d).InRange s) :
    Sound (log ++ firings (s.timeline.now + max d 0) unlimited s) none (advance d s).2.2.timeline ∧
      ((advance d s).2.1 = none → (advance d s).2.2.timeline.issued ≤ unlimited →
        ∀ t ∈ (advance d s).2.2.timeline.pending, (advance d s).2.2.timeline.now < t.due) := by
  have hforward : s.timeline.now ≤ s.timeline.now + max d 0 := by
    rw [le_iff_toInt_le, toInt_target h.nonneg.1 hrange]
    omega
  have hfire := firedSoundly_fire _ unlimited 0 h hforward
  rw [Stage.advance]
  dsimp only
  split
  · exact ⟨hfire.sound, nofun⟩
  · next hthrown =>
    refine ⟨hfire.sound.settle hfire.within fun hissued t ht => ?_, fun _ => hfire.lt_due hthrown⟩
    exact Int64.le_of_lt (hfire.lt_due hthrown hissued t ht)

lemma Sound.runTimers (h : Sound log none s.timeline) :
    Sound (log ++ firings forever (timerRuns s.options) s) none (runTimers s).2.2.timeline := by
  have hfire := firedSoundly_fire _ (timerRuns s.options) 0 h (le_maxValue _)
  rw [Stage.runTimers]
  dsimp only
  split
  · exact hfire.sound
  · exact hfire.sound

/-- One request keeps a record sound. -/
lemma Sound.record (h : Sound log none s.timeline) (r : Request) (hrange : r.InRange s) :
    Sound (log ++ r.record s) none (r.stage s).timeline := by
  rw [Request.record, ← append_assoc]
  refine .pass ?_
  cases r with
  | evaluate script => exact h.evaluate script
  | advance d => exact (h.advance hrange).1
  | runTimers => exact h.runTimers

/-- All requests together keep a record sound. -/
lemma Sound.chronicle (h : Sound log none s.timeline) (requests : List Request) (hrange : InRange s requests) :
    Sound (log ++ chronicle s requests) none (serve s requests).timeline := by
  induction requests generalizing log s with
  | nil =>
    rw [Stage.chronicle, append_nil]
    exact h
  | cons r rest ih =>
    rw [Stage.chronicle, ← append_assoc]
    exact ih (h.record r hrange.1) hrange.2

end

/-! ## All runs -/

lemma inRange_append {s : Stage} {requests requests' : List Request} :
    InRange s (requests ++ requests') ↔ InRange s requests ∧ InRange (serve s requests) requests' := by
  induction requests generalizing s with
  | nil => exact (and_iff_right trivial).symm
  | cons r rest ih => exact (and_congr_right fun _ => ih).trans and_assoc.symm

/-- Timers fire in order, at most once, and on time. -/
structure Punctual (log : List (Moment Callback)) : Prop where
  ordered : (firedIn log).Pairwise fun a b => a.due < b.due ∨ a.due = b.due ∧ a.id < b.id
  scheduled : ∀ t ∈ firedIn log, t ∈ scheduledIn log
  distinct : ((scheduledIn log).map (·.id)).Nodup
  once : ((firedIn log).map (·.id)).Nodup
  notCleared : ∀ earlier m later id, log = earlier ++ m :: later → m.deed = .cleared id →
    ∀ t ∈ scheduledIn earlier, (t.id : Int) = id → t ∉ firedIn later
  begun : ∀ m ∈ log, ∀ t, m.deed = .fired t → m.running = some t
  onTime : ∀ m ∈ log, ∀ t ∈ m.running, m.timeline.now = t.due
  /-- As long as timers can be numbered in 64 bits. -/
  notOverdue : ∀ m ∈ log, m.timeline.issued ≤ unlimited → ∀ t ∈ m.timeline.pending, m.timeline.now ≤ t.due

lemma Sound.punctual {log : List (Moment Callback)} {running : Option (Timer Callback)}
    {l : Timeline Callback} (h : Sound log running l) : Punctual log where
  ordered := by
    refine (pairwise_append.1 h.ordered).1.imp fun {a b} hbefore => ?_
    rw [Timer.before_iff] at hbefore
    exact hbefore.imp_left lt_iff_toInt_lt.2
  scheduled := fun t ht => h.known t (mem_append_left _ ht)
  distinct := h.numbered ▸ nodup_range'
  once := h.nodup_ids.sublist ((sublist_append_left _ _).map _)
  notCleared := fun earlier m later id hlog hdeed t ht hid hfired =>
    h.cleared earlier m later id hlog hdeed t ht hid (mem_append_left _ hfired)
  begun := h.begun
  onTime := fun m hm => (h.always m hm).onTime
  notOverdue := fun m hm => (h.always m hm).notOverdue

/-- Whatever a stage is asked to do, timers fire in order, at most once and on time, as long as the clock is not
advanced past the last time there is; and after an advance that succeeds no timer is left that is due. -/
theorem chronicle_punctual (options : Options) (requests : List Request)
    (hrange : InRange (new options) requests) :
    Punctual (chronicle (new options) requests) ∧
      ∀ earlier d later, requests = earlier ++ .advance d :: later →
        let after := advance d (serve (new options) earlier)
        after.2.1 = none → after.2.2.timeline.issued ≤ unlimited →
          ∀ t ∈ after.2.2.timeline.pending, after.2.2.timeline.now < t.due := by
  have hnew : Sound [] none (new options).timeline := .nil
  refine ⟨(hnew.chronicle requests hrange).punctual, ?_⟩
  rintro earlier d later rfl
  obtain ⟨hearlier, hadvance, -⟩ := inRange_append.1 hrange
  exact ((hnew.chronicle earlier hearlier).advance hadvance).2

/-- A run in which one callback fails, and another one clears a timer and schedules one that is due at once. -/
def interruptedRun : List Request :=
  let ms (n : Int) : Literal := .number (.ofInt n)
  [.evaluate [.timeout (ms 10) [.clear (ms 3), .timeout (ms 0) [] []] [], .timeout (ms 5) [.fail "stop"] [],
      .timeout (ms 20) [] []],
    .advance 30000000, .advance 30000000]

theorem chronicle_punctual_interruptedRun :
    (firedIn (chronicle (new ⟨0, false⟩) interruptedRun)).map (fun t => (t.due, t.id)) =
        [(5000000, 2), (10000000, 1), (10000000, 4)] ∧
      Punctual (chronicle (new ⟨0, false⟩) interruptedRun) :=
  ⟨by decide +kernel, (chronicle_punctual ⟨0, false⟩ interruptedRun (by decide +kernel)).1⟩

end Transpiler.Stage
