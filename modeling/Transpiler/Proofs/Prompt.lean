import Mathlib.Tactic.Common
import Transpiler.Repl

/-!
# What holds at the prompt

Keys, changes of the line, the parser and results of evaluations come to the prompt in any order; only that a result
answers an evaluation that was set off is known. `Log` is what has happened so far, told without looking at the state.
`Kept` says how the state is related to the log, and one lemma for each kind of message shows that it stays so. The
main result is `Repl.reaches_within`.
-/

namespace Transpiler.Repl

open List

variable {γ : Type}

/-- What has happened at a prompt. -/
structure Log where
  /-- A parser was brought up. -/
  ready : Bool
  /-- How many evaluations were set off and not answered yet. -/
  outstanding : Nat
  /-- The lines that were accepted. -/
  accepted : List Text
  /-- The results that were there to be shown. -/
  pushed : List Entry

/-- How many evaluations an effect sets off. -/
def Effect.evaluations : Effect → Nat
  | .evaluate _ => 1
  | _ => 0

namespace Log

/-- The line that a key enters. It is accepted if it is not blank, the parser is there, and no evaluation is
outstanding. -/
def entered (log : Log) (k : Key) (s : Repl γ) : List Text :=
  if k = .enter ∧ log.ready ∧ log.outstanding = 0 ∧ s.value.trimmed ≠ [] then [s.value.trimmed] else []

/-- The log after a key. The line `:diag` is answered at once, with the state of the parser. -/
def pressed (log : Log) (field : Text → Text) (k : Key) (s : Repl γ) : Log where
  ready := log.ready
  outstanding := log.outstanding + (press field k s).1.evaluations
  accepted := log.accepted ++ log.entered k s
  pushed := log.pushed ++
    if log.entered k s = [(":diag" : Text)] then s.manager.toList.map diagnosticsEntry else []

end Log

/-- The states of a prompt with this field, with what has led to them. -/
inductive Reaches (field : Text → Text) : Log → Repl γ → Prop
  | start : Reaches field ⟨false, 0, [], []⟩ start
  | edit {log : Log} {s : Repl γ} (t : Text) (h : Reaches field log s) : Reaches field log (s.edit t)
  | pressed {log : Log} {s : Repl γ} (k : Key) (h : Reaches field log s) :
      Reaches field (log.pressed field k s) (press field k s).2
  | loaded {log : Log} {s : Repl γ} (outcome : Except Fault (Manager γ)) (h : Reaches field log s) :
      Reaches field { log with ready := log.ready || outcome.isOk } (s.loaded outcome)
  | evaluated {log : Log} {s : Repl γ} (e : Entry) (hstarted : log.outstanding ≠ 0) (h : Reaches field log s) :
      Reaches field { log with outstanding := log.outstanding - 1, pushed := log.pushed ++ [e] } (s.evaluated e)

variable {field : Text → Text}

/-- How the state is related to what has happened. -/
structure Kept (log : Log) (s : Repl γ) : Prop where
  index_le : s.index ≤ s.history.length
  history : s.history = log.accepted
  entries : s.entries = log.pushed.drop (log.pushed.length - maxEntries)
  busy : log.outstanding = s.busy.toNat
  ready : s.manager.isSome = log.ready

lemma entries_push {pushed : List Entry} {s : Repl γ} (h : s.entries = pushed.drop (pushed.length - maxEntries))
    (e : Entry) : (s.push e).entries = (pushed ++ [e]).drop ((pushed ++ [e]).length - maxEntries) := by
  have hall : s.entries ++ [e] = (pushed ++ [e]).drop (pushed.length - maxEntries) := by
    rw [h, drop_append_of_le_length (Nat.sub_le _ _)]
  simp only [push, hall, drop_drop, length_drop, length_append, length_singleton]
  congr 1
  omega

namespace Kept

variable {log : Log} {s : Repl γ}

/-- What the enter key comes to: nothing, or the line is accepted, as the log has it. -/
lemma enter_cases (field : Text → Text) (h : Kept log s) :
    press field .enter s = (.nothing, s) ∧ log.entered .enter s = [] ∨
      ∃ m, s.manager = some m ∧ log.outstanding = 0 ∧ press field .enter s = s.accept s.value.trimmed m ∧
        log.entered .enter s = [s.value.trimmed] := by
  have hready := h.ready
  cases hm : s.manager with
  | none =>
    rw [hm] at hready
    exact .inl ⟨by simp only [press, hm], by simp [Log.entered, ← hready]⟩
  | some m =>
    rw [hm] at hready
    have hidle : log.outstanding = 0 ↔ s.busy = false := by rw [h.busy]; cases s.busy <;> simp
    by_cases hheld : (s.value.trimmed.isEmpty || s.busy)
    · refine .inl ⟨by simp only [press, hm, if_pos hheld], if_neg ?_⟩
      rintro ⟨-, -, hnone, hline⟩
      simp [hidle.1 hnone, hline] at hheld
    · obtain ⟨hline, hbusy⟩ : s.value.trimmed ≠ [] ∧ s.busy = false := by simpa using hheld
      exact .inr ⟨m, rfl, hidle.2 hbusy, by simp only [press, hm, if_neg hheld],
        if_pos ⟨rfl, hready.symm, hidle.2 hbusy, hline⟩⟩

lemma pressed_of_nil {k : Key} {effect : Effect} {s' : Repl γ} (hpress : press field k s = (effect, s'))
    (heffect : effect.evaluations = 0) (hnone : log.entered k s = []) (h : Kept log s') :
    Kept (log.pressed field k s) (press field k s).2 := by
  have hlog : log.pressed field k s = log := by simp [Log.pressed, hnone, hpress, heffect]
  rwa [hlog, hpress]

/-- An accepted line joins the history. It is answered at once or it is evaluated. -/
lemma accept (h : Kept log s) {m : Manager γ} (hm : s.manager = some m) (hidle : log.outstanding = 0) (src : Text) :
    Kept ⟨log.ready, log.outstanding + (s.accept src m).1.evaluations, log.accepted ++ [src],
      log.pushed ++ if [src] = [(":diag" : Text)] then s.manager.toList.map diagnosticsEntry else []⟩
      (s.accept src m).2 := by
  have hhistory : s.history ++ [src] = log.accepted ++ [src] := by rw [h.history]
  by_cases hdiag : src = ":diag"
  · have hone : [src] = [(":diag" : Text)] := congrArg (fun line => [line]) hdiag
    rw [if_pos hone, Repl.accept, if_pos hdiag, hm]
    exact ⟨Nat.le_refl _, hhistory, entries_push h.entries _, h.busy, hm ▸ h.ready⟩
  · have hone : [src] ≠ [(":diag" : Text)] := fun hlines => hdiag (List.cons.inj hlines).1
    rw [if_neg hone, Repl.accept, if_neg hdiag, append_nil, hidle]
    exact ⟨Nat.le_refl _, hhistory, h.entries, rfl, h.ready⟩

lemma pressed (h : Kept log s) (k : Key) : Kept (log.pressed field k s) (press field k s).2 := by
  cases k with
  | quit =>
    refine pressed_of_nil rfl rfl rfl ⟨h.index_le, h.history, h.entries, h.busy, ?_⟩
    rw [← h.ready]
    exact Option.isSome_map
  | up =>
    by_cases hzero : s.index = 0
    · exact pressed_of_nil (if_pos hzero) rfl rfl h
    · refine pressed_of_nil (if_neg hzero) rfl rfl ⟨?_, h.history, h.entries, h.busy, h.ready⟩
      exact Nat.le_trans (Nat.sub_le _ _) h.index_le
  | down =>
    by_cases hlast : s.index + 1 < s.history.length
    · exact pressed_of_nil (if_pos hlast) rfl rfl ⟨Nat.le_of_lt hlast, h.history, h.entries, h.busy, h.ready⟩
    · exact pressed_of_nil (if_neg hlast) rfl rfl ⟨Nat.le_refl _, h.history, h.entries, h.busy, h.ready⟩
  | enter =>
    rcases h.enter_cases field with ⟨hpress, hnone⟩ | ⟨m, hm, hidle, hpress, hentered⟩
    · exact pressed_of_nil hpress rfl hnone h
    · rw [Log.pressed, hentered, hpress]
      exact h.accept hm hidle s.value.trimmed

/-- Only the enter key sets off an evaluation, and only with a line that is accepted. -/
lemma of_evaluate (h : Kept log s) {k : Key} {src : Text} (hpress : (press field k s).1 = .evaluate src) :
    log.entered k s = [src] := by
  cases k with
  | quit => cases hpress
  | up => simp only [press, apply_ite Prod.fst, ite_self, reduceCtorEq] at hpress
  | down => simp only [press, apply_ite Prod.fst, ite_self, reduceCtorEq] at hpress
  | enter =>
    rcases h.enter_cases field with ⟨hnothing, -⟩ | ⟨m, -, -, haccept, hentered⟩
    · rw [hnothing] at hpress
      cases hpress
    · rw [haccept, Repl.accept] at hpress
      rw [hentered]
      split_ifs at hpress
      cases hpress
      rfl

end Kept

lemma Reaches.kept {log : Log} {s : Repl γ} (h : Reaches field log s) : Kept log s := by
  induction h with
  | start => exact ⟨Nat.le_refl _, rfl, rfl, rfl, rfl⟩
  | edit t _ ih => exact ⟨ih.index_le, ih.history, ih.entries, ih.busy, ih.ready⟩
  | pressed k _ ih => exact ih.pressed k
  | @loaded log s outcome _ ih =>
    cases outcome with
    | ok m => exact ⟨ih.index_le, ih.history, ih.entries, ih.busy, (Bool.or_true log.ready).symm⟩
    | error fault => exact ⟨ih.index_le, ih.history, ih.entries, ih.busy, ih.ready.trans (Bool.or_false log.ready).symm⟩
  | @evaluated log s e hstarted _ ih =>
    have hone : log.outstanding - 1 = 0 := by
      have hle := Bool.toNat_le s.busy
      rw [← ih.busy] at hle
      omega
    exact ⟨ih.index_le, ih.history, entries_push ih.entries e, hone, ih.ready⟩

/-- **The prompt keeps its books.** After any messages, the position in the history is at most its length, so both arrow
keys show a line that is there. The history is the lines that were accepted, in order; the entries are the last
twenty of the results. At most one evaluation is outstanding; one is set off only if the parser is there and none is
outstanding, by a line that is accepted. -/
theorem reaches_within {log : Log} {s : Repl γ} (h : Reaches field log s) :
    s.index ≤ s.history.length ∧
    (s.index ≠ 0 → ∃ line, s.history[s.index - 1]? = some line ∧
      (press field .up s).2 = { s with index := s.index - 1 }.edit (field line)) ∧
    (s.index + 1 < s.history.length → ∃ line, s.history[s.index + 1]? = some line ∧
      (press field .down s).2 = { s with index := s.index + 1 }.edit (field line)) ∧
    s.history = log.accepted ∧
    s.entries = log.pushed.drop (log.pushed.length - 20) ∧ s.entries.length = min 20 log.pushed.length ∧
    log.outstanding ≤ 1 ∧
    ∀ k src, (press field k s).1 = .evaluate src → log.ready = true ∧ log.outstanding = 0 ∧ log.entered k s = [src] := by
  have hkept := h.kept
  refine ⟨hkept.index_le, fun hzero => ?_, fun hlast => ?_, hkept.history, hkept.entries, ?_, ?_, fun k src hpress => ?_⟩
  · have hline := getElem?_eq_getElem (l := s.history) (i := s.index - 1)
      (Nat.lt_of_lt_of_le (Nat.sub_one_lt hzero) hkept.index_le)
    exact ⟨_, hline, by simp only [press, if_neg hzero, hline, Option.getD_some]⟩
  · have hline := getElem?_eq_getElem hlast
    exact ⟨_, hline, by simp only [press, if_pos hlast, hline, Option.getD_some]⟩
  · rw [hkept.entries, length_drop, maxEntries]
    omega
  · rw [hkept.busy]
    exact Bool.toNat_le s.busy
  · have hentered := hkept.of_evaluate hpress
    have haccepted := hentered
    rw [Log.entered] at haccepted
    split_ifs at haccepted with hentry
    exact ⟨hentry.2.1, hentry.2.2.1, hentered⟩

/-- A parser is brought up, and a line is typed and entered. -/
theorem reaches_within_entered :
    let typed := ((start.loaded (.ok (.new .default ⟨none, 0⟩))).edit "1" : Repl Unit)
    (press id .enter typed).1 = .evaluate "1" ∧
    (press id .enter typed).2.index ≤ (press id .enter typed).2.history.length ∧
      ∀ k src, (press id k (press id .enter typed).2).1 ≠ .evaluate src := by
  have hstart : Reaches id ⟨false, 0, [], []⟩ (start : Repl Unit) := .start
  have hreaches := (hstart.loaded (.ok (.new .default ⟨none, 0⟩))).edit "1"
  have heffect : (press id .enter ((start.loaded (.ok (.new .default ⟨none, 0⟩))).edit "1" : Repl Unit)).1 =
      .evaluate "1" := by decide +kernel
  have hafter := reaches_within (hreaches.pressed .enter)
  refine ⟨heffect, hafter.1, fun k src hpress => ?_⟩
  have hidle := (hafter.2.2.2.2.2.2.2 k src hpress).2.1
  rw [Log.pressed, heffect] at hidle
  cases hidle

end Transpiler.Repl
