/-
DolphinNote/Ledseq.lean

The LED sequencer (ledseq.c), with its calls executed to completion.

The ten sequences are tables of steps, in the order of their priority.  For each
LED the sequencer keeps the position in every sequence, the sequence that is
active, and a timer; `runLedseq` performs steps of the active sequence until one
of them is timed.

What a completed call leaves behind is `Settled` (the active sequence is the
first that is not stopped, and every position is a step of its sequence) and
`Running` (the step before the position of the active sequence is the one the
timer was started for).  The loop of `runLedseq` ends because a `LOOP` is
followed by a timed step and a `STOP` leaves one sequence less
(`runLedseq_settled`).
-/
import Mathlib.Tactic
import DolphinNote.Transition

namespace DolphinNote

open Transition

/-! ### Tables -/

/-- `led_t` -/
inductive Led
  | ledRed | ledGreen | ledNet | ledSnp | ledRec | beep
  deriving DecidableEq, Repr

/-- `ledseq_t`: a step. -/
structure LedseqStep where
  value : Bool
  action : ℤ
  deriving DecidableEq, Repr

/-- `LEDSEQ_WAITMS` -/
def seqWaitMs (x : ℤ) : ℤ := x

/-- `LEDSEQ_STOP` -/
def seqStop : ℤ := -1

/-- `LEDSEQ_LOOP` -/
def seqLoop : ℤ := -2

/-- The sequences that are defined. -/
inductive LedSequence
  | lowbat | armed | alwayson | error | alive | flash3Times | powerOn | flash80Waring
  | flash60Waring | testPassed
  deriving DecidableEq, Repr

/-- The steps of each sequence. -/
def LedSequence.steps : LedSequence → List LedseqStep
  | .lowbat =>
      [⟨true, seqWaitMs 1000⟩, ⟨false, seqLoop⟩]
  | .armed =>
      [⟨true, seqWaitMs 500⟩, ⟨false, seqWaitMs 500⟩, ⟨true, seqWaitMs 500⟩,
       ⟨false, seqWaitMs 500⟩, ⟨true, seqWaitMs 500⟩, ⟨false, seqWaitMs 500⟩, ⟨false, seqStop⟩]
  | .alwayson =>
      [⟨true, seqWaitMs 1000⟩, ⟨false, seqLoop⟩]
  | .error =>
      [⟨true, seqWaitMs 500⟩, ⟨false, seqWaitMs 500⟩, ⟨false, seqLoop⟩]
  | .alive =>
      [⟨true, seqWaitMs 50⟩, ⟨false, seqWaitMs 950⟩, ⟨false, seqLoop⟩]
  | .flash3Times =>
      [⟨false, seqWaitMs 500⟩, ⟨true, seqWaitMs 500⟩, ⟨false, seqWaitMs 500⟩,
       ⟨true, seqWaitMs 500⟩, ⟨false, seqWaitMs 500⟩, ⟨true, seqWaitMs 500⟩, ⟨true, seqStop⟩]
  | .powerOn =>
      [⟨true, seqWaitMs 1000⟩, ⟨true, seqStop⟩]
  | .flash80Waring =>
      [⟨true, seqWaitMs 500⟩, ⟨false, seqWaitMs 500⟩, ⟨true, seqWaitMs 500⟩,
       ⟨false, seqWaitMs 500⟩, ⟨false, seqStop⟩]
  | .flash60Waring =>
      [⟨true, seqWaitMs 500⟩, ⟨false, seqWaitMs 500⟩, ⟨false, seqStop⟩]
  | .testPassed =>
      [⟨true, seqWaitMs 50⟩, ⟨false, seqWaitMs 50⟩, ⟨true, seqWaitMs 50⟩, ⟨false, seqWaitMs 50⟩,
       ⟨true, seqWaitMs 50⟩, ⟨false, seqWaitMs 50⟩, ⟨true, seqWaitMs 50⟩, ⟨false, seqWaitMs 50⟩,
       ⟨true, seqWaitMs 50⟩, ⟨false, seqWaitMs 50⟩, ⟨true, seqWaitMs 50⟩, ⟨false, seqWaitMs 50⟩,
       ⟨true, seqWaitMs 50⟩, ⟨false, seqWaitMs 50⟩, ⟨false, seqStop⟩]

/-- `SEQ_NUM` -/
abbrev seqNum : ℕ := 10

/-- A priority: an index into `sequences`. -/
abbrev Prio := Fin seqNum

/-- `sequences`: the first has the highest priority. -/
def sequences : Prio → LedSequence :=
  ![.testPassed, .lowbat, .powerOn, .flash80Waring, .flash60Waring, .armed, .alwayson, .error,
    .alive, .flash3Times]

/-- `getPrio`; `none` as the argument is a pointer to no sequence of the table. -/
def getPrio (seq : Option LedSequence) : Option Prio :=
  Fin.find? fun prio => some (sequences prio) = seq

/-- The step `sequences[prio][i]`. -/
def stepAt (prio : Prio) (i : ℤ) : Option LedseqStep :=
  if 0 ≤ i then (sequences prio).steps[i.toNat]? else none

/-! ### State -/

/-- A software timer: its period, and the period it was last started with. -/
structure LedTimer where
  time : ℤ
  started : Option ℤ
  deriving DecidableEq, Repr

/-- The variables of ledseq.c, and the LEDs.  `activeSeq` is `none` for
`LEDSEQ_STOP`. -/
structure Sequencer where
  state : Led → Prio → ℤ
  activeSeq : Led → Option Prio
  timerLed : Led → LedTimer
  light : Led → Bool
  isInit : Bool

/-- The variables at power-on. -/
def Sequencer.powerOn : Sequencer where
  state _ _ := 0
  activeSeq _ := some 0
  timerLed _ := { time := 0, started := none }
  light _ := false
  isInit := false

/-- `ledSet` -/
def ledSet (led : Led) (value : Bool) (s : Sequencer) : Sequencer :=
  { s with light := Function.update s.light led value }

/-- `state[led][prio] = i` -/
def setState (led : Led) (prio : Prio) (i : ℤ) (s : Sequencer) : Sequencer :=
  { s with state := Function.update s.state led (Function.update (s.state led) prio i) }

/-- `rt_timer_control` with `RT_TIMER_CTRL_SET_TIME`. -/
def rtTimerControl (led : Led) (time : ℤ) (s : Sequencer) : Sequencer :=
  { s with timerLed := Function.update s.timerLed led { s.timerLed led with time } }

/-- `rt_timer_start` -/
def rtTimerStart (led : Led) (s : Sequencer) : Sequencer :=
  { s with timerLed :=
      Function.update s.timerLed led { s.timerLed led with started := some (s.timerLed led).time } }

/-- The first sequence of the LED that is not stopped. -/
def Sequencer.first (s : Sequencer) (led : Led) : Option Prio :=
  Fin.find? fun prio => s.state led prio ≠ seqStop

/-- `updateActive` -/
def updateActive (led : Led) (s : Sequencer) : Sequencer :=
  let s := ledSet led false s
  { s with activeSeq := Function.update s.activeSeq led (s.first led) }

/-- `ledseq_init` -/
def ledseqInit (s : Sequencer) : Sequencer :=
  if s.isInit then s
  else
    { s with state := fun _ _ => seqStop,
             activeSeq := fun _ => none,
             timerLed := fun _ => { time := 1000, started := none },
             isInit := true }

/-! ### runLedseq -/

/-- `state[led][prio]++` -/
def advance (led : Led) (prio : Prio) (s : Sequencer) : Sequencer :=
  setState led prio (s.state led prio + 1) s

/-- `runLedseq` between `rt_sem_take` and `rt_sem_release`; the flag is `leave`. -/
def perform (led : Led) (prio : Prio) (step : LedseqStep) (s : Sequencer) : Sequencer × Bool :=
  -- case LEDSEQ_LOOP
  if step.action = seqLoop then (setState led prio 0 s, false)
  -- case LEDSEQ_STOP
  else if step.action = seqStop then
    (ledSet led step.value (updateActive led (setState led prio seqStop s)), false)
  -- default: an LED action and a time
  else
    let s := ledSet led step.value s
    if step.action = 0 then (s, false)
    else (rtTimerStart led (rtTimerControl led step.action s), true)

/-- One pass of the loop, with `leave`; the pass that finds no active sequence
returns.  `none` is a step outside of its sequence. -/
def pass (led : Led) (s : Sequencer) : Option (Sequencer × Bool) :=
  match s.activeSeq led with
  | none => some (s, true)
  | some prio =>
      (stepAt prio (s.state led prio)).map fun step => perform led prio step (advance led prio s)

/-- `runLedseq` with the timer of the LED, in at most `fuel` passes. -/
def runLedseq (led : Led) : ℕ → Sequencer → Option Sequencer
  | 0, _ => none
  | fuel + 1, s =>
      match pass led s with
      | none => none
      | some (s', true) => some s'
      | some (s', false) => runLedseq led fuel s'

/-! ### Calls -/

/-- `ledseq_run` between `rt_sem_take` and `rt_sem_release`. -/
def runSection (led : Led) (prio : Prio) (s : Sequencer) : Sequencer :=
  updateActive led (setState led prio 0 s)

/-- `ledseq_stop` between `rt_sem_take` and `rt_sem_release`. -/
def stopSection (led : Led) (prio : Prio) (s : Sequencer) : Sequencer :=
  updateActive led (setState led prio seqStop s)

/-- `ledseq_run` -/
def ledseqRun (fuel : ℕ) (led : Led) (sequence : Option LedSequence) (s : Sequencer) :
    Option Sequencer :=
  match getPrio sequence with
  | none => some s
  | some prio =>
      let s := runSection led prio s
      -- the first step, if the new sequence is the active one
      if s.activeSeq led = some prio then runLedseq led fuel s else some s

/-- `ledseq_stop` -/
def ledseqStop (fuel : ℕ) (led : Led) (sequence : Option LedSequence) (s : Sequencer) :
    Option Sequencer :=
  match getPrio sequence with
  | none => some s
  | some prio => runLedseq led fuel (stopSection led prio s)

/-- A call, or the expiry of a timer. -/
inductive LedCall
  | run (led : Led) (sequence : Option LedSequence)
  | stop (led : Led) (sequence : Option LedSequence)
  | expire (led : Led)
  deriving DecidableEq, Repr

/-- A call executed to completion. -/
def ledCall (fuel : ℕ) (s : Sequencer) : LedCall → Option Sequencer
  | .run led sequence => ledseqRun fuel led sequence s
  | .stop led sequence => ledseqStop fuel led sequence s
  | .expire led => runLedseq led fuel s

/-- The LED of a call. -/
def LedCall.led : LedCall → Led
  | .run led _ | .stop led _ | .expire led => led

/-! ### The tables -/

/-- A position in a sequence. -/
def InSequence (prio : Prio) (i : ℤ) : Prop :=
  0 ≤ i ∧ i < (sequences prio).steps.length

theorem inSequence_iff {prio : Prio} {i : ℤ} :
    InSequence prio i ↔ ∃ step, stepAt prio i = some step := by
  rw [← Option.isSome_iff_exists]
  unfold InSequence stepAt
  by_cases h : 0 ≤ i
  · rw [if_pos h, isSome_getElem?]
    omega
  · rw [if_neg h]
    exact iff_of_false (fun hi => h hi.1) (by decide)

theorem not_inSequence_stop (prio : Prio) : ¬ InSequence prio seqStop :=
  fun h => absurd h.1 (by decide)

/-- Every sequence begins with a timed step. -/
theorem stepAt_zero : ∀ prio : Prio, ∃ step, stepAt prio 0 = some step ∧ 0 < step.action := by
  have htable : ∀ prio : Prio, ((stepAt prio 0).any fun step => 0 < step.action) = true := by
    decide
  intro prio
  obtain ⟨step, hs, ha⟩ := (Option.any_eq_true _ _).mp (htable prio)
  exact ⟨step, hs, of_decide_eq_true ha⟩

/-- A step is timed, and then another one follows, or it is a `LOOP` or a `STOP`. -/
theorem stepAt_cases {prio : Prio} {i : ℤ} {step : LedseqStep} (h : stepAt prio i = some step) :
    (0 < step.action ∧ InSequence prio (i + 1)) ∨
      step.action = seqLoop ∨ step.action = seqStop := by
  have htable : ∀ (prio : Prio) (n : Fin (sequences prio).steps.length),
      (0 < ((sequences prio).steps.get n).action ∧ n.val + 1 < (sequences prio).steps.length) ∨
        ((sequences prio).steps.get n).action = seqLoop ∨
        ((sequences prio).steps.get n).action = seqStop := by
    decide
  obtain ⟨hpos, hlt⟩ := inSequence_iff.mpr ⟨step, h⟩
  obtain ⟨n, rfl⟩ := Int.eq_ofNat_of_zero_le hpos
  have hn : n < (sequences prio).steps.length := Int.ofNat_lt.mp hlt
  have hget : (sequences prio).steps.get ⟨n, hn⟩ = step := by
    unfold stepAt at h
    rw [if_pos hpos, Int.toNat_natCast] at h
    exact (List.getElem?_eq_some_iff.mp h).2
  have hcases := htable prio ⟨n, hn⟩
  rw [hget] at hcases
  rcases hcases with ⟨ha, hnext⟩ | hcases
  · refine .inl ⟨ha, by omega, ?_⟩
    exact_mod_cast hnext
  · exact .inr hcases

/-! ### What the operations do -/

variable {s s' : Sequencer} {led : Led} {prio : Prio}

/-- What one operation leaves alone. -/
def SameLed (led : Led) (s s' : Sequencer) : Prop :=
  s'.state led = s.state led ∧ s'.activeSeq led = s.activeSeq led ∧
    s'.timerLed led = s.timerLed led ∧ s'.light led = s.light led

theorem SameLed.trans {s'' : Sequencer} (h : SameLed led s s') (h' : SameLed led s' s'') :
    SameLed led s s'' :=
  ⟨h'.1.trans h.1, h'.2.1.trans h.2.1, h'.2.2.1.trans h.2.2.1, h'.2.2.2.trans h.2.2.2⟩

@[simp] theorem setState_self (i : ℤ) (s : Sequencer) :
    (setState led prio i s).state led = Function.update (s.state led) prio i :=
  Function.update_self _ _ _

@[simp] theorem updateActive_self (s : Sequencer) :
    (updateActive led s).activeSeq led = s.first led :=
  Function.update_self _ _ _

@[simp] theorem rtTimerStart_control_self (d : ℤ) (s : Sequencer) :
    (rtTimerStart led (rtTimerControl led d s)).timerLed led =
      { time := d, started := some d } := by
  simp only [rtTimerStart, rtTimerControl, Function.update_self]

theorem first_eq_some_iff :
    s.first led = some prio ↔ IsLeast {p | s.state led p ≠ seqStop} prio := by
  rw [Sequencer.first, Fin.find?_eq_some_iff]
  constructor
  · rintro ⟨hp, hlt⟩
    refine ⟨of_decide_eq_true hp, fun q hq => le_of_not_gt fun hqp => hq ?_⟩
    exact of_not_not (of_decide_eq_false (hlt q hqp))
  · rintro ⟨hp, hle⟩
    refine ⟨decide_eq_true hp, fun q hqp => decide_eq_false fun hq => ?_⟩
    exact absurd (hle hq) (not_le_of_gt hqp)

/-! ### Other LEDs -/

section Others

variable {led' : Led}

theorem SameLed.refl (s : Sequencer) : SameLed led s s :=
  ⟨rfl, rfl, rfl, rfl⟩

theorem sameLed_setState (hne : led' ≠ led) (i : ℤ) (s : Sequencer) :
    SameLed led' s (setState led prio i s) :=
  ⟨Function.update_of_ne hne _ _, rfl, rfl, rfl⟩

theorem sameLed_ledSet (hne : led' ≠ led) (value : Bool) (s : Sequencer) :
    SameLed led' s (ledSet led value s) :=
  ⟨rfl, rfl, rfl, Function.update_of_ne hne _ _⟩

theorem sameLed_updateActive (hne : led' ≠ led) (s : Sequencer) :
    SameLed led' s (updateActive led s) :=
  ⟨rfl, Function.update_of_ne hne _ _, rfl, Function.update_of_ne hne _ _⟩

theorem sameLed_timer (hne : led' ≠ led) (d : ℤ) (s : Sequencer) :
    SameLed led' s (rtTimerStart led (rtTimerControl led d s)) := by
  refine ⟨rfl, rfl, ?_, rfl⟩
  simp only [rtTimerStart, rtTimerControl, Function.update_of_ne hne]

theorem sameLed_perform (hne : led' ≠ led) (step : LedseqStep) (s : Sequencer) :
    SameLed led' s (perform led prio step s).1 := by
  unfold perform
  split_ifs
  · exact sameLed_setState hne _ _
  · exact (sameLed_setState hne _ _).trans
      ((sameLed_updateActive hne _).trans (sameLed_ledSet hne _ _))
  · exact sameLed_ledSet hne _ _
  · exact (sameLed_ledSet hne _ _).trans (sameLed_timer hne _ _)

theorem sameLed_runLedseq (hne : led' ≠ led) {fuel : ℕ} (h : runLedseq led fuel s = some s') :
    SameLed led' s s' := by
  induction fuel generalizing s with
  | zero => exact nomatch h
  | succ fuel ih =>
      have hpass : ∀ r, pass led s = some r → SameLed led' s r.1 := by
        intro r hr
        unfold pass at hr
        split at hr
        · obtain rfl := Option.some.inj hr
          exact SameLed.refl s
        · obtain ⟨step, -, rfl⟩ := Option.map_eq_some_iff.mp hr
          exact (sameLed_setState hne _ _).trans (sameLed_perform hne step _)
      unfold runLedseq at h
      split at h
      · exact nomatch h
      · rename_i hp
        obtain rfl := Option.some.inj h
        exact hpass _ hp
      · rename_i hp
        exact (hpass _ hp).trans (ih h)

end Others

/-! ### The invariant -/

/-- Every position is `LEDSEQ_STOP` or a step of its sequence. -/
def Sequencer.Inside (s : Sequencer) (led : Led) : Prop :=
  ∀ prio, s.state led prio = seqStop ∨ InSequence prio (s.state led prio)

/-- The active sequence is the first that is not stopped. -/
structure Sequencer.Settled (s : Sequencer) (led : Led) : Prop where
  active : ∀ prio, s.activeSeq led = some prio ↔ IsLeast {p | s.state led p ≠ seqStop} prio
  inside : s.Inside led

/-- The step before the position of the active sequence is timed, and the timer
was programmed with and started for its duration. -/
def Sequencer.Running (s : Sequencer) (led : Led) : Prop :=
  ∀ prio, s.activeSeq led = some prio → 1 ≤ s.state led prio ∧
    ∃ step, stepAt prio (s.state led prio - 1) = some step ∧ 0 < step.action ∧
      s.timerLed led = { time := step.action, started := some step.action }

theorem Sequencer.Settled.congr (h : s.Settled led) (hs : s'.state led = s.state led)
    (ha : s'.activeSeq led = s.activeSeq led) : s'.Settled led where
  active prio := by
    rw [hs, ha]
    exact h.active prio
  inside prio := by
    rw [hs]
    exact h.inside prio

theorem Sequencer.Running.of_same (h : s.Running led) (hs : SameLed led s s') : s'.Running led := by
  unfold Sequencer.Running
  rw [hs.1, hs.2.1, hs.2.2.1]
  exact h

theorem Sequencer.Inside.setState (h : s.Inside led) {i : ℤ} (hi : i = seqStop ∨ InSequence prio i) :
    (setState led prio i s).Inside led := by
  intro p
  rw [setState_self]
  rcases eq_or_ne p prio with rfl | hne
  · rwa [Function.update_self]
  · rw [Function.update_of_ne hne]
    exact h p

theorem inSequence_zero (prio : Prio) : InSequence prio 0 :=
  inSequence_iff.mpr ((stepAt_zero prio).imp fun _ => And.left)

/-- `updateActive` makes up for any change of the positions. -/
theorem settled_updateActive (h : s.Inside led) : (updateActive led s).Settled led where
  active prio := by
    rw [updateActive_self]
    exact first_eq_some_iff
  inside := h

theorem settled_runSection (h : s.Settled led) (prio : Prio) :
    (runSection led prio s).Settled led :=
  settled_updateActive (h.inside.setState (.inr (inSequence_zero prio)))

theorem settled_stopSection (h : s.Settled led) (prio : Prio) :
    (stopSection led prio s).Settled led :=
  settled_updateActive (h.inside.setState (.inl rfl))

/-- Moving the active sequence to another step does not change which one is active. -/
theorem Sequencer.Settled.setState (h : s.Settled led) (ha : s.activeSeq led = some prio) {i : ℤ}
    (hi : InSequence prio i) : (setState led prio i s).Settled led where
  active p := by
    -- the sequences that are not stopped are the same
    have hset : {q | (DolphinNote.setState led prio i s).state led q ≠ seqStop} =
        {q | s.state led q ≠ seqStop} := by
      ext q
      show Function.update s.state led _ led q ≠ seqStop ↔ s.state led q ≠ seqStop
      rw [Function.update_self]
      rcases eq_or_ne q prio with rfl | hne
      · rw [Function.update_self]
        refine iff_of_true (fun he => ?_) ((h.active q).mp ha).1
        exact not_inSequence_stop q (he ▸ hi)
      · rw [Function.update_of_ne hne]
    rw [hset]
    exact h.active p
  inside := h.inside.setState (.inr hi)

/-! ### The loop -/

theorem perform_timed {step : LedseqStep} (ht : 0 < step.action) (s : Sequencer) :
    perform led prio step s =
      (rtTimerStart led (rtTimerControl led step.action (ledSet led step.value s)), true) := by
  have hloop : step.action ≠ seqLoop := (lt_trans (by decide) ht).ne'
  have hstop : step.action ≠ seqStop := (lt_trans (by decide) ht).ne'
  rw [perform, if_neg hloop, if_neg hstop, if_neg ht.ne']

theorem perform_loop {step : LedseqStep} (hl : step.action = seqLoop) (s : Sequencer) :
    perform led prio step s = (setState led prio 0 s, false) :=
  if_pos hl

theorem perform_stop {step : LedseqStep} (hl : step.action = seqStop) (s : Sequencer) :
    perform led prio step s =
      (ledSet led step.value (updateActive led (setState led prio seqStop s)), false) := by
  have hloop : step.action ≠ seqLoop := by rw [hl]; decide
  rw [perform, if_neg hloop, if_pos hl]

/-- A pass with an active sequence. -/
theorem pass_active {step : LedseqStep} (ha : s.activeSeq led = some prio)
    (hs : stepAt prio (s.state led prio) = some step) :
    pass led s = some (perform led prio step (advance led prio s)) := by
  simp only [pass, ha, hs, Option.map_some]

theorem setState_advance (i : ℤ) (s : Sequencer) :
    setState led prio i (advance led prio s) = setState led prio i s := by
  simp only [advance, setState, Function.update_self, Function.update_idem]

/-- A timed step is performed, and the loop is left. -/
theorem pass_timed {step : LedseqStep} (h : s.Settled led) (ha : s.activeSeq led = some prio)
    (hs : stepAt prio (s.state led prio) = some step) (ht : 0 < step.action) :
    ∃ s', pass led s = some (s', true) ∧ s'.Settled led ∧ s'.Running led := by
  have hnext : InSequence prio (s.state led prio + 1) := by
    rcases stepAt_cases hs with ⟨-, hn⟩ | hl | hl
    · exact hn
    · exact absurd (hl ▸ ht) (by decide)
    · exact absurd (hl ▸ ht) (by decide)
  have hstate : (advance led prio s).state led prio = s.state led prio + 1 := by
    rw [advance, setState_self, Function.update_self]
  rw [pass_active ha hs, perform_timed ht]
  refine ⟨_, rfl, (h.setState ha hnext).congr rfl rfl, fun p hp => ?_⟩
  obtain rfl := Option.some.inj (ha.symm.trans hp)
  refine ⟨?_, step, ?_, ht, rtTimerStart_control_self _ _⟩
  · show 1 ≤ (advance led prio s).state led prio
    rw [hstate]
    exact le_add_of_nonneg_left (inSequence_iff.mpr ⟨step, hs⟩).1
  · show stepAt prio ((advance led prio s).state led prio - 1) = some step
    rw [hstate, add_sub_cancel_right]
    exact hs

/-- A `LOOP` leads back to the first step. -/
theorem pass_loop {step : LedseqStep} (h : s.Settled led) (ha : s.activeSeq led = some prio)
    (hs : stepAt prio (s.state led prio) = some step) (hl : step.action = seqLoop) :
    ∃ s', pass led s = some (s', false) ∧ s'.Settled led ∧ s'.activeSeq led = some prio ∧
      s'.state led prio = 0 := by
  rw [pass_active ha hs, perform_loop hl, setState_advance]
  refine ⟨_, rfl, h.setState ha (inSequence_zero prio), ha, ?_⟩
  rw [setState_self, Function.update_self]

/-- A `STOP` leaves one sequence less. -/
theorem pass_stop {step : LedseqStep} (h : s.Settled led) (ha : s.activeSeq led = some prio)
    (hs : stepAt prio (s.state led prio) = some step) (hl : step.action = seqStop) :
    ∃ s', pass led s = some (s', false) ∧ s'.Settled led ∧
      s'.state led = Function.update (s.state led) prio seqStop := by
  rw [pass_active ha hs, perform_stop hl, setState_advance]
  exact ⟨_, rfl, (settled_stopSection h prio).congr rfl rfl, setState_self _ _⟩

/-- The sequences that are not stopped. -/
def Sequencer.live (s : Sequencer) (led : Led) : Finset Prio :=
  Finset.univ.filter fun prio => s.state led prio ≠ seqStop

theorem live_stop_lt (hp : s.state led prio ≠ seqStop)
    (hs : s'.state led = Function.update (s.state led) prio seqStop) :
    (s'.live led).card < (s.live led).card := by
  refine Finset.card_lt_card ⟨fun q hq => ?_, fun hsub => ?_⟩
  · have hq' : s'.state led q ≠ seqStop := (Finset.mem_filter.mp hq).2
    refine Finset.mem_filter.mpr ⟨Finset.mem_univ q, fun he => hq' ?_⟩
    rw [hs]
    rcases eq_or_ne q prio with rfl | hne
    · exact Function.update_self _ _ _
    · rw [Function.update_of_ne hne, he]
  · have hmem : prio ∈ s'.live led := hsub (Finset.mem_filter.mpr ⟨Finset.mem_univ prio, hp⟩)
    have hne : s'.state led prio ≠ seqStop := (Finset.mem_filter.mp hmem).2
    rw [hs, Function.update_self] at hne
    exact hne rfl

theorem runLedseq_leave {fuel : ℕ} (h : pass led s = some (s', true)) (hf : 0 < fuel) :
    runLedseq led fuel s = some s' := by
  obtain ⟨fuel, rfl⟩ := Nat.exists_eq_add_of_lt hf
  rw [Nat.zero_add, runLedseq, h]

theorem runLedseq_stay {fuel : ℕ} (h : pass led s = some (s', false)) :
    runLedseq led (fuel + 1) s = runLedseq led fuel s' := by
  rw [runLedseq, h]

/-- Without an active sequence the loop is left at once. -/
theorem runLedseq_idle (h : s.Settled led) (ha : s.activeSeq led = none) (n : ℕ) :
    ∃ s', (∀ fuel, n < fuel → runLedseq led fuel s = some s') ∧
      s'.Settled led ∧ s'.Running led := by
  have hp : pass led s = some (s, true) := by simp only [pass, ha]
  refine ⟨s, fun fuel hf => runLedseq_leave hp (Nat.zero_lt_of_lt hf), h, fun p hp => ?_⟩
  exact nomatch ha.symm.trans hp

/-- As many passes as it takes if `n` sequences are not stopped. -/
theorem runLedseq_bound (n : ℕ) (h : s.Settled led) (hn : (s.live led).card ≤ n) :
    ∃ s', (∀ fuel, 2 * n < fuel → runLedseq led fuel s = some s') ∧
      s'.Settled led ∧ s'.Running led := by
  induction n generalizing s with
  | zero =>
      rcases ha : s.activeSeq led with - | prio
      · exact runLedseq_idle h ha 0
      · have hmem : prio ∈ s.live led :=
          Finset.mem_filter.mpr ⟨Finset.mem_univ prio, ((h.active prio).mp ha).1⟩
        rw [Finset.card_eq_zero.mp (Nat.le_zero.mp hn)] at hmem
        exact absurd hmem (Finset.notMem_empty prio)
  | succ n ih =>
      rcases ha : s.activeSeq led with - | prio
      · exact runLedseq_idle h ha _
      · have hlive := ((h.active prio).mp ha).1
        obtain ⟨step, hs⟩ := inSequence_iff.mp ((h.inside prio).resolve_left hlive)
        rcases stepAt_cases hs with ⟨ht, -⟩ | hl | hl
        · -- a timed step ends the loop
          obtain ⟨s', hp, hset, hrun⟩ := pass_timed h ha hs ht
          exact ⟨s', fun fuel hf => runLedseq_leave hp (by omega), hset, hrun⟩
        · -- a `LOOP`, and then the first step of the sequence, which is timed
          obtain ⟨s₁, hp, hset, ha₁, hzero⟩ := pass_loop h ha hs hl
          obtain ⟨step₁, hs₁, ht₁⟩ := stepAt_zero prio
          obtain ⟨s', hp₁, hset', hrun⟩ := pass_timed hset ha₁ (hzero ▸ hs₁) ht₁
          refine ⟨s', fun fuel hf => ?_, hset', hrun⟩
          obtain ⟨fuel, rfl⟩ := Nat.exists_eq_add_of_lt (show 0 < fuel by omega)
          rw [Nat.zero_add, runLedseq_stay hp]
          exact runLedseq_leave hp₁ (by omega)
        · -- a `STOP`, and the bound for one sequence less
          obtain ⟨s₁, hp, hset, hstate⟩ := pass_stop h ha hs hl
          have hless := live_stop_lt hlive hstate
          obtain ⟨s', hfuel, hset', hrun⟩ := ih hset (by omega)
          refine ⟨s', fun fuel hf => ?_, hset', hrun⟩
          obtain ⟨fuel, rfl⟩ := Nat.exists_eq_add_of_lt (show 0 < fuel by omega)
          rw [Nat.zero_add, runLedseq_stay hp]
          exact hfuel fuel (by omega)

/-- **The loop** ends, and leaves the LED settled, with its timer running: a
`LOOP` is followed by a timed step, a `STOP` by one sequence less. -/
theorem runLedseq_settled (h : s.Settled led) :
    ∃ s', (∀ fuel, 2 * seqNum < fuel → runLedseq led fuel s = some s') ∧
      s'.Settled led ∧ s'.Running led :=
  runLedseq_bound seqNum h (Finset.card_le_univ _)

/-! ### Every call -/

/-- A sequence that is started and does not become active changes nothing that
the timer depends on. -/
theorem running_runSection (h : s.Settled led) (hr : s.Running led)
    (hne : (runSection led prio s).activeSeq led ≠ some prio) :
    (runSection led prio s).Running led := by
  intro q hq
  have hqp : q ≠ prio := by
    rintro rfl
    exact hne hq
  have hstate : ∀ p, (runSection led prio s).state led p =
      Function.update (s.state led) prio 0 p :=
    congrFun (setState_self 0 s)
  have hleast := ((settled_runSection h prio).active q).mp hq
  -- it was active before
  have ha : s.activeSeq led = some q := by
    refine (h.active q).mpr ⟨?_, fun p hp => hleast.2 ?_⟩
    · have hlive : (runSection led prio s).state led q ≠ seqStop := hleast.1
      rw [hstate, Function.update_of_ne hqp] at hlive
      exact hlive
    · show (runSection led prio s).state led p ≠ seqStop
      rw [hstate]
      rcases eq_or_ne p prio with rfl | hpp
      · rw [Function.update_self]
        decide
      · rw [Function.update_of_ne hpp]
        exact hp
  rw [hstate, Function.update_of_ne hqp]
  exact hr q ha

/-- What holds of every other LED stays, so the LED of the call is left. -/
theorem settled_of_others (h : ∀ led, s.Settled led ∧ s.Running led)
    (hs : ∀ led', led' ≠ led → SameLed led' s s') (hset : s'.Settled led) (hr : s'.Running led) :
    ∀ led, s'.Settled led ∧ s'.Running led := by
  intro led'
  rcases eq_or_ne led' led with rfl | hne
  · exact ⟨hset, hr⟩
  · have hsame := hs led' hne
    exact ⟨(h led').1.congr hsame.1 hsame.2.1, (h led').2.of_same hsame⟩

/-- From a state where only the timer of the LED may be wrong, `runLedseq` puts it right. -/
theorem runLedseq_all {s₀ : Sequencer} (h : ∀ led, s₀.Settled led ∧ s₀.Running led)
    (hs : ∀ led', led' ≠ led → SameLed led' s₀ s) (hset : s.Settled led) :
    ∃ s', (∀ fuel, 2 * seqNum < fuel → runLedseq led fuel s = some s') ∧
      ∀ led, s'.Settled led ∧ s'.Running led := by
  obtain ⟨s', hfuel, hset', hr⟩ := runLedseq_settled hset
  refine ⟨s', hfuel, settled_of_others h (fun led' hne => (hs led' hne).trans ?_) hset' hr⟩
  exact sameLed_runLedseq hne (hfuel _ (Nat.lt_succ_self _))

/-- What a call does: a part that leaves the other LEDs alone, and then the loop,
unless the timer is right without it. -/
theorem ledCall_cases (s : Sequencer) (c : LedCall) :
    ∃ s₁, (∀ led', led' ≠ c.led → SameLed led' s s₁) ∧ (s.Settled c.led → s₁.Settled c.led) ∧
      ((∀ fuel, ledCall fuel s c = runLedseq c.led fuel s₁) ∨
        (∀ fuel, ledCall fuel s c = some s₁) ∧
          (s.Settled c.led → s.Running c.led → s₁.Running c.led)) := by
  cases c with
  | run led sequence =>
      rcases hp : getPrio sequence with - | prio
      · -- a pointer to no sequence of the table: the call does nothing
        refine ⟨s, fun led' _ => SameLed.refl s, id, .inr ⟨fun fuel => ?_, fun _ => id⟩⟩
        simp only [ledCall, ledseqRun, hp]
      · refine ⟨runSection led prio s,
          fun led' hne => (sameLed_setState hne _ _).trans (sameLed_updateActive hne _),
          fun h => settled_runSection h prio, ?_⟩
        by_cases ha : (runSection led prio s).activeSeq led = some prio
        · refine .inl fun fuel => ?_
          simp only [ledCall, ledseqRun, hp]
          exact if_pos ha
        · refine .inr ⟨fun fuel => ?_, fun h hr => running_runSection h hr ha⟩
          simp only [ledCall, ledseqRun, hp]
          exact if_neg ha
  | stop led sequence =>
      rcases hp : getPrio sequence with - | prio
      · refine ⟨s, fun led' _ => SameLed.refl s, id, .inr ⟨fun fuel => ?_, fun _ => id⟩⟩
        simp only [ledCall, ledseqStop, hp]
      · refine ⟨stopSection led prio s,
          fun led' hne => (sameLed_setState hne _ _).trans (sameLed_updateActive hne _),
          fun h => settled_stopSection h prio, .inl fun fuel => ?_⟩
        simp only [ledCall, ledseqStop, hp]
        rfl
  | expire led => exact ⟨s, fun led' _ => SameLed.refl s, id, .inl fun _ => rfl⟩

/-- **One call** ends, and leaves every LED settled, with its timer running. -/
theorem ledCall_settled (c : LedCall) (h : ∀ led, s.Settled led ∧ s.Running led) :
    ∃ s', (∀ fuel, 2 * seqNum < fuel → ledCall fuel s c = some s') ∧
      ∀ led, s'.Settled led ∧ s'.Running led := by
  obtain ⟨s₁, hsame, hset, hloop | ⟨hend, hr⟩⟩ := ledCall_cases s c
  · obtain ⟨s', hfuel, hs'⟩ := runLedseq_all h hsame (hset (h _).1)
    exact ⟨s', fun fuel hf => (hloop fuel).trans (hfuel fuel hf), hs'⟩
  · exact ⟨s₁, fun fuel _ => hend fuel,
      settled_of_others h hsame (hset (h _).1) (hr (h _).1 (h _).2)⟩

theorem settled_init (led : Led) :
    (ledseqInit .powerOn).Settled led ∧ (ledseqInit .powerOn).Running led := by
  refine ⟨⟨fun prio => iff_of_false nofun fun hl => hl.1 rfl, fun _ => .inl rfl⟩, ?_⟩
  exact fun prio h => nomatch h

/-- **The sequencer.**  After `ledseq_init` every sequence of calls and of expiries
ends, with the first sequence active that is not stopped, every position inside
its sequence, and the timer of a running sequence started for the step it has
performed last. -/
theorem ledseq_law (calls : List LedCall) :
    ∃ s, (∀ fuel, 2 * seqNum < fuel → exec (ledCall fuel) (ledseqInit .powerOn) calls = some s) ∧
      ∀ led, s.Settled led ∧ s.Running led := by
  suffices hrun : ∀ s₀ : Sequencer, (∀ led, s₀.Settled led ∧ s₀.Running led) →
      ∃ s, (∀ fuel, 2 * seqNum < fuel → exec (ledCall fuel) s₀ calls = some s) ∧
        ∀ led, s.Settled led ∧ s.Running led from hrun _ settled_init
  induction calls with
  | nil => exact fun s₀ h => ⟨s₀, fun _ _ => rfl, h⟩
  | cons c calls ih =>
      intro s₀ h
      obtain ⟨s₁, hcall, h₁⟩ := ledCall_settled c h
      obtain ⟨s, hrest, hs⟩ := ih s₁ h₁
      refine ⟨s, fun fuel hf => ?_, hs⟩
      rw [exec_cons calls (hcall fuel hf)]
      exact hrest fuel hf

/-! ### From every reachable state -/

/-- More fuel does not change what a loop that has ended leaves. -/
theorem runLedseq_mono {n m : ℕ} (h : runLedseq led n s = some s') (hnm : n ≤ m) :
    runLedseq led m s = some s' := by
  induction n generalizing s m with
  | zero => cases h
  | succ n ih =>
      obtain ⟨m, rfl⟩ := Nat.exists_eq_add_of_le' (Nat.one_le_of_lt hnm)
      unfold runLedseq at h ⊢
      rcases hp : pass led s with - | ⟨t, leave | leave⟩
      · rw [hp] at h
        cases h
      · rw [hp] at h
        exact ih h (Nat.le_of_succ_le_succ hnm)
      · rwa [hp] at h

/-- More fuel does not change what a call that has returned leaves. -/
theorem ledCall_mono {c : LedCall} {n m : ℕ} (h : ledCall n s c = some s') (hnm : n ≤ m) :
    ledCall m s c = some s' := by
  obtain ⟨s₁, -, -, hloop | ⟨hend, -⟩⟩ := ledCall_cases s c
  · rw [hloop] at h ⊢
    exact runLedseq_mono h hnm
  · rw [hend] at h ⊢
    exact h

/-- A call that returns leaves every LED settled, whatever its fuel was. -/
theorem settled_ledCall {c : LedCall} {fuel : ℕ} (h : ∀ led, s.Settled led ∧ s.Running led)
    (hc : ledCall fuel s c = some s') : ∀ led, s'.Settled led ∧ s'.Running led := by
  obtain ⟨t, hfuel, ht⟩ := ledCall_settled c h
  have hmax : ledCall (max fuel (2 * seqNum + 1)) s c = some s' :=
    ledCall_mono hc (le_max_left _ _)
  rw [hfuel _ (lt_max_of_lt_right (Nat.lt_succ_self _))] at hmax
  obtain rfl := Option.some.inj hmax
  exact ht

/-- The states that calls lead to after `ledseq_init`. -/
theorem settled_reachable {calls : List LedCall} {fuel : ℕ}
    (h : exec (ledCall fuel) (ledseqInit .powerOn) calls = some s) :
    ∀ led, s.Settled led ∧ s.Running led :=
  Reachable.invariant ⟨calls, h⟩ settled_init fun _ _ _ hi hc => settled_ledCall hi hc

/-- **The step loop ends.**  In every state that calls and expiries lead to after
`ledseq_init`, whatever fuel they took, the loop of `runLedseq` ends for every LED,
on its own as well as inside of any further call. -/
theorem runLedseq_ends {calls : List LedCall} {fuel : ℕ}
    (h : exec (ledCall fuel) (ledseqInit .powerOn) calls = some s) :
    (∀ led, ∃ s', ∀ n, 2 * seqNum < n → runLedseq led n s = some s') ∧
      ∀ c, ∃ s', ∀ n, 2 * seqNum < n → ledCall n s c = some s' := by
  have hs := settled_reachable h
  constructor
  · intro led
    obtain ⟨s', hfuel, -⟩ := runLedseq_settled (hs led).1
    exact ⟨s', hfuel⟩
  · intro c
    obtain ⟨s', hfuel, -⟩ := ledCall_settled c hs
    exact ⟨s', hfuel⟩

/-- After `seq_armed` has run out above `seq_alive`, whose turn it is then. -/
theorem runLedseq_ends_alive :
    ∃ s, exec (ledCall 30) (ledseqInit .powerOn)
        (.run .ledNet (some .alive) :: .run .ledNet (some .armed) ::
          List.replicate 6 (.expire .ledNet)) = some s ∧
      (∀ led, ∃ s', ∀ n, 2 * seqNum < n → runLedseq led n s = some s') ∧
      ∀ c, ∃ s', ∀ n, 2 * seqNum < n → ledCall n s c = some s' := by
  obtain ⟨s, h⟩ := Option.isSome_iff_exists.mp (show (exec (ledCall 30) (ledseqInit .powerOn)
    (.run .ledNet (some .alive) :: .run .ledNet (some .armed) ::
      List.replicate 6 (.expire .ledNet))).isSome = true by decide +kernel)
  exact ⟨s, h, runLedseq_ends h⟩

end DolphinNote
