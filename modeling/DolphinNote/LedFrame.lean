/-
DolphinNote/LedFrame.lean

What a request for one sequence leaves alone: the LED of a sequence with a higher
priority, and every other LED.

The time of the next step is that of the timer, so the sequencer is put beside the
tick count of the kernel: `rt_timer_start` notes the tick at which the timer
expires (`due`), and `rt_soft_timer_check` starts a periodic timer anew behind its
timeout function.  Without the clock these are the calls of `Ledseq`
(`settled_step`).

* `ledseq_run` of a sequence that does not become active never gets to `runLedseq`,
  but its `updateActive` has switched the LED off (`leftAlone_run_iff`).
* `ledseq_stop` goes on to `runLedseq`, which performs the next step of the active
  sequence at once and starts its timer anew (`leftAlone_stop_iff`).
* No call touches another LED (`others_step`).
-/
import DolphinNote.Ledseq

namespace DolphinNote

open Transition

/-! ### The clock -/

/-- The sequencer, `rt_tick_get`, and the tick at which each timer expires. -/
structure Timed where
  seq : Sequencer
  tick : ℕ
  due : Led → Option ℕ

/-- The timers are created stopped. -/
def Timed.init : Timed where
  seq := ledseqInit .powerOn
  tick := 0
  due _ := none

/-- The part of `rt_timer_start` that looks at the clock. -/
def Timed.arm (led : Led) (t : Timed) : Timed :=
  { t with due := Function.update t.due led (some (t.tick + (t.seq.timerLed led).time.toNat)) }

/-- One pass of the loop: an active sequence is left behind `rt_timer_start`. -/
def Timed.pass (led : Led) (t : Timed) : Option (Timed × Bool) :=
  (DolphinNote.pass led t.seq).map fun r =>
    let t' : Timed := { t with seq := r.1 }
    (if r.2 ∧ t.seq.activeSeq led ≠ none then t'.arm led else t', r.2)

/-- `runLedseq` -/
def Timed.runLedseq (led : Led) : ℕ → Timed → Option Timed
  | 0, _ => none
  | fuel + 1, t =>
      match t.pass led with
      | none => none
      | some (t', true) => some t'
      | some (t', false) => Timed.runLedseq led fuel t'

/-- `ledseq_run` -/
def Timed.ledseqRun (fuel : ℕ) (led : Led) (sequence : Option LedSequence) (t : Timed) :
    Option Timed :=
  match getPrio sequence with
  | none => some t
  | some prio =>
      let t : Timed := { t with seq := runSection led prio t.seq }
      if t.seq.activeSeq led = some prio then t.runLedseq led fuel else some t

/-- `ledseq_stop` -/
def Timed.ledseqStop (fuel : ℕ) (led : Led) (sequence : Option LedSequence) (t : Timed) :
    Option Timed :=
  match getPrio sequence with
  | none => some t
  | some prio => Timed.runLedseq led fuel { t with seq := stopSection led prio t.seq }

/-- A call, or the expiry of a timer: it is due, and is started anew when
`runLedseq` has returned. -/
def Timed.call (fuel : ℕ) (t : Timed) : LedCall → Option Timed
  | .run led sequence => t.ledseqRun fuel led sequence
  | .stop led sequence => t.ledseqStop fuel led sequence
  | .expire led =>
      if (t.due led).any (· ≤ t.tick) then (t.runLedseq led fuel).map (Timed.arm led) else none

/-- A call, or one tick (`none`). -/
def Timed.step (fuel : ℕ) (t : Timed) : Option LedCall → Option Timed
  | some c => t.call fuel c
  | none => some { t with tick := t.tick + 1 }

/-! ### Without the clock -/

variable {t t' : Timed} {led led' : Led} {prio q : Prio} {fuel : ℕ}

theorem timed_pass {leave : Bool} (h : t.pass led = some (t', leave)) :
    pass led t.seq = some (t'.seq, leave) ∧ ∀ led', led' ≠ led → t'.due led' = t.due led' := by
  obtain ⟨⟨s, leave'⟩, hp, he⟩ := Option.map_eq_some_iff.mp h
  obtain ⟨rfl, rfl⟩ := Prod.mk.inj he
  rw [hp]
  dsimp only
  split_ifs
  · exact ⟨rfl, fun led' hne => Function.update_of_ne hne _ _⟩
  · exact ⟨rfl, fun led' _ => rfl⟩

theorem timed_runLedseq (h : t.runLedseq led fuel = some t') :
    runLedseq led fuel t.seq = some t'.seq ∧
      ∀ led', led' ≠ led → t'.due led' = t.due led' := by
  induction fuel generalizing t with
  | zero => cases h
  | succ fuel ih =>
      unfold Timed.runLedseq at h
      unfold runLedseq
      rcases hp : t.pass led with - | ⟨u, leave | leave⟩
      · rw [hp] at h
        cases h
      · rw [hp] at h
        obtain ⟨hseq, hdue⟩ := timed_pass hp
        obtain ⟨hrest, hrest'⟩ := ih h
        rw [hseq]
        exact ⟨hrest, fun led' hne => (hrest' led' hne).trans (hdue led' hne)⟩
      · rw [hp] at h
        obtain rfl := Option.some.inj h
        obtain ⟨hseq, hdue⟩ := timed_pass hp
        rw [hseq]
        exact ⟨rfl, hdue⟩

/-- A call does to the sequencer what it does without a clock, and to no other timer
anything. -/
theorem timed_call {c : LedCall} (h : t.call fuel c = some t') :
    ledCall fuel t.seq c = some t'.seq ∧ ∀ led', led' ≠ c.led → t'.due led' = t.due led' := by
  cases c with
  | run led sequence =>
      rcases hp : getPrio sequence with - | prio
      · simp only [Timed.call, Timed.ledseqRun, hp] at h
        obtain rfl := Option.some.inj h
        exact ⟨by simp only [ledCall, ledseqRun, hp], fun _ _ => rfl⟩
      · simp only [Timed.call, Timed.ledseqRun, hp] at h
        simp only [ledCall, ledseqRun, hp]
        by_cases ha : (runSection led prio t.seq).activeSeq led = some prio
        · rw [if_pos ha] at h ⊢
          exact timed_runLedseq h
        · rw [if_neg ha] at h ⊢
          obtain rfl := Option.some.inj h
          exact ⟨rfl, fun _ _ => rfl⟩
  | stop led sequence =>
      rcases hp : getPrio sequence with - | prio
      · simp only [Timed.call, Timed.ledseqStop, hp] at h
        obtain rfl := Option.some.inj h
        exact ⟨by simp only [ledCall, ledseqStop, hp], fun _ _ => rfl⟩
      · simp only [Timed.call, Timed.ledseqStop, hp] at h
        simp only [ledCall, ledseqStop, hp]
        exact timed_runLedseq h
  | expire led =>
      simp only [Timed.call] at h
      split_ifs at h
      obtain ⟨u, hu, rfl⟩ := Option.map_eq_some_iff.mp h
      obtain ⟨hseq, hdue⟩ := timed_runLedseq hu
      exact ⟨hseq, fun led' hne => (Function.update_of_ne hne _ _).trans (hdue led' hne)⟩

theorem settled_step {c : Option LedCall} (h : ∀ led, t.seq.Settled led ∧ t.seq.Running led)
    (hc : t.step fuel c = some t') : ∀ led, t'.seq.Settled led ∧ t'.seq.Running led := by
  rcases c with - | c
  · obtain rfl := Option.some.inj hc
    exact h
  · exact settled_ledCall h (timed_call hc).1

/-! ### The active sequence -/

/-- What a sequence with a lower priority does does not make another one active. -/
theorem first_setState {s : Sequencer} (h : s.Settled led) (ha : s.activeSeq led = some q)
    (hlt : q < prio) (i : ℤ) : (setState led prio i s).first led = some q := by
  obtain ⟨hlive, hle⟩ := (h.active q).mp ha
  rw [first_eq_some_iff]
  refine ⟨?_, fun p hp => ?_⟩
  · show (setState led prio i s).state led q ≠ seqStop
    rw [setState_self, Function.update_of_ne hlt.ne]
    exact hlive
  · have hp : (setState led prio i s).state led p ≠ seqStop := hp
    rw [setState_self] at hp
    rcases eq_or_ne p prio with rfl | hne
    · exact hlt.le
    · rw [Function.update_of_ne hne] at hp
      exact hle hp

/-- A timed step ends the loop. -/
theorem runLedseq_timed {step : LedseqStep} (ha : t.seq.activeSeq led = some q)
    (hs : stepAt q (t.seq.state led q) = some step) (ht : 0 < step.action)
    (h : t.runLedseq led fuel = some t') :
    t'.seq.state led q = t.seq.state led q + 1 ∧ t'.seq.light led = step.value ∧
      t'.seq.timerLed led = { time := step.action, started := some step.action } ∧
      t'.due led = some (t.tick + step.action.toNat) := by
  obtain - | fuel := fuel
  · cases h
  · have hpass : t.pass led = some (Timed.arm led { t with
        seq := rtTimerStart led (rtTimerControl led step.action
          (ledSet led step.value (advance led q t.seq))) }, true) := by
      unfold Timed.pass
      rw [pass_active ha hs, perform_timed ht, Option.map_some, ha]
      rfl
    unfold Timed.runLedseq at h
    rw [hpass] at h
    obtain rfl := Option.some.inj h
    refine ⟨?_, Function.update_self _ _ _, rtTimerStart_control_self _ _, ?_⟩
    · show (advance led q t.seq).state led q = _
      rw [advance, setState_self, Function.update_self]
    · show Function.update t.due led _ led = _
      rw [Function.update_self, rtTimerStart_control_self]

/-- A `LOOP` leads to the first step, which is timed. -/
theorem runLedseq_loop {step step₀ : LedseqStep} (ha : t.seq.activeSeq led = some q)
    (hs : stepAt q (t.seq.state led q) = some step) (hl : step.action = seqLoop)
    (hs₀ : stepAt q 0 = some step₀) (ht : 0 < step₀.action)
    (h : t.runLedseq led fuel = some t') :
    t'.seq.state led q = 1 ∧ t'.seq.light led = step₀.value ∧
      t'.seq.timerLed led = { time := step₀.action, started := some step₀.action } ∧
      t'.due led = some (t.tick + step₀.action.toNat) := by
  obtain - | fuel := fuel
  · cases h
  · have hpass : t.pass led = some ({ t with seq := setState led q 0 t.seq }, false) := by
      unfold Timed.pass
      rw [pass_active ha hs, perform_loop hl, setState_advance, Option.map_some]
      rfl
    have hzero : (setState led q 0 t.seq).state led q = 0 := by
      rw [setState_self, Function.update_self]
    unfold Timed.runLedseq at h
    rw [hpass] at h
    have hstep : stepAt q ((setState led q 0 t.seq).state led q) = some step₀ := by
      rw [hzero]
      exact hs₀
    have hend := runLedseq_timed (t := { t with seq := setState led q 0 t.seq }) ha hstep ht h
    rwa [hzero] at hend

/-- The loop starts no sequence that has been stopped. -/
theorem stopped_runLedseq {s s' : Sequencer} (h : s.Settled led) (hq : s.state led q = seqStop)
    (hr : runLedseq led fuel s = some s') : s'.state led q = seqStop := by
  induction fuel generalizing s with
  | zero => cases hr
  | succ fuel ih =>
      rcases ha : s.activeSeq led with - | prio
      · have hpass : pass led s = some (s, true) := by simp only [pass, ha]
        rw [runLedseq_leave hpass (Nat.succ_pos _)] at hr
        obtain rfl := Option.some.inj hr
        exact hq
      · have hlive := ((h.active prio).mp ha).1
        have hne : q ≠ prio := by
          rintro rfl
          exact hlive hq
        obtain ⟨step, hs⟩ := inSequence_iff.mp ((h.inside prio).resolve_left hlive)
        rcases stepAt_cases hs with ⟨ht, -⟩ | hl | hl
        · have hpass := pass_active ha hs
          rw [perform_timed ht] at hpass
          rw [runLedseq_leave hpass (Nat.succ_pos _)] at hr
          obtain rfl := Option.some.inj hr
          show (setState led prio _ s).state led q = seqStop
          rw [setState_self, Function.update_of_ne hne]
          exact hq
        · have hpass := pass_active ha hs
          rw [perform_loop hl, setState_advance] at hpass
          rw [runLedseq_stay hpass] at hr
          refine ih (h.setState ha (inSequence_zero prio)) ?_ hr
          rw [setState_self, Function.update_of_ne hne]
          exact hq
        · obtain ⟨s₁, hpass, hset, hstate⟩ := pass_stop h ha hs hl
          rw [runLedseq_stay hpass] at hr
          refine ih hset ?_ hr
          rw [hstate, Function.update_of_ne hne]
          exact hq

/-! ### The frame -/

/-- The output of the LED, the position of the sequence, and the timer are as they were. -/
def LeftAlone (led : Led) (q : Prio) (t t' : Timed) : Prop :=
  t'.seq.light led = t.seq.light led ∧ t'.seq.state led q = t.seq.state led q ∧
    t'.seq.timerLed led = t.seq.timerLed led ∧ t'.due led = t.due led

/-- The sequence a call is about. -/
def LedCall.about : LedCall → Option Prio
  | .run _ sequence | .stop _ sequence => getPrio sequence
  | .expire _ => none

/-- The call is about a sequence with a larger index than the active one, `q`. -/
def Below (t : Timed) (c : LedCall) (q : Prio) : Prop :=
  t.seq.activeSeq c.led = some q ∧ ∃ prio, c.about = some prio ∧ q < prio

/-- What a call leaves as it was. -/
def Frame (t : Timed) (c : LedCall) (t' : Timed) : Prop :=
  (∀ q, Below t c q → LeftAlone c.led q t t') ∧
    ∀ led', led' ≠ c.led → SameLed led' t.seq t'.seq ∧ t'.due led' = t.due led'

/-- The sequences that consist of one timed step, which is repeated. -/
def Lasting (q : Prio) : Prop := sequences q = .lowbat ∨ sequences q = .alwayson

instance (q : Prio) : Decidable (Lasting q) := inferInstanceAs (Decidable (_ ∨ _))

/-- The call happens to leave the active sequence alone. -/
def Harmless (t : Timed) (c : LedCall) : Prop :=
  ∀ q, Below t c q →
    match c with
    -- the LED is dark already
    | .run led _ => t.seq.light led = false
    -- the only step of the sequence is repeated in the tick in which it was performed
    | .stop led _ => Lasting q ∧ t.seq.light led = true ∧ t.due led = some (t.tick + 1000)
    | .expire _ => True

theorem lasting_of_loop {step : LedseqStep} (hs : stepAt q 1 = some step)
    (hl : step.action = seqLoop) : Lasting q := by
  have htable : ∀ q : Prio,
      ((stepAt q 1).any fun step => step.action = seqLoop) = true → Lasting q := by
    decide
  exact htable q ((Option.any_eq_true _ _).mpr ⟨step, hs, decide_eq_true hl⟩)

theorem Lasting.steps (h : Lasting q) :
    (sequences q).steps = [⟨true, seqWaitMs 1000⟩, ⟨false, seqLoop⟩] := by
  rcases h with h | h <;> rw [h] <;> rfl

theorem Lasting.stepAt_zero (h : Lasting q) : stepAt q 0 = some ⟨true, 1000⟩ := by
  rw [stepAt, if_pos le_rfl, h.steps]
  rfl

/-- Behind its only timed step such a sequence stands at its `LOOP`. -/
theorem Lasting.position (h : Lasting q) {i : ℤ} {step : LedseqStep} (hi : 1 ≤ i)
    (hs : stepAt q i = some step) : i = 1 ∧ step.action = seqLoop := by
  obtain ⟨-, hlt⟩ := inSequence_iff.mpr ⟨step, hs⟩
  have hlen : ((sequences q).steps.length : ℤ) = 2 := by rw [h.steps]; rfl
  obtain rfl : i = 1 := by omega
  rw [stepAt, if_pos (by decide), h.steps] at hs
  obtain rfl := Option.some.inj hs
  exact ⟨rfl, rfl⟩

/-- A sequence with a lower priority is started: nothing but `updateActive` happens. -/
theorem leftAlone_run_iff {sequence : Option LedSequence} (h : t.seq.Settled led)
    (ha : t.seq.activeSeq led = some q) (hp : getPrio sequence = some prio) (hlt : q < prio)
    (hc : t.ledseqRun fuel led sequence = some t') :
    LeftAlone led q t t' ↔ t.seq.light led = false := by
  have hactive : (runSection led prio t.seq).activeSeq led ≠ some prio := by
    rw [runSection, updateActive_self, first_setState h ha hlt 0]
    exact fun he => hlt.ne (Option.some.inj he)
  unfold Timed.ledseqRun at hc
  rw [hp] at hc
  dsimp only at hc
  rw [if_neg hactive] at hc
  obtain rfl := Option.some.inj hc
  have hlight : (runSection led prio t.seq).light led = false := Function.update_self _ _ _
  have hstate : (runSection led prio t.seq).state led q = t.seq.state led q := by
    show (setState led prio 0 t.seq).state led q = _
    rw [setState_self, Function.update_of_ne hlt.ne]
  constructor
  · rintro ⟨hl, -⟩
    exact hl.symm.trans hlight
  · exact fun hl => ⟨hlight.trans hl.symm, hstate, rfl, rfl⟩

/-- A sequence with a lower priority is stopped: the active one goes on to its next
step. -/
theorem leftAlone_stop_iff {sequence : Option LedSequence} (h : t.seq.Settled led)
    (hr : t.seq.Running led) (ha : t.seq.activeSeq led = some q) (hp : getPrio sequence = some prio)
    (hlt : q < prio) (hc : t.ledseqStop fuel led sequence = some t') :
    LeftAlone led q t t' ↔
      Lasting q ∧ t.seq.light led = true ∧ t.due led = some (t.tick + 1000) := by
  have hset := settled_stopSection h prio
  have hactive : (stopSection led prio t.seq).activeSeq led = some q := by
    rw [stopSection, updateActive_self, first_setState h ha hlt seqStop]
  have hstate : (stopSection led prio t.seq).state led q = t.seq.state led q := by
    show (setState led prio seqStop t.seq).state led q = _
    rw [setState_self, Function.update_of_ne hlt.ne]
  have hlive := ((h.active q).mp ha).1
  obtain ⟨hone, step', hprev, -, htimer⟩ := hr q ha
  obtain ⟨step, hs⟩ := inSequence_iff.mp ((h.inside q).resolve_left hlive)
  have hs' : stepAt q ((stopSection led prio t.seq).state led q) = some step := by
    rw [hstate]
    exact hs
  unfold Timed.ledseqStop at hc
  rw [hp] at hc
  dsimp only at hc
  rcases stepAt_cases hs with ⟨ht, -⟩ | hl | hl
  · -- a timed step: the position moves on
    obtain ⟨hend, -⟩ := runLedseq_timed (t := { t with seq := stopSection led prio t.seq })
      hactive hs' ht hc
    refine iff_of_false (fun hu => ?_) (fun hu => ?_)
    · have hsame := hend.symm.trans hu.2.1
      rw [hstate] at hsame
      omega
    · obtain ⟨-, hl⟩ := hu.1.position hone hs
      exact absurd (hl ▸ ht) (by decide)
  · -- a `LOOP`, and the first step again
    obtain ⟨step₀, hs₀, ht₀⟩ := stepAt_zero q
    obtain ⟨hone', hlight, htimer', hdue⟩ := runLedseq_loop
      (t := { t with seq := stopSection led prio t.seq }) hactive hs' hl hs₀ ht₀ hc
    constructor
    · intro hu
      have hpos : t.seq.state led q = 1 := hu.2.1.symm.trans hone'
      have hlast : Lasting q := lasting_of_loop (hpos ▸ hs) hl
      obtain rfl := Option.some.inj (hs₀.symm.trans hlast.stepAt_zero)
      exact ⟨hlast, hu.1.symm.trans hlight, hu.2.2.2.symm.trans hdue⟩
    · rintro ⟨hlast, hon, hnow⟩
      obtain ⟨hpos, -⟩ := hlast.position hone hs
      obtain rfl := Option.some.inj (hs₀.symm.trans hlast.stepAt_zero)
      rw [hpos] at hprev
      obtain rfl := Option.some.inj (hprev.symm.trans hlast.stepAt_zero)
      exact ⟨hlight.trans hon.symm, hone'.trans hpos.symm, htimer'.trans htimer.symm,
        hdue.trans hnow.symm⟩
  · -- a `STOP`: the sequence is stopped
    obtain ⟨hend, -⟩ := timed_runLedseq hc
    have hstop : t'.seq.state led q = seqStop := by
      obtain - | fuel := fuel
      · cases hc
      · obtain ⟨s₁, hpass, hset₁, hstate₁⟩ := pass_stop hset hactive hs' hl
        have hend' := hend
        dsimp only at hend'
        rw [runLedseq_stay hpass] at hend'
        refine stopped_runLedseq hset₁ ?_ hend'
        rw [hstate₁, Function.update_self]
    refine iff_of_false (fun hu => ?_) (fun hu => ?_)
    · exact hlive (hu.2.1.symm.trans hstop)
    · obtain ⟨-, hloop⟩ := hu.1.position hone hs
      exact absurd (hl.symm.trans hloop) (by decide)

theorem sameLed_ledCall {s s' : Sequencer} {c : LedCall} (hne : led' ≠ c.led)
    (h : ledCall fuel s c = some s') : SameLed led' s s' := by
  obtain ⟨s₁, hsame, -, hloop | ⟨hend, -⟩⟩ := ledCall_cases s c
  · rw [hloop] at h
    exact (hsame led' hne).trans (sameLed_runLedseq hne h)
  · rw [hend] at h
    obtain rfl := Option.some.inj h
    exact hsame led' hne

/-- A call changes nothing of another LED. -/
theorem others_step {c : LedCall} (hc : t.call fuel c = some t') (hne : led' ≠ c.led) :
    SameLed led' t.seq t'.seq ∧ t'.due led' = t.due led' := by
  obtain ⟨hseq, hdue⟩ := timed_call hc
  exact ⟨sameLed_ledCall hne hseq, hdue led' hne⟩

/-- **Lower priorities.**  In every state that calls, expiries and ticks lead to, a
further call leaves the LED, the position and the timer of an active sequence with a
higher priority as they were exactly in the cases of `Harmless`, and it always leaves
the other LEDs alone. -/
theorem frame_iff {as : List (Option LedCall)} {fuel fuel' : ℕ}
    (h : exec (Timed.step fuel) Timed.init as = some t) {c : LedCall}
    (hc : t.call fuel' c = some t') : Frame t c t' ↔ Harmless t c := by
  have hinv : ∀ led, t.seq.Settled led ∧ t.seq.Running led :=
    Reachable.invariant (I := fun t : Timed => ∀ led, t.seq.Settled led ∧ t.seq.Running led)
      ⟨as, h⟩ settled_init fun _ _ _ hi hs => settled_step hi hs
  have hothers : ∀ led', led' ≠ c.led → SameLed led' t.seq t'.seq ∧ t'.due led' = t.due led' :=
    fun led' hne => others_step hc hne
  refine (and_iff_left hothers).trans (forall_congr' fun q => imp_congr_right fun hb => ?_)
  obtain ⟨ha, prio, hp, hlt⟩ := hb
  cases c with
  | run led sequence => exact leftAlone_run_iff (hinv led).1 ha hp hlt hc
  | stop led sequence => exact leftAlone_stop_iff (hinv led).1 (hinv led).2 ha hp hlt hc
  | expire led => cases hp

/-- `seq_alive` in its dark half: `seq_flash_3_times` can be started below it. -/
theorem frame_iff_dark :
    ∃ t t', exec (Timed.step 30) Timed.init
        (some (.run .ledNet (some .alive)) :: List.replicate 50 none ++ [some (.expire .ledNet)]) =
          some t ∧
      t.call 30 (.run .ledNet (some .flash3Times)) = some t' ∧
      Below t (.run .ledNet (some .flash3Times)) 8 ∧
      Frame t (.run .ledNet (some .flash3Times)) t' := by
  have hrun : (exec (Timed.step 30) Timed.init
      (some (.run .ledNet (some .alive)) :: List.replicate 50 none ++
        [some (.expire .ledNet)])).map
      (fun t => (t.seq.light .ledNet, t.seq.activeSeq .ledNet,
        (t.call 30 (.run .ledNet (some .flash3Times))).isSome)) = some (false, some 8, true) := by
    decide +kernel
  obtain ⟨t, ht, hv⟩ := Option.map_eq_some_iff.mp hrun
  obtain ⟨hdark, hv⟩ := Prod.mk.inj hv
  obtain ⟨hactive, hcall⟩ := Prod.mk.inj hv
  obtain ⟨t', hc⟩ := Option.isSome_iff_exists.mp hcall
  exact ⟨t, t', ht, hc, ⟨hactive, 9, by decide, by decide⟩, (frame_iff ht hc).mpr fun _ _ => hdark⟩

/-- In the bright half of `seq_alive` a request for `seq_flash_3_times` disturbs it:
the one to start it switches the LED off, the one to stop it moves the position on. -/
theorem frame_fails :
    ∃ t t₁ t₂, exec (Timed.step 30) Timed.init [some (.run .ledNet (some .alive))] = some t ∧
      t.call 30 (.run .ledNet (some .flash3Times)) = some t₁ ∧
      t.call 30 (.stop .ledNet (some .flash3Times)) = some t₂ ∧
      ¬ Frame t (.run .ledNet (some .flash3Times)) t₁ ∧
      ¬ Frame t (.stop .ledNet (some .flash3Times)) t₂ := by
  have hrun : (exec (Timed.step 30) Timed.init [some (.run .ledNet (some .alive))]).map
      (fun t => (t.seq.activeSeq .ledNet, t.seq.light .ledNet, t.seq.state .ledNet 8,
        (t.call 30 (.run .ledNet (some .flash3Times))).map fun t' => t'.seq.light .ledNet,
        (t.call 30 (.stop .ledNet (some .flash3Times))).map fun t' => t'.seq.state .ledNet 8)) =
      some (some 8, true, 1, some false, some 2) := by
    decide +kernel
  obtain ⟨t, ht, hv⟩ := Option.map_eq_some_iff.mp hrun
  obtain ⟨hactive, hv⟩ := Prod.mk.inj hv
  obtain ⟨hlight, hv⟩ := Prod.mk.inj hv
  obtain ⟨hstate, hv⟩ := Prod.mk.inj hv
  obtain ⟨hv₁, hv₂⟩ := Prod.mk.inj hv
  obtain ⟨t₁, ht₁, hlight₁⟩ := Option.map_eq_some_iff.mp hv₁
  obtain ⟨t₂, ht₂, hstate₂⟩ := Option.map_eq_some_iff.mp hv₂
  refine ⟨t, t₁, t₂, ht, ht₁, ht₂, fun hf => ?_, fun hf => ?_⟩
  · have hsame := (hf.1 8 ⟨hactive, 9, by decide, by decide⟩).1
    exact absurd ((hlight₁.symm.trans hsame).trans hlight) (by decide)
  · have hsame := (hf.1 8 ⟨hactive, 9, by decide, by decide⟩).2.1
    exact absurd ((hstate₂.symm.trans hsame).trans hstate) (by decide)

end DolphinNote
