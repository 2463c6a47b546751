/-
DolphinNote/LedClock.lean

The LED sequencer on the timers of the kernel, and the thread that serves them.

The six timers of the sequencer are soft timers, so they expire in the timer
thread (`rt_thread_timer_entry`, `rt_soft_timer_check`): it sleeps until the first
of them is due, and `rt_timer_start` wakes it up.  Ticks are 32-bit numbers here;
`Timed` is the same sequencer over an unbounded clock.

`Shows` relates the two: the timers stand on an agenda of the times `Timed` has
noted.  A call or an expiry keeps it (`Shows.ledseqRun`, `Shows.ledseqStop`,
`Shows.fire`), and tells what it has done to the agenda.
-/
import DolphinNote.LedFrame
import DolphinNote.Timers

namespace DolphinNote

open Transition Rings Agenda Timers

instance : Fintype Led :=
  ⟨{.ledRed, .ledGreen, .ledNet, .ledSnp, .ledRec, .beep}, fun led => by cases led <;> decide⟩

/-! ### The timer thread -/

/-- Where the timer thread stands. -/
inductive TimerThread
  -- at the top of the loop of `rt_thread_timer_entry`
  | entry
  -- behind `rt_thread_suspend`
  | suspended
  -- in `rt_thread_delay`
  | delayed (left : Tick)
  -- in front of `rt_soft_timer_check`
  | check
  -- in its loop, with `n` and `current_tick`
  | loop (n : Node TimerHead Led) (currentTick : Tick)
  deriving DecidableEq, Repr

/-- The thread is blocked, and the other ones run. -/
def TimerThread.asleep : TimerThread → Bool
  | .suspended | .delayed _ => true
  | _ => false

/-- `rt_thread_resume(&timer_thread)` -/
def TimerThread.resume : TimerThread → TimerThread
  | .suspended | .delayed _ => .check
  | thread => thread

/-- A tick of `rt_thread_delay`, which takes one at least. -/
def TimerThread.tick : TimerThread → TimerThread
  | .delayed left => if left = 0 ∨ left = 1 then .check else .delayed (left - 1)
  | thread => thread

/-- The sequencer, the timers and the timer thread. -/
structure LedClock where
  seq : Sequencer
  timers : Timers Led
  thread : TimerThread

/-- The timers that `ledseq_init` creates. -/
def ledTimers : Timers Led :=
  [Led.ledRed, .ledGreen, .ledNet, .ledSnp, .ledRec, .beep].foldl
    (fun s led => rtTimerInit led 1000 { activated := false, periodic := true, softTimer := true } s)
    { rtTick := 0,
      timer := fun _ => { flag := ⟨false, false, false⟩, initTick := 0, timeoutTick := 0 },
      links := Links.empty }

/-- Behind `ledseq_init`. -/
def LedClock.init : LedClock where
  seq := ledseqInit .powerOn
  timers := ledTimers
  thread := .entry

/-! ### Calls -/

/-- `rt_timer_control` and `rt_timer_start`, with the time of the step performed. -/
def LedClock.arm (led : Led) (c : LedClock) : Option LedClock :=
  (Timers.rtTimerStart led (Timers.rtTimerControl led (.setTime (BitVec.ofInt 32 (c.seq.timerLed led).time))
    c.timers)).map fun timers => { c with timers := timers, thread := c.thread.resume }

/-- One pass of the loop of `runLedseq`. -/
def LedClock.pass (led : Led) (c : LedClock) : Option (LedClock × Bool) :=
  (DolphinNote.pass led c.seq).bind fun r =>
    let c' : LedClock := { c with seq := r.1 }
    if r.2 ∧ c.seq.activeSeq led ≠ none then (c'.arm led).map fun c' => (c', r.2)
    else some (c', r.2)

/-- `runLedseq` -/
def LedClock.runLedseq (led : Led) : ℕ → LedClock → Option LedClock
  | 0, _ => none
  | fuel + 1, c =>
      match c.pass led with
      | none => none
      | some (c', true) => some c'
      | some (c', false) => LedClock.runLedseq led fuel c'

/-- `ledseq_run` -/
def LedClock.ledseqRun (fuel : ℕ) (led : Led) (sequence : Option LedSequence) (c : LedClock) :
    Option LedClock :=
  match getPrio sequence with
  | none => some c
  | some prio =>
      let c : LedClock := { c with seq := runSection led prio c.seq }
      if c.seq.activeSeq led = some prio then c.runLedseq led fuel else some c

/-- `ledseq_stop` -/
def LedClock.ledseqStop (fuel : ℕ) (led : Led) (sequence : Option LedSequence) (c : LedClock) :
    Option LedClock :=
  match getPrio sequence with
  | none => some c
  | some prio => LedClock.runLedseq led fuel { c with seq := stopSection led prio c.seq }

/-! ### Steps -/

/-- The condition under which `rt_soft_timer_check` takes a timer out. -/
def LedClock.due (c : LedClock) (led : Led) (currentTick : Tick) : Prop :=
  currentTick - (c.timers.timer led).timeoutTick < rtTickMax / 2

instance (c : LedClock) (led : Led) (currentTick : Tick) : Decidable (c.due led currentTick) :=
  inferInstanceAs (Decidable (_ < _))

/-- A timer is taken out, its timeout function is called, and it is started anew. -/
def LedClock.fire (fuel : ℕ) (led : Led) (c : LedClock) : Option LedClock :=
  (LedClock.runLedseq led fuel { c with timers := rtTimerRemove led c.timers }).bind fun c =>
    (restart led c.timers).map fun timers => { c with timers := timers }

/-- The next step of the timer thread, unless it is blocked. -/
def LedClock.next (fuel : ℕ) (c : LedClock) : Option LedClock :=
  match c.thread with
  | .entry =>
      let nextTimeout := rtTimerListNextTimeout .softTimerList c.timers
      if nextTimeout = rtTickMax then some { c with thread := .suspended }
      else if nextTimeout - c.timers.rtTick < rtTickMax / 2 then
        some { c with thread := .delayed (nextTimeout - c.timers.rtTick) }
      else some { c with thread := .check }
  | .check =>
      some { c with
        thread := .loop (c.timers.links.next (.head .softTimerList)) c.timers.rtTick }
  | .loop (.head _) _ => some { c with thread := .entry }
  | .loop (.item led) currentTick =>
      if c.due led currentTick then
        -- the node behind is noted before the timer is taken out
        let n := c.timers.links.next (.item led)
        (c.fire fuel led).map fun c => { c with thread := .loop n c.timers.rtTick }
      else some { c with thread := .entry }
  | _ => none

/-- A call from another thread, a tick, or a step of the timer thread. -/
inductive LedClockEvent
  | run (led : Led) (sequence : Option LedSequence)
  | stop (led : Led) (sequence : Option LedSequence)
  | tick
  | next
  deriving DecidableEq, Repr

/-- The timer thread has the highest priority: calls happen while it is blocked.  A call is
one step here, and so is the work on one timer that expires.  On the board `rt_timer_start`
opens the interrupts between taking the timer out and putting it back, and a tick can come
in between: that is left out. -/
def LedClock.step (fuel : ℕ) (c : LedClock) : LedClockEvent → Option LedClock
  | .run led sequence => if c.thread.asleep then c.ledseqRun fuel led sequence else none
  | .stop led sequence => if c.thread.asleep then c.ledseqStop fuel led sequence else none
  | .tick => some { c with timers := { c.timers with rtTick := c.timers.rtTick + 1 },
                           thread := c.thread.tick }
  | .next => c.next fuel

/-- What a step is for `Timed`. -/
def LedClock.label (c : LedClock) : LedClockEvent → List (Option LedCall)
  | .run led sequence => [some (.run led sequence)]
  | .stop led sequence => [some (.stop led sequence)]
  | .tick => [none]
  | .next =>
      match c.thread with
      | .loop (.item led) currentTick => if c.due led currentTick then [some (.expire led)] else []
      | _ => []

/-! ### The two clocks -/

/-- The times of the sequences: no step takes longer than 1000 ticks. -/
def ledWindow : TimerHead → Window := fun _ =>
  { late := half - 1000, span := 1001, late_lt := by decide, span_le := by decide,
    near := by decide }

/-- The timers stand on an agenda over the unbounded clock.  Nothing is said of the
timer that is `firing`: it has been taken out. -/
structure LedClock.Shows (firing : Option Led) (agenda : TimerHead → List (Led × ℕ))
    (c : LedClock) (t : Timed) : Prop where
  seq : c.seq = t.seq
  timers : c.timers.Represents ledWindow t.tick agenda
  hard : agenda .timerList = []
  due : ∀ led, firing ≠ some led → ∀ d, t.due led = some d ↔ (led, d) ∈ agenda .softTimerList
  flagged : ∀ led, firing ≠ some led → Flagged agenda c.timers led
  kind : ∀ led, (c.timers.timer led).flag.periodic = true ∧
    (c.timers.timer led).flag.softTimer = true
  init : ∀ led, (c.timers.timer led).initTick = BitVec.ofInt 32 (c.seq.timerLed led).time
  time : ∀ led, 0 < (c.seq.timerLed led).time ∧ (c.seq.timerLed led).time ≤ 1000

section Shows

variable {firing : Option Led} {agenda : TimerHead → List (Led × ℕ)} {c c' : LedClock}
  {t t' : Timed} {led : Led} {fuel : ℕ}

theorem LedClock.Shows.weaken (h : c.Shows none agenda t) (led : Led) :
    c.Shows (some led) agenda t where
  seq := h.seq
  timers := h.timers
  hard := h.hard
  due led' _ := h.due led' (Option.some_ne_none led').symm
  flagged led' _ := h.flagged led' (Option.some_ne_none led').symm
  kind := h.kind
  init := h.init
  time := h.time

/-- The thread is not looked at. -/
theorem LedClock.Shows.of_thread (h : c.Shows firing agenda t) (thread : TimerThread) :
    LedClock.Shows firing agenda { c with thread := thread } t :=
  ⟨h.seq, h.timers, h.hard, h.due, h.flagged, h.kind, h.init, h.time⟩

theorem toNat_ofInt_time {x : ℤ} (h : 0 < x) (h' : x ≤ 1000) :
    (BitVec.ofInt 32 x).toNat = x.toNat := by
  rw [BitVec.toNat_ofInt]
  omega

/-- `rt_timer_start` of a timer of the sequencer. -/
theorem LedClock.Shows.start (h : c.Shows (some led) agenda t) :
    ∃ timers, Timers.rtTimerStart led c.timers = some timers ∧ t.tick < t.tick +
      (c.seq.timerLed led).time.toNat ∧ LedClock.Shows none
        (Timers.arm .softTimerList led (t.tick + (c.seq.timerLed led).time.toNat) agenda)
        { c with timers := timers } (t.arm led) := by
  obtain ⟨hpos, hle⟩ := h.time led
  have hinit : (c.timers.timer led).initTick.toNat = (c.seq.timerLed led).time.toNat := by
    rw [h.init led, toNat_ofInt_time hpos hle]
  have hhead : (c.timers.timer led).flag.head = .softTimerList := by
    rw [TimerFlag.head, if_pos (h.kind led).2]
  obtain ⟨timers, hstart, hrep, htimer, -⟩ := rtTimerStart_spec (t := led) h.timers (by
    rw [hinit]
    show (c.seq.timerLed led).time.toNat < 1001
    omega)
  rw [hhead, hinit] at hrep
  refine ⟨timers, hstart, by omega, h.seq, hrep, ?_, fun led' _ d => ?_, fun led' _ => ?_,
    fun led' => ?_, fun led' => ?_, h.time⟩
  · show Function.update (cancel led agenda) _ _ .timerList = []
    rw [Function.update_of_ne (by decide)]
    show without led (agenda .timerList) = []
    rw [h.hard]
    rfl
  · show Function.update t.due led (some (t.tick + (t.seq.timerLed led).time.toNat)) led' = some d ↔
      _
    rw [← h.seq]
    rcases eq_or_ne led' led with rfl | hne
    · rw [Function.update_self, Option.some.injEq]
      refine ⟨fun hd => hd ▸ mem_arm_self _ _ _ _, fun hd => ?_⟩
      rcases mem_arm hd with ⟨-, he⟩ | ⟨-, hne⟩
      · exact (Prod.mk.inj he).2.symm
      · exact absurd rfl hne
    · rw [Function.update_of_ne hne, h.due led' (fun he => hne (Option.some.inj he).symm)]
      exact (mem_arm_iff hne).symm
  · have hother : led' ≠ led → Flagged agenda c.timers led' :=
      fun hne => h.flagged led' fun he => hne (Option.some.inj he).symm
    have hf := Flagged.start (d := t.tick + (c.seq.timerLed led).time.toNat) hother htimer
    rwa [hhead] at hf
  · show (timers.timer led').flag.periodic = true ∧ (timers.timer led').flag.softTimer = true
    rw [htimer]
    rcases eq_or_ne led' led with rfl | hne
    · rw [Function.update_self]
      exact h.kind led'
    · rw [Function.update_of_ne hne]
      exact h.kind led'
  · show (timers.timer led').initTick = _
    rw [htimer]
    rcases eq_or_ne led' led with rfl | hne
    · rw [Function.update_self]
      exact h.init led'
    · rw [Function.update_of_ne hne]
      exact h.init led'

/-- `rt_timer_control`, and then `rt_timer_start`. -/
theorem LedClock.Shows.arm {s : Sequencer} (h : c.Shows firing agenda t)
    (hf : ∀ led', firing = some led' → led' = led)
    (hother : ∀ led', led' ≠ led → s.timerLed led' = c.seq.timerLed led')
    (hpos : 0 < (s.timerLed led).time) (hle : (s.timerLed led).time ≤ 1000)
    (hc : LedClock.arm led { c with seq := s } = some c') :
    ∃ d, t.tick < d ∧ c'.thread = c.thread.resume ∧
      c'.Shows none (Timers.arm .softTimerList led d agenda) (Timed.arm led { t with seq := s }) := by
  obtain ⟨timers, ht, rfl⟩ := Option.map_eq_some_iff.mp hc
  obtain ⟨v, hv⟩ : ∃ v, v = Timers.rtTimerControl led
    (.setTime (BitVec.ofInt 32 (s.timerLed led).time)) c.timers := ⟨_, rfl⟩
  have hset : v = c.timers.set led
      { c.timers.timer led with initTick := BitVec.ofInt 32 (s.timerLed led).time } := hv
  have hkeep : ∀ led', (v.timer led').flag = (c.timers.timer led').flag := by
    intro led'
    rw [hset]
    rcases eq_or_ne led' led with rfl | hne
    · rw [timer_set_self]
    · rw [timer_set_of_ne hne]
  have hshows : LedClock.Shows (some led) agenda { c with seq := s, timers := v }
      { t with seq := s } := by
    refine ⟨rfl, ?_, h.hard, fun led' hne => ?_, fun led' hne => ?_, fun led' => ?_,
      fun led' => ?_, fun led' => ?_⟩
    · rw [hset]
      exact h.timers.update rfl rfl
    · exact h.due led' fun he => hne (congrArg some (hf led' he)).symm
    · have hne' : led' ≠ led := fun he => hne (congrArg some he).symm
      refine (h.flagged led' fun he => hne' (hf led' he)).congr ?_ fun _ _ => Iff.rfl
      show v.timer led' = _
      rw [hset, timer_set_of_ne hne']
    · show (v.timer led').flag.periodic = true ∧ _
      rw [hkeep]
      exact h.kind led'
    · show (v.timer led').initTick = BitVec.ofInt 32 (s.timerLed led').time
      rw [hset]
      rcases eq_or_ne led' led with rfl | hne
      · rw [timer_set_self]
      · rw [timer_set_of_ne hne, hother led' hne]
        exact h.init led'
    · rcases eq_or_ne led' led with rfl | hne
      · exact ⟨hpos, hle⟩
      · show 0 < (s.timerLed led').time ∧ (s.timerLed led').time ≤ 1000
        rw [hother led' hne]
        exact h.time led'
  obtain ⟨timers', ht', hlt, hend⟩ := hshows.start
  obtain rfl := Option.some.inj (ht'.symm.trans (hv ▸ ht))
  exact ⟨_, hlt, rfl, hend.of_thread _⟩

/-! ### The calls on both clocks -/

theorem stepAt_action_le {prio : Prio} {i : ℤ} {step : LedseqStep} (hs : stepAt prio i = some step) :
    step.action ≤ 1000 := by
  have htable : ∀ prio : Prio, ∀ step ∈ (sequences prio).steps, step.action ≤ 1000 := by decide
  unfold stepAt at hs
  split_ifs at hs
  exact htable prio step (List.mem_of_getElem? hs)

/-- What a pass does to the times: a pass that leaves an active sequence behind a timed
step has noted its time. -/
theorem pass_time {s s' : Sequencer} {leave : Bool} (hp : pass led s = some (s', leave)) :
    (∀ led', led' ≠ led → s'.timerLed led' = s.timerLed led') ∧
      if leave ∧ s.activeSeq led ≠ none then
        0 < (s'.timerLed led).time ∧ (s'.timerLed led).time ≤ 1000
      else s'.timerLed = s.timerLed := by
  unfold pass at hp
  rcases ha : s.activeSeq led with - | prio
  · rw [ha] at hp
    obtain ⟨rfl, rfl⟩ := Prod.mk.inj (Option.some.inj hp)
    rw [if_neg fun hand => hand.2 rfl]
    exact ⟨fun _ _ => rfl, rfl⟩
  · rw [ha] at hp
    obtain ⟨step, hs, hperform⟩ := Option.map_eq_some_iff.mp hp
    rcases stepAt_cases hs with ⟨ht, -⟩ | hl | hl
    · rw [perform_timed ht] at hperform
      obtain ⟨rfl, rfl⟩ := Prod.mk.inj hperform
      rw [if_pos ⟨rfl, Option.some_ne_none prio⟩, rtTimerStart_control_self]
      refine ⟨fun led' hne => ?_, ht, stepAt_action_le hs⟩
      exact (sameLed_timer hne step.action _).2.2.1
    · rw [perform_loop hl] at hperform
      obtain ⟨rfl, rfl⟩ := Prod.mk.inj hperform
      rw [if_neg fun hand => Bool.false_ne_true hand.1]
      exact ⟨fun _ _ => rfl, rfl⟩
    · rw [perform_stop hl] at hperform
      obtain ⟨rfl, rfl⟩ := Prod.mk.inj hperform
      rw [if_neg fun hand => Bool.false_ne_true hand.1]
      exact ⟨fun _ _ => rfl, rfl⟩

/-- What a call leaves behind: the timers as they were, or the one of the LED started. -/
def LedClock.Moved (led : Led) (firing : Option Led) (agenda : TimerHead → List (Led × ℕ))
    (c c' : LedClock) (t' : Timed) : Prop :=
  (c'.Shows firing agenda t' ∧ c'.thread = c.thread ∧ c'.timers = c.timers) ∨
    ∃ d, t'.tick < d ∧ c'.Shows none (Timers.arm .softTimerList led d agenda) t' ∧
      c'.thread = c.thread.resume

theorem LedClock.Shows.pass {leave : Bool} (h : c.Shows firing agenda t)
    (hf : ∀ led', firing = some led' → led' = led) (hp : c.pass led = some (c', leave)) :
    ∃ t', t.pass led = some (t', leave) ∧ t'.tick = t.tick ∧
      if leave then c.Moved led firing agenda c' t'
      else c'.Shows firing agenda t' ∧ c'.thread = c.thread ∧ c'.timers = c.timers := by
  obtain ⟨⟨s, leave'⟩, hr, hp⟩ := Option.bind_eq_some_iff.mp hp
  obtain ⟨hother, htime⟩ := pass_time hr
  have hr' : DolphinNote.pass led t.seq = some (s, leave') := h.seq ▸ hr
  have hpass : t.pass led = some (if leave' ∧ c.seq.activeSeq led ≠ none then
      Timed.arm led { t with seq := s } else { t with seq := s }, leave') := by
    unfold Timed.pass
    rw [hr', h.seq]
    rfl
  dsimp only at hp
  split_ifs at hp htime with hcond
  · obtain ⟨c₁, harm, he⟩ := Option.map_eq_some_iff.mp hp
    obtain ⟨rfl, rfl⟩ := Prod.mk.inj he
    obtain ⟨d, hd, hthread, hshows⟩ := h.arm hf hother htime.1 htime.2 harm
    rw [if_pos hcond] at hpass
    refine ⟨_, hpass, rfl, ?_⟩
    rw [if_pos hcond.1]
    exact .inr ⟨d, hd, hshows, hthread⟩
  · obtain ⟨rfl, rfl⟩ := Prod.mk.inj (Option.some.inj hp)
    have hshows : LedClock.Shows firing agenda { c with seq := s } { t with seq := s } := by
      refine ⟨rfl, h.timers, h.hard, h.due, h.flagged, h.kind, fun led' => ?_, fun led' => ?_⟩
      · show _ = BitVec.ofInt 32 (s.timerLed led').time
        rw [htime]
        exact h.init led'
      · show 0 < (s.timerLed led').time ∧ (s.timerLed led').time ≤ 1000
        rw [htime]
        exact h.time led'
    rw [if_neg hcond] at hpass
    refine ⟨_, hpass, rfl, ?_⟩
    split_ifs
    · exact .inl ⟨hshows, rfl, rfl⟩
    · exact ⟨hshows, rfl, rfl⟩

theorem LedClock.Shows.runLedseq (h : c.Shows firing agenda t)
    (hf : ∀ led', firing = some led' → led' = led) (hr : c.runLedseq led fuel = some c') :
    ∃ t', t.runLedseq led fuel = some t' ∧ t'.tick = t.tick ∧ c.Moved led firing agenda c' t' := by
  induction fuel generalizing c t with
  | zero => cases hr
  | succ fuel ih =>
      unfold LedClock.runLedseq at hr
      rcases hp : c.pass led with - | ⟨c₁, leave | leave⟩
      · rw [hp] at hr
        cases hr
      · rw [hp] at hr
        obtain ⟨t₁, ht₁, htick, hmoved⟩ := h.pass hf hp
        obtain ⟨hshows, hthread, htimers⟩ := hmoved
        obtain ⟨t', ht', htick', hend⟩ := ih hshows hr
        refine ⟨t', ?_, htick'.trans htick, ?_⟩
        · unfold Timed.runLedseq
          rw [ht₁]
          exact ht'
        · unfold LedClock.Moved at hend ⊢
          rwa [hthread, htimers] at hend
      · rw [hp] at hr
        obtain rfl := Option.some.inj hr
        obtain ⟨t₁, ht₁, htick, hmoved⟩ := h.pass hf hp
        refine ⟨t₁, ?_, htick, hmoved⟩
        unfold Timed.runLedseq
        rw [ht₁]

/-- A call from another thread. -/
theorem LedClock.Shows.ledseqRun {sequence : Option LedSequence} (h : c.Shows none agenda t)
    (hr : c.ledseqRun fuel led sequence = some c') :
    ∃ t', t.ledseqRun fuel led sequence = some t' ∧ t'.tick = t.tick ∧
      c.Moved led none agenda c' t' := by
  unfold LedClock.ledseqRun at hr
  unfold Timed.ledseqRun
  rcases hprio : getPrio sequence with - | prio
  · rw [hprio] at hr
    obtain rfl := Option.some.inj hr
    exact ⟨t, rfl, rfl, .inl ⟨h, rfl, rfl⟩⟩
  · rw [hprio] at hr
    dsimp only at hr ⊢
    have hshows : LedClock.Shows none agenda { c with seq := runSection led prio c.seq }
        { t with seq := runSection led prio t.seq } :=
      ⟨congrArg (runSection led prio) h.seq, h.timers, h.hard, h.due, h.flagged, h.kind, h.init, h.time⟩
    rw [← h.seq] at hshows ⊢
    split_ifs at hr ⊢
    · exact hshows.runLedseq (fun _ he => nomatch he) hr
    · obtain rfl := Option.some.inj hr
      exact ⟨_, rfl, rfl, .inl ⟨hshows, rfl, rfl⟩⟩

theorem LedClock.Shows.ledseqStop {sequence : Option LedSequence} (h : c.Shows none agenda t)
    (hr : c.ledseqStop fuel led sequence = some c') :
    ∃ t', t.ledseqStop fuel led sequence = some t' ∧ t'.tick = t.tick ∧
      c.Moved led none agenda c' t' := by
  unfold LedClock.ledseqStop at hr
  unfold Timed.ledseqStop
  rcases hprio : getPrio sequence with - | prio
  · rw [hprio] at hr
    obtain rfl := Option.some.inj hr
    exact ⟨t, rfl, rfl, .inl ⟨h, rfl, rfl⟩⟩
  · rw [hprio] at hr
    dsimp only at hr ⊢
    have hshows : LedClock.Shows none agenda { c with seq := stopSection led prio c.seq }
        { t with seq := stopSection led prio t.seq } :=
      ⟨congrArg (stopSection led prio) h.seq, h.timers, h.hard, h.due, h.flagged, h.kind, h.init, h.time⟩
    exact hshows.runLedseq (fun _ he => nomatch he) hr

/-- A timer that has been taken out. -/
theorem LedClock.Shows.remove (h : c.Shows none agenda t) (led : Led) :
    LedClock.Shows (some led) (cancel led agenda)
      { c with timers := rtTimerRemove led c.timers } t := by
  refine ⟨h.seq, h.timers.remove led, ?_, fun led' hne d => ?_, fun led' hne => ?_, h.kind,
    h.init, h.time⟩
  · show without led (agenda .timerList) = []
    rw [h.hard]
    rfl
  · have hne' : led' ≠ led := fun he => hne (congrArg some he).symm
    rw [h.due led' (Option.some_ne_none led').symm]
    exact (mem_without.trans (and_iff_left hne')).symm
  · have hne' : led' ≠ led := fun he => hne (congrArg some he).symm
    exact (h.flagged led' (Option.some_ne_none led').symm).congr rfl fun _ _ =>
      mem_without.trans (and_iff_left hne')

/-- What stands behind the timeout function. -/
theorem LedClock.Shows.restart {timers : Timers Led} (h : c.Shows (some led) agenda t)
    (ha : (c.timers.timer led).flag.activated = true)
    (hr : Timers.restart led c.timers = some timers) :
    ∃ d, t.tick < d ∧ LedClock.Shows none (Timers.arm .softTimerList led d agenda)
      { c with timers := timers } (t.arm led) := by
  have hshows : LedClock.Shows (some led) agenda
      { c with timers := setActivated led false c.timers } t := by
    refine ⟨h.seq, h.timers.update rfl rfl, h.hard, h.due, fun led' hne => ?_, fun led' => ?_,
      fun led' => ?_, h.time⟩
    · exact (h.flagged led' hne).congr (timer_set_of_ne fun he => hne (congrArg some he).symm)
        fun _ _ => Iff.rfl
    · show ((setActivated led false c.timers).timer led').flag.periodic = true ∧
        ((setActivated led false c.timers).timer led').flag.softTimer = true
      rcases eq_or_ne led' led with rfl | hne
      · rw [setActivated, timer_set_self]
        exact h.kind led'
      · rw [setActivated, timer_set_of_ne hne]
        exact h.kind led'
    · show ((setActivated led false c.timers).timer led').initTick = _
      rcases eq_or_ne led' led with rfl | hne
      · rw [setActivated, timer_set_self]
        exact h.init led'
      · rw [setActivated, timer_set_of_ne hne]
        exact h.init led'
  unfold Timers.restart at hr
  dsimp only at hr
  rw [(h.kind led).1, ha] at hr
  obtain ⟨timers', ht, hlt, hend⟩ := hshows.start
  obtain rfl := Option.some.inj (ht.symm.trans hr)
  exact ⟨_, hlt, hend⟩

/-- **An expiry.**  Whatever the timeout function has done, the timer is started anew. -/
theorem LedClock.Shows.fire {d₀ : ℕ} (h : c.Shows none agenda t)
    (hd₀ : (led, d₀) ∈ agenda .softTimerList) (hthread : c.thread.resume = c.thread)
    (hr : c.fire fuel led = some c') :
    ∃ u, t.runLedseq led fuel = some u ∧ u.tick = t.tick ∧ c'.thread = c.thread ∧
      ∃ d, t.tick < d ∧ c'.Shows none (Timers.arm .softTimerList led d agenda) (u.arm led) := by
  obtain ⟨c₁, hrun, hr⟩ := Option.bind_eq_some_iff.mp hr
  obtain ⟨timers, hrestart, rfl⟩ := Option.map_eq_some_iff.mp hr
  obtain ⟨u, hu, htick, ⟨hshows, hthread₁, htimers⟩ | ⟨d, -, hshows, hthread₁⟩⟩ :=
    (h.remove led).runLedseq (fun led' he => (Option.some.inj he).symm) hrun
  · have hactive : (c₁.timers.timer led).flag.activated = true := by
      rw [htimers]
      exact (h.flagged led (Option.some_ne_none led).symm).mpr
        ⟨_, mem_names.mpr ⟨d₀, hd₀⟩⟩
    obtain ⟨d, hd, hend⟩ := hshows.restart hactive hrestart
    rw [arm_cancel] at hend
    exact ⟨u, hu, htick, hthread₁, d, htick ▸ hd, hend⟩
  · have hactive : (c₁.timers.timer led).flag.activated = true :=
      (hshows.flagged led (Option.some_ne_none led).symm).mpr
        ⟨_, mem_names.mpr ⟨d, mem_arm_self _ _ _ _⟩⟩
    obtain ⟨d', hd', hend⟩ := (hshows.weaken led).restart hactive hrestart
    rw [arm_arm, arm_cancel] at hend
    exact ⟨u, hu, htick, hthread₁.trans hthread, d', htick ▸ hd', hend⟩

end Shows

end DolphinNote
