/-
DolphinNote/Heartbeat.lean

The supervision of the link.  The heartbeat thread counts its ticks while the
link flag is up and drops it at the fourth; the main loop starts the count anew
when it consumes a heartbeat.

The count is left as it is when the link is lost and taken up again, and the
thread increments it in two steps.  The link is given up after four ticks without
a heartbeat, counted since it came up, as long as the count is 0 when the link
comes up, and no heartbeat is consumed between the two steps or after the fourth
tick has been counted (`drops_late`).
-/
import DolphinNote.History
import DolphinNote.Control

namespace DolphinNote

open Transition

/-- A tick: the heartbeat thread reads the count. -/
def Ticks (t : Taken Sys Event) : Prop := t.label = .led ∧ t.before.led = .load

/-- The main loop consumes a heartbeat. -/
def Consumes (s : Sys) : Event → Prop
  | .main _ _ => s.pc = .idleBeat
  | _ => False

/-- A heartbeat has been consumed, or the link is down. -/
def Breaks (t : Taken Sys Event) : Prop :=
  Consumes t.before t.label ∨ t.after.g.netCompleteFlag = 0

instance : DecidablePred Ticks := fun t =>
  inferInstanceAs (Decidable (t.label = .led ∧ t.before.led = .load))

instance (s : Sys) : (e : Event) → Decidable (Consumes s e)
  | .main .. => inferInstanceAs (Decidable (s.pc = .idleBeat))
  | .phone .. | .led | .key _ | .screen .. | .transmit | .tick => inferInstanceAs (Decidable False)

instance : DecidablePred Breaks := fun t => inferInstanceAs <| Decidable
  (Consumes t.before t.label ∨ t.after.g.netCompleteFlag = 0)

/-- When the heartbeat thread drops the link, it has been up for four ticks
without a heartbeat. -/
def DropsLate (h : List (Taken Sys Event)) (s : Sys) : Event → Prop
  | .led => s.led = .clear → s.g.netCompleteFlag ≠ 0 → 4 ≤ countSince Ticks Breaks h
  | _ => True

/-- The heartbeat thread holds an old count, or has given up the link. -/
def LedPc.holds : LedPc → Bool
  | .store _ | .reset | .clear => true
  | _ => false

/-- When the link comes up the count is 0, and neither then nor when a heartbeat
is consumed does the heartbeat thread hold an old one. -/
def BeatSafe (s : Sys) : Event → Prop
  | .main _ _ =>
      (s.pc.Completes → s.g.netCompleteFlag = 0 → s.heartBeatLoseCnt = 0 ∧ s.led.holds = false) ∧
        (s.pc = .idleBeat → s.g.netCompleteFlag ≠ 0 → s.led.holds = false)
  | _ => True

instance (h : List (Taken Sys Event)) (s : Sys) : (e : Event) → Decidable (DropsLate h s e)
  | .led => inferInstanceAs <| Decidable
      (s.led = .clear → s.g.netCompleteFlag ≠ 0 → 4 ≤ countSince Ticks Breaks h)
  | .main .. | .phone .. | .key _ | .screen .. | .transmit | .tick =>
      inferInstanceAs (Decidable True)

instance (pc : Pc) : Decidable pc.Completes := by
  unfold Pc.Completes; infer_instance

instance (s : Sys) : (e : Event) → Decidable (BeatSafe s e)
  | .main .. => inferInstanceAs <| Decidable
      ((s.pc.Completes → s.g.netCompleteFlag = 0 → s.heartBeatLoseCnt = 0 ∧ s.led.holds = false) ∧
        (s.pc = .idleBeat → s.g.netCompleteFlag ≠ 0 → s.led.holds = false))
  | .led | .phone .. | .key _ | .screen .. | .transmit | .tick => inferInstanceAs (Decidable True)

/-! ### The count -/

/-- The count, with what the thread is about to add to it, is not ahead of the
ticks. -/
def LedPc.Within (cnt : UInt8) (ticks : ℕ) : LedPc → Prop
  | .test | .load | .cmp => cnt.toNat ≤ ticks
  | .store v => v.toNat + 1 ≤ ticks
  | .reset | .clear => 4 ≤ ticks

theorem LedPc.within_zero {led : LedPc} {cnt : UInt8} (h : led.holds = false) (h0 : cnt = 0) :
    led.Within cnt 0 := by
  subst h0
  cases led with
  | test | load | cmp => exact le_rfl
  | store v => cases h
  | reset | clear => cases h

/-- The count is not ahead of the ticks with the link up, and there are none
with the link down. -/
structure Counted (h : List (Taken Sys Event)) (s : Sys) : Prop where
  up : s.g.netCompleteFlag ≠ 0 → s.led.Within s.heartBeatLoseCnt (countSince Ticks Breaks h)
  down : s.g.netCompleteFlag = 0 → countSince Ticks Breaks h = 0

/-- The main loop leaves the heartbeat thread alone, but for the count when a
heartbeat is consumed. -/
theorem mainStep_heart (again : Bool) (staip : Option (Buffer 4)) (s : Sys) :
    (mainStep again staip s).led = s.led ∧ (mainStep again staip s).heartBeatLoseCnt =
      if s.pc = .idleBeat then 0 else s.heartBeatLoseCnt := by
  cases hpc : s.pc with
  | ipCopy i | endIP i | recCopy i | ack a i sum =>
      simp only [mainStep, hpc]
      split <;> exact ⟨rfl, rfl⟩
  | _ => simp [mainStep, hpc, Sys.goto, Sys.assign]

/-- A statement of the heartbeat thread with the link up. -/
theorem Counted.led {h : List (Taken Sys Event)} {s : Sys} (hi : Counted h s)
    (hup : (ledStep s).g.netCompleteFlag ≠ 0) :
    (ledStep s).led.Within (ledStep s).heartBeatLoseCnt
      (countSince Ticks Breaks (⟨s, .led, ledStep s⟩ :: h)) := by
  have hbreak : ¬ Breaks ⟨s, .led, ledStep s⟩ := by
    rintro (hc | hdown)
    exacts [hc, hup hdown]
  have other (hne : s.led ≠ .load) : countSince Ticks Breaks (⟨s, .led, ledStep s⟩ :: h) =
      countSince Ticks Breaks h := countSince_other hbreak fun ht => hne ht.2
  have hwithin : s.led.Within s.heartBeatLoseCnt (countSince Ticks Breaks h) := by
    refine hi.up fun hzero => hup ?_
    unfold ledStep
    cases s.led <;> first | exact hzero | rfl
  cases hled : s.led with
  | test =>
      rw [other (by simp [hled])]
      rw [hled] at hwithin
      simp only [ledStep, hled]
      split_ifs <;> exact hwithin
  | load =>
      rw [countSince_tick hbreak ⟨rfl, hled⟩]
      rw [hled] at hwithin
      simp only [ledStep, hled]
      exact Nat.succ_le_succ hwithin
  | store v =>
      rw [other (by simp [hled])]
      rw [hled] at hwithin
      simp only [ledStep, hled]
      show (v + 1).toNat ≤ _
      refine Nat.le_trans ?_ hwithin
      rw [UInt8.toNat_add]
      exact Nat.mod_le _ _
  | cmp =>
      rw [other (by simp [hled])]
      rw [hled] at hwithin
      simp only [ledStep, hled]
      split_ifs with hfour
      · exact Nat.le_trans (UInt8.le_iff_toNat_le.mp hfour) hwithin
      · exact hwithin
  | reset =>
      rw [other (by simp [hled])]
      rw [hled] at hwithin
      simp only [ledStep, hled]
      exact hwithin
  | clear => simp [ledStep, hled] at hup

/-- A statement of the main loop with the link up. -/
theorem Counted.main {h : List (Taken Sys Event)} {s : Sys} {again : Bool}
    {staip : Option (Buffer 4)} (hi : Counted h s) (hsafe : BeatSafe s (.main again staip))
    (hup : (mainStep again staip s).g.netCompleteFlag ≠ 0) :
    (mainStep again staip s).led.Within (mainStep again staip s).heartBeatLoseCnt
      (countSince Ticks Breaks (⟨s, .main again staip, mainStep again staip s⟩ :: h)) := by
  obtain ⟨hled, hcnt⟩ := mainStep_heart again staip s
  rw [hled, hcnt]
  have htick : ¬ Ticks ⟨s, .main again staip, mainStep again staip s⟩ := fun ht => nomatch ht.1
  by_cases hbeat : s.pc = .idleBeat
  · -- a heartbeat is consumed: the count begins anew
    have hflag : s.g.netCompleteFlag ≠ 0 := by simpa [mainStep, hbeat] using hup
    rw [if_pos hbeat, countSince_reset (.inl hbeat)]
    exact LedPc.within_zero (hsafe.2 hbeat hflag) rfl
  rw [if_neg hbeat, countSince_other (by rintro (hc | hdown); exacts [hbeat hc, hup hdown]) htick]
  by_cases hzero : s.g.netCompleteFlag = 0
  · -- the link comes up
    have hcompletes : s.pc.Completes := by
      have hflag := (Steps.main again staip : Steps s _ _).linkFlag
      generalize (mainStep again staip s).g.netCompleteFlag = flag at hflag hup
      cases hflag with
      | same => exact absurd hzero hup
      | set _ _ _ hc => exact hc
      | drop => exact absurd rfl hup
    obtain ⟨h0, hholds⟩ := hsafe.1 hcompletes hzero
    rw [hi.down hzero]
    exact LedPc.within_zero hholds h0
  · exact hi.up hzero

theorem Counted.step {h : List (Taken Sys Event)} {s s' : Sys} {e : Event} (hi : Counted h s)
    (hsafe : BeatSafe s e) (hs : Steps s e s') : Counted (⟨s, e, s'⟩ :: h) s' where
  down hdown := countSince_reset (.inr hdown)
  up hup := by
    -- what neither supervises nor consumes
    have other (hled : e ≠ .led) (hmain : ∀ again staip, e ≠ .main again staip)
        (hheart : s'.led = s.led ∧ s'.heartBeatLoseCnt = s.heartBeatLoseCnt) :
        s'.led.Within s'.heartBeatLoseCnt (countSince Ticks Breaks (⟨s, e, s'⟩ :: h)) := by
      have hconsumes : ¬ Consumes s e := by
        cases e with
        | main again staip => exact absurd rfl (hmain again staip)
        | _ => exact id
      rw [countSince_other (by rintro (hc | hdown); exacts [hconsumes hc, hup hdown])
        fun ht => hled ht.1, hheart.1, hheart.2]
      refine hi.up ?_
      have hflag := hs.linkFlag
      generalize s'.g.netCompleteFlag = flag at hflag hup
      cases hflag with
      | same => exact hup
      | set again staip he => exact absurd he (hmain again staip)
      | drop => exact absurd rfl hup
    cases hs with
    | main again staip => exact hi.main hsafe hup
    | led => exact hi.led hup
    | key | phone | screen | transmit | tick => exact other nofun nofun ⟨rfl, rfl⟩

/-- **The link is not given up early** in every run in which the count is 0 when
the link comes up, and the heartbeat thread does not hold an old count then, or
when a heartbeat is consumed. -/
theorem drops_late (as : List Event)
    (hsafe : Along step (fun s e _ => BeatSafe s e) Sys.powerOn as) :
    AlongPast step (fun h s e _ => DropsLate h s e) Sys.powerOn as := by
  have h0 : Counted [] Sys.powerOn := ⟨fun hup => absurd rfl hup, fun _ => rfl⟩
  refine hsafe.past (J := Counted) h0 fun h s e s' hi hc hs => ?_
  refine ⟨hi.step hc (steps_of_step hs), ?_⟩
  cases e with
  | led =>
      intro hled hup
      have hwithin := hi.up hup
      rwa [hled] at hwithin
  | _ => trivial

/-- Four ticks without a heartbeat. -/
theorem drops_late_four :
    AlongPast step (fun h s e _ => DropsLate h s e) Sys.powerOn
      (opened ++ List.replicate 18 .led) :=
  drops_late _ (by decide +kernel)

/-- Three ticks, a loss, a reconnection, and the first tick gives up the link. -/
theorem drops_early :
    ¬ AlongPast step (fun h s e _ => DropsLate h s e) Sys.powerOn
      (opened ++ List.replicate 12 .led ++ .phone (request 0x75 2 0) 39 ::
        .phone (request 0x75 1 1) 39 :: (List.replicate 13 .next ++ List.replicate 6 .led)) := by
  decide +kernel

end DolphinNote
