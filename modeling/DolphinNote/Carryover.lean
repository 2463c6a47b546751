/-
DolphinNote/Carryover.lean

What one session leaves to the next.

* The flags by which the dispatcher tells the main loop of a meeting end, a time
  check or a heartbeat are raised in every state and looked at in state 5, so a
  session may act on frames from before it.  It does not if the three are down
  when state 5 is entered (`acts_fresh`).
* The meeting-end block opens `is_First_connect` before it clears `Phone_IP[0]`.
  A first request that is accepted in between is forgotten, and only such a one
  (`request_kept_iff`).
-/
import DolphinNote.History
import DolphinNote.Control

namespace DolphinNote

open Transition

/-! ### Notices -/

/-- What the dispatcher tells the main loop. -/
inductive Notice
  | meetingEnd | timeChecking | idle
  deriving DecidableEq, Repr

instance : Fintype Notice := ⟨{.meetingEnd, .timeChecking, .idle}, fun n => by cases n <;> decide⟩

/-- Its flag. -/
def Notice.flag (g : Globals) : Notice → UInt8
  | .meetingEnd => g.meetingEndFlag
  | .timeChecking => g.timeCheckingFlag
  | .idle => g.isIdleFlag

/-- The code of the frames that raise it. -/
def Notice.code : Notice → UInt8
  | .meetingEnd => 0xA1
  | .timeChecking => 0x73
  | .idle => 0xA9

/-- The statement with which the main loop begins to act on it. -/
def Notice.acts : Notice → Pc
  | .meetingEnd => .endClear
  | .timeChecking => .timeClear
  | .idle => .idleClear

/-- The event is a frame with the code. -/
def CarriesCode (code : UInt8) : Event → Prop
  | .phone dataBuf _ => HasCode dataBuf code
  | _ => False

/-- A frame has raised the flag. -/
def Raises (n : Notice) (t : Taken Sys Event) : Prop :=
  CarriesCode n.code t.label ∧ n.flag t.before.g = 0 ∧ n.flag t.after.g ≠ 0

/-- The step does not enter state 5. -/
def SameSession (t : Taken Sys Event) : Prop :=
  t.after.mainFuctionState = 5 → t.before.mainFuctionState = 5

/-- When the main loop acts on a notice, the frame that raised the flag has come
since it entered state 5. -/
def ActsFresh (h : List (Taken Sys Event)) (s : Sys) : Event → Prop
  | .main _ _ => ∀ n : Notice, s.pc = n.acts → Since (Raises n) SameSession h
  | _ => True

/-- The flags are down when state 5 is entered. -/
def EntrySafe (s : Sys) : Event → Prop
  | .main _ _ => s.pc = .toState 5 → ∀ n : Notice, n.flag s.g = 0
  | _ => True

instance (code : UInt8) : (e : Event) → Decidable (CarriesCode code e)
  | .phone dataBuf _ => inferInstanceAs (Decidable (HasCode dataBuf code))
  | .main .. | .led | .key _ | .screen .. | .transmit | .tick => inferInstanceAs (Decidable False)

instance (n : Notice) : DecidablePred (Raises n) := fun t => inferInstanceAs <| Decidable
  (CarriesCode n.code t.label ∧ n.flag t.before.g = 0 ∧ n.flag t.after.g ≠ 0)

instance : DecidablePred SameSession := fun t => inferInstanceAs <| Decidable
  (t.after.mainFuctionState = 5 → t.before.mainFuctionState = 5)

instance (h : List (Taken Sys Event)) (s : Sys) : (e : Event) → Decidable (ActsFresh h s e)
  | .main .. => inferInstanceAs <| Decidable
      (∀ n : Notice, s.pc = n.acts → Since (Raises n) SameSession h)
  | .led | .key _ | .phone .. | .screen .. | .transmit | .tick => inferInstanceAs (Decidable True)

instance (s : Sys) : (e : Event) → Decidable (EntrySafe s e)
  | .main .. => inferInstanceAs (Decidable (s.pc = .toState 5 → ∀ n : Notice, n.flag s.g = 0))
  | .led | .key _ | .phone .. | .screen .. | .transmit | .tick => inferInstanceAs (Decidable True)

/-- A flag is raised by a frame with its code only. -/
theorem Steps.notice {s s' : Sys} {e : Event} (hs : Steps s e s') (n : Notice) :
    n.flag s'.g = n.flag s.g ∨ n.flag s'.g = 0 ∨ CarriesCode n.code e := by
  cases hs with
  | main again staip =>
      have hg := mainStep_globals again staip s
      generalize (mainStep again staip s).g = g' at hg
      cases hg with
      | idleClear | endClear | timeClear => cases n <;> first | exact .inl rfl | exact .inr (.inl rfl)
      | @ack a i sum f _ hf =>
          obtain ⟨buf, len, hfg⟩ := ackStmts_frame a.code 0 f (List.mem_of_getElem? hf) (s.g, sum)
          rw [hfg]
          exact .inl rfl
      | _ => exact .inl rfl
  | @phone dataBuf _ _ _ _ hdealt =>
      cases hdealt with
      | heartbeat hcode | meetingEnd hcode | timeCheck hcode =>
          cases n <;> first | exact .inr (.inr hcode) | exact .inl rfl | exact .inr (.inl rfl)
      | paired | repeated | searched | touchInfo | versionInfo | acked =>
          left
          cases n <;> simp only [Notice.flag, wifiAckSend]
      | ignored | refused | searchRefused => exact .inl rfl
  | screen _ ha => cases ha <;> exact .inl rfl
  | led =>
      obtain ⟨flag, cnt, led, hled⟩ := ledStep_frame s
      rw [hled]
      exact .inl rfl
  | key | transmit | tick => exact .inl rfl

/-- What the main loop acts on, or is going to act on, has come in this
session. -/
structure NoticesFresh (h : List (Taken Sys Event)) (s : Sys) : Prop where
  located : s.Located
  raised : ∀ n : Notice, s.mainFuctionState = 5 → n.flag s.g ≠ 0 → Since (Raises n) SameSession h
  acting : ∀ n : Notice, s.pc = n.acts → Since (Raises n) SameSession h

/-- State 5 is entered at the end of an iteration in state 4. -/
theorem entered_five {s s' : Sys} {e : Event} (hs : Steps s e s') (h5 : s'.mainFuctionState = 5)
    (hne : s.mainFuctionState ≠ 5) :
    ∃ again staip, e = .main again staip ∧ s.pc = .toState 5 ∧ s'.g = s.g := by
  rcases hs.control with ⟨again, staip, rfl, rfl⟩ | ⟨-, hst, -⟩
  · rcases mainStep_mode again staip s with hmode | hmode | ⟨-, hmode⟩
    · exact absurd (hmode.symm.trans h5) hne
    · rw [h5] at hmode
      exact ⟨again, staip, rfl, hmode, by simp only [mainStep, hmode]⟩
    · exact absurd (h5.symm.trans hmode) (by decide)
  · exact absurd (hst.symm.trans h5) hne

theorem NoticesFresh.step {h : List (Taken Sys Event)} {s s' : Sys} {e : Event}
    (hi : NoticesFresh h s) (hsafe : EntrySafe s e) (hs : Steps s e s') :
    NoticesFresh (⟨s, e, s'⟩ :: h) s' where
  located := hi.located.step hs
  raised n h5 hne := by
    by_cases hsame : s.mainFuctionState = 5
    · rcases hs.notice n with hkept | hzero | hcode
      · exact .later (fun _ => hsame) (hi.raised n hsame (hkept ▸ hne))
      · exact absurd hzero hne
      · by_cases hzero : n.flag s.g = 0
        · exact .here ⟨hcode, hzero, hne⟩
        · exact .later (fun _ => hsame) (hi.raised n hsame hzero)
    · -- the session begins, and with it the flags are down
      obtain ⟨again, staip, rfl, hpc, hg⟩ := entered_five hs h5 hsame
      rw [hg] at hne
      exact absurd (hsafe hpc n) hne
  acting n hpc' := by
    have h5 (s : Sys) (hloc : s.Located) (hpc : s.pc = n.acts) : s.mainFuctionState = 5 := by
      unfold Sys.Located at hloc
      rw [hpc] at hloc
      cases n <;> exact hloc.1
    rcases hs.control with ⟨again, staip, -, rfl⟩ | ⟨hpc, hst, -⟩
    · have hent := mainStep_entered again staip s
      have htest : s.mainFuctionState = 5 ∧ n.flag s.g ≠ 0 := by
        have hloc := hi.located
        unfold Sys.Located at hloc
        rw [hpc'] at hent
        cases n <;>
          · obtain ⟨hpc, hne⟩ := hent
            rw [hpc] at hloc
            exact ⟨hloc.1, hne⟩
      exact .later (fun _ => htest.1) (hi.raised n htest.1 htest.2)
    · have hpc₀ : s.pc = n.acts := hpc.symm.trans hpc'
      exact .later (fun _ => h5 s hi.located hpc₀) (hi.acting n hpc₀)

/-- **A session acts on its own frames** in every run in which the flags of the
meeting end, the time check and the heartbeat are down whenever state 5 is
entered. -/
theorem acts_fresh (as : List Event)
    (hsafe : Along step (fun s e _ => EntrySafe s e) Sys.powerOn as) :
    AlongPast step (fun h s e _ => ActsFresh h s e) Sys.powerOn as := by
  have h0 : NoticesFresh [] Sys.powerOn := by
    refine ⟨Sys.located_powerOn, fun n h5 => absurd h5 (by decide), fun n hpc => ?_⟩
    cases n <;> cases hpc
  refine hsafe.past (J := NoticesFresh) h0 fun h s e s' hi hc hs => ?_
  refine ⟨hi.step hc (steps_of_step hs), ?_⟩
  cases e with
  | main again staip => exact fun n hpc => hi.acting n hpc
  | _ => trivial

/-- A heartbeat in the session is answered in it. -/
theorem acts_fresh_heartbeat :
    AlongPast step (fun h s e _ => ActsFresh h s e) Sys.powerOn
      (opened ++ .phone heartbeat 9 :: List.replicate 6 .next) :=
  acts_fresh _ (by decide +kernel)

/-- A heartbeat from before the session is answered in it. -/
theorem acts_stale :
    ¬ AlongPast step (fun h s e _ => ActsFresh h s e) Sys.powerOn
      (List.replicate 9 .next ++ .phone (request 0x75 1 1) 39 :: .phone heartbeat 9 ::
        List.replicate 33 .next) := by
  decide +kernel

/-! ### First requests -/

/-- The addresses the phones give do not begin with 0. -/
def AddressGiven (s : Sys) : Event → Prop
  | .phone dataBuf _ => Accepted s.g dataBuf → (frameIP dataBuf).rd 0 ≠ 0
  | _ => True

/-- In states 1 and 2 a phone that has been paired with has left its address. -/
def RequestKept (s : Sys) : Prop :=
  s.mainFuctionState = 1 ∨ s.mainFuctionState = 2 → s.g.isFirstConnect = 0 →
    s.g.phoneIP.rd 0 ≠ 0

/-- No request is accepted between `is_First_connect = 1` and
`Phone_IP[0] = 0`. -/
def TeardownSafe (s : Sys) : Event → Prop
  | .phone dataBuf _ => s.pc = .endIP 0 → ¬ Accepted s.g dataBuf
  | _ => True

instance (s : Sys) : (e : Event) → Decidable (AddressGiven s e)
  | .phone dataBuf _ => inferInstanceAs <| Decidable
      (Accepted s.g dataBuf → (frameIP dataBuf).rd 0 ≠ 0)
  | .main .. | .led | .key _ | .screen .. | .transmit | .tick => inferInstanceAs (Decidable True)

instance (s : Sys) : Decidable (RequestKept s) := by
  unfold RequestKept; infer_instance

instance (s : Sys) : (e : Event) → Decidable (TeardownSafe s e)
  | .phone dataBuf _ => inferInstanceAs (Decidable (s.pc = .endIP 0 → ¬ Accepted s.g dataBuf))
  | .main .. | .led | .key _ | .screen .. | .transmit | .tick => inferInstanceAs (Decidable True)

/-- A paired phone has left its address in every state, and before the address
is cleared nobody is paired with. -/
structure FirstKept (s : Sys) : Prop where
  address : s.g.isFirstConnect = 0 → s.g.phoneIP.rd 0 ≠ 0
  teardown : s.pc = .endIP 0 → s.g.isFirstConnect ≠ 0

theorem firstKept_powerOn : FirstKept Sys.powerOn := ⟨fun h => absurd h (by decide), nofun⟩

theorem FirstKept.main {s : Sys} (again : Bool) (staip : Option (Buffer 4)) (h : FirstKept s) :
    FirstKept (mainStep again staip s) := by
  have hteardown (hpc' : (mainStep again staip s).pc = .endIP 0) :
      (mainStep again staip s).g.isFirstConnect ≠ 0 := by
    have hent := mainStep_entered again staip s
    rw [hpc'] at hent
    rcases hent with ⟨-, hpc⟩ | ⟨j, -, hj, -⟩
    · simp [mainStep, hpc, Sys.assign]
    · exact absurd hj (Nat.succ_ne_zero j).symm
  refine ⟨?_, hteardown⟩
  have hg := mainStep_globals again staip s
  generalize (mainStep again staip s).g = g' at hg
  cases hg with
  | endFirst _ => exact fun h0 => absurd (show (1 : UInt8) = 0 from h0) (by decide)
  | @endIP i hi hpc =>
      intro h0
      show (s.g.phoneIP.wr i 0 hi).rd 0 ≠ 0
      by_cases hzero : i = 0
      · subst hzero
        exact absurd h0 (h.teardown hpc)
      · rw [Buffer.rd_wr_of_ne hi hzero]
        exact h.address h0
  | @ack a i sum f _ hf =>
      obtain ⟨buf, len, hfg⟩ := ackStmts_frame a.code 0 f (List.mem_of_getElem? hf) (s.g, sum)
      rw [hfg]
      exact h.address
  | _ => exact h.address

theorem FirstKept.step {s s' : Sys} {e : Event} (hs : Steps s e s') (h : FirstKept s)
    (hgiven : AddressGiven s e) (hsafe : TeardownSafe s e) : FirstKept s' := by
  cases hs with
  | main again staip => exact h.main again staip
  | @phone dataBuf num _ _ hg _ =>
      subst hg
      obtain ⟨hip, hfirst⟩ := wifiDataDeal_accepted s.g dataBuf num
      constructor
      · show (wifiDataDeal s.g dataBuf num).isFirstConnect = 0 →
          (wifiDataDeal s.g dataBuf num).phoneIP.rd 0 ≠ 0
        rw [hip, hfirst]
        split_ifs with hacc
        · exact fun _ => hgiven hacc
        · exact h.address
      · intro hpc
        show (wifiDataDeal s.g dataBuf num).isFirstConnect ≠ 0
        rw [hfirst, if_neg (hsafe hpc)]
        exact h.teardown hpc
  | screen _ ha => cases ha <;> exact ⟨h.address, h.teardown⟩
  | led =>
      obtain ⟨flag, cnt, led, hled⟩ := ledStep_frame s
      rw [hled]
      exact ⟨h.address, h.teardown⟩
  | key | transmit | tick => exact ⟨h.address, h.teardown⟩

/-- A request accepted before `Phone_IP[0]` is cleared: six statements later the
main loop is in state 1, paired with a phone without an address. -/
theorem forgotten_of_accepted {s : Sys} {dataBuf : Buffer 50} (num : UInt8)
    (hpc : s.pc = .endIP 0) (hacc : Accepted s.g dataBuf) :
    ∃ t, exec step { s with g := wifiDataDeal s.g dataBuf num } (List.replicate 6 .next) = some t ∧
      ¬ RequestKept t := by
  obtain ⟨-, hfirst⟩ := wifiDataDeal_accepted s.g dataBuf num
  rw [if_pos hacc] at hfirst
  generalize wifiDataDeal s.g dataBuf num = g at hfirst
  obtain ⟨g₀, tx, sock, st, pc, key, cnt, led, pre, rt, command⟩ := s
  obtain rfl : pc = .endIP 0 := hpc
  refine ⟨_, rfl, fun h => h (.inl rfl) hfirst ?_⟩
  show ((((g.phoneIP.wr 0 0).wr 1 0).wr 2 0).wr 3 0).rd 0 = 0
  simp [Buffer.rd_wr]

/-- **A first request is not forgotten**, however the run is cut and the main
loop then goes on alone, exactly if none is accepted between
`is_First_connect = 1` and `Phone_IP[0] = 0` of the meeting-end block.  From
state 2 the main loop then goes on to state 3. -/
theorem request_kept_iff (as : List Event)
    (hgiven : Along step (fun s e _ => AddressGiven s e) Sys.powerOn as) :
    ((∀ k n t, exec step Sys.powerOn (as.take k ++ List.replicate n .next) = some t →
        RequestKept t) ↔ Along step (fun s e _ => TeardownSafe s e) Sys.powerOn as) ∧
    ∀ s, RequestKept s → s.mainFuctionState = 2 → s.g.isFirstConnect = 0 → s.pc = .phoneTest →
      ∀ again staip, (mainStep again staip s).pc = .toState 3 := by
  refine ⟨⟨fun h => ?_, fun h k n t ht => ?_⟩, fun s hs h2 h0 hpc again staip => ?_⟩
  · refine .of_at fun as₁ e as₂ m t has hm ht => ?_
    cases e with
    | phone dataBuf num =>
        intro hpc hacc
        obtain ⟨u, hu, hforgotten⟩ := forgotten_of_accepted num hpc hacc
        have htake : as.take (as₁.length + 1) = as₁ ++ [.phone dataBuf num] := by
          rw [has, List.take_length_add_append]
          rfl
        refine hforgotten (h (as₁.length + 1) 6 u ?_)
        rw [htake, List.append_assoc]
        refine exec_append.mpr ⟨m, hm, (exec_cons _ ht).trans ?_⟩
        simp only [step] at ht
        split_ifs at ht
        obtain rfl := Option.some.inj ht
        exact hu
    | _ => trivial
  · have hal : Along step (fun s e _ => AddressGiven s e ∧ TeardownSafe s e) Sys.powerOn
        (as.take k ++ List.replicate n .next) := by
      have hboth := hgiven.and h
      rw [← List.take_append_drop k as] at hboth
      refine hboth.append_left.append fun m _ => .of_mem fun e he _ _ => ?_
      rw [List.eq_of_mem_replicate he]
      exact ⟨trivial, trivial⟩
    have hkept : FirstKept t := hal.invariant firstKept_powerOn
      (fun _ _ _ hi hc hs => hi.step (steps_of_step hs) hc.1 hc.2) ht
    exact fun _ => hkept.address
  · simp only [mainStep, hpc, Sys.goto, if_neg (hs (.inr h2) h0)]

/-- A request in state 1. -/
theorem request_kept_early :
    ∃ t, exec step Sys.powerOn
        (List.replicate 9 .next ++ .phone (request 0x75 1 1) 39 :: List.replicate 6 .next) = some t ∧
      t.pc = .phoneTest ∧ t.g.isFirstConnect = 0 ∧ RequestKept t := by
  obtain ⟨t, ht, hpc, h0⟩ : ∃ t ∈ exec step Sys.powerOn
      (List.replicate 9 .next ++ .phone (request 0x75 1 1) 39 :: List.replicate 6 .next),
      t.pc = .phoneTest ∧ t.g.isFirstConnect = 0 := by
    decide +kernel
  have hkept := (request_kept_iff
    (List.replicate 9 .next ++ .phone (request 0x75 1 1) 39 :: List.replicate 6 .next)
    (by decide +kernel)).1.mpr (by decide +kernel)
  exact ⟨t, ht, hpc, h0, hkept 16 0 t ht⟩

/-- A request in the middle of the meeting-end block is forgotten. -/
theorem request_forgotten :
    Along step (fun s e _ => AddressGiven s e) Sys.powerOn
        (opened ++ .phone meetingEnd 9 :: (List.replicate 11 .next ++
          .phone (request 0x75 2 1) 39 :: List.replicate 6 .next)) ∧
      ∃ t ∈ exec step Sys.powerOn
        (opened ++ .phone meetingEnd 9 :: (List.replicate 11 .next ++
          .phone (request 0x75 2 1) 39 :: List.replicate 6 .next)), ¬ RequestKept t := by
  decide +kernel

end DolphinNote
