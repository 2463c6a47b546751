/-
DolphinNote/Control.lean

What a statement of the main loop can do, said once.

* `MainGlobals`: the globals after it.
* `Entered`: the control point before it, and what has been tested there.
* `Located`: which values of `Main_Fuction_state` and `socket_start` go with a
  control point; an invariant of every run (`located_step`).
-/
import DolphinNote.MainLoop

namespace DolphinNote

open Transition

/-! ### The globals after a statement -/

/-- The globals after one statement of the main loop. -/
inductive MainGlobals (s : Sys) : Globals → Prop
  | same : MainGlobals s s.g
  | staip {ip : Buffer 4} : s.pc = .staip → MainGlobals s { s.g with boardIP := ip }
  | searchClear : s.pc = .searchClear → MainGlobals s { s.g with searchingFlag := 0 }
  | complete : s.pc = .ipDone ∨ s.pc = .recSame ∨ s.pc = .recDone →
      MainGlobals s { s.g with netCompleteFlag := 1 }
  | penClear : s.pc = .penClear → MainGlobals s { s.g with penDataReady := 0 }
  | idleClear : s.pc = .idleClear → MainGlobals s { s.g with isIdleFlag := 0 }
  | endClear : s.pc = .endClear → MainGlobals s { s.g with meetingEndFlag := 0 }
  | endNet : s.pc = .endNet → MainGlobals s { s.g with netCompleteFlag := 0 }
  | endFirst : s.pc = .endFirst → MainGlobals s { s.g with isFirstConnect := 1 }
  | endIP {i : ℕ} (h : i < 4) : s.pc = .endIP i →
      MainGlobals s { s.g with phoneIP := s.g.phoneIP.wr i 0 }
  | timeClear : s.pc = .timeClear → MainGlobals s { s.g with timeCheckingFlag := 0 }
  | recClear : s.pc = .recClear → MainGlobals s { s.g with netReconnectFlag := 0 }
  | ack {a : Ack} {i : ℕ} {sum : UInt8} {f : AckStmt} : s.pc = .ack a i sum →
      (ackStmts a.code 0)[i]? = some f → MainGlobals s (f (s.g, sum)).1

theorem mainStep_globals (again : Bool) (staip : Option (Buffer 4)) (s : Sys) :
    MainGlobals s (mainStep again staip s).g := by
  cases hpc : s.pc with
  | staip => simp only [mainStep, hpc]; exact .staip hpc
  | searchClear => simp only [mainStep, hpc]; exact .searchClear hpc
  | ipDone => simp only [mainStep, hpc]; exact .complete (.inl hpc)
  | recSame => simp only [mainStep, hpc]; exact .complete (.inr (.inl hpc))
  | recDone => simp only [mainStep, hpc]; exact .complete (.inr (.inr hpc))
  | penClear => simp only [mainStep, hpc]; exact .penClear hpc
  | idleClear => simp only [mainStep, hpc]; exact .idleClear hpc
  | endClear => simp only [mainStep, hpc]; exact .endClear hpc
  | endNet => simp only [mainStep, hpc]; exact .endNet hpc
  | endFirst => simp only [mainStep, hpc]; exact .endFirst hpc
  | timeClear => simp only [mainStep, hpc]; exact .timeClear hpc
  | recClear => simp only [mainStep, hpc]; exact .recClear hpc
  | endIP i =>
      simp only [mainStep, hpc]
      split_ifs with hi
      · exact .endIP hi hpc
      · exact .same
  | ack a i sum =>
      simp only [mainStep, hpc]
      split
      case h_1 f hf => exact .ack hpc hf
      case h_2 => exact .same
  | ipCopy i | recCopy i =>
      simp only [mainStep, hpc]
      split_ifs <;> exact .same
  | _ => simp only [mainStep, hpc]; exact .same

/-- A statement of `wifi_ack_send` writes the transmit buffer and its length
and nothing else. -/
theorem ackStmts_frame (code : UInt8) (para : UInt16) :
    ∀ f ∈ ackStmts code para, ∀ s, ∃ buf len,
      (f s).1 = { s.1 with wifiDataToSend := buf, wifiDataLen := len } := by
  have hloop (n : ℕ) : ∀ f ∈ ackSumLoop n, ∀ s : Globals × UInt8, ∃ buf len,
      (f s).1 = { s.1 with wifiDataToSend := buf, wifiDataLen := len } := by
    unfold ackSumLoop
    rw [List.forall_mem_cons, List.forall_mem_map]
    exact ⟨fun _ => ⟨_, _, rfl⟩, fun _ _ _ => ⟨_, _, rfl⟩⟩
  unfold ackStmts
  cases ackBody code <;>
    simp only [List.cons_append, List.nil_append, List.forall_mem_cons, List.forall_mem_append,
      List.not_mem_nil, false_imp_iff, implies_true, and_true]
  all_goals
    repeat' apply And.intro
    all_goals first | exact hloop _ | exact fun s => ⟨_, _, rfl⟩

/-! ### Control points before a statement -/

set_option maxRecDepth 2000 in
/-- The main loop has come to a control point from where the source says: what
has been tested on the way, and where a loop stands.  Points no law looks back
from are left out. -/
def Entered (s : Sys) : Pc → Prop
  | .toState n => n = 3 ∨ (n = 1 ∧ (s.pc = .staip ∨ ∃ i, 4 ≤ i ∧ s.pc = .endIP i)) ∨
      (n = 2 ∧ s.pc = .portWait) ∨ (n = 4 ∧ s.pc = .ipDone) ∨ (n = 5 ∧ s.pc = .put .complete)
  -- state 3
  | .ipCopy i => i = 0 ∨ ∃ j < 4, i = j + 1 ∧ s.pc = .ipCopy j
  | .ipText => ∃ i, 4 ≤ i ∧ s.pc = .ipCopy i
  | .ipClose => s.pc = .ipText
  | .ipSock => s.pc = .ipClose
  | .ipOpen => s.pc = .ipSock
  | .ipWait => s.pc = .ipOpen ∨ s.pc = .ipWait
  | .ipDone => s.pc = .ipWait
  -- state 4
  | .put .complete => s.pc = .completeTest ∧ s.g.netCompleteFlag = 1
  -- state 5
  | .idleClear => s.pc = .idleTest ∧ s.g.isIdleFlag ≠ 0
  | .endClear => s.pc = .endTest ∧ s.g.meetingEndFlag ≠ 0
  | .endNet => s.pc = .endClear
  | .endFirst => s.pc = .endNet
  | .endIP i => (i = 0 ∧ s.pc = .endFirst) ∨ ∃ j < 4, i = j + 1 ∧ s.pc = .endIP j
  | .timeClear => s.pc = .timeTest ∧ s.g.timeCheckingFlag ≠ 0
  | .recTest => (s.pc = .downTest ∧ s.g.netCompleteFlag = 0) ∨ s.pc = .recDelay
  | .recDelay => s.pc = .recTest
  | .recClear => s.pc = .recTest ∧ s.g.netReconnectFlag ≠ 0
  | .recCmp i => (i = 0 ∧ s.pc = .recClear) ∨
      ∃ j < 4, i = j + 1 ∧ s.pc = .recCmp j ∧ s.prePhoneIP.rd j = s.g.phoneIP.rd j
  | .recCopy j => (j = 0 ∧ ∃ i, s.pc = .recCmp i) ∨ ∃ i < 4, j = i + 1 ∧ s.pc = .recCopy i
  | .recSame => ∃ i, 4 ≤ i ∧ s.pc = .recCmp i
  | .recText => ∃ j, 4 ≤ j ∧ s.pc = .recCopy j
  | .recClose => s.pc = .recText
  | .recSock => s.pc = .recClose
  | .recOpen => s.pc = .recSock
  | .recWait => s.pc = .recOpen ∨ s.pc = .recWait
  | .recDone => s.pc = .recWait
  | .put .reconnect => s.pc = .recSame ∨ s.pc = .recDone
  | _ => True

set_option maxRecDepth 2000 in
theorem mainStep_entered (again : Bool) (staip : Option (Buffer 4)) (s : Sys) :
    Entered s (mainStep again staip s).pc := by
  cases hpc : s.pc with
  | ack a i sum =>
      simp only [mainStep, hpc]
      split
      · trivial
      · cases a <;> trivial
  | put p => cases p <;> simp [mainStep, hpc, Put.next, Entered]
  | top =>
      simp only [mainStep, hpc, Sys.goto]
      split <;> simp [Entered]
  | cfgWait | portWait | keyTest | searchTest | phoneTest | ipWait | completeTest | linkTest
  | penTest | penUp | idleTest | netTest | snpTest | endTest | timeTest | downTest | recTest
  | recWait | ipCopy | endIP | recCopy | recCmp =>
      simp only [mainStep, hpc, Sys.goto, Sys.assign]
      split_ifs <;> simp_all [Entered]
  | _ => simp [mainStep, hpc, Sys.goto, Sys.assign, Entered]

/-! ### Control points and modes -/

set_option maxRecDepth 2000 in
/-- The values `st` of `Main_Fuction_state` and `sock` of `socket_start` that go
with a control point.  Behind the reset of state 2 the iteration goes on with
`Main_Fuction_state` 0 and `socket_start` 0, and may even enter state 3 so. -/
def Located (st sock : UInt8) : Pc → Prop
  | .delay | .top =>
      (st = 0 ∧ sock = 0) ∨ st = 1 ∨ (st = 2 ∧ sock = 1) ∨ st = 3 ∨ ((st = 4 ∨ st = 5) ∧ sock = 1)
  | .toState n =>
      (n = 1 ∧ ((st = 0 ∧ sock = 0) ∨ (st = 5 ∧ sock = 1))) ∨ (n = 2 ∧ st = 1 ∧ sock = 1) ∨
        (n = 3 ∧ ((st = 2 ∧ sock = 1) ∨ (st = 0 ∧ sock = 0))) ∨ (n = 4 ∧ st = 3 ∧ sock = 1) ∨
        (n = 5 ∧ st = 4 ∧ sock = 1)
  | .cfg | .cfgWait | .cfgDelay | .staip => st = 0 ∧ sock = 0
  | .portSock | .portOpen => st = 1
  | .portWait => st = 1 ∧ sock = 1
  | .keyTest | .keyClear | .reset => st = 2 ∧ sock = 1
  | .resetWait | .resetState => st = 2 ∧ sock = 0
  | .searchTest | .searchClear | .put .search | .phoneTest =>
      (st = 2 ∧ sock = 1) ∨ (st = 0 ∧ sock = 0)
  | .ipCopy _ | .ipText | .ipClose => st = 3
  | .ipSock | .ipOpen => st = 3 ∧ sock = 0
  | .ipWait | .ipDone => st = 3 ∧ sock = 1
  | .completeTest | .put .complete => st = 4 ∧ sock = 1
  | .recSock | .recOpen => st = 5 ∧ sock = 0
  | _ => st = 5 ∧ sock = 1

/-- The control points of mode 4. -/
theorem Located.mode_four {sock : UInt8} {pc : Pc} (h : Located 4 sock pc) :
    pc = .delay ∨ pc = .top ∨ pc = .completeTest ∨ pc = .toState 5 ∨ pc = .put .complete := by
  cases pc with
  | put p => cases p <;> simp_all [Located]
  | _ => simp_all [Located]

theorem located_mainStep (again : Bool) (staip : Option (Buffer 4)) {s : Sys}
    (h : Located s.mainFuctionState s.socketStart s.pc) :
    Located (mainStep again staip s).mainFuctionState (mainStep again staip s).socketStart
      (mainStep again staip s).pc := by
  cases hpc : s.pc with
  | top =>
      rw [hpc] at h
      rcases h with ⟨hst, hsock⟩ | hst | ⟨hst, hsock⟩ | hst | ⟨hst | hst, hsock⟩ <;>
        simp [mainStep, Sys.goto, Located, *]
  | toState n =>
      rw [hpc] at h
      rcases h with ⟨rfl, ⟨-, hsock⟩ | ⟨-, hsock⟩⟩ | ⟨rfl, -, hsock⟩ | ⟨rfl, ⟨-, hsock⟩ | ⟨-, hsock⟩⟩ |
        ⟨rfl, -, hsock⟩ | ⟨rfl, -, hsock⟩ <;> simp [mainStep, hpc, Located, hsock]
  | put p =>
      rw [hpc] at h
      cases p <;> simp_all [mainStep, Located, Put.next]
  | ack a i sum =>
      rw [hpc] at h
      simp only [mainStep, hpc]
      split
      · exact h
      · cases a <;> exact h
  | phoneTest =>
      rw [hpc] at h
      simp only [mainStep, hpc, Sys.goto]
      rcases h with ⟨hst, hsock⟩ | ⟨hst, hsock⟩ <;> split_ifs <;> simp [Located, hst, hsock]
  | cfgWait | portWait | keyTest | searchTest | ipWait | completeTest | linkTest
  | penTest | penUp | idleTest | netTest | snpTest | endTest | timeTest | downTest | recTest
  | recWait | ipCopy i | endIP i | recCopy i =>
      rw [hpc] at h
      simp only [mainStep, hpc, Sys.goto]
      split_ifs <;> simp_all [Located, Sys.assign]
  | recCmp i =>
      rw [hpc] at h
      simp only [mainStep, hpc, Sys.goto]
      split_ifs <;> exact h
  | _ =>
      rw [hpc] at h
      simp only [mainStep, hpc]
      simp_all [Located, Sys.goto, Sys.assign]

/-- The main loop changes the mode at the end of an iteration and behind the
reset only. -/
theorem mainStep_mode (again : Bool) (staip : Option (Buffer 4)) (s : Sys) :
    (mainStep again staip s).mainFuctionState = s.mainFuctionState ∨
      s.pc = .toState (mainStep again staip s).mainFuctionState ∨
      (s.pc = .resetState ∧ (mainStep again staip s).mainFuctionState = 0) := by
  cases hpc : s.pc with
  | toState n => exact .inr (.inl (by simp only [mainStep, hpc]))
  | resetState => exact .inr (.inr ⟨rfl, by simp only [mainStep, hpc]⟩)
  | ipCopy i | endIP i | recCopy i | ack a i sum =>
      left
      simp only [mainStep, hpc]
      split <;> rfl
  | _ => exact .inl (by simp only [mainStep, hpc, Sys.goto, Sys.assign])

/-- A statement of the heartbeat thread touches the link flag, the count and
its own control point. -/
theorem ledStep_frame (s : Sys) : ∃ flag cnt led, ledStep s =
    { s with g := { s.g with netCompleteFlag := flag }, heartBeatLoseCnt := cnt, led := led } := by
  unfold ledStep
  cases s.led <;> exact ⟨_, _, _, rfl⟩

/-- Only the main loop moves its control point and the two mode variables. -/
theorem Steps.control {s s' : Sys} {e : Event} (h : Steps s e s') :
    (∃ again staip, e = .main again staip ∧ s' = mainStep again staip s) ∨
      (s'.pc = s.pc ∧ s'.mainFuctionState = s.mainFuctionState ∧ s'.socketStart = s.socketStart) := by
  cases h with
  | main again staip => exact .inl ⟨again, staip, rfl, rfl⟩
  | led =>
      obtain ⟨flag, cnt, led, hled⟩ := ledStep_frame s
      rw [hled]
      exact .inr ⟨rfl, rfl, rfl⟩
  | key | phone | screen | transmit | tick => exact .inr ⟨rfl, rfl, rfl⟩

/-! ### The link flag -/

/-- The statements that set the link flag. -/
def Pc.Completes (pc : Pc) : Prop := pc = .ipDone ∨ pc = .recSame ∨ pc = .recDone

/-- The step drops the link flag: the heartbeat thread gives the link up, a
request is refused, or the meeting ends. -/
def Drops (s : Sys) : Event → Prop
  | .led => s.led = .clear
  | .phone dataBuf _ => HasCode dataBuf 0x75 ∧ barCodeErr dataBuf = true
  | .main _ _ => s.pc = .endNet
  | _ => False

instance (s : Sys) : (e : Event) → Decidable (Drops s e)
  | .led => inferInstanceAs (Decidable (s.led = .clear))
  | .phone dataBuf _ =>
      inferInstanceAs (Decidable (HasCode dataBuf 0x75 ∧ barCodeErr dataBuf = true))
  | .main .. => inferInstanceAs (Decidable (s.pc = .endNet))
  | .key _ | .screen .. | .transmit | .tick => inferInstanceAs (Decidable False)

/-- The link flag after one step. -/
inductive LinkFlag (s : Sys) (e : Event) : UInt8 → Prop
  | same : LinkFlag s e s.g.netCompleteFlag
  | set (again : Bool) (staip : Option (Buffer 4)) : e = .main again staip → s.pc.Completes →
      LinkFlag s e 1
  | drop : Drops s e → LinkFlag s e 0

theorem Steps.linkFlag {s s' : Sys} {e : Event} (hs : Steps s e s') :
    LinkFlag s e s'.g.netCompleteFlag := by
  cases hs with
  | main again staip =>
      have hg := mainStep_globals again staip s
      generalize (mainStep again staip s).g = g' at hg
      cases hg with
      | complete hpc => exact .set again staip rfl hpc
      | endNet hpc => exact .drop hpc
      | @ack a i sum f _ hf =>
          obtain ⟨buf, len, hfg⟩ := ackStmts_frame a.code 0 f (List.mem_of_getElem? hf) (s.g, sum)
          rw [hfg]
          exact .same
      | _ => exact .same
  | led =>
      unfold ledStep
      cases hled : s.led with
      | clear => exact .drop hled
      | _ => exact .same
  | @phone dataBuf num g' _ hg _ =>
      subst hg
      show LinkFlag s _ (wifiDataDeal s.g dataBuf num).netCompleteFlag
      rw [wifiDataDeal_netCompleteFlag]
      split_ifs with h
      · exact .drop h
      · exact .same
  | screen _ ha => cases ha <;> exact .same
  | key | transmit | tick => exact .same

/-- The control points of `cc3200_reconnect` before the link flag is set, and
those of the meeting-end block behind its clearing. -/
def Pc.LinkDown : Pc → Prop
  | .recTest | .recDelay | .recClear | .recCmp _ | .recCopy _ | .recSame | .recText | .recClose
  | .recSock | .recOpen | .recWait | .recDone | .endFirst | .endIP _ => True
  | _ => False

/-- The link flag is down where the source takes it to be. -/
def LinkDown (s : Sys) : Prop := s.pc.LinkDown → s.g.netCompleteFlag = 0

theorem linkDown_powerOn : LinkDown Sys.powerOn := nofun

theorem linkDown_mainStep {again : Bool} {staip : Option (Buffer 4)} {s : Sys} (h : LinkDown s) :
    LinkDown (mainStep again staip s) := by
  unfold LinkDown at h ⊢
  cases hpc : s.pc with
  | ack a i sum =>
      simp only [mainStep, hpc]
      split
      · exact nofun
      · cases a <;> exact nofun
  | put p => cases p <;> simp [mainStep, hpc, Put.next, Pc.LinkDown]
  | top =>
      simp only [mainStep, hpc, Sys.goto]
      split <;> exact nofun
  | cfgWait | portWait | keyTest | searchTest | phoneTest | ipWait | completeTest | linkTest
  | penTest | penUp | idleTest | netTest | snpTest | endTest | timeTest | downTest | recTest
  | recWait | ipCopy | endIP | recCopy | recCmp =>
      rw [hpc] at h
      simp only [mainStep, hpc, Sys.goto, Sys.assign]
      split_ifs <;> simp_all [Pc.LinkDown]
  | _ =>
      rw [hpc] at h
      simp_all [mainStep, Sys.goto, Sys.assign, Pc.LinkDown]

theorem linkDown_step {s s' : Sys} {e : Event} (hs : Steps s e s') (h : LinkDown s) :
    LinkDown s' := by
  rcases hs.control with ⟨again, staip, -, rfl⟩ | ⟨hpc, -, -⟩
  · exact linkDown_mainStep h
  · intro hdown
    have hzero := h (hpc ▸ hdown)
    have hflag := hs.linkFlag
    generalize s'.g.netCompleteFlag = flag at hflag
    cases hflag with
    | same => exact hzero
    | set again staip he hset =>
        -- the main loop would have gone on
        subst he
        cases hs
        rcases hset with h | h | h <;> simp [mainStep, h, Sys.assign] at hpc
    | drop => rfl

/-- The control point and the modes fit together in a state. -/
def Sys.Located (s : Sys) : Prop := DolphinNote.Located s.mainFuctionState s.socketStart s.pc

theorem Sys.located_powerOn : Sys.powerOn.Located := .inl ⟨rfl, rfl⟩

theorem Sys.Located.step {s s' : Sys} {e : Event} (hs : Steps s e s') (h : s.Located) :
    s'.Located := by
  rcases hs.control with ⟨again, staip, -, rfl⟩ | ⟨hpc, hst, hsock⟩
  · exact located_mainStep again staip h
  · unfold Sys.Located
    rwa [hpc, hst, hsock]

end DolphinNote
