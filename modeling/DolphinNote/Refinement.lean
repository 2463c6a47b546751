/-
DolphinNote/Refinement.lean

The board with its interrupt handlers run byte by byte, and the steps of
`MainLoop` as what is left of it when only the shared data are looked at.

An activation of `USART2_IRQHandler` drains at most one byte of the ring and
dispatches at most one phone frame; one of `USART1_IRQHandler` dispatches at
most one screen frame; `SysTick_Handler` counts `time_base` at every ninth
tick.  So each step of the board is a run of at most two steps of the system,
and every run of the board is a run of the system (`board_simulated`).
-/
import DolphinNote.Interrupts
import DolphinNote.PhoneReceiver
import DolphinNote.ScreenReceiver
import DolphinNote.Control

namespace DolphinNote

open Nesting Transition

/-! ### The board -/

/-- What only the handlers work on. -/
structure Devices where
  rtTick : UInt32
  timebaseCounter : UInt8
  usart1 : Usart1
  rx : WifiRx
  at_ : AtRx

/-- The shared data with the threads, and the devices. -/
structure Board where
  sys : Sys
  dev : Devices

/-- The board at power-on. -/
def Board.powerOn : Board where
  sys := .powerOn
  dev := { rtTick := 0, timebaseCounter := 0, usart1 := .powerOn, rx := .powerOn, at_ := .powerOn }

/-- The memory the handlers see. -/
def Board.mem (b : Board) : Mem where
  rtTick := b.dev.rtTick
  timebaseCounter := b.dev.timebaseCounter
  globals := b.sys.g
  usart1 := b.dev.usart1
  usart2 := { rx := b.dev.rx, tx := b.sys.tx, at_ := b.dev.at_ }
  socketStart := b.sys.socketStart

/-- The board after the handlers have left memory `m`. -/
def Board.setMem (b : Board) (m : Mem) : Board where
  sys := { b.sys with g := m.globals, tx := m.usart2.tx, socketStart := m.socketStart }
  dev := { rtTick := m.rtTick, timebaseCounter := m.timebaseCounter, usart1 := m.usart1,
           rx := m.usart2.rx, at_ := m.usart2.at_ }

/-- A whole activation of a handler. -/
def activate (h : Irq) (x : Sample) (m : Mem) : Mem := (handler h).foldl (fun m op => op.run x m) m

/-- What can happen on the board. -/
inductive BoardEvent
  | main (again : Bool) (staip : Option (Buffer 4))
  | led
  | key (bit : UInt8)
  | irq (h : Irq) (x : Sample)

/-- One step of the board. -/
def boardStep (b : Board) : BoardEvent → Option Board
  | .main again staip => (step b.sys (.main again staip)).map fun s => { b with sys := s }
  | .led => (step b.sys .led).map fun s => { b with sys := s }
  | .key bit => (step b.sys (.key bit)).map fun s => { b with sys := s }
  | .irq h x => some (b.setMem (activate h x b.mem))

/-- The screen receiver holds a partial frame; all its frames are well formed. -/
def Board.Receiving (b : Board) : Prop := ∃ p, ScreenReceives b.dev.usart1 p

/-! ### Activations -/

theorem countTimebase_usart1 (m : Mem) : (countTimebase m).usart1 = m.usart1 := by
  unfold countTimebase
  dsimp only
  split_ifs <;> rfl

theorem wifiPort_usart1 (x : Sample) (m : Mem) : (wifiPort x m).usart1 = m.usart1 := by
  unfold wifiPort
  split <;> rfl

/-- `SysTick_Handler` counts, or not. -/
theorem sysTick_simulated (b : Board) (x : Sample) :
    ∃ as, exec step b.sys as = some (b.setMem (activate .sysTick x b.mem)).sys := by
  show ∃ as, exec step b.sys as = some (b.setMem (countTimebase (rtTickIncrease b.mem))).sys
  unfold countTimebase
  dsimp only
  split_ifs
  · exact ⟨[.tick], rfl⟩
  · exact ⟨[], rfl⟩

/-- `USART1_IRQHandler` dispatches a screen frame, or not. -/
theorem usart1_simulated {b : Board} (x : Sample) (h : b.Receiving) :
    (b.setMem (activate .usart1 x b.mem)).Receiving ∧
      ∃ as, exec step b.sys as = some (b.setMem (activate .usart1 x b.mem)).sys := by
  show (b.setMem (screenPort x b.mem)).Receiving ∧
    ∃ as, exec step b.sys as = some (b.setMem (screenPort x b.mem)).sys
  obtain ⟨p, hp⟩ := h
  obtain ⟨⟨u', g'⟩, l, hs, hstep⟩ := usart1IRQHandler_step (s := (b.dev.usart1, b.sys.g)) hp x
  have hport : screenPort x b.mem = { b.mem with usart1 := u', globals := g' } := by
    simp only [screenPort]
    rw [show usart1IRQHandler (b.mem.usart1, b.mem.globals) x = Except.ok ((u', g'), l) from hs]
    rfl
  rw [hport]
  refine ⟨⟨_, hstep.state⟩, ?_⟩
  rcases hstep.globals with rfl | ⟨dataBuf, num, k, hframe, hcall⟩
  · exact ⟨[], rfl⟩
  · have hs' : step b.sys (.screen dataBuf num) = some { b.sys with g := g' } := by
      simp only [step, if_pos hframe]
      rw [show screenDataAnalize b.sys.g dataBuf num = Except.ok (g', k) from hcall]
      rfl
    exact ⟨[.screen dataBuf num], (exec_cons [] hs').trans rfl⟩

/-- In the socket mode, the transmit part of an activation is a step of the
system, or none. -/
theorem transmit_simulated {s : Sys} (hsock : s.socketStart = 1) (txe : Bool) :
    ∃ as, exec step s as = some { s with tx := s.tx.transmit txe } := by
  by_cases h : txe = true ∧ s.tx.txeie = true
  · obtain ⟨rfl, htxeie⟩ := h
    exact ⟨[.transmit], by simp [exec, step, hsock, htxeie]⟩
  · refine ⟨[], ?_⟩
    have hoff : (txe && s.tx.txeie) = false := by simpa using h
    simp only [WifiTx.transmit, hoff]
    rfl

/-- `USART2_IRQHandler` drains a byte, or not, and dispatches a phone frame, or
not. -/
theorem usart2_simulated (b : Board) (x : Sample) :
    ∃ as, exec step b.sys as = some (b.setMem (activate .usart2 x b.mem)).sys := by
  show ∃ as, exec step b.sys as = some (b.setMem (wifiPort x b.mem)).sys
  have key {u' : Usart2} {g' : Globals} {l : List Effect}
      (h : usart2IRQHandler b.sys.socketStart (b.mem.usart2, b.sys.g) x = Except.ok ((u', g'), l)) :
      ∃ as, exec step b.sys as = some { b.sys with g := g', tx := u'.tx } := by
    by_cases h0 : b.sys.socketStart = 0
    · rw [h0] at h
      obtain ⟨htx, hg⟩ := usart2IRQHandler_at h
      exact ⟨[], by rw [show u'.tx = b.sys.tx from htx, show g' = b.sys.g from hg]; rfl⟩
    by_cases h1 : b.sys.socketStart = 1
    · rw [h1] at h
      obtain ⟨as, has⟩ := transmit_simulated h1 x.txe
      rw [show u'.tx = b.sys.tx.transmit x.txe from usart2IRQHandler_tx h]
      rcases usart2IRQHandler_globals h with hg | ⟨dataBuf, num, -, hg⟩
      · exact ⟨as, by rw [has, show g' = b.sys.g from hg]⟩
      · refine ⟨as ++ [.phone dataBuf num], exec_append.mpr ⟨_, has, ?_⟩⟩
        rw [show g' = wifiDataDeal b.sys.g dataBuf num from hg]
        simp [exec, step, h1]
    · -- no mode at all
      simp only [usart2IRQHandler] at h
      cases h
      exact ⟨[], rfl⟩
  unfold wifiPort
  split
  case h_1 u' g' hres =>
    obtain ⟨l, hl⟩ := Traced.result?_eq_some.mp hres
    exact key hl
  case h_2 => exact ⟨[], rfl⟩

/-! ### Runs -/

/-- **One step of the board** is a run of the system. -/
theorem boardStep_simulated {b b' : Board} {e : BoardEvent} (h : b.Receiving)
    (hs : boardStep b e = some b') :
    b'.Receiving ∧ ∃ as, exec step b.sys as = some b'.sys := by
  cases e <;> simp only [boardStep] at hs
  case main again staip =>
    obtain ⟨s', hs', rfl⟩ := Option.map_eq_some_iff.mp hs
    exact ⟨h, [.main again staip], exec_cons [] hs'⟩
  case led =>
    obtain ⟨s', hs', rfl⟩ := Option.map_eq_some_iff.mp hs
    exact ⟨h, [.led], exec_cons [] hs'⟩
  case key bit =>
    obtain ⟨s', hs', rfl⟩ := Option.map_eq_some_iff.mp hs
    exact ⟨h, [.key bit], exec_cons [] hs'⟩
  case irq irq x =>
    obtain rfl := Option.some.inj hs
    obtain ⟨p, hp⟩ := h
    cases irq with
    | sysTick =>
        refine ⟨⟨p, ?_⟩, sysTick_simulated b x⟩
        show ScreenReceives (countTimebase (rtTickIncrease b.mem)).usart1 p
        rw [countTimebase_usart1]
        exact hp
    | usart1 => exact usart1_simulated x ⟨p, hp⟩
    | usart2 =>
        refine ⟨⟨p, ?_⟩, usart2_simulated b x⟩
        show ScreenReceives (wifiPort x b.mem).usart1 p
        rw [wifiPort_usart1]
        exact hp

/-- **The board refines the system**: the shared data of every run of the board
are those of a run of the system. -/
theorem board_simulated {b : Board} {bs : List BoardEvent}
    (hr : exec boardStep Board.powerOn bs = some b) :
    ∃ as, exec step Sys.powerOn as = some b.sys :=
  exec_simulated (J := Board.Receiving) (fun _ _ _ => boardStep_simulated)
    ⟨[], ⟨by simp, by simp, by simp⟩, rfl, .idle rfl rfl, rfl, rfl⟩ hr

/-- On the board, too, control point and modes always fit together. -/
theorem board_located {b : Board} {bs : List BoardEvent}
    (hr : exec boardStep Board.powerOn bs = some b) : b.sys.Located := by
  obtain ⟨as, has⟩ := board_simulated hr
  have hreach : Reachable step Sys.powerOn b.sys := ⟨as, has⟩
  exact hreach.invariant Sys.located_powerOn fun _ _ _ hi hs => hi.step (steps_of_step hs)

end DolphinNote
