/-
DolphinNote/Interrupts.lean

The three interrupt handlers of the board as nested activations
(`board.c`, `usart2.c`, `Kernel/src/irq.c`).

Each handler is the list of its statements: `rt_interrupt_enter`,
`rt_interrupt_leave`, and the work between them on the globals, the ports and
the tick.  `USART2_IRQHandler` calls `rt_interrupt_enter` twice, before its
local declarations and after them, and `rt_interrupt_leave` once.
-/
import DolphinNote.Nesting
import DolphinNote.Usart2

namespace DolphinNote

open Nesting Transition

/-- The handlers. -/
inductive Irq
  | sysTick | usart1 | usart2
  deriving DecidableEq, Repr

instance : Fintype Irq := ⟨{.sysTick, .usart1, .usart2}, fun h => by cases h <;> decide⟩

/-- What the handlers work on.  `rt_tick` and `timebase_counter` belong to
`SysTick_Handler`. -/
structure Mem where
  rtTick : UInt32
  timebaseCounter : UInt8
  globals : Globals
  usart1 : Usart1
  usart2 : Usart2
  socketStart : UInt8

/-- Memory at power-on. -/
def Mem.powerOn : Mem where
  rtTick := 0
  timebaseCounter := 0
  globals := .powerOn
  usart1 := .powerOn
  usart2 := .powerOn
  socketStart := 0

/-- `rt_tick_increase`, less what it does to the scheduler and the timers. -/
def rtTickIncrease (m : Mem) : Mem := { m with rtTick := m.rtTick + 1 }

/-- `timebase_counter ++` and the step of `time_base` at every ninth tick. -/
def countTimebase (m : Mem) : Mem :=
  let counter := m.timebaseCounter + 1
  if 9 ≤ counter then
    { m with timebaseCounter := 0,
             globals := { m.globals with timeBase := m.globals.timeBase + 1 } }
  else { m with timebaseCounter := counter }

/-- The screen port's handler on memory.  A store outside an array is not
modelled further: it leaves memory as it is. -/
def screenPort (x : Sample) (m : Mem) : Mem :=
  match (usart1IRQHandler (m.usart1, m.globals) x).result? with
  | some (u, g) => { m with usart1 := u, globals := g }
  | none => m

/-- The WiFi port's handler on memory, likewise. -/
def wifiPort (x : Sample) (m : Mem) : Mem :=
  match (usart2IRQHandler m.socketStart (m.usart2, m.globals) x).result? with
  | some (u, g) => { m with usart2 := u, globals := g }
  | none => m

/-- The statements of each handler. -/
def handler : Irq → List (Op (Sample → Mem → Mem))
  | .sysTick => [.enter, .work fun _ => rtTickIncrease, .work fun _ => countTimebase, .leave]
  | .usart1 => [.enter, .work screenPort, .leave]
  | .usart2 => [.enter, .enter, .work wifiPort, .leave]

theorem handler_depth (h : Irq) (i : ℕ) :
    0 ≤ depth ((handler h).take i) ∧ depth ((handler h).take i) ≤ (2 : ℕ) := by
  cases h with
  | sysTick => rcases i with - | - | - | - | i <;> simp [handler, depth, Op.delta]
  | usart1 => rcases i with - | - | - | i <;> simp [handler, depth, Op.delta]
  | usart2 => rcases i with - | - | - | - | i <;> simp [handler, depth, Op.delta]

/-- `USART2_IRQHandler` is the unbalanced one. -/
theorem handler_balanced_iff (h : Irq) : depth (handler h) = 0 ↔ h ≠ .usart2 := by
  cases h <;> simp [handler, depth, Op.delta]

/-- The step is the return of an activation of `USART2_IRQHandler`. -/
def Usart2Returns (s : State Irq Sample Mem) (a : Act Irq Sample Mem) : Prop :=
  a = .ret ∧ ∃ f below, s.stack = f :: below ∧ f.irq = .usart2

theorem noUnbalancedReturn_iff (s : State Irq Sample Mem) (a : Act Irq Sample Mem)
    (s' : State Irq Sample Mem) :
    NoUnbalancedReturn handler s a s' ↔ ¬ Usart2Returns s a := by
  obtain ⟨n, m, l⟩ := s
  cases a with
  | ret =>
      rcases l with - | ⟨f, below⟩
      · exact iff_of_true trivial (by rintro ⟨-, f, below, h, -⟩; cases h)
      · refine (handler_balanced_iff f.irq).trans (not_congr ⟨fun h => ⟨rfl, f, below, rfl, h⟩, ?_⟩)
        rintro ⟨-, f', below', h, hirq⟩
        obtain ⟨rfl, rfl⟩ := List.cons.inj h
        exact hirq
  | irq | exec | thread => exact iff_of_true trivial (by rintro ⟨h, -⟩; cases h)

/-- **Nesting balance of the board.**  Along a run every handler returns with
the value of `rt_interrupt_nest` it was entered with, thread code always finds
0 and the counter never wraps, exactly if no activation of `USART2_IRQHandler`
returns in the run. -/
theorem nest_balanced_iff (m : Mem) (as : List (Act Irq Sample Mem)) :
    Along (step handler) Balanced ⟨0, m, []⟩ as ↔
      Along (step handler) (fun s a _ => ¬ Usart2Returns s a) ⟨0, m, []⟩ as := by
  rw [balanced_iff handler_depth (by decide)]
  exact Along.congr_right noUnbalancedReturn_iff _ as

/-- One activation of `USART2_IRQHandler` at thread level: when it has returned
and the thread resumes, the counter is 1. -/
theorem nest_after_usart2 :
    (exec (step handler) ⟨0, Mem.powerOn, []⟩
        [.irq .usart2 ⟨false, false, none⟩, .exec, .exec, .exec, .exec, .ret]).map
      (fun s => (s.stack.length, s.nest)) = some (0, 1) := by
  decide

end DolphinNote
