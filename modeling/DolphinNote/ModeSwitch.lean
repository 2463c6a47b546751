/-
DolphinNote/ModeSwitch.lean

The transmit interrupt across mode switches.  While `socket_start` is 0 the
handler of the WiFi port does not drain the transmit ring, so the interrupt
must not be enabled then: nothing would serve it.

It is not enabled, in every state of a run, exactly if the ring has drained
whenever the main loop clears `socket_start`, and no search is answered in the
iteration that has reset the module (`serviced_iff`).
-/
import DolphinNote.Control
import DolphinNote.PhoneReceiver

namespace DolphinNote

open Transition

/-! ### The port after a statement -/

@[simp] theorem uart2PutBuf_txeie (t : WifiTx) {n : ℕ} (dataToSend : Buffer n) (dataNum : UInt8) :
    (uart2PutBuf t dataToSend dataNum).txeie = true := by
  unfold uart2PutBuf
  dsimp only
  split_ifs with h
  · exact h
  · rfl

/-- The statements that clear `socket_start` while the port is in use. -/
def Closes (pc : Pc) : Prop := pc = .reset ∨ pc = .ipClose ∨ pc = .recClose

/-- What a statement of the main loop does to `socket_start` and the ring. -/
inductive MainPort (s : Sys) : UInt8 → WifiTx → Prop
  | same : ¬ Closes s.pc → (∀ p, s.pc ≠ .put p) → MainPort s s.socketStart s.tx
  | start : s.pc = .cfg → MainPort s 0 s.tx
  | close : Closes s.pc → MainPort s 0 s.tx
  | openPort : s.pc = .portOpen ∨ s.pc = .ipOpen ∨ s.pc = .recOpen → MainPort s 1 s.tx
  | put {p : Put} : s.pc = .put p →
      MainPort s s.socketStart (uart2PutBuf s.tx s.g.wifiDataToSend (p.num s.g))

theorem mainStep_port (again : Bool) (staip : Option (Buffer 4)) (s : Sys) :
    MainPort s (mainStep again staip s).socketStart (mainStep again staip s).tx := by
  cases hpc : s.pc with
  | cfg => simp only [mainStep, hpc]; exact .start hpc
  | reset => simp only [mainStep, hpc]; exact .close (.inl hpc)
  | ipClose => simp only [mainStep, hpc]; exact .close (.inr (.inl hpc))
  | recClose => simp only [mainStep, hpc]; exact .close (.inr (.inr hpc))
  | portOpen => simp only [mainStep, hpc]; exact .openPort (.inl hpc)
  | ipOpen => simp only [mainStep, hpc]; exact .openPort (.inr (.inl hpc))
  | recOpen => simp only [mainStep, hpc]; exact .openPort (.inr (.inr hpc))
  | put p => simp only [mainStep, hpc]; exact .put hpc
  | ipCopy i | endIP i | recCopy i | ack a i sum =>
      simp only [mainStep, hpc]
      split <;> exact .same (by simp [Closes, hpc]) (by simp [hpc])
  | _ => simp only [mainStep, hpc]; exact .same (by simp [Closes, hpc]) (by simp [hpc])

/-! ### Serviced interrupts -/

/-- An enabled transmit interrupt is one the handler serves. -/
def Serviced (s : Sys) : Prop := s.socketStart = 0 → s.tx.txeie = false

/-- The ring has drained when the main loop clears `socket_start`, and no
search is answered behind the reset of state 2, where `Main_Fuction_state` is 0
already. -/
def SwitchSafe (s : Sys) : Event → Prop
  | .main _ _ => (Closes s.pc → s.tx.txeie = false) ∧
      (s.pc = .put .search → s.mainFuctionState ≠ 0)
  | _ => True

instance (s : Sys) : Decidable (Serviced s) := by
  unfold Serviced; infer_instance

/-- A block is handed over in the mode that drains the ring, but in the
iteration behind a reset. -/
theorem Located.put {st sock : UInt8} {p : Put} (h : Located st sock (.put p)) :
    sock ≠ 0 ↔ (p = .search → st ≠ 0) := by
  cases p with
  | search => rcases h with ⟨rfl, rfl⟩ | ⟨rfl, rfl⟩ <;> decide
  | _ =>
      refine iff_of_true ?_ nofun
      rw [h.2]
      decide

/-- **One step** leaves no unserviced interrupt exactly if it is safe. -/
theorem serviced_step_iff {s s' : Sys} {e : Event} (hs : Steps s e s') (hloc : s.Located)
    (hser : Serviced s) : Serviced s' ↔ SwitchSafe s e := by
  cases hs with
  | main again staip =>
      have hport := mainStep_port again staip s
      unfold Sys.Located at hloc
      simp only [Serviced, SwitchSafe]
      generalize (mainStep again staip s).socketStart = sock,
        (mainStep again staip s).tx = tx at hport
      cases hport with
      | same hclose hput => exact iff_of_true hser ⟨fun h => absurd h hclose, fun h => absurd h (hput _)⟩
      | start hpc =>
          rw [hpc] at hloc ⊢
          exact iff_of_true (fun _ => hser hloc.2) ⟨by simp [Closes], nofun⟩
      | close hpc =>
          have hput : s.pc ≠ .put .search := by
            rintro h
            simp [Closes, h] at hpc
          exact ⟨fun h => ⟨fun _ => h rfl, fun h => absurd h hput⟩, fun h _ => h.1 hpc⟩
      | openPort hpc =>
          refine iff_of_true nofun ?_
          rcases hpc with hpc | hpc | hpc <;> simp [hpc, Closes]
      | @put p hpc =>
          rw [hpc] at hloc ⊢
          rw [uart2PutBuf_txeie]
          have hiff := hloc.put
          constructor
          · exact fun h => ⟨by simp [Closes], fun hp => hiff.mp (fun h0 => nomatch h h0) (Pc.put.inj hp)⟩
          · exact fun h h0 => absurd h0 (hiff.mpr fun hp => h.2 (by rw [hp]))
  | transmit hsock _ => exact iff_of_true (fun h0 => absurd (h0.symm.trans hsock) (by decide)) trivial
  | led =>
      obtain ⟨flag, cnt, led, hled⟩ := ledStep_frame s
      rw [hled]
      exact iff_of_true hser trivial
  | key | phone | screen | tick => exact iff_of_true hser trivial

/-- **No unserviced interrupt across mode switches.**  The enable bit is clear
in every state of a run with `socket_start` 0, exactly if the ring has drained
at each switch to the AT mode and no search is answered behind a reset.  Were it
set, the handler would not clear it. -/
theorem serviced_iff (as : List Event) :
    (Along step (fun _ _ s' => Serviced s') Sys.powerOn as ↔
      Along step (fun s e _ => SwitchSafe s e) Sys.powerOn as) ∧
    ∀ s x s' l, usart2IRQHandler 0 s x = Except.ok (s', l) → s'.1.tx = s.1.tx := by
  refine ⟨?_, fun s x s' l h => (usart2IRQHandler_at h).1⟩
  refine Along.congr (I := fun s => s.Located ∧ Serviced s) as
    ⟨Sys.located_powerOn, fun _ => rfl⟩ (fun s e s' hi hc hs => ?_) fun s e s' hi hs => ?_
  · have hs := steps_of_step hs
    exact ⟨hi.1.step hs, (serviced_step_iff hs hi.1 hi.2).mpr hc⟩
  · exact serviced_step_iff (steps_of_step hs) hi.1 hi.2

/-- A search that arrives just before a reset of the module is answered behind
it: the interrupt is enabled with nobody to serve it. -/
theorem unserviced_after_reset :
    ¬ Along step (fun _ _ s' => Serviced s') Sys.powerOn
      (List.replicate 13 .next ++ .key keyNetLongPush :: .phone (request 0x78 1 1) 39 ::
        List.replicate 8 .next) := by
  decide

end DolphinNote
