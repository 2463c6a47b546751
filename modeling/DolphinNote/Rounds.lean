/-
DolphinNote/Rounds.lean

The system of `MainLoop` with the calls of `Uart2_Put_Buf` taken apart.  There
a call is one step; here the main loop copies one byte in each step, and
anything may happen between two rounds of the loop, so the block that is handed
over is what it has read, byte by byte (`copied`).

* `exec_put`: a call that nothing interrupts is the one step of `MainLoop`.
* `fine_line`: with its interrupts, what happens to the ring is a run of the
  `Line` of `TransmitRing`.
-/
import DolphinNote.TransmitRing
import DolphinNote.ModeSwitch

namespace DolphinNote

open Transition

/-- The system, with the place inside `Uart2_Put_Buf` and the bytes copied by
the call. -/
structure Fine where
  sys : Sys
  put : PutPc
  copied : List UInt8
  deriving DecidableEq

/-- Power-on. -/
def Fine.powerOn : Fine where
  sys := .powerOn
  put := .out
  copied := []

/-- The next statement of the main loop, or the next round of `Uart2_Put_Buf`. -/
def fineMain (again : Bool) (staip : Option (Buffer 4)) (f : Fine) : Fine :=
  match f.sys.pc with
  | .put p =>
      match f.put with
      | .out => { f with put := .copy 0 (p.num f.sys.g), copied := [] }
      | .copy i dataNum =>
          let t := f.sys.tx
          if i < dataNum then
            let x := f.sys.g.wifiDataToSend.rd i.toNat
            { sys := { f.sys with tx := t.push x }, put := .copy (i + 1) dataNum,
              copied := f.copied ++ [x] }
          else
            { f with sys := { f.sys with tx := if t.txeie then t else { t with txeie := true },
                                         pc := p.next },
                     put := .out }
  | _ => { f with sys := mainStep again staip f.sys }

/-- One step. -/
def fineStep (f : Fine) : Event → Option Fine
  | .main again staip => some (fineMain again staip f)
  | e => (step f.sys e).map fun s => { f with sys := s }

/-- The steps: the main loop calls `Uart2_Put_Buf`, copies a byte, returns, or
takes a statement; or something else happens. -/
inductive FineSteps (f : Fine) : Event → Fine → Prop
  | call {p : Put} (again : Bool) (staip : Option (Buffer 4)) : f.sys.pc = .put p → f.put = .out →
      FineSteps f (.main again staip) { f with put := .copy 0 (p.num f.sys.g), copied := [] }
  | round {p : Put} {i dataNum : UInt8} (again : Bool) (staip : Option (Buffer 4)) :
      f.sys.pc = .put p → f.put = .copy i dataNum → i < dataNum →
      FineSteps f (.main again staip)
        { sys := { f.sys with tx := f.sys.tx.push (f.sys.g.wifiDataToSend.rd i.toNat) },
          put := .copy (i + 1) dataNum,
          copied := f.copied ++ [f.sys.g.wifiDataToSend.rd i.toNat] }
  | ret {p : Put} {i dataNum : UInt8} {tx : WifiTx} (again : Bool) (staip : Option (Buffer 4)) :
      f.sys.pc = .put p → f.put = .copy i dataNum → ¬ i < dataNum →
      tx = (if f.sys.tx.txeie then f.sys.tx else { f.sys.tx with txeie := true }) →
      FineSteps f (.main again staip)
        { f with sys := { f.sys with tx := tx, pc := p.next }, put := .out }
  | main (again : Bool) (staip : Option (Buffer 4)) : (∀ p, f.sys.pc ≠ .put p) →
      FineSteps f (.main again staip) { f with sys := mainStep again staip f.sys }
  | other {e : Event} {s : Sys} : (∀ again staip, e ≠ .main again staip) → step f.sys e = some s →
      FineSteps f e { f with sys := s }

theorem fineSteps_main (again : Bool) (staip : Option (Buffer 4)) (f : Fine) :
    FineSteps f (.main again staip) (fineMain again staip f) := by
  unfold fineMain
  split
  case h_1 p hpc =>
    split
    case h_1 hput => exact .call again staip hpc hput
    case h_2 i dataNum hput =>
      dsimp only
      by_cases hi : i < dataNum
      · rw [if_pos hi]
        exact .round again staip hpc hput hi
      · rw [if_neg hi]
        exact .ret again staip hpc hput hi rfl
  case h_2 hpc => exact .main again staip fun p h => hpc p h

theorem fineSteps_of_fineStep {f f' : Fine} {e : Event} (h : fineStep f e = some f') :
    FineSteps f e f' := by
  cases e with
  | main again staip =>
      obtain rfl := Option.some.inj h
      exact fineSteps_main again staip f
  | _ =>
      simp only [fineStep] at h
      obtain ⟨s, hs, rfl⟩ := Option.map_eq_some_iff.mp h
      exact .other nofun hs

/-- The main loop is inside `Uart2_Put_Buf` only where it calls it. -/
def Fine.Placed (f : Fine) : Prop := (∀ p, f.sys.pc ≠ .put p) → f.put = .out

theorem Fine.Placed.step {f f' : Fine} {e : Event} (h : f.Placed) (hs : FineSteps f e f') :
    f'.Placed := by
  cases hs with
  | call _ _ hpc _ => exact fun hne => absurd hpc (hne _)
  | round _ _ hpc _ _ => exact fun hne => absurd hpc (hne _)
  | ret => exact fun _ => rfl
  | main again staip hpc => exact fun _ => h hpc
  | other hmain hs =>
      rcases (steps_of_step hs).control with ⟨again, staip, he, -⟩ | ⟨hpc, -⟩
      · exact absurd he (hmain again staip)
      · intro hne
        refine h fun p hp => hne p ?_
        exact hpc.trans hp

/-! ### Calls without interrupts -/

/-- The rounds of a call. -/
theorem exec_fine_rounds {p : Put} {s : Sys} (hpc : s.pc = .put p) {k : ℕ}
    (hk : k ≤ (p.num s.g).toNat) :
    exec fineStep ⟨s, .copy 0 (p.num s.g), []⟩ (List.replicate k .next) =
      some ⟨{ s with tx := (List.range k).foldl (fun t i => t.push (s.g.wifiDataToSend.rd i)) s.tx },
        .copy (UInt8.ofNat k) (p.num s.g), s.g.wifiDataToSend.bytes k⟩ := by
  induction k with
  | zero => rfl
  | succ k ih =>
      have hlt : UInt8.ofNat k < p.num s.g := by
        rw [UInt8.lt_iff_toNat_lt, UInt8.toNat_ofNat']
        have := (p.num s.g).toNat_lt
        omega
      have hkn : (UInt8.ofNat k).toNat = k := by
        rw [UInt8.toNat_ofNat']
        have := (p.num s.g).toNat_lt
        omega
      have hi : UInt8.ofNat k + 1 = UInt8.ofNat (k + 1) := (UInt8.ofNat_add k 1).symm
      rw [List.replicate_succ', exec_append]
      refine ⟨_, ih (by omega), ?_⟩
      rw [List.range_succ, List.foldl_append, Buffer.bytes_succ, ← hi]
      refine (exec_cons [] ?_).trans rfl
      simp only [Event.next, fineStep, fineMain, hpc, if_pos hlt, hkn]
      rfl

/-- **A call that nothing interrupts** is the one step of `MainLoop`, and the
block copied is the one `Put.block` says. -/
theorem exec_put {p : Put} {s : Sys} (hpc : s.pc = .put p) (copied : List UInt8) :
    exec fineStep ⟨s, .out, copied⟩ (List.replicate ((p.num s.g).toNat + 2) .next) =
      some ⟨mainStep false none s, .out, p.block s.g⟩ := by
  have hcall : fineStep ⟨s, .out, copied⟩ .next = some ⟨s, .copy 0 (p.num s.g), []⟩ := by
    simp only [Event.next, fineStep, fineMain, hpc]
  have hend : ¬ UInt8.ofNat (p.num s.g).toNat < p.num s.g := by simp
  rw [show (p.num s.g).toNat + 2 = ((p.num s.g).toNat + 1) + 1 from rfl, List.replicate_succ,
    exec_cons _ hcall, List.replicate_succ', exec_append]
  refine ⟨_, exec_fine_rounds hpc le_rfl, (exec_cons [] ?_).trans rfl⟩
  simp only [Event.next, fineStep, fineMain, mainStep, hpc, if_neg hend, uart2PutBuf, Put.block]

/-! ### The ring -/

/-- A statement of the main loop that hands nothing over leaves the ring alone. -/
theorem mainStep_tx {s : Sys} (hpc : ∀ p, s.pc ≠ .put p) (again : Bool) (staip : Option (Buffer 4)) :
    (mainStep again staip s).tx = s.tx := by
  have hport := mainStep_port again staip s
  generalize (mainStep again staip s).socketStart = sock, (mainStep again staip s).tx = tx at hport
  cases hport with
  | put hp => exact absurd hp (hpc _)
  | _ => rfl

theorem step_tx {s s' : Sys} {e : Event} (hs : Steps s e s')
    (hmain : ∀ again staip, e ≠ .main again staip) (htransmit : e ≠ .transmit) : s'.tx = s.tx := by
  cases hs with
  | main again staip => exact absurd rfl (hmain again staip)
  | transmit => exact absurd rfl htransmit
  | led =>
      obtain ⟨flag, cnt, led, hled⟩ := ledStep_frame s
      rw [hled]
  | key | phone | screen | tick => rfl

/-- What a step does to the ring is a run of the line. -/
theorem FineSteps.line {f f' : Fine} {e : Event} (hs : FineSteps f e f')
    (put sent : List UInt8) :
    ∃ as put' sent', exec lineStep ⟨f.sys.tx, f.put, put, sent⟩ as =
      some ⟨f'.sys.tx, f'.put, put', sent'⟩ := by
  cases hs with
  | @call p _ _ _ hput =>
      refine ⟨[.call (p.num f.sys.g)], put, sent, (exec_cons [] ?_).trans rfl⟩
      rw [hput]
      rfl
  | @round p i dataNum _ _ _ hput hi =>
      let x := f.sys.g.wifiDataToSend.rd i.toNat
      refine ⟨[.go x], put ++ [x], sent, (exec_cons [] ?_).trans rfl⟩
      simp only [lineStep, hput, if_pos hi]
      rfl
  | ret _ _ _ hput hi htx =>
      refine ⟨[.go 0], put, sent, (exec_cons [] ?_).trans rfl⟩
      simp only [lineStep, hput, if_neg hi, htx]
  | main again staip hpc =>
      refine ⟨[], put, sent, ?_⟩
      rw [mainStep_tx hpc]
      rfl
  | @other _ s' hmain hs =>
      by_cases he : e = .transmit
      · subst he
        simp only [step] at hs
        split_ifs at hs with hready
        obtain rfl := Option.some.inj hs
        refine ⟨[.transmit], put, sent ++ [(f.sys.tx.transmit true).dr], (exec_cons [] ?_).trans rfl⟩
        simp only [lineStep, hready.2, if_true]
      · refine ⟨[], put, sent, ?_⟩
        rw [step_tx (steps_of_step hs) hmain he]
        rfl

/-- **The ring of the board is the line**: what happens to it in a run is a run
of the line. -/
theorem fine_line {f : Fine} {as : List Event} (hr : exec fineStep Fine.powerOn as = some f) :
    ∃ bs put sent, exec lineStep Line.powerOn bs = some ⟨f.sys.tx, f.put, put, sent⟩ := by
  have hreach : Reachable fineStep Fine.powerOn f := ⟨as, hr⟩
  refine hreach.invariant (I := fun f => ∃ bs put sent,
    exec lineStep Line.powerOn bs = some ⟨f.sys.tx, f.put, put, sent⟩) ⟨[], [], [], rfl⟩ ?_
  rintro f e f' ⟨bs, put, sent, hbs⟩ hs
  obtain ⟨as, put', sent', has⟩ := (fineSteps_of_fineStep hs).line put sent
  exact ⟨bs ++ as, put', sent', exec_append.mpr ⟨_, hbs, has⟩⟩

end DolphinNote
