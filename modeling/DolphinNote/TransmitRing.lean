/-
DolphinNote/TransmitRing.lean

The transmit ring of the WiFi port, with interrupts between any two rounds of
the loop of `Uart2_Put_Buf`.

`Line` is the ring, the place where a call of `Uart2_Put_Buf` stands, and what
has been put and sent so far.  The two counters of the ring are bytes that run
freely, and neither end checks how much there is: a byte is lost when a 257th
is put before it is sent, and the interrupt that is enabled over an empty ring
sends 256 old bytes.  Without these two, what is sent is what has been put
(`sent_of_safe`).
-/
import DolphinNote.Circular
import DolphinNote.Transition
import DolphinNote.Usart2

namespace DolphinNote

open Transition Circular

/-- Where `Uart2_Put_Buf` stands: outside, or before round `i` of its loop. -/
inductive PutPc
  | out
  | copy (i dataNum : UInt8)
  deriving DecidableEq, Repr

/-- The ring, and the two ends of the line: the bytes put, and the bytes
written to the data register. -/
structure Line where
  tx : WifiTx
  pc : PutPc
  put : List UInt8
  sent : List UInt8
  deriving DecidableEq

/-- The line at power-on. -/
def Line.powerOn : Line where
  tx := .powerOn
  pc := .out
  put := []
  sent := []

/-- What can happen: `Uart2_Put_Buf` is called, or goes on (`x` is the byte its
buffer holds at the moment), or the transmit interrupt is taken. -/
inductive LineEvent
  | call (dataNum : UInt8)
  | go (x : UInt8)
  | transmit
  deriving DecidableEq, Repr

/-- One step. -/
def lineStep (l : Line) : LineEvent → Option Line
  | .call dataNum => if l.pc = .out then some { l with pc := .copy 0 dataNum } else none
  | .go x =>
      match l.pc with
      | .out => none
      | .copy i dataNum =>
          if i < dataNum then
            some { l with tx := l.tx.push x, pc := .copy (i + 1) dataNum, put := l.put ++ [x] }
          else some { l with tx := if l.tx.txeie then l.tx else { l.tx with txeie := true }, pc := .out }
  | .transmit =>
      if l.tx.txeie then
        some { l with tx := l.tx.transmit true, sent := l.sent ++ [(l.tx.transmit true).dr] }
      else none

/-! ### A call without interrupts -/

/-- The rounds of the loop. -/
theorem exec_rounds {n : ℕ} (dataToSend : Buffer n) (dataNum : UInt8) (t : WifiTx)
    (put sent : List UInt8) {k : ℕ} (hk : k ≤ dataNum.toNat) :
    exec lineStep ⟨t, .copy 0 dataNum, put, sent⟩
        ((List.range k).map fun i => .go (dataToSend.rd i)) =
      some ⟨(List.range k).foldl (fun t i => t.push (dataToSend.rd i)) t,
        .copy (UInt8.ofNat k) dataNum, put ++ dataToSend.bytes k, sent⟩ := by
  induction k with
  | zero => simp [Buffer.bytes]
  | succ k ih =>
      rw [List.range_succ, List.map_append, exec_append]
      refine ⟨_, ih (by omega), ?_⟩
      have hlt : UInt8.ofNat k < dataNum := by
        rw [UInt8.lt_iff_toNat_lt, UInt8.toNat_ofNat']
        have := dataNum.toNat_lt
        omega
      have hi : UInt8.ofNat k + 1 = UInt8.ofNat (k + 1) := (UInt8.ofNat_add k 1).symm
      rw [List.foldl_append, Buffer.bytes_succ, ← List.append_assoc, ← hi]
      exact (exec_cons [] (by rw [lineStep]; exact if_pos hlt)).trans rfl

/-- A call of `Uart2_Put_Buf` that is not interrupted does what `uart2PutBuf`
says. -/
theorem exec_uart2PutBuf {n : ℕ} (dataToSend : Buffer n) (dataNum : UInt8) (t : WifiTx)
    (put sent : List UInt8) :
    exec lineStep ⟨t, .out, put, sent⟩
        (.call dataNum :: ((List.range dataNum.toNat).map fun i => .go (dataToSend.rd i)) ++ [.go 0]) =
      some ⟨uart2PutBuf t dataToSend dataNum, .out, put ++ dataToSend.bytes dataNum.toNat, sent⟩ := by
  have hcall : lineStep ⟨t, .out, put, sent⟩ (.call dataNum) =
      some ⟨t, .copy 0 dataNum, put, sent⟩ := rfl
  rw [List.cons_append, exec_cons _ hcall, exec_append]
  refine ⟨_, exec_rounds dataToSend dataNum t put sent le_rfl, ?_⟩
  have hend : ¬ UInt8.ofNat dataNum.toNat < dataNum := by simp
  simp [exec, lineStep, uart2PutBuf]

/-! ### The law of the ring -/

/-- What is sent is the beginning of what has been put, and the transmission
stops with nothing left. -/
def LineOk (l : Line) : Prop :=
  l.sent <+: l.put ∧ (l.tx.txeie = false → l.pc = .out → l.sent = l.put)

/-- `Uart2_Put_Buf` goes on safely: it puts a byte only while fewer than 256 wait
to be sent, and enables the interrupt only if one does. -/
def GoSafe (l : Line) : PutPc → Prop
  | .out => True
  | .copy i dataNum =>
      if i < dataNum then l.put.length < l.sent.length + 256
      else l.tx.txeie = false → l.sent.length < l.put.length

/-- The step is safe. -/
def LineSafe (l : Line) : LineEvent → Prop
  | .go _ => GoSafe l l.pc
  | _ => True

instance (l : Line) : Decidable (LineOk l) := by
  unfold LineOk; infer_instance

instance (l : Line) : (pc : PutPc) → Decidable (GoSafe l pc)
  | .out => inferInstanceAs (Decidable True)
  | .copy i dataNum => inferInstanceAs <| Decidable
      (if i < dataNum then l.put.length < l.sent.length + 256
        else l.tx.txeie = false → l.sent.length < l.put.length)

instance (l : Line) : (e : LineEvent) → Decidable (LineSafe l e)
  | .go _ => inferInstanceAs (Decidable (GoSafe l l.pc))
  | .call _ | .transmit => inferInstanceAs (Decidable True)

/-- The ring holds what has been put and not been sent. -/
structure Line.Inv (l : Line) : Prop where
  holds : Holds 256 l.tx.wifiTxBuffer.rd l.put l.sent.length
  sent : l.sent <+: l.put
  count : l.tx.count2.toNat = l.put.length % 256
  txCounter : l.tx.txCounter2.toNat = l.sent.length % 256
  enabled : l.tx.txeie = true → l.sent.length < l.put.length
  stopped : l.tx.txeie = false → l.pc = .out → l.sent.length = l.put.length

theorem Line.inv_powerOn : Line.powerOn.Inv where
  holds := Holds.empty _ []
  sent := List.prefix_rfl
  count := rfl
  txCounter := rfl
  enabled := nofun
  stopped _ _ := rfl

theorem Line.Inv.ok {l : Line} (h : l.Inv) : LineOk l :=
  ⟨h.sent, fun hoff hout => h.sent.eq_of_length (h.stopped hoff hout)⟩

/-- The counters run on modulo 256. -/
theorem toNat_succ_mod {c : UInt8} {n : ℕ} (h : c.toNat = n % 256) :
    (c + 1).toNat = (n + 1) % 256 := by
  rw [UInt8.toNat_add, h]
  simp

/-- A round of the loop. -/
theorem Line.Inv.push {l : Line} (h : l.Inv) (x : UInt8) (i dataNum : UInt8)
    (hroom : l.put.length < l.sent.length + 256) :
    Line.Inv { l with tx := l.tx.push x, pc := .copy i dataNum, put := l.put ++ [x] } where
  holds := by
    refine h.holds.push hroom ?_ fun c hc => ?_
    · simp [WifiTx.push, h.count]
    · rw [WifiTx.push, Buffer.rd_wr_of_ne]
      rw [h.count]
      exact Ne.symm hc
  sent := h.sent.trans (List.prefix_append _ _)
  count := by
    rw [List.length_append]
    exact toNat_succ_mod h.count
  txCounter := h.txCounter
  enabled hon := by
    rw [List.length_append]
    exact Nat.lt_of_lt_of_le (h.enabled hon) (Nat.le_add_right _ _)
  stopped _ hout := nomatch hout

/-- The byte the interrupt sends is the next one. -/
theorem Line.Inv.dr {l : Line} (h : l.Inv) (hon : l.tx.txeie = true) :
    l.sent ++ [(l.tx.transmit true).dr] = l.put.take (l.sent.length + 1) := by
  have hlt := h.enabled hon
  have hsent : l.sent = l.put.take l.sent.length := List.prefix_iff_eq_take.mp h.sent
  have hdr : (l.tx.transmit true).dr = l.put[l.sent.length] := by
    rw [← h.holds.entry _ hlt le_rfl, ← h.txCounter]
    simp [WifiTx.transmit, hon]
  rw [hdr, List.take_add_one, List.getElem?_eq_getElem hlt, ← hsent]
  rfl

/-- It stops behind the last one. -/
theorem Line.Inv.txeie_transmit {l : Line} (h : l.Inv) (hon : l.tx.txeie = true) :
    (l.tx.transmit true).txeie = true ↔ l.sent.length + 1 < l.put.length := by
  have hlt := h.enabled hon
  have hfit := h.holds.fits
  have hnext := toNat_succ_mod h.txCounter
  have hcount := h.count
  have heq : l.tx.txCounter2 + 1 = l.tx.count2 ↔ l.sent.length + 1 = l.put.length := by
    rw [← UInt8.toNat_inj, hnext, hcount]
    omega
  simp only [WifiTx.transmit, hon, Bool.and_self, if_true]
  split_ifs with hc
  · exact iff_of_false nofun (by have := heq.mp hc; omega)
  · exact iff_of_true rfl (by have := mt heq.mpr hc; omega)

/-- The transmit interrupt. -/
theorem Line.Inv.transmit {l : Line} (h : l.Inv) (hon : l.tx.txeie = true) :
    Line.Inv { l with tx := l.tx.transmit true, sent := l.sent ++ [(l.tx.transmit true).dr] } where
  holds := by
    have hring : (l.tx.transmit true).wifiTxBuffer = l.tx.wifiTxBuffer := by
      simp [WifiTx.transmit, hon]
    rw [hring, List.length_append]
    exact h.holds.advance (h.enabled hon)
  sent := by
    rw [h.dr hon]
    exact List.take_prefix _ _
  count := by simpa [WifiTx.transmit, hon] using h.count
  txCounter := by
    rw [List.length_append]
    simpa [WifiTx.transmit, hon] using toNat_succ_mod h.txCounter
  enabled hon' := by
    rw [List.length_append]
    exact (h.txeie_transmit hon).mp hon'
  stopped hoff _ := by
    have hlast : ¬ l.sent.length + 1 < l.put.length := by
      rw [← h.txeie_transmit hon, Bool.not_eq_true]
      exact hoff
    have hlt := h.enabled hon
    rw [List.length_append]
    exact le_antisymm hlt (Nat.not_lt.mp hlast)

theorem Line.Inv.step {l l' : Line} {e : LineEvent} (h : l.Inv) (hsafe : LineSafe l e)
    (hs : lineStep l e = some l') : l'.Inv := by
  cases e with
  | call dataNum =>
      simp only [lineStep] at hs
      split_ifs at hs with hout
      obtain rfl := Option.some.inj hs
      exact { h with stopped := fun _ hout' => nomatch hout' }
  | transmit =>
      simp only [lineStep] at hs
      split_ifs at hs with hon
      obtain rfl := Option.some.inj hs
      exact h.transmit hon
  | go x =>
      cases hpc : l.pc with
      | out => simp [lineStep, hpc] at hs
      | copy i dataNum =>
          simp only [lineStep, hpc] at hs
          simp only [LineSafe, GoSafe, hpc] at hsafe
          by_cases hi : i < dataNum
          · rw [if_pos hi] at hs hsafe
            obtain rfl := Option.some.inj hs
            exact h.push x _ _ hsafe
          · -- the loop is over: the interrupt is enabled
            rw [if_neg hi] at hs hsafe
            obtain rfl := Option.some.inj hs
            by_cases hon : l.tx.txeie = true
            · rw [if_pos hon]
              exact { h with stopped := fun hoff _ => absurd (hon.symm.trans hoff) nofun }
            · rw [if_neg hon]
              exact { h with
                enabled := fun _ => hsafe (by simpa using hon)
                stopped := fun hoff _ => nomatch hoff }

/-- **What is sent is what has been put**, in every run in which no byte is put
while 256 wait and the interrupt is not enabled over an empty ring. -/
theorem sent_of_safe (as : List LineEvent)
    (hsafe : Along lineStep (fun l e _ => LineSafe l e) Line.powerOn as) :
    Along lineStep (fun _ _ l' => LineOk l') Line.powerOn as :=
  hsafe.mono Line.inv_powerOn fun _ _ _ hi hc hs =>
    have hi' := hi.step hc hs
    ⟨hi', hi'.ok⟩

/-- Two bytes; the first is sent while the second is being put. -/
theorem sent_of_safe_two :
    Along lineStep (fun _ _ l' => LineOk l') Line.powerOn
      [.call 1, .go 0xFA, .go 0, .call 1, .transmit, .go 0x0A, .go 0, .transmit] :=
  sent_of_safe _ (by decide)

/-- A call with nothing to put enables the interrupt over the empty ring, which
then sends an old byte. -/
theorem sent_of_nothing :
    ¬ Along lineStep (fun _ _ l' => LineOk l') Line.powerOn [.call 0, .go 0, .transmit] := by
  decide

end DolphinNote
