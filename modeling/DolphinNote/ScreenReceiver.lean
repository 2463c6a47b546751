/-
DolphinNote/ScreenReceiver.lean

The receive machine of `USART1_IRQHandler` is the screen framer on a buffer of
51 cells, and every frame it completes goes through the pen pipeline inside
its bounds.

As for the phone receiver, `ScreenReceives u p` relates the statics of the
handler to the partial frame `p`; one activation keeps the relation
(`screen_implements`).  `ScreenLog` is what every activation does to memory.
-/
import DolphinNote.Protocol
import DolphinNote.ScreenFrames
import DolphinNote.Usart1

namespace DolphinNote

open Traced

/-! ### The relation -/

/-- State and counters after the partial frame `p`. -/
inductive ScreenCounters (u : Usart1) (p : List UInt8) : Prop
  | idle : p.length = 0 → u.rxState = 0 → ScreenCounters u p
  | length : p.length = 1 → u.rxState = 1 → ScreenCounters u p
  | payload : p.length = 2 + u.dataCount.toNat → u.rxState = 2 →
      u.dataCount.toNat + u.dataLen.toNat = (p.getD 1 0).toNat →
      (u.dataLen = 0 → p.getD 1 0 = 0) → ScreenCounters u p

/-- The statics hold the partial frame `p`; nothing is being transmitted, as
`Uart1_Put_Buf` is never called. -/
structure ScreenReceives (u : Usart1) (p : List UInt8) : Prop where
  pre : ScreenPrefix p
  bytes : u.screenRxBuffer.bytes p.length = p
  counters : ScreenCounters u p
  errCnt : u.errCnt = 0
  txeie : u.txeie = false

/-- The frame a dispatcher call was made on: the first `num` bytes. -/
def analizedFrame : Effect → Option (List UInt8)
  | .screenDataAnalize dataBuf num => some (dataBuf.bytes num.toNat)
  | _ => none

/-- What one activation does to memory: the receive buffer is written up to
index 50, and a dispatched frame stays inside its footprint. -/
structure ScreenLog (l : List Effect) : Prop where
  rx : ∀ i, .wr .screenRxBuffer i ∈ l → i ≤ 50
  call : ∀ dataBuf num, .screenDataAnalize dataBuf num ∈ l → ScreenFrame dataBuf num ∧
    (∀ i, .rd .dataBuf i ∈ l → i < num.toNat) ∧
    (∀ i, .rd .penData i ∈ l ∨ .wr .penData i ∈ l → i < penBound (dataBuf.rd 2)) ∧
    ∀ i, .wr .wifiDataToSend i ∈ l → i ≤ 56

theorem ScreenLog.nil : ScreenLog [] := ⟨by simp, by simp⟩

theorem ScreenLog.stored {i : ℕ} (h : i ≤ 50) : ScreenLog [.wr .screenRxBuffer i] := by
  refine ⟨fun j hj => ?_, fun dataBuf num hmem => by simp at hmem⟩
  obtain rfl : j = i := by simpa using hj
  exact h

/-- The log of an activation that completes a frame. -/
theorem ScreenLog.dispatched {i : ℕ} {dataBuf : Buffer 255} {num : UInt8} {l : List Effect}
    (h : i ≤ 50) (hframe : ScreenFrame dataBuf num)
    (hl : ∀ e ∈ l, Footprint num.toNat (dataBuf.rd 2) e) :
    ScreenLog (.wr .screenRxBuffer i :: .screenDataAnalize dataBuf num :: l) := by
  refine ⟨fun j hj => ?_, fun dataBuf' num' hmem => ?_⟩
  · simp only [List.mem_cons, Effect.wr.injEq, true_and, reduceCtorEq, false_or] at hj
    rcases hj with rfl | hj
    · exact h
    · exact absurd (hl _ hj) (by simp [Footprint])
  · simp only [List.mem_cons, Effect.screenDataAnalize.injEq, reduceCtorEq, false_or] at hmem
    obtain ⟨rfl, rfl⟩ : dataBuf' = dataBuf ∧ num' = num := by
      rcases hmem with h | hmem
      · exact h
      · exact absurd (hl _ hmem) (by simp [Footprint])
    refine ⟨hframe, fun j hj => ?_, fun j hj => ?_, fun j hj => ?_⟩
    · exact hl (.rd .dataBuf j) (by simpa using hj)
    · rcases hj with hj | hj
      · exact hl (.rd .penData j) (by simpa using hj)
      · exact hl (.wr .penData j) (by simpa using hj)
    · exact hl (.wr .wifiDataToSend j) (by simpa using hj)

/-! ### One byte -/

/-- What one received byte leads to, `r` being what the framer makes of it. -/
structure ScreenStep (g : Globals) (u' : Usart1) (g' : Globals) (l : List Effect)
    (r : List UInt8 × List (List UInt8)) : Prop where
  state : ScreenReceives u' r.1
  frames : l.filterMap analizedFrame = r.2
  log : ScreenLog l
  globals : g' = g ∨ ∃ dataBuf num k, ScreenFrame dataBuf num ∧
    screenDataAnalize g dataBuf num = Except.ok (g', k)

/-- The handler does with the byte what the framer does, inside its bounds. -/
def ScreenFollows (u : Usart1) (g : Globals) (p : List UInt8) (b : UInt8) : Prop :=
  ∃ u' g' l, u.receive g b = Except.ok ((u', g'), l) ∧
    ScreenStep g u' g' l (screenFramer.step p b)

variable {u : Usart1} {g : Globals} {p : List UInt8} {b : UInt8}

/-- A byte that is kept: it is stored behind the partial frame. -/
theorem screen_receive_keep (hr : ScreenReceives u p) (hv : screenFramer.verdict p b = .keep)
    {f : Buffer 255 → Usart1}
    (hrec : ∀ rx, store .screenRxBuffer u.screenRxBuffer p.length b
        = Except.ok (rx, [.wr .screenRxBuffer p.length]) →
      u.receive g b = Except.ok ((f rx, g), [.wr .screenRxBuffer p.length]))
    (hf : ∀ rx, (f rx).screenRxBuffer = rx ∧ (f rx).errCnt = u.errCnt ∧ (f rx).txeie = u.txeie)
    (hcount : ∀ rx, ScreenCounters (f rx) (p ++ [b])) :
    ScreenFollows u g p b := by
  have hlen := hr.pre.length_le
  have hlt : p.length < 255 := by omega
  set rx := u.screenRxBuffer.wr p.length b hlt with hrx
  refine ⟨f rx, g, _, hrec rx (store_of_lt hlt), ?_⟩
  rw [Framer.step_keep hv]
  refine ⟨⟨hr.pre.concat hv, ?_, hcount rx, ?_, ?_⟩, rfl, .stored hlen, .inl rfl⟩
  · rw [(hf rx).1, hrx, List.length_append, List.length_singleton, Buffer.bytes_succ_wr, hr.bytes]
  · rw [(hf rx).2.1, hr.errCnt]
  · rw [(hf rx).2.2, hr.txeie]

/-- A byte that is skipped: nothing happens. -/
theorem screen_receive_skip (hr : ScreenReceives u p) (hv : screenFramer.verdict p b = .skip)
    (hrec : u.receive g b = Except.ok ((u, g), [])) :
    ScreenFollows u g p b := by
  refine ⟨u, g, [], hrec, ?_⟩
  rw [Framer.step_skip hv]
  exact ⟨hr, rfl, .nil, .inl rfl⟩

/-- The byte that completes a frame: the frame goes through the pen pipeline. -/
theorem screen_receive_emit (hr : ScreenReceives u p) (hst : u.rxState = 2)
    (hlen : p.length = 2 + u.dataCount.toNat) (hone : u.dataLen = 1)
    (hsum : u.dataCount.toNat + (1 : UInt8).toNat = (p.getD 1 0).toNat) :
    ScreenFollows u g p b := by
  rw [UInt8.toNat_one] at hsum
  have hle := hr.pre.length_le
  have hlt : p.length < 255 := by omega
  have hz : p.getD 1 0 ≠ 0 := fun h => by
    rw [h, UInt8.toNat_zero] at hsum
    omega
  have hdc : (u.dataCount + 1).toNat = u.dataCount.toNat + 1 := by
    rw [UInt8.toNat_add, UInt8.toNat_one]
    omega
  -- the buffer holds the frame
  set rx := u.screenRxBuffer.wr p.length b hlt with hrx
  set num := UInt8.ofNat ((u.dataCount + 1).toNat + 2) with hnum
  have hbytes : rx.bytes (p.length + 1) = p ++ [b] := by
    rw [hrx, Buffer.bytes_succ_wr, hr.bytes]
  have hnum' : num.toNat = p.length + 1 := by
    rw [hnum, hdc, UInt8.toNat_ofNat']
    omega
  have hread {i : ℕ} (hi : i < p.length) : rx.rd i = p.getD i 0 := by
    rw [← Buffer.getD_bytes rx (k := p.length + 1) (by omega), hbytes, getD_concat_of_lt hi]
  have hframe : ScreenFrame rx num := by
    have hlen1 := UInt8.lt_iff_toNat_lt.mp (hr.pre.len (by omega))
    refine ⟨?_, ?_, ?_, ?_⟩
    · rw [hread (by omega), hr.pre.head (by omega)]
    · rw [hread (by omega)]
      omega
    · rwa [hread (by omega)]
    · rw [hread (by omega), hnum']
      omega
  obtain ⟨g', k, hcall, hfoot, -⟩ := screenDataAnalize_spec (g := g) hframe
  refine ⟨{ u with dataLen := u.dataLen - 1, dataCount := u.dataCount + 1, screenRxBuffer := rx,
                   rxState := 0 }, g',
    .wr .screenRxBuffer p.length :: .screenDataAnalize rx num :: k, ?_, ?_⟩
  · have h01 : (0 : UInt8) < 1 := by decide
    have h11 : (1 : UInt8) - 1 = 0 := rfl
    simp only [Usart1.receive, hst, hone, if_pos h01, if_pos h11]
    rw [← hlen, bind_ok (store_of_lt hlt)]
    simp only [← hrx, ← hnum]
    rw [bind_ok (show emit _ _ = Except.ok ((), [_]) from rfl), bind_ok hcall]
    simp only [pure_eq, List.append_nil]
    rfl
  · rw [Framer.step_emit (by
      rw [screen_verdict_payload b (by omega), if_neg hz, if_pos (by omega)])]
    refine ⟨⟨⟨by simp, by simp, by simp⟩, rfl, .idle rfl rfl, hr.errCnt, hr.txeie⟩, ?_,
      .dispatched hle hframe hfoot, .inr ⟨rx, num, k, hframe, hcall⟩⟩
    have hrest : k.filterMap analizedFrame = [] := by
      refine List.filterMap_eq_nil_iff.mpr fun e he => ?_
      cases e with
      | screenDataAnalize => exact absurd (hfoot _ he) (by simp [Footprint])
      | rd | wr | wifiDataDeal => rfl
    simp only [List.filterMap_cons, analizedFrame, hnum', hbytes, hrest]

/-- A payload byte with more to come. -/
theorem screen_receive_more (hr : ScreenReceives u p) (hst : u.rxState = 2)
    (hlen : p.length = 2 + u.dataCount.toNat) (hpos : 0 < u.dataLen) (hone : u.dataLen ≠ 1)
    (hsum : u.dataCount.toNat + u.dataLen.toNat = (p.getD 1 0).toNat) :
    ScreenFollows u g p b := by
  have hpos' : 0 < u.dataLen.toNat := UInt8.lt_iff_toNat_lt.mp hpos
  have hone' : u.dataLen.toNat ≠ 1 := fun h => hone (UInt8.toNat_inj.mp h)
  have hle := hr.pre.length_le
  have hz : p.getD 1 0 ≠ 0 := fun h => by
    rw [h, UInt8.toNat_zero] at hsum
    omega
  have hlast : u.dataLen - 1 ≠ 0 := fun h => hone (sub_eq_zero.mp h)
  have hle1 : (1 : UInt8) ≤ u.dataLen := UInt8.le_iff_toNat_le.mpr hpos'
  have hdl : (u.dataLen - 1).toNat = u.dataLen.toNat - 1 := by
    rw [UInt8.toNat_sub_of_le _ _ hle1, UInt8.toNat_one]
  have hdc : (u.dataCount + 1).toNat = u.dataCount.toNat + 1 := by
    rw [UInt8.toNat_add, UInt8.toNat_one]
    omega
  have hp1 : (p ++ [b]).getD 1 0 = p.getD 1 0 := getD_concat_of_lt (by omega)
  refine screen_receive_keep hr
    (by rw [screen_verdict_payload b (by omega), if_neg hz, if_neg (by omega)])
    (f := fun rx => { u with dataLen := u.dataLen - 1, dataCount := u.dataCount + 1,
                             screenRxBuffer := rx })
    (fun rx hrx => ?_) (fun rx => ⟨rfl, rfl, rfl⟩)
    fun rx => .payload ?_ hst ?_ fun h => absurd h hlast
  · rw [hlen] at hrx ⊢
    simp only [Usart1.receive, hst, if_pos hpos, if_neg hlast]
    rw [bind_ok hrx]
    rfl
  · show (p ++ [b]).length = 2 + (u.dataCount + 1).toNat
    rw [hdc, List.length_append, List.length_singleton]
    omega
  · show (u.dataCount + 1).toNat + (u.dataLen - 1).toNat = ((p ++ [b]).getD 1 0).toNat
    rw [hdc, hdl, hp1]
    omega

/-- **One received byte.**  The handler does what the framer does, and stays
inside its bounds. -/
theorem screen_receive_step (hr : ScreenReceives u p) :
    ScreenFollows u g p b := by
  cases hr.counters with
  | idle hlen hst =>
      by_cases hb : b = 0x68
      · refine screen_receive_keep hr (by rw [screen_verdict_zero b hlen, if_pos hb])
          (f := fun rx => { u with rxState := 1, screenRxBuffer := rx }) (fun rx hrx => ?_)
          (fun rx => ⟨rfl, rfl, rfl⟩) fun rx => .length (by simp [hlen]) rfl
        rw [hlen] at hrx ⊢
        simp only [Usart1.receive, hst, if_pos hb]
        rw [bind_ok hrx]
        rfl
      · refine screen_receive_skip hr (by rw [screen_verdict_zero b hlen, if_neg hb]) ?_
        simp only [Usart1.receive, hst, if_neg hb]
        rfl
  | length hlen hst =>
      by_cases hb : b < 50
      · have hb1 : (p ++ [b]).getD 1 0 = b := by rw [← hlen, getD_concat_length]
        refine screen_receive_keep hr (by rw [screen_verdict_one b hlen, if_pos hb])
          (f := fun rx => { u with rxState := 2, screenRxBuffer := rx, dataLen := b, dataCount := 0 })
          (fun rx hrx => ?_) (fun rx => ⟨rfl, rfl, rfl⟩)
          fun rx => .payload (by simp [hlen]) rfl (by rw [hb1]; simp) fun h => by rw [hb1]; exact h
        rw [hlen] at hrx ⊢
        simp only [Usart1.receive, hst, if_pos hb]
        rw [bind_ok hrx]
        rfl
      · refine screen_receive_skip hr (by rw [screen_verdict_one b hlen, if_neg hb]) ?_
        simp only [Usart1.receive, hst, if_neg hb]
        rfl
  | payload hlen hst hsum hzero =>
      by_cases hpos : 0 < u.dataLen
      · by_cases hone : u.dataLen = 1
        · rw [hone] at hsum
          exact screen_receive_emit hr hst hlen hone hsum
        · exact screen_receive_more hr hst hlen hpos hone hsum
      · -- the length was zero: one byte is discarded
        have h0 : u.dataLen = 0 := by simpa using hpos
        refine ⟨{ u with errCnt := 0, rxState := 0 }, g, [], ?_, ?_⟩
        · simp only [Usart1.receive, hst, if_neg hpos, hr.errCnt]
          rfl
        · rw [Framer.step_drop (by rw [screen_verdict_payload b (by omega), if_pos (hzero h0)])]
          exact ⟨⟨⟨by simp, by simp, by simp⟩, rfl, .idle rfl rfl, rfl, hr.txeie⟩, rfl, .nil, .inl rfl⟩

/-! ### The handler -/

/-- The activations `xs` of the handler. -/
abbrev usart1Run (s₀ : Usart1 × Globals) (xs : List Sample) : Exec (Usart1 × Globals) :=
  xs.foldlM usart1IRQHandler s₀

/-- **One activation**, with a byte or without. -/
theorem usart1IRQHandler_step {s : Usart1 × Globals} (hr : ScreenReceives s.1 p) (x : Sample) :
    ∃ s' l, usart1IRQHandler s x = Except.ok (s', l) ∧
      ScreenStep s.2 s'.1 s'.2 l (match x.rx with | some b => screenFramer.step p b | none => (p, [])) := by
  obtain ⟨u, g⟩ := s
  have htxeie : u.txeie = false := hr.txeie
  have htx : u.transmit x.txe = Except.ok (u, []) := by
    simp only [Usart1.transmit, htxeie, Bool.and_false]
    rfl
  unfold usart1IRQHandler
  rw [bind_ok htx]
  rcases x.rx with - | b
  · exact ⟨(u, g), [], rfl, hr, rfl, .nil, .inl rfl⟩
  · obtain ⟨u', g', l, hrec, hstep⟩ := screen_receive_step (g := g) (b := b) hr
    refine ⟨(u', g'), l, ?_, hstep⟩
    simp only [hrec, List.nil_append]
    rfl

/-- **The receiver is the screen framer** on 51 cells. -/
theorem screen_implements :
    screenFramer.Implements 51 usart1IRQHandler Sample.rx analizedFrame
      fun s p => ScreenReceives s.1 p where
  idle := by
    intro s p x hr hx
    obtain ⟨s', l, hs, hstep⟩ := usart1IRQHandler_step hr x
    rw [hx] at hstep
    exact ⟨s', l, hs, hstep.state, hstep.frames⟩
  step := by
    intro s p x b hr hx _
    obtain ⟨s', l, hs, hstep⟩ := usart1IRQHandler_step hr x
    rw [hx] at hstep
    exact ⟨s', l, hs, hstep.state, hstep.frames⟩
  full := by
    intro s p x b hr _ hroom
    exact absurd (fun _ => Nat.lt_succ_of_le hr.pre.length_le) hroom

/-- **The screen receiver is safe.**  From power-on every activation returns:
it writes the receive buffer up to index 50, dispatches only whole screen
frames, reads only inside them, touches at most 48 bytes of `pen_data` (a
hundred for a clearing frame) and writes `wifi_data_to_send` up to index 56. -/
theorem usart1_safe (g : Globals) (xs : List Sample) (x : Sample) :
    ∃ s l s' l', usart1Run (Usart1.powerOn, g) xs = Except.ok (s, l) ∧
      usart1IRQHandler s x = Except.ok (s', l') ∧ ScreenLog l' := by
  have hidle : ScreenReceives Usart1.powerOn [] :=
    ⟨⟨by simp, by simp, by simp⟩, rfl, .idle rfl rfl, rfl, rfl⟩
  obtain ⟨s, l, hrun, hR, -⟩ := screen_implements.run (s := (Usart1.powerOn, g)) hidle
    (screen_fits (xs.filterMap Sample.rx))
  obtain ⟨s', l', hs, hstep⟩ := usart1IRQHandler_step hR x
  exact ⟨s, l, s', l', hrun, hs, hstep.log⟩

/-- A clearing frame writes `pen_data` beyond the 48 bytes of four points. -/
theorem clearing_frame_writes :
    .wr .penData 99 ∈ (usart1Run (Usart1.powerOn, Globals.powerOn)
      (received [0x68, 0x01, 0x60])).events := by
  decide

end DolphinNote
