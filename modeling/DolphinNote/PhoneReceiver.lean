/-
DolphinNote/PhoneReceiver.lean

The receive machine of `USART2_IRQHandler` is the phone framer on a buffer of
50 cells.

`Receives r p` relates the statics of the handler to the partial frame `p`: the
buffer begins with `p`, and `RxState`, `ID_cnt`, `Data_Len` and `Data_Count`
are what the length of `p` makes them.  One activation keeps the relation and
dispatches the frames the framer completes (`phone_implements`); what holds of
whole streams follows from the laws of framers.
-/
import DolphinNote.Protocol
import DolphinNote.Usart2

namespace DolphinNote

open Traced

/-! ### The relation -/

/-- State and counters after the partial frame `p`. -/
inductive Counters (r : WifiRx) (p : List UInt8) : Prop
  | idle : p.length = 0 → r.rxState = 0 → r.idCnt = 0 → Counters r p
  | header : p.length = 1 → r.rxState = 1 → r.idCnt = 0 → Counters r p
  | code : p.length = 2 → r.rxState = 2 → r.idCnt = 0 → Counters r p
  | id : p.length = 3 + r.idCnt → r.rxState = 3 → r.idCnt < 2 → Counters r p
  | length : p.length = 5 + r.idCnt → r.rxState = 4 → r.idCnt < 2 → Counters r p
  | payload : p.length = 7 + r.dataCount → r.rxState = 5 → r.idCnt = 0 → 0 < r.dataLen →
      r.dataCount + r.dataLen = announced p → Counters r p
  | checksum : p.length = 7 + r.dataCount → r.rxState = 6 → r.idCnt = 0 →
      r.dataCount = announced p → Counters r p
  | trailer : p.length = 7 + r.dataCount → r.rxState = 7 → r.idCnt = 0 →
      r.dataCount = announced p + 1 → Counters r p

/-- The statics hold the partial frame `p`. -/
structure Receives (r : WifiRx) (p : List UInt8) : Prop where
  bytes : r.wifiRxBuffer.bytes p.length = p
  counters : Counters r p

/-- The frame a dispatcher call was made on: the first `num` bytes. -/
def dealtFrame : Effect → Option (List UInt8)
  | .wifiDataDeal dataBuf num => some (dataBuf.bytes num.toNat)
  | _ => none

theorem Receives.idle {r : WifiRx} (h0 : r.rxState = 0) (h1 : r.idCnt = 0) : Receives r [] :=
  ⟨rfl, .idle rfl h0 h1⟩

theorem shiftLeft_or (hi lo : UInt8) :
    hi.toNat <<< 8 ||| lo.toNat = lo.toNat + 256 * hi.toNat := by
  rw [← Nat.shiftLeft_add_eq_or_of_lt lo.toNat_lt, Nat.shiftLeft_eq]
  omega

/-! ### One byte -/

variable {r : WifiRx} {g : Globals} {p : List UInt8} {b : UInt8}

theorem bytes_concat (hbytes : r.wifiRxBuffer.bytes p.length = p) (h : p.length < 50) :
    (r.wifiRxBuffer.wr p.length b h).bytes (p.length + 1) = p ++ [b] := by
  rw [Buffer.bytes_succ_wr, hbytes]

/-- The handler does with the byte what the framer does. -/
def Follows (r : WifiRx) (g : Globals) (p : List UInt8) (b : UInt8) : Prop :=
  ∃ r' g' l, r.receive g b = Except.ok ((r', g'), l) ∧
    Receives r' (phoneFramer.step p b).1 ∧ l.filterMap dealtFrame = (phoneFramer.step p b).2

/-- A byte that is kept: it is stored behind the partial frame. -/
theorem receive_keep (hr : Receives r p) (h : p.length < 50)
    (hv : phoneFramer.verdict p b = .keep) {f : Buffer 50 → WifiRx}
    (hrec : r.receive g b = store .wifiRxBuffer r.wifiRxBuffer p.length b >>= fun rx => pure (f rx, g))
    (hbuf : ∀ rx, (f rx).wifiRxBuffer = rx)
    (hcount : Counters (f (r.wifiRxBuffer.wr p.length b h)) (p ++ [b])) :
    Follows r g p b := by
  refine ⟨f (r.wifiRxBuffer.wr p.length b h), g, [.wr .wifiRxBuffer p.length], ?_, ?_, ?_⟩
  · rw [hrec, bind_ok (store_of_lt h)]
    rfl
  · rw [Framer.step_keep hv]
    refine ⟨?_, hcount⟩
    rw [hbuf, List.length_append, List.length_singleton, bytes_concat hr.bytes h]
  · rw [Framer.step_keep hv]
    rfl

/-- A byte that is skipped: nothing happens. -/
theorem receive_skip (hr : Receives r p) (hv : phoneFramer.verdict p b = .skip)
    (hrec : r.receive g b = pure (r, g)) :
    Follows r g p b := by
  refine ⟨r, g, [], hrec, ?_, ?_⟩
  · rw [Framer.step_skip hv]
    exact hr
  · rw [Framer.step_skip hv]
    rfl

/-- A byte of the length field. -/
theorem receive_length (hr : Receives r p) (hlen : p.length = 5 + r.idCnt) (hst : r.rxState = 4)
    (hid : r.idCnt < 2) : Follows r g p b := by
  have hv : phoneFramer.verdict p b = .keep := phone_keep_iff.mpr (.inr (.inr (by omega)))
  by_cases hlast : 1 < r.idCnt + 1
  · -- the second length byte: the length is read back from the buffer
    have h6 : p.length = 6 := by omega
    refine receive_keep hr (by omega) hv
      (f := fun rx =>
        { r with idCnt := 0, dataLen := (rx.rd 6).toNat <<< 8 ||| (rx.rd 5).toNat,
                 dataCount := 0,
                 rxState := if (rx.rd 6).toNat <<< 8 ||| (rx.rd 5).toNat = 0 then 6 else 5,
                 wifiRxBuffer := rx }) ?_ (fun _ => rfl) ?_
    · simp only [WifiRx.receive, hst, hlen, if_pos hlast]
    · have h50 : p.length < 50 := by omega
      have ha := announced_bytes (r.wifiRxBuffer.wr p.length b h50) (k := p.length + 1) (by omega)
      rw [bytes_concat hr.bytes h50] at ha
      have hl : (p ++ [b]).length = 7 + 0 := by simp [h6]
      simp only [shiftLeft_or, ← ha]
      by_cases h0 : announced (p ++ [b]) = 0
      · exact .checksum hl (if_pos h0) rfl h0.symm
      · exact .payload hl (if_neg h0) rfl (Nat.pos_of_ne_zero h0) (Nat.zero_add _)
  · refine receive_keep hr (by omega) hv
      (f := fun rx => { r with idCnt := r.idCnt + 1, wifiRxBuffer := rx }) ?_ (fun _ => rfl) ?_
    · simp only [WifiRx.receive, hst, hlen, if_neg hlast]
    · exact .length (by simp; omega) hst (by simp; omega)

/-- A payload byte. -/
theorem receive_payload (hr : Receives r p) (hroom : phoneFramer.Room 50 p b)
    (hlen : p.length = 7 + r.dataCount) (hst : r.rxState = 5) (hid : r.idCnt = 0)
    (hpos : 0 < r.dataLen) (hsum : r.dataCount + r.dataLen = announced p) : Follows r g p b := by
  have hv : phoneFramer.verdict p b = .keep := phone_keep_iff.mpr (.inr (.inr (by omega)))
  have ha : announced (p ++ [b]) = announced p := announced_append (by omega)
  have hl : (p ++ [b]).length = 7 + (r.dataCount + 1) := by simp [hlen]; omega
  refine receive_keep hr (hroom (.inl hv)) hv
    (f := fun rx =>
      { r with dataLen := r.dataLen - 1, dataCount := r.dataCount + 1,
               rxState := if r.dataLen - 1 = 0 then 6 else 5, wifiRxBuffer := rx })
    ?_ (fun _ => rfl) ?_
  · simp only [WifiRx.receive, hst, hlen, if_pos hpos]
  · by_cases h0 : r.dataLen - 1 = 0
    · have hc : r.dataCount + 1 = announced (p ++ [b]) := by omega
      exact .checksum hl (if_pos h0) hid hc
    · have hc : r.dataCount + 1 + (r.dataLen - 1) = announced (p ++ [b]) := by omega
      exact .payload hl (if_neg h0) hid (Nat.pos_of_ne_zero h0) hc

/-- The trailer: the frame goes to the dispatcher. -/
theorem receive_trailer (hr : Receives r p) (hroom : phoneFramer.Room 50 p b)
    (hlen : p.length = 7 + r.dataCount) (hst : r.rxState = 7) (hid : r.idCnt = 0)
    (hcnt : r.dataCount = announced p + 1) : Follows r g p b := by
  have hv : phoneFramer.verdict p b = .emit := phone_emit_iff.mpr (by omega)
  have h50 : p.length < 50 := hroom (.inr hv)
  set rx := r.wifiRxBuffer.wr p.length b h50 with hrx
  refine ⟨{ r with rxState := 0, wifiRxBuffer := rx },
    wifiDataDeal g rx (UInt8.ofNat (8 + r.dataCount)),
    [.wr .wifiRxBuffer p.length, .wifiDataDeal rx (UInt8.ofNat (8 + r.dataCount))], ?_, ?_, ?_⟩
  · simp only [WifiRx.receive, hst, ← hlen]
    rw [bind_ok (store_of_lt h50)]
    rfl
  · rw [Framer.step_emit hv]
    exact .idle rfl hid
  · have hnum : (UInt8.ofNat (8 + r.dataCount)).toNat = p.length + 1 := by
      rw [UInt8.toNat_ofNat']
      omega
    rw [Framer.step_emit hv]
    simp only [List.filterMap_cons, dealtFrame, hnum, List.filterMap_nil]
    rw [hrx, bytes_concat hr.bytes h50]

/-- **One received byte.**  With room for it, the handler does what the framer
does. -/
theorem receive_step (hr : Receives r p) (hroom : phoneFramer.Room 50 p b) :
    Follows r g p b := by
  cases hr.counters with
  | idle hlen hst hid =>
      by_cases hb : b = 0xFA
      · have hv : phoneFramer.verdict p b = .keep := phone_keep_iff.mpr (.inl ⟨hlen, hb⟩)
        refine receive_keep hr (by omega) hv
          (f := fun rx => { r with rxState := 1, wifiRxBuffer := rx }) ?_ (fun _ => rfl) ?_
        · simp only [WifiRx.receive, hst, hlen, if_pos hb]
        · exact .header (by simp [hlen]) rfl hid
      · refine receive_skip hr (phone_skip_iff.mpr (.inl ⟨hlen, hb⟩)) ?_
        simp only [WifiRx.receive, hst, if_neg hb]
  | header hlen hst hid =>
      by_cases hb : b = 0x0A
      · have hv : phoneFramer.verdict p b = .keep := phone_keep_iff.mpr (.inr (.inl ⟨hlen, hb⟩))
        refine receive_keep hr (by omega) hv
          (f := fun rx => { r with rxState := 2, wifiRxBuffer := rx }) ?_ (fun _ => rfl) ?_
        · simp only [WifiRx.receive, hst, hlen, if_pos hb]
        · exact .code (by simp [hlen]) rfl hid
      · refine receive_skip hr (phone_skip_iff.mpr (.inr ⟨hlen, hb⟩)) ?_
        simp only [WifiRx.receive, hst, if_neg hb]
  | code hlen hst hid =>
      have hv : phoneFramer.verdict p b = .keep := phone_keep_iff.mpr (.inr (.inr (by omega)))
      refine receive_keep hr (by omega) hv
        (f := fun rx => { r with rxState := 3, wifiRxBuffer := rx }) ?_ (fun _ => rfl) ?_
      · simp only [WifiRx.receive, hst, hlen]
      · exact .id (by simp [hlen, hid]) rfl (by simp [hid])
  | id hlen hst hid =>
      have hv : phoneFramer.verdict p b = .keep := phone_keep_iff.mpr (.inr (.inr (by omega)))
      by_cases hlast : 1 < r.idCnt + 1
      · refine receive_keep hr (by omega) hv
          (f := fun rx => { r with idCnt := 0, rxState := 4, wifiRxBuffer := rx }) ?_ (fun _ => rfl) ?_
        · simp only [WifiRx.receive, hst, hlen, if_pos hlast]
        · exact .length (by simp; omega) rfl (by simp)
      · refine receive_keep hr (by omega) hv
          (f := fun rx => { r with idCnt := r.idCnt + 1, wifiRxBuffer := rx }) ?_ (fun _ => rfl) ?_
        · simp only [WifiRx.receive, hst, hlen, if_neg hlast]
        · exact .id (by simp; omega) hst (by simp; omega)
  | length hlen hst hid => exact receive_length hr hlen hst hid
  | payload hlen hst hid hpos hsum => exact receive_payload hr hroom hlen hst hid hpos hsum
  | checksum hlen hst hid hcnt =>
      have hv : phoneFramer.verdict p b = .keep := phone_keep_iff.mpr (.inr (.inr (by omega)))
      have ha : announced (p ++ [b]) = announced p := announced_append (by omega)
      refine receive_keep hr (hroom (.inl hv)) hv
        (f := fun rx =>
          { r with dataCount := r.dataCount + 1, rxState := 7, wifiRxBuffer := rx })
        ?_ (fun _ => rfl) ?_
      · simp only [WifiRx.receive, hst, hlen]
      · exact .trailer (by simp [hlen]; omega) rfl hid (by rw [ha, ← hcnt])
  | trailer hlen hst hid hcnt => exact receive_trailer hr hroom hlen hst hid hcnt

/-- A byte without room: the handler writes at index 50 or beyond. -/
theorem receive_full (hr : Receives r p) (hroom : ¬ phoneFramer.Room 50 p b) :
    r.receive g b = Except.error (.outOfBounds .wifiRxBuffer p.length) := by
  have h50 : 50 ≤ p.length := by
    by_contra h
    exact hroom fun _ => by omega
  cases hr.counters with
  | idle hlen | header hlen | code hlen | id hlen | length hlen => omega
  | payload hlen hst hid hpos =>
      simp only [WifiRx.receive, hst, if_pos hpos, ← hlen]
      rw [bind_error (store_of_le h50)]
  | checksum hlen hst hid hcnt =>
      simp only [WifiRx.receive, hst, ← hlen]
      rw [bind_error (store_of_le h50)]
  | trailer hlen hst hid hcnt =>
      simp only [WifiRx.receive, hst, ← hlen]
      rw [bind_error (store_of_le h50)]

/-- The globals change only by a call of the dispatcher on the receive buffer. -/
theorem receive_globals {r' : WifiRx} {g' : Globals} {l : List Effect}
    (h : r.receive g b = Except.ok ((r', g'), l)) :
    g' = g ∨ ∃ dataBuf num, .wifiDataDeal dataBuf num ∈ l ∧ g' = wifiDataDeal g dataBuf num := by
  unfold WifiRx.receive at h
  split at h
  case h_8 =>
    obtain ⟨rx, l₁, l₂, -, h₂, rfl⟩ := bind_eq_ok.mp h
    cases h₂
    exact .inr ⟨rx, _, by simp, rfl⟩
  case h_9 =>
    cases h
    exact .inl rfl
  case h_4 | h_5 =>
    obtain ⟨rx, l₁, l₂, -, h₂, rfl⟩ := bind_eq_ok.mp h
    split_ifs at h₂ <;> cases h₂ <;> exact .inl rfl
  case h_3 | h_7 =>
    obtain ⟨rx, l₁, l₂, -, h₂, rfl⟩ := bind_eq_ok.mp h
    cases h₂
    exact .inl rfl
  case h_6 =>
    by_cases hpos : 0 < r.dataLen
    · rw [if_pos hpos] at h
      obtain ⟨rx, l₁, l₂, -, h₂, rfl⟩ := bind_eq_ok.mp h
      cases h₂
      exact .inl rfl
    · rw [if_neg hpos] at h
      cases h
      exact .inl rfl
  case h_1 | h_2 =>
    split_ifs at h
    · obtain ⟨rx, l₁, l₂, -, h₂, rfl⟩ := bind_eq_ok.mp h
      cases h₂
      exact .inl rfl
    · cases h
      exact .inl rfl

theorem receive_inBounds : Only (r.receive g b) Effect.InBounds := by
  unfold WifiRx.receive
  split
  case h_1 | h_2 =>
    split_ifs
    · exact (only_store rfl).bind fun _ => .pure
    · exact .pure
  case h_3 | h_7 => exact (only_store rfl).bind fun _ => .pure
  case h_4 | h_5 =>
    refine (only_store rfl).bind fun _ => ?_
    split_ifs <;> exact .pure
  case h_6 =>
    by_cases hpos : 0 < r.dataLen
    · rw [if_pos hpos]
      exact (only_store rfl).bind fun _ => .pure
    · rw [if_neg hpos]
      exact .pure
  case h_8 =>
    exact (only_store rfl).bind fun _ => (Only.emit trivial).bind fun _ => .pure
  case h_9 => exact .pure

/-! ### The handler -/

/-- Whatever an activation accesses lies inside its array. -/
theorem usart2IRQHandler_inBounds (s : Usart2 × Globals) (x : Sample) :
    Only (usart2IRQHandler 1 s x) Effect.InBounds := by
  unfold usart2IRQHandler
  dsimp only
  rcases x.rx with - | b
  · exact .pure
  · exact receive_inBounds.bind fun _ => .pure

/-- The globals change only by a call of the dispatcher. -/
theorem usart2IRQHandler_globals {s s' : Usart2 × Globals} {x : Sample} {l : List Effect}
    (h : usart2IRQHandler 1 s x = Except.ok (s', l)) :
    s'.2 = s.2 ∨
      ∃ dataBuf num, .wifiDataDeal dataBuf num ∈ l ∧ s'.2 = wifiDataDeal s.2 dataBuf num := by
  unfold usart2IRQHandler at h
  dsimp only at h
  rcases hx : x.rx with - | b
  · rw [hx] at h
    cases h
    exact .inl rfl
  · rw [hx] at h
    obtain ⟨⟨r', g'⟩, l₁, l₂, h₁, h₂, rfl⟩ := bind_eq_ok.mp h
    cases h₂
    rcases receive_globals h₁ with hg | ⟨dataBuf, num, hmem, hg⟩
    · exact .inl hg
    · exact .inr ⟨dataBuf, num, List.mem_append_left _ hmem, hg⟩

/-- In the AT mode the ring and the globals are left as they are. -/
theorem usart2IRQHandler_at {s s' : Usart2 × Globals} {x : Sample} {l : List Effect}
    (h : usart2IRQHandler 0 s x = Except.ok (s', l)) : s'.1.tx = s.1.tx ∧ s'.2 = s.2 := by
  unfold usart2IRQHandler at h
  rcases hx : x.rx with - | res
  · rw [hx] at h
    cases h
    exact ⟨rfl, rfl⟩
  · rw [hx] at h
    obtain ⟨a, l₁, l₂, -, h₂, rfl⟩ := bind_eq_ok.mp h
    cases h₂
    exact ⟨rfl, rfl⟩

/-- In the socket mode the ring is what its own part of the handler makes of
it. -/
theorem usart2IRQHandler_tx {s s' : Usart2 × Globals} {x : Sample} {l : List Effect}
    (h : usart2IRQHandler 1 s x = Except.ok (s', l)) : s'.1.tx = s.1.tx.transmit x.txe := by
  unfold usart2IRQHandler at h
  rcases hx : x.rx with - | res
  · rw [hx] at h
    cases h
    rfl
  · rw [hx] at h
    obtain ⟨a, l₁, l₂, -, h₂, rfl⟩ := bind_eq_ok.mp h
    cases h₂
    rfl

/-- **The receiver is the phone framer** on a buffer of 50 cells, whatever the
transmit part does and however activations without a byte are interspersed. -/
theorem phone_implements :
    phoneFramer.Implements 50 (usart2IRQHandler 1) Sample.rx dealtFrame
      fun s p => Receives s.1.rx p where
  idle := by
    rintro ⟨u, g⟩ p x hr hx
    refine ⟨({ u with tx := u.tx.transmit x.txe }, g), [], ?_, hr, rfl⟩
    simp only [usart2IRQHandler, hx]
    rfl
  step := by
    rintro ⟨u, g⟩ p x b hr hx hroom
    obtain ⟨r', g', l, hrec, hr', hl⟩ := receive_step (g := g) hr hroom
    refine ⟨({ u with rx := r', tx := u.tx.transmit x.txe }, g'), l, ?_, hr', hl⟩
    simp only [usart2IRQHandler, hx]
    rw [bind_ok hrec]
    simp only [pure_eq, List.append_nil]
    rfl
  full := by
    rintro ⟨u, g⟩ p x b hr hx hroom
    refine ⟨.outOfBounds .wifiRxBuffer p.length, ?_⟩
    simp only [usart2IRQHandler, hx]
    rw [bind_error (receive_full hr hroom)]

end DolphinNote
