/-
DolphinNote/Requests.lean

Requests that `wifi_data_deal` (wifi.c) should not act on.

A request with a wrong bar code, or one with a wrong phone ID, is not responded
to; but the branches of the wrong bar code clear a flag of the connection
(`rejected_iff`).  And the dispatcher reads a request at fixed offsets up to 36
without looking at its length, so a short request is judged by what is left in
`WIFI_RxBuffer` of the frames before: `fresh_iff` says which frames do not
depend on that.  For it a frame is received from a receiver that waits for one
(`frame_received`), which leaves the buffer with the frame in its first cells
and the other cells as they were.
-/
import DolphinNote.CleanStart

namespace DolphinNote

open Transition Traced

/-! ### Rejected requests -/

/-- A request that is not responded to: its bar code is wrong, or it is a
connection request of another phone than the paired one. -/
def Rejected (g : Globals) (dataBuf : Buffer 50) : Prop :=
  (HasCode dataBuf 0x75 ∧ barCodeErr dataBuf = true) ∨
    (HasCode dataBuf 0x78 ∧ barCodeErr dataBuf = true) ∨
      (HasCode dataBuf 0x75 ∧ barCodeErr dataBuf = false ∧ g.isFirstConnect = 0 ∧
        phoneIDErr g dataBuf = true)

/-- The connection and the pending reply are as they were. -/
def ConnectionKept (g g' : Globals) : Prop :=
  g'.netCompleteFlag = g.netCompleteFlag ∧ g'.netReconnectFlag = g.netReconnectFlag ∧
    g'.searchingFlag = g.searchingFlag ∧ g'.isFirstConnect = g.isFirstConnect ∧
    g'.phoneID = g.phoneID ∧ g'.phoneIP = g.phoneIP ∧ g'.boardID = g.boardID ∧
    g'.wifiDataToSend = g.wifiDataToSend ∧ g'.wifiDataLen = g.wifiDataLen

instance (g : Globals) (dataBuf : Buffer 50) : Decidable (Rejected g dataBuf) := by
  unfold Rejected; infer_instance

/-- The flag that the branch clears is clear already. -/
def AlreadyClear (g : Globals) (dataBuf : Buffer 50) : Prop :=
  (HasCode dataBuf 0x75 → barCodeErr dataBuf = true → g.netCompleteFlag = 0) ∧
    (HasCode dataBuf 0x78 → barCodeErr dataBuf = true → g.searchingFlag = 0)

/-- A connection request with a wrong bar code. -/
theorem wifiDataDeal_refused {g : Globals} {dataBuf : Buffer 50} (num : UInt8)
    (h : HasCode dataBuf 0x75) (hbar : barCodeErr dataBuf = true) :
    wifiDataDeal g dataBuf num = { g with netCompleteFlag := 0 } := by
  obtain ⟨h0, h1, h2⟩ := h
  simp [wifiDataDeal, h0, h1, h2, dealConnect, hbar]

/-- A search with a wrong bar code. -/
theorem wifiDataDeal_searchRefused {g : Globals} {dataBuf : Buffer 50} (num : UInt8)
    (h : HasCode dataBuf 0x78) (hbar : barCodeErr dataBuf = true) :
    wifiDataDeal g dataBuf num = { g with searchingFlag := 0 } := by
  obtain ⟨h0, h1, h2⟩ := h
  simp [wifiDataDeal, h0, h1, h2, dealSearch, hbar]

/-- A connection request of another phone. -/
theorem wifiDataDeal_otherPhone {g : Globals} {dataBuf : Buffer 50} (num : UInt8)
    (h : HasCode dataBuf 0x75) (hbar : barCodeErr dataBuf = false) (hfirst : g.isFirstConnect = 0)
    (hid : phoneIDErr g dataBuf = true) : wifiDataDeal g dataBuf num = g := by
  obtain ⟨h0, h1, h2⟩ := h
  simp [wifiDataDeal, h0, h1, h2, dealConnect, hbar, hfirst, hid]

theorem HasCode.ne {dataBuf : Buffer 50} {code code' : UInt8} (h : HasCode dataBuf code)
    (hne : code ≠ code') : ¬ HasCode dataBuf code' :=
  fun h' => hne (h.2.2.symm.trans h'.2.2)

/-- **Rejected requests** leave the connection and the pending reply alone exactly
if the flag of the branch is clear already: `net_complete_flag` for a connection
request with a wrong bar code, `searching_flag` for such a search. -/
theorem rejected_iff {g : Globals} {dataBuf : Buffer 50} (num : UInt8) (h : Rejected g dataBuf) :
    ConnectionKept g (wifiDataDeal g dataBuf num) ↔ AlreadyClear g dataBuf := by
  rcases h with ⟨hc, hbar⟩ | ⟨hc, hbar⟩ | ⟨hc, hbar, hfirst, hid⟩
  · rw [wifiDataDeal_refused num hc hbar]
    constructor
    · rintro ⟨hnet, -⟩
      exact ⟨fun _ _ => hnet.symm, fun hc' => absurd hc' (hc.ne (by decide))⟩
    · exact fun hclear => ⟨(hclear.1 hc hbar).symm, rfl, rfl, rfl, rfl, rfl, rfl, rfl, rfl⟩
  · rw [wifiDataDeal_searchRefused num hc hbar]
    constructor
    · rintro ⟨-, -, hsearch, -⟩
      exact ⟨fun hc' => absurd hc' (hc.ne (by decide)), fun _ _ => hsearch.symm⟩
    · exact fun hclear => ⟨rfl, rfl, (hclear.2 hc hbar).symm, rfl, rfl, rfl, rfl, rfl, rfl⟩
  · rw [wifiDataDeal_otherPhone num hc hbar hfirst hid]
    refine iff_of_true ⟨rfl, rfl, rfl, rfl, rfl, rfl, rfl, rfl, rfl⟩ ⟨fun _ hbar' => ?_, fun hc' => ?_⟩
    · rw [hbar] at hbar'
      exact absurd hbar' (by decide)
    · exact absurd hc' (hc.ne (by decide))

/-- A search that nothing waits for. -/
theorem rejected_iff_search :
    ConnectionKept .powerOn (wifiDataDeal .powerOn (request 0x78 1 0) 39) ↔
      AlreadyClear .powerOn (request 0x78 1 0) :=
  rejected_iff 39 (.inr (.inl ⟨by decide, by decide⟩))

/-- In the session of one phone, the request of another one with a wrong bar code. -/
theorem rejected_fails : ∃ s, exec step Sys.powerOn opened = some s ∧
    Rejected s.g (request 0x75 2 0) ∧
      ¬ ConnectionKept s.g (wifiDataDeal s.g (request 0x75 2 0) 39) := by
  have hrun : (exec step Sys.powerOn opened).map (fun s => s.g.netCompleteFlag) = some 1 := by
    decide +kernel
  obtain ⟨s, hs, hnet⟩ := Option.map_eq_some_iff.mp hrun
  have hcode : HasCode (request 0x75 2 0) 0x75 := by decide
  have hbar : barCodeErr (request 0x75 2 0) = true := by decide
  refine ⟨s, hs, .inl ⟨hcode, hbar⟩, ?_⟩
  rw [wifiDataDeal_refused 39 hcode hbar]
  rintro ⟨hkept, -⟩
  rw [hnet] at hkept
  exact absurd (show (0 : UInt8) = 1 from hkept) (by decide)

/-! ### One frame received -/

section Receive

variable {r r' : WifiRx} {g g' : Globals} {p : List UInt8} {b : UInt8} {l : List Effect}

theorem stored_eq {f : Buffer 50 → WifiRx} {i : ℕ} (h : i < 50)
    (hrec : (store .wifiRxBuffer r.wifiRxBuffer i b >>= fun rx => pure (f rx, g)) =
      Except.ok ((r', g'), l)) : r' = f (r.wifiRxBuffer.wr i b h) := by
  rw [bind_ok (store_of_lt h)] at hrec
  cases hrec
  rfl

/-- A byte that is not skipped goes to the next cell. -/
theorem receive_cells (hr : Receives r p) (h : p.length < 50)
    (hv : phoneFramer.verdict p b ≠ .skip)
    (hrec : r.receive g b = Except.ok ((r', g'), l)) :
    r'.wifiRxBuffer = r.wifiRxBuffer.wr p.length b h := by
  cases hr.counters with
  | idle hlen hst hid =>
      have hb : b = 0xFA := by
        by_contra hb
        exact hv (phone_skip_iff.mpr (.inl ⟨hlen, hb⟩))
      simp only [WifiRx.receive, hst, if_pos hb] at hrec
      rw [stored_eq (by omega) hrec]
      simp only [hlen]
  | header hlen hst hid =>
      have hb : b = 0x0A := by
        by_contra hb
        exact hv (phone_skip_iff.mpr (.inr ⟨hlen, hb⟩))
      simp only [WifiRx.receive, hst, if_pos hb] at hrec
      rw [stored_eq (by omega) hrec]
      simp only [hlen]
  | code hlen hst hid =>
      simp only [WifiRx.receive, hst] at hrec
      rw [stored_eq (by omega) hrec]
      simp only [hlen]
  | id hlen hst hid | length hlen hst hid =>
      simp only [WifiRx.receive, hst] at hrec
      by_cases hlast : 1 < r.idCnt + 1
      · simp only [if_pos hlast] at hrec
        rw [stored_eq (by omega) hrec]
        simp only [hlen]
      · simp only [if_neg hlast] at hrec
        rw [stored_eq (by omega) hrec]
        simp only [hlen]
  | payload hlen hst hid hpos =>
      simp only [WifiRx.receive, hst, if_pos hpos] at hrec
      rw [stored_eq (by omega) hrec]
      simp only [hlen]
  | checksum hlen hst hid hcnt =>
      simp only [WifiRx.receive, hst] at hrec
      rw [stored_eq (by omega) hrec]
      simp only [hlen]
  | trailer hlen hst hid hcnt =>
      simp only [WifiRx.receive, hst, ← hlen] at hrec
      rw [bind_ok (store_of_lt h)] at hrec
      cases hrec
      rfl

/-- With the checksum or the trailer still to come, no payload is. -/
def Drained (r : WifiRx) : Prop := r.rxState = 6 ∨ r.rxState = 7 → r.dataLen = 0

theorem drained_of_ite {n : ℕ} (h : (if n = 0 then 6 else 5) = 6 ∨ (if n = 0 then 6 else 5) = 7) :
    n = 0 := by
  by_contra h0
  rw [if_neg h0] at h
  omega

theorem receive_drained (hd : Drained r) (hrec : r.receive g b = Except.ok ((r', g'), l)) :
    Drained r' := by
  unfold WifiRx.receive at hrec
  split at hrec
  case h_1 | h_2 =>
    split_ifs at hrec
    · obtain ⟨rx, l₁, l₂, -, h₂, rfl⟩ := bind_eq_ok.mp hrec
      cases h₂
      exact nofun
    · cases hrec
      exact hd
  case h_3 =>
    obtain ⟨rx, l₁, l₂, -, h₂, rfl⟩ := bind_eq_ok.mp hrec
    cases h₂
    exact nofun
  case h_4 hst =>
    obtain ⟨rx, l₁, l₂, -, h₂, rfl⟩ := bind_eq_ok.mp hrec
    split_ifs at h₂ <;> cases h₂
    · exact nofun
    · exact fun h => absurd h (by simp [hst])
  case h_5 hst =>
    obtain ⟨rx, l₁, l₂, -, h₂, rfl⟩ := bind_eq_ok.mp hrec
    split_ifs at h₂ <;> cases h₂
    · exact drained_of_ite
    · exact fun h => absurd h (by simp [hst])
  case h_6 =>
    by_cases hpos : 0 < r.dataLen
    · rw [if_pos hpos] at hrec
      obtain ⟨rx, l₁, l₂, -, h₂, rfl⟩ := bind_eq_ok.mp hrec
      cases h₂
      exact drained_of_ite
    · rw [if_neg hpos] at hrec
      cases hrec
      exact hd
  case h_7 hst =>
    obtain ⟨rx, l₁, l₂, -, h₂, rfl⟩ := bind_eq_ok.mp hrec
    cases h₂
    exact fun _ => hd (.inl hst)
  case h_8 =>
    obtain ⟨rx, l₁, l₂, -, h₂, rfl⟩ := bind_eq_ok.mp hrec
    cases h₂
    exact nofun
  case h_9 =>
    cases hrec
    exact nofun

/-- The byte that completes a frame. -/
theorem receive_last (hr : Receives r p) (h : p.length < 50)
    (hv : phoneFramer.verdict p b = .emit) (hrec : r.receive g b = Except.ok ((r', g'), l)) :
    r.rxState = 7 ∧ r.idCnt = 0 ∧ r.dataCount = announced p + 1 ∧
      r' = { r with rxState := 0, wifiRxBuffer := r.wifiRxBuffer.wr p.length b h } ∧
      g' = wifiDataDeal g (r.wifiRxBuffer.wr p.length b h) (UInt8.ofNat (p.length + 1)) := by
  have hlen8 := phone_emit_iff.mp hv
  cases hr.counters with
  | idle hlen | header hlen | code hlen | id hlen | length hlen | payload hlen
  | checksum hlen => omega
  | trailer hlen hst hid hcnt =>
      refine ⟨hst, hid, hcnt, ?_⟩
      simp only [WifiRx.receive, hst, ← hlen] at hrec
      rw [bind_ok (store_of_lt h)] at hrec
      have hnum : 8 + r.dataCount = p.length + 1 := by omega
      rw [hnum] at hrec
      cases hrec
      exact ⟨rfl, rfl⟩

/-- A byte that is kept leaves the globals alone. -/
theorem receive_kept (hr : Receives r p) (h : p.length < 50)
    (hv : phoneFramer.verdict p b = .keep) :
    ∃ r' l, r.receive g b = Except.ok ((r', g), l) ∧ Receives r' (p ++ [b]) := by
  obtain ⟨r', g', l, hrec, hr', hl⟩ := receive_step (g := g) (b := b) hr fun _ => h
  rw [Framer.step_keep hv] at hr' hl
  rcases receive_globals hrec with rfl | ⟨dataBuf, num, hmem, -⟩
  · exact ⟨r', l, hrec, hr'⟩
  · have hdealt : dataBuf.bytes num.toNat ∈ l.filterMap dealtFrame :=
      List.mem_filterMap.mpr ⟨_, hmem, rfl⟩
    rw [hl] at hdealt
    exact absurd hdealt List.not_mem_nil

end Receive

/-- The buffer with a frame in its first cells. -/
def overlay (f : List UInt8) (w : Buffer 50) : Buffer 50 :=
  .tabulate 50 fun i => if i < f.length then f.getD i 0 else w.rd i

/-- What the activations make of the transmit ring. -/
def transmitted (t : WifiTx) (xs : List Sample) : WifiTx := xs.foldl (fun t x => t.transmit x.txe) t

/-- The activations of the port's handler. -/
def activations (xs : List Sample) : List BoardEvent := xs.map (.irq .usart2)

/-- The board with other contents of the receive buffer. -/
def Board.setRxBuffer (b : Board) (w : Buffer 50) : Board :=
  { b with dev := { b.dev with rx := { b.dev.rx with wifiRxBuffer := w } } }

/-- The board behind the frame `f` that was stored over the buffer `w`. -/
def Board.framed (b : Board) (f : List UInt8) (w : Buffer 50) (xs : List Sample) : Board where
  sys := { b.sys with g := wifiDataDeal b.sys.g (overlay f w) (UInt8.ofNat f.length),
                      tx := transmitted b.sys.tx xs }
  dev := { b.dev with rx := { dataLen := 0, dataCount := announced f + 1, rxState := 0, idCnt := 0,
                              wifiRxBuffer := overlay f w } }

/-- An activation that returns. -/
theorem boardStep_usart2 {b : Board} {x : Sample} {u : Usart2} {g : Globals} {l : List Effect}
    (h : usart2IRQHandler b.sys.socketStart (b.mem.usart2, b.sys.g) x = Except.ok ((u, g), l)) :
    boardStep b (.irq .usart2 x) =
      some { sys := { b.sys with g := g, tx := u.tx }, dev := { b.dev with rx := u.rx, at_ := u.at_ } } := by
  show some (b.setMem (wifiPort x b.mem)) = _
  have hport : wifiPort x b.mem = { b.mem with usart2 := u, globals := g } := by
    unfold wifiPort
    rw [show usart2IRQHandler b.mem.socketStart (b.mem.usart2, b.mem.globals) x =
      Except.ok ((u, g), l) from h]
    rfl
  rw [hport]
  rfl

/-- An activation in the socket mode that receives nothing. -/
theorem boardStep_idle {b : Board} {x : Sample} (h1 : b.sys.socketStart = 1) (hx : x.rx = none) :
    boardStep b (.irq .usart2 x) =
      some { b with sys := { b.sys with tx := b.sys.tx.transmit x.txe } } := by
  refine boardStep_usart2 (u := { b.mem.usart2 with tx := b.sys.tx.transmit x.txe }) (g := b.sys.g)
    (l := []) ?_
  rw [h1]
  simp only [usart2IRQHandler, hx]
  rfl

/-- An activation in the socket mode that receives a byte. -/
theorem boardStep_byte {b : Board} {x : Sample} {c : UInt8} {r : WifiRx} {g : Globals}
    {l : List Effect} (h1 : b.sys.socketStart = 1) (hx : x.rx = some c)
    (hrec : b.dev.rx.receive b.sys.g c = Except.ok ((r, g), l)) :
    boardStep b (.irq .usart2 x) =
      some { sys := { b.sys with g := g, tx := b.sys.tx.transmit x.txe },
             dev := { b.dev with rx := r } } := by
  refine boardStep_usart2
    (u := { b.mem.usart2 with rx := r, tx := b.sys.tx.transmit x.txe }) (l := l ++ []) ?_
  rw [h1]
  simp only [usart2IRQHandler, hx]
  exact bind_ok (show b.mem.usart2.rx.receive b.sys.g c = Except.ok ((r, g), l) from hrec) _

theorem exec_idle {b : Board} {xs : List Sample} (h1 : b.sys.socketStart = 1)
    (hxs : xs.filterMap Sample.rx = []) :
    exec boardStep b (activations xs) =
      some { b with sys := { b.sys with tx := transmitted b.sys.tx xs } } := by
  induction xs generalizing b with
  | nil => rfl
  | cons x xs ih =>
      have hx : x.rx = none := List.filterMap_eq_nil_iff.mp hxs x List.mem_cons_self
      rw [List.filterMap_cons_none hx] at hxs
      exact (exec_cons _ (boardStep_idle h1 hx)).trans (ih h1 hxs)

/-- The cells of the finished frame. -/
theorem overlay_eq {r : WifiRx} {p : List UInt8} {c : UInt8} {w : Buffer 50} (hr : Receives r p)
    (h : p.length < 50) (hw : ∀ i, p.length ≤ i → r.wifiRxBuffer.rd i = w.rd i) :
    r.wifiRxBuffer.wr p.length c h = overlay (p ++ [c]) w := by
  refine Buffer.ext_rd fun i hi => ?_
  rw [overlay, Buffer.rd_tabulate _ hi, Buffer.rd_wr, List.length_append, List.length_singleton]
  rcases Nat.lt_trichotomy i p.length with hlt | rfl | hgt
  · rw [if_neg (by omega), if_pos (by omega), getD_concat_of_lt hlt, ← hr.bytes,
      Buffer.getD_bytes _ hlt]
  · rw [if_pos rfl, if_pos (by omega), getD_concat_length]
  · rw [if_neg (by omega), if_neg (by omega), hw i hgt.le]

/-- The last byte of a frame. -/
theorem boardStep_last {b : Board} {p : List UInt8} {c : UInt8} {w : Buffer 50} {x : Sample}
    (h1 : b.sys.socketStart = 1) (hx : x.rx = some c) (hr : Receives b.dev.rx p)
    (hd : Drained b.dev.rx) (hw : ∀ i, p.length ≤ i → b.dev.rx.wifiRxBuffer.rd i = w.rd i)
    (hlt : p.length < 50) (hv : phoneFramer.verdict p c = .emit) :
    boardStep b (.irq .usart2 x) = some (b.framed (p ++ [c]) w [x]) := by
  have hlen := phone_emit_iff.mp hv
  obtain ⟨r', g', l, hrec, -⟩ := receive_step (g := b.sys.g) (b := c) hr fun _ => hlt
  obtain ⟨hst, hid, hcnt, hr', hg'⟩ := receive_last hr hlt hv hrec
  have hann : announced (p ++ [c]) = announced p := announced_append (by omega)
  rw [overlay_eq hr hlt hw] at hr' hg'
  have hrx : r' = { dataLen := 0, dataCount := announced (p ++ [c]) + 1, rxState := 0, idCnt := 0,
                    wifiRxBuffer := overlay (p ++ [c]) w } := by
    rw [hr', hd (.inr hst), hid, hcnt, hann]
  have hnum : p.length + 1 = (p ++ [c]).length := by
    rw [List.length_append, List.length_singleton]
  rw [boardStep_byte h1 hx hrec, hrx, hg', hnum]
  rfl

/-- The rest of a frame, behind its first bytes `p`. -/
theorem exec_frame {b : Board} {f p : List UInt8} {w : Buffer 50} {xs : List Sample}
    (hf : phoneFramer.IsFrame f) (h50 : f.length ≤ 50) (h1 : b.sys.socketStart = 1)
    (hr : Receives b.dev.rx p) (hd : Drained b.dev.rx)
    (hw : ∀ i, p.length ≤ i → b.dev.rx.wifiRxBuffer.rd i = w.rd i) (hp : p.length < f.length)
    (hxs : p ++ xs.filterMap Sample.rx = f) :
    exec boardStep b (activations xs) = some (b.framed f w xs) := by
  induction xs generalizing b p with
  | nil =>
      rw [List.filterMap_nil, List.append_nil] at hxs
      exact absurd hp (by rw [hxs]; exact lt_irrefl _)
  | cons x xs ih =>
      rcases hx : x.rx with - | c
      · rw [List.filterMap_cons_none hx] at hxs
        exact (exec_cons _ (boardStep_idle h1 hx)).trans (ih h1 hr hd hw hp hxs)
      · rw [List.filterMap_cons_some hx] at hxs
        have hlt : p.length < 50 := by omega
        -- all bytes but the last are kept
        obtain ⟨q, d, hqd, hkeeps, hemit⟩ := hf
        rcases List.eq_nil_or_concat (xs.filterMap Sample.rx) with hnil | ⟨s, d', hs⟩
        · -- the last byte
          rw [hnil] at hxs
          obtain ⟨rfl, hcd⟩ := List.append_inj' (hxs.trans hqd) rfl
          obtain rfl := List.singleton_inj.mp hcd
          have hlast := boardStep_last h1 hx hr hd hw hlt hemit
          rw [hxs] at hlast
          have hsock : (b.framed f w [x]).sys.socketStart = 1 := by
            unfold Board.framed
            exact h1
          rw [activations, List.map_cons, exec_cons _ hlast]
          rw [← activations, exec_idle hsock hnil]
          simp only [Board.framed, transmitted, List.foldl_cons, List.foldl_nil]
        · -- another byte follows
          have hq : p ++ c :: s = q := by
            have hsplit : (p ++ c :: s) ++ [d'] = q ++ [d] := by
              rw [← hqd, ← hxs, hs, List.append_assoc, List.cons_append, List.concat_eq_append]
            exact (List.append_inj' hsplit rfl).1
          have hv : phoneFramer.verdict p c = .keep := by
            rw [← hq] at hkeeps
            exact hkeeps.verdict
          obtain ⟨r', l, hrec, hr'⟩ := receive_kept (g := b.sys.g) hr hlt hv
          have hcells := receive_cells hr hlt (by rw [hv]; decide) hrec
          refine (exec_cons _ (boardStep_byte h1 hx hrec)).trans ?_
          refine ih h1 hr' (receive_drained hd hrec) ?_ ?_ ?_
          · intro i hi
            rw [List.length_append, List.length_singleton] at hi
            show r'.wifiRxBuffer.rd i = w.rd i
            rw [hcells, Buffer.rd_wr_of_ne hlt (by omega), hw i (by omega)]
          · rw [← hxs, hs]
            simp
          · rw [← hxs, List.append_assoc]
            rfl

/-- **A frame** that a waiting receiver gets whole: the dispatcher is called on it
and on what is left in the buffer behind it. -/
theorem frame_received {b : Board} {f : List UInt8} {xs : List Sample} (hf : PhoneFrame f)
    (hlen : announced f ≤ 41) (h1 : b.sys.socketStart = 1) (hr : Receives b.dev.rx [])
    (hxs : xs.filterMap Sample.rx = f) :
    exec boardStep b (activations xs) = some (b.framed f b.dev.rx.wifiRxBuffer xs) := by
  have hst := hr.rxState_eq_zero_iff.mpr rfl
  refine exec_frame (phone_isFrame_iff.mpr hf) (by rw [hf.2.2]; omega) h1 hr ?_ (fun _ _ => rfl)
    (by rw [hf.2.2, List.length_nil]; omega) hxs
  intro h
  rw [hst] at h
  exact absurd h (by decide)

/-! ### Bytes of earlier frames -/

/-- Receiving the frame leads to the same values of all variables, whatever the
receive buffer has held before. -/
def NoStale (f : List UInt8) : Prop :=
  ∀ (b b₁ b₂ : Board) (w : Buffer 50) (xs : List Sample),
    Reachable boardStep Board.powerOn b → Reachable boardStep Board.powerOn (b.setRxBuffer w) →
    b.sys.socketStart = 1 → b.dev.rx.rxState = 0 → xs.filterMap Sample.rx = f →
    exec boardStep b (activations xs) = some b₁ →
    exec boardStep (b.setRxBuffer w) (activations xs) = some b₂ → ∃ w', b₂ = b₁.setRxBuffer w'

/-- The frame is no request, or it reaches to the end of the bar code, or a byte
of the bar code that it has is wrong. -/
def Fresh (f : List UInt8) : Prop :=
  f.getD 2 0 ∉ ([0x75, 0x78] : List UInt8) ∨ 37 ≤ f.length ∨
    ∃ i < 10, 27 + i < f.length ∧ f.getD (27 + i) 0 ≠ barCode.rd i

theorem rd_overlay (f : List UInt8) (w : Buffer 50) {i : ℕ} (h : i < 50) :
    (overlay f w).rd i = if i < f.length then f.getD i 0 else w.rd i :=
  Buffer.rd_tabulate _ h

theorem barCodeErr_iff {dataBuf : Buffer 50} :
    barCodeErr dataBuf = true ↔ ∃ i < 10, dataBuf.rd (27 + i) ≠ barCode.rd i := by
  simp [barCodeErr]

section Overlay

variable {f : List UInt8}

/-- The header and the code are those of the frame. -/
theorem hasCode_overlay (hf : PhoneFrame f) (w : Buffer 50) {code : UInt8}
    (hc : f.getD 2 0 = code) : HasCode (overlay f w) code := by
  have hlen := hf.2.2
  refine ⟨?_, ?_, ?_⟩
  · rw [rd_overlay f w (by omega), if_pos (by omega), hf.1]
  · rw [rd_overlay f w (by omega), if_pos (by omega), hf.2.1]
  · rw [rd_overlay f w (by omega), if_pos (by omega), hc]

/-- What is done with a fresh frame does not depend on the rest of the buffer. -/
theorem wifiDataDeal_overlay (hf : PhoneFrame f) (hlen : announced f ≤ 41) (h : Fresh f)
    (g : Globals) (num : UInt8) (w w' : Buffer 50) :
    wifiDataDeal g (overlay f w) num = wifiDataDeal g (overlay f w') num := by
  have hlen9 := hf.2.2
  have hcells : ∀ i < f.length, (overlay f w).rd i = (overlay f w').rd i := fun i hi => by
    rw [rd_overlay f w (by omega), rd_overlay f w' (by omega), if_pos hi, if_pos hi]
  have hcode : (overlay f w).rd 2 = f.getD 2 0 := (hasCode_overlay hf w rfl).2.2
  by_cases hreq : f.getD 2 0 ∈ ([0x75, 0x78] : List UInt8)
  · rcases h with hno | h37 | ⟨i, hi, hlt, hbad⟩
    · exact absurd hreq hno
    · -- all that is read of a request lies in the frame
      exact wifiDataDeal_congr hcells (by omega) (.inl h37)
    · -- the bar code is wrong in the frame already
      have hbar : ∀ v, barCodeErr (overlay f v) = true := fun v => barCodeErr_iff.mpr ⟨i, hi, by
        rw [rd_overlay f v (by omega), if_pos hlt]
        exact hbad⟩
      rcases List.mem_cons.mp hreq with h75 | h78
      · rw [wifiDataDeal_refused num (hasCode_overlay hf w h75) (hbar w),
          wifiDataDeal_refused num (hasCode_overlay hf w' h75) (hbar w')]
      · have h78' := List.mem_singleton.mp h78
        rw [wifiDataDeal_searchRefused num (hasCode_overlay hf w h78') (hbar w),
          wifiDataDeal_searchRefused num (hasCode_overlay hf w' h78') (hbar w')]
  · exact wifiDataDeal_congr hcells (by omega) (.inr (hcode ▸ hreq))

/-- A receiver that waits for a frame. -/
theorem waiting {b : Board} (h : Reachable boardStep Board.powerOn b) (hst : b.dev.rx.rxState = 0) :
    Receives b.dev.rx [] := by
  obtain ⟨bs, hbs⟩ := h
  obtain ⟨p, hp⟩ := board_receives hbs
  obtain rfl := hp.rxState_eq_zero_iff.mp hst
  exact hp

theorem noStale_of_fresh (hf : PhoneFrame f) (hlen : announced f ≤ 41) (h : Fresh f) :
    NoStale f := by
  intro b b₁ b₂ w xs hb hb' h1 hst hxs ht₁ ht₂
  rw [frame_received hf hlen h1 (waiting hb hst) hxs] at ht₁
  rw [frame_received (b := b.setRxBuffer w) hf hlen h1 (waiting hb' hst) hxs] at ht₂
  obtain rfl := Option.some.inj ht₁
  obtain rfl := Option.some.inj ht₂
  refine ⟨overlay f w, ?_⟩
  simp only [Board.framed, Board.setRxBuffer]
  rw [wifiDataDeal_overlay hf hlen h b.sys.g _ w b.dev.rx.wifiRxBuffer]

end Overlay

/-! ### A frame that fills the buffer -/

/-- A frame without an effect, of full length, with `c` in the last byte of the bar code. -/
def filler (c : UInt8) : List UInt8 :=
  [0xFA, 0x0A, 0xA2, 0, 0, 41, 0] ++ List.replicate 29 0 ++ [c] ++ List.replicate 13 0

theorem transmitted_received (t : WifiTx) (s : List UInt8) : transmitted t (received s) = t := by
  induction s with
  | nil => rfl
  | cons c s ih => exact ih

theorem filterMap_received (s : List UInt8) : (received s).filterMap Sample.rx = s := by
  induction s with
  | nil => rfl
  | cons c s ih => exact congrArg (c :: ·) ih

/-- The board with the receiver at rest behind a full frame that left `w` in the buffer. -/
def Board.filled (b : Board) (w : Buffer 50) : Board :=
  { b with dev := { b.dev with rx := { dataLen := 0, dataCount := 42, rxState := 0, idCnt := 0,
                                       wifiRxBuffer := w } } }

/-- Behind it the buffer holds the frame, and nothing else has changed. -/
theorem exec_filler {b : Board} (c : UInt8) (h1 : b.sys.socketStart = 1)
    (hr : Receives b.dev.rx []) :
    exec boardStep b (incoming (filler c)) =
      some (b.filled (overlay (filler c) b.dev.rx.wifiRxBuffer)) := by
  have hf : PhoneFrame (filler c) := ⟨rfl, rfl, rfl⟩
  have hlen : announced (filler c) = 41 := rfl
  have hdeal : ∀ w num, wifiDataDeal b.sys.g (overlay (filler c) w) num = b.sys.g := by
    intro w num
    obtain ⟨h0, h1, h2⟩ := hasCode_overlay hf w (show (filler c).getD 2 0 = 0xA2 from rfl)
    simp [wifiDataDeal, h0, h1, h2]
  refine (frame_received hf hlen.le h1 hr (filterMap_received _)).trans ?_
  simp only [Board.framed, Board.filled, hdeal, transmitted_received, hlen]

/-- The board where the socket mode is entered. -/
theorem exists_socketMode : ∃ b : Board, Reachable boardStep Board.powerOn b ∧
    b.sys.socketStart = 1 ∧ b.sys.g.isFirstConnect = 1 ∧
    b.dev.rx.rxState = 0 := by
  have hrun : (exec boardStep Board.powerOn (List.replicate 9 (.main false none))).map
      (fun b => (b.sys.socketStart, b.sys.g.isFirstConnect, b.dev.rx.rxState)) =
        some (1, 1, 0) := by
    decide +kernel
  obtain ⟨b, hb, hval⟩ := Option.map_eq_some_iff.mp hrun
  simp only [Prod.mk.injEq] at hval
  exact ⟨b, ⟨_, hb⟩, hval⟩

/-- Before the first connection the bar code alone decides on a request. -/
theorem wifiDataDeal_judged {g : Globals} {dataBuf dataBuf' : Buffer 50} {code num : UInt8}
    (hfirst : g.isFirstConnect ≠ 0) (hreq : code ∈ ([0x75, 0x78] : List UInt8))
    (hc : HasCode dataBuf code) (hc' : HasCode dataBuf' code) (hgood : barCodeErr dataBuf = false)
    (hbad : barCodeErr dataBuf' = true) :
    wifiDataDeal g dataBuf num ≠ wifiDataDeal g dataBuf' num := by
  intro heq
  rcases List.mem_cons.mp hreq with rfl | h78
  · -- the accepted one clears `is_First_connect`
    have hzero := (wifiDataDeal_accepted g dataBuf num).2
    rw [if_pos ⟨hc, hgood, .inl hfirst⟩, heq, wifiDataDeal_refused num hc' hbad] at hzero
    exact hfirst hzero
  · obtain rfl := List.mem_singleton.mp h78
    rw [wifiDataDeal_search num hc hgood, wifiDataDeal_searchRefused num hc' hbad] at heq
    exact absurd (congrArg Globals.searchingFlag heq) (show (1 : UInt8) ≠ 0 by decide)

/-- The bytes that decide on a request that is not fresh. -/
theorem barCodeErr_filled {f : List UInt8} (hshort : f.length < 37)
    (hbytes : ∀ i < 10, 27 + i < f.length → f.getD (27 + i) 0 = barCode.rd i) (w : Buffer 50) :
    barCodeErr (overlay f (overlay (filler 1) w)) = false ∧
      barCodeErr (overlay f (overlay (filler 0) w)) = true := by
  have hfill : ∀ i < 10, (filler 1).getD (27 + i) 0 = barCode.rd i := by decide
  constructor
  · refine Bool.eq_false_iff.mpr fun herr => ?_
    obtain ⟨i, hi, hbad⟩ := barCodeErr_iff.mp herr
    rw [rd_overlay f _ (by omega)] at hbad
    split_ifs at hbad with hlt
    · exact hbad (hbytes i hi hlt)
    · have hcell : 27 + i < (filler 1).length := (show 27 + i < 50 by omega)
      rw [rd_overlay _ w (by omega), if_pos hcell] at hbad
      exact hbad (hfill i hi)
  · refine barCodeErr_iff.mpr ⟨9, by decide, ?_⟩
    have hcell : 27 + 9 < (filler 0).length := by decide
    rw [rd_overlay f _ (by decide), if_neg (by omega), rd_overlay _ w (by decide), if_pos hcell]
    decide

/-- A request that ends in front of the last byte of the bar code, or in it, with
nothing wrong so far: the bytes behind it decide. -/
theorem not_noStale {f : List UInt8} (hf : PhoneFrame f) (hlen : announced f ≤ 41)
    (h : ¬ Fresh f) : ¬ NoStale f := by
  intro hno
  unfold Fresh at h
  push Not at h
  obtain ⟨hreq, hshort, hbytes⟩ := h
  have hlen9 := hf.2.2
  -- two boards that have received a full frame each, one with the last byte of
  -- the bar code and one without
  obtain ⟨b, hb, h1, hfirst, hst⟩ := exists_socketMode
  have hr := waiting hb hst
  have hreach : ∀ c, Reachable boardStep Board.powerOn
      (b.filled (overlay (filler c) b.dev.rx.wifiRxBuffer)) := by
    intro c
    obtain ⟨bs, hbs⟩ := hb
    exact ⟨bs ++ incoming (filler c), exec_append.mpr ⟨b, hbs, exec_filler c h1 hr⟩⟩
  -- the two boards behind the request
  have hrun : ∀ w, exec boardStep (b.filled w) (activations (received f)) =
      some ((b.filled w).framed f w (received f)) := fun w =>
    frame_received (b := b.filled w) hf hlen h1 (.idle rfl rfl) (filterMap_received f)
  have hset : ∀ w w', (b.filled w).setRxBuffer w' = b.filled w' := fun _ _ => rfl
  obtain ⟨w', hw'⟩ := hno (b.filled (overlay (filler 0) b.dev.rx.wifiRxBuffer)) _ _
    (overlay (filler 1) b.dev.rx.wifiRxBuffer) (received f) (hreach 0)
    (by rw [hset]; exact hreach 1) h1 rfl (filterMap_received f) (hrun _)
    (by rw [hset]; exact hrun _)
  have hg := congrArg (fun b : Board => b.sys.g) hw'
  simp only [Board.framed, Board.setRxBuffer, Board.filled] at hg
  obtain ⟨hgood, hbad⟩ := barCodeErr_filled hshort hbytes b.dev.rx.wifiRxBuffer
  rcases List.mem_cons.mp hreq with h75 | h78
  · exact wifiDataDeal_judged (by rw [hfirst]; decide) (by decide) (hasCode_overlay hf _ h75)
      (hasCode_overlay hf _ h75) hgood hbad hg
  · have hc := List.mem_singleton.mp h78
    exact wifiDataDeal_judged (by rw [hfirst]; decide) (by decide) (hasCode_overlay hf _ hc)
      (hasCode_overlay hf _ hc) hgood hbad hg

/-- **No dependence on stale bytes**: exactly the frames that are fresh are dealt with
by their own bytes alone. -/
theorem fresh_iff {f : List UInt8} (hf : PhoneFrame f) (hlen : announced f ≤ 41) :
    NoStale f ↔ Fresh f := by
  constructor
  · intro hno
    by_contra h
    exact not_noStale hf hlen h hno
  · exact noStale_of_fresh hf hlen

/-- A heartbeat. -/
theorem fresh_iff_heartbeat : NoStale [0xFA, 0x0A, 0xA9, 0, 0, 0, 0, 0xAD, 0xED] ↔
    Fresh [0xFA, 0x0A, 0xA9, 0, 0, 0, 0, 0xAD, 0xED] :=
  fresh_iff (by decide) (by decide)

/-- A connection request without any payload. -/
theorem fresh_fails : ¬ NoStale [0xFA, 0x0A, 0x75, 0, 0, 0, 0, 0x79, 0xED] :=
  not_noStale (by decide) (by decide) (by unfold Fresh; decide)

end DolphinNote
