/-
DolphinNote/Wifi.lean

`wifi.c`: the reply encoder `wifi_ack_send`, the pen-frame encoder
`wifi_send_pen_data` and the frame dispatcher `wifi_data_deal`.

The replies fill `wifi_data_to_send` with stores at fixed offsets, so they are
plain functions on the globals; the pen encoder copies a computed number of
points and runs a loop with an 8-bit counter against a 32-bit bound, so it is
a computation that may fault.

`Dealt` says once what the dispatcher can do to the globals; everything later
is derived from it.
-/
import DolphinNote.Globals

namespace DolphinNote

/-! ### `wifi_ack_send` -/

/-- The five header bytes every reply starts with. -/
def ackHeader (g : Globals) (code : UInt8) : Buffer 255 :=
  ((((g.wifiDataToSend.wr 0 0xFA).wr 1 0x0A).wr 2 code).wr 3 (g.phoneID.rd 14)).wr 4
    (g.phoneID.rd 15)

/-- The body of a status reply (`0x77`, `0xA1`, `0x70`): `para`, high byte
first.  The checksum loop stops at offset 8. -/
def ackStatus (buf : Buffer 255) (para : UInt16) : Buffer 255 :=
  let buf := (((buf.wr 5 0x02).wr 6 0x00).wr 7 (para >>> 8).toUInt8).wr 8 (para &&& 0xFF).toUInt8
  (buf.wr 9 (buf.sumTo 8)).wr 10 0xED

/-- The body of an address reply (`0x76`, `0x78`). -/
def ackAddress (g : Globals) (buf : Buffer 255) : Buffer 255 :=
  let buf := (buf.wr 5 0x08).wr 6 0x00
  let buf := (((buf.wr 7 (g.boardIP.rd 0)).wr 8 (g.boardIP.rd 1)).wr 9 (g.boardIP.rd 2)).wr 10
    (g.boardIP.rd 3)
  let buf := (((buf.wr 11 (g.boardID.rd 0)).wr 12 (g.boardID.rd 1)).wr 13 (g.phoneID.rd 14)).wr 14
    (g.phoneID.rd 15)
  (buf.wr 15 (buf.sumTo 15)).wr 16 0xED

/-- The body of a time reply (`0x74`). -/
def ackTime (buf : Buffer 255) : Buffer 255 :=
  let buf := (((((buf.wr 5 0x04).wr 6 0x00).wr 7 0).wr 8 0).wr 9 0).wr 10 0
  (buf.wr 11 (buf.sumTo 11)).wr 12 0xED

/-- The bodies the `switch` of `wifi_ack_send` has. -/
inductive AckBody
  | status | address | time | empty
  deriving DecidableEq, Repr

/-- The `switch`.  The codes `0xB1` and `0xB2` have empty cases. -/
def ackBody (code : UInt8) : AckBody :=
  match code with
  | 0x77 | 0xA1 | 0x70 => .status
  | 0x76 | 0x78 => .address
  | 0x74 => .time
  | _ => .empty

/-- What `wifi_ack_send` leaves in `wifi_data_to_send`. -/
def ackBuffer (g : Globals) (code : UInt8) (para : UInt16) : Buffer 255 :=
  match ackBody code with
  | .status => ackStatus (ackHeader g code) para
  | .address => ackAddress g (ackHeader g code)
  | .time => ackTime (ackHeader g code)
  | .empty => ackHeader g code

/-- What `wifi_ack_send` leaves in `wifi_data_len`. -/
def ackLen (g : Globals) (code : UInt8) : UInt8 :=
  match ackBody code with
  | .status => 11
  | .address => 17
  | .time => 13
  | .empty => g.wifiDataLen

/-- `wifi_ack_send(code, para)`. -/
def wifiAckSend (g : Globals) (code : UInt8) (para : UInt16) : Globals :=
  { g with wifiDataToSend := ackBuffer g code para, wifiDataLen := ackLen g code }

section Fields

variable (g : Globals) (code : UInt8) (para : UInt16)

@[simp] theorem wifiAckSend_phoneID : (wifiAckSend g code para).phoneID = g.phoneID := rfl

@[simp] theorem wifiAckSend_phoneIP : (wifiAckSend g code para).phoneIP = g.phoneIP := rfl

@[simp] theorem wifiAckSend_isFirstConnect :
    (wifiAckSend g code para).isFirstConnect = g.isFirstConnect := rfl

@[simp] theorem wifiAckSend_netReconnectFlag :
    (wifiAckSend g code para).netReconnectFlag = g.netReconnectFlag := rfl

@[simp] theorem wifiAckSend_netCompleteFlag :
    (wifiAckSend g code para).netCompleteFlag = g.netCompleteFlag := rfl

end Fields

/-! ### `wifi_ack_send`, statement by statement -/

/-- `wifi_data_to_send[i] = x`. -/
def Globals.setByte (g : Globals) (i : ℕ) (x : UInt8) (h : i < 255 := by omega) : Globals :=
  { g with wifiDataToSend := g.wifiDataToSend.wr i x h }

/-- A statement of `wifi_ack_send`, on the globals and its local variable `sum`. -/
abbrev AckStmt := Globals × UInt8 → Globals × UInt8

/-- `wifi_data_to_send[i] = x`, where `x` is read from the globals. -/
def ackByte (i : ℕ) (x : Globals → UInt8) (h : i < 255 := by omega) : AckStmt :=
  fun (g, sum) => (g.setByte i (x g) h, sum)

/-- `sum = 0; for(i = 0; i < n; i ++) sum += wifi_data_to_send[i];`, round by round. -/
def ackSumLoop (n : ℕ) : List AckStmt :=
  (fun (g, _) => (g, 0)) ::
    (List.range n).map fun i (g, sum) => (g, sum + g.wifiDataToSend.rd i)

/-- `wifi_data_to_send[i] = sum` -/
def ackSumStore (i : ℕ) (h : i < 255 := by omega) : AckStmt :=
  fun (g, sum) => (g.setByte i sum h, sum)

/-- `wifi_data_len = n` -/
def ackLenStore (n : UInt8) : AckStmt := fun (g, sum) => ({ g with wifiDataLen := n }, sum)

/-- The statements of `wifi_ack_send(code, para)` in order, with the rounds of its
loop, for a caller that can be interrupted between them. -/
def ackStmts (code : UInt8) (para : UInt16) : List AckStmt :=
  [ackByte 0 fun _ => 0xFA, ackByte 1 fun _ => 0x0A, ackByte 2 fun _ => code,
    ackByte 3 fun g => g.phoneID.rd 14, ackByte 4 fun g => g.phoneID.rd 15] ++
  match ackBody code with
  | .status =>
      [ackByte 5 fun _ => 0x02, ackByte 6 fun _ => 0x00,
        ackByte 7 fun _ => (para >>> 8).toUInt8, ackByte 8 fun _ => (para &&& 0xFF).toUInt8] ++
      ackSumLoop 8 ++
      [ackSumStore 9, ackByte 10 fun _ => 0xED, ackLenStore 11]
  | .address =>
      [ackByte 5 fun _ => 0x08, ackByte 6 fun _ => 0x00,
        ackByte 7 fun g => g.boardIP.rd 0, ackByte 8 fun g => g.boardIP.rd 1,
        ackByte 9 fun g => g.boardIP.rd 2, ackByte 10 fun g => g.boardIP.rd 3,
        ackByte 11 fun g => g.boardID.rd 0, ackByte 12 fun g => g.boardID.rd 1,
        ackByte 13 fun g => g.phoneID.rd 14, ackByte 14 fun g => g.phoneID.rd 15] ++
      ackSumLoop 15 ++
      [ackSumStore 15, ackByte 16 fun _ => 0xED, ackLenStore 17]
  | .time =>
      [ackByte 5 fun _ => 0x04, ackByte 6 fun _ => 0x00, ackByte 7 fun _ => 0,
        ackByte 8 fun _ => 0, ackByte 9 fun _ => 0, ackByte 10 fun _ => 0] ++
      ackSumLoop 11 ++
      [ackSumStore 11, ackByte 12 fun _ => 0xED, ackLenStore 13]
  | .empty => []

/-- Run a list of statements. -/
def runStmts (l : List AckStmt) (s : Globals × UInt8) : Globals × UInt8 := l.foldl (fun s f => f s) s

theorem runStmts_append (l l' : List AckStmt) (s : Globals × UInt8) :
    runStmts (l ++ l') s = runStmts l' (runStmts l s) := List.foldl_append

/-- Uninterrupted, the loop adds the first `n` bytes. -/
theorem runStmts_ackSumLoop (n : ℕ) (g : Globals) (sum : UInt8) :
    runStmts (ackSumLoop n) (g, sum) = (g, g.wifiDataToSend.sumTo n) := by
  induction n with
  | zero => rfl
  | succ n ih =>
      have hloop : ackSumLoop (n + 1) =
          ackSumLoop n ++ [fun (g, sum) => (g, sum + g.wifiDataToSend.rd n)] := by
        unfold ackSumLoop
        rw [List.range_succ, List.map_append, List.cons_append]
        rfl
      rw [hloop, runStmts_append, ih, Buffer.sumTo_succ]
      rfl

/-- Uninterrupted, the statements are the call. -/
theorem runStmts_ackStmts (g : Globals) (sum : UInt8) (code : UInt8) (para : UInt16) :
    (runStmts (ackStmts code para) (g, sum)).1 = wifiAckSend g code para := by
  have bytes (l : List AckStmt) (f : AckStmt) (s : Globals × UInt8) :
      runStmts (f :: l) s = runStmts l (f s) := rfl
  have done (s : Globals × UInt8) : runStmts [] s = s := rfl
  unfold ackStmts wifiAckSend ackBuffer ackLen
  cases ackBody code <;>
    simp only [runStmts_append, bytes, done, runStmts_ackSumLoop, ackByte, ackSumStore,
      ackLenStore, Globals.setByte, ackHeader, ackStatus, ackAddress, ackTime]

/-! ### `wifi_send_pen_data` -/

/-- The checksum loop `for(ii = 0; ii < bound; ii ++) sum += …`, whose counter
is a byte.  A byte counter that has not reached the bound after 256 rounds
never will, so the loop is given 257 tests. -/
def penSumLoop (buf : Buffer 255) (bound : ℕ) : ℕ → UInt8 → UInt8 → Exec UInt8
  | 0, _, _ => Traced.fail .diverges
  | fuel + 1, ii, sum =>
      if ii.toNat < bound then do
        let x ← load .wifiDataToSend buf ii.toNat
        penSumLoop buf bound fuel (ii + 1) (sum + x)
      else pure sum

/-- `memcpy(&wifi_data_to_send[7 + ii*12], data_buffer + ii*12, 12)`. -/
def penCopy {n : ℕ} (dataBuffer : Buffer n) (buf : Buffer 255) (ii : ℕ) : Exec (Buffer 255) :=
  (List.range 12).foldlM (fun buf j => do
    let x ← load .penData dataBuffer (ii * 12 + j)
    store .wifiDataToSend buf (7 + ii * 12 + j) x) buf

/-- The header a pen frame of `k` records begins with. -/
def penHeader (g : Globals) (k : ℕ) : Buffer 255 :=
  ((((((g.wifiDataToSend.wr 0 0xFA).wr 1 0x0A).wr 2 0xDD).wr 3 (g.phoneID.rd 14)).wr 4
    (g.phoneID.rd 15)).wr 5 (UInt8.ofNat (k * 12))).wr 6 (UInt8.ofNat (k * 12 / 256))

/-- `wifi_send_pen_data(data_buffer, pen_cnt)`.  The one caller passes `pen_data`. -/
def wifiSendPenData {n : ℕ} (g : Globals) (dataBuffer : Buffer n) (penCnt : UInt8) :
    Exec Globals := do
  let num := penCnt.toNat * 12
  let buf := g.wifiDataToSend
  let buf ← store .wifiDataToSend buf 0 0xFA
  let buf ← store .wifiDataToSend buf 1 0x0A
  let buf ← store .wifiDataToSend buf 2 0xDD
  let buf ← store .wifiDataToSend buf 3 (g.phoneID.rd 14)
  let buf ← store .wifiDataToSend buf 4 (g.phoneID.rd 15)
  let buf ← store .wifiDataToSend buf 5 (UInt8.ofNat num)
  let buf ← store .wifiDataToSend buf 6 (UInt8.ofNat (num / 256))
  let buf ← (List.range penCnt.toNat).foldlM (penCopy dataBuffer) buf
  let sum ← penSumLoop buf (num + 7) 257 0 0
  let buf ← store .wifiDataToSend buf (7 + num) sum
  let buf ← store .wifiDataToSend buf (8 + num) 0xED
  pure { g with wifiDataLen := penCnt, wifiDataToSend := buf }

/-! ### `wifi_data_deal` -/

/-- `Bar_code_err_flag`: some byte at offsets 27..36 differs from `Bar_code`. -/
def barCodeErr (dataBuf : Buffer 50) : Bool :=
  (List.range 10).any fun i => dataBuf.rd (27 + i) != barCode.rd i

/-- `Phone_ID_err_flag`: some byte at offsets 11..26 differs from `Phone_ID`. -/
def phoneIDErr (g : Globals) (dataBuf : Buffer 50) : Bool :=
  (List.range 16).any fun i => dataBuf.rd (11 + i) != g.phoneID.rd i

/-- The phone's address in a connection request. -/
def frameIP (dataBuf : Buffer 50) : Buffer 4 := .tabulate 4 fun i => dataBuf.rd (7 + i)

/-- The phone's ID in a connection or search request. -/
def frameID (dataBuf : Buffer 50) : Buffer 16 := .tabulate 16 fun i => dataBuf.rd (11 + i)

/-- The board's ID in a connection request. -/
def frameBoardID (dataBuf : Buffer 50) : Buffer 2 := .tabulate 2 fun i => dataBuf.rd (35 + i)

/-- Case `0x75`: a connection request.  A wrong bar code drops the link flag;
the first request is paired with; a later one must carry the paired ID. -/
def dealConnect (g : Globals) (dataBuf : Buffer 50) : Globals :=
  if barCodeErr dataBuf then { g with netCompleteFlag := 0 }
  else if g.isFirstConnect ≠ 0 then
    wifiAckSend
      { g with isFirstConnect := 0, phoneIP := frameIP dataBuf, phoneID := frameID dataBuf,
               boardID := frameBoardID dataBuf } 0x76 0
  else if phoneIDErr g dataBuf then g
  else wifiAckSend { g with phoneIP := frameIP dataBuf, netReconnectFlag := 1 } 0x76 0

/-- Case `0x78`: a search for the board. -/
def dealSearch (g : Globals) (dataBuf : Buffer 50) : Globals :=
  if barCodeErr dataBuf then { g with searchingFlag := 0 }
  else { wifiAckSend { g with phoneID := frameID dataBuf } 0x78 0 with searchingFlag := 1 }

/-- `wifi_data_deal(data_buf, num)`.  The length is not looked at. -/
def wifiDataDeal (g : Globals) (dataBuf : Buffer 50) (_num : UInt8) : Globals :=
  if dataBuf.rd 0 = 0xFA ∧ dataBuf.rd 1 = 0x0A then
    match dataBuf.rd 2 with
    | 0x75 => dealConnect g dataBuf
    | 0x78 => dealSearch g dataBuf
    | 0xA9 => { wifiAckSend g 0x77 0 with isIdleFlag := 1 }
    | 0xA1 => { g with meetingEndFlag := 1, isIdleFlag := 0 }
    | 0xA2 | 0xA5 | 0xA8 => g
    | 0xA6 => wifiAckSend g 0xB2 0
    | 0xA7 => wifiAckSend g 0xB1 0
    | 0xAC | 0xAB | 0xAD | 0xAA | 0x79 | 0x7A | 0x5A | 0x5B | 0x5C | 0x5D => wifiAckSend g 0x77 0
    | 0x73 => { g with timeBase := 0, timeCheckingFlag := 1 }
    | _ => g
  else g

/-- The codes answered with a plain `0x77` and nothing else. -/
def ackCodes : List UInt8 := [0xAC, 0xAB, 0xAD, 0xAA, 0x79, 0x7A, 0x5A, 0x5B, 0x5C, 0x5D]

/-- The frame in the buffer has the header and the code. -/
def HasCode (dataBuf : Buffer 50) (code : UInt8) : Prop :=
  dataBuf.rd 0 = 0xFA ∧ dataBuf.rd 1 = 0x0A ∧ dataBuf.rd 2 = code

instance (dataBuf : Buffer 50) (code : UInt8) : Decidable (HasCode dataBuf code) := by
  unfold HasCode; infer_instance

/-- The frame is a connection request that the dispatcher accepts: the first
one, or one of the paired phone. -/
def Accepted (g : Globals) (dataBuf : Buffer 50) : Prop :=
  HasCode dataBuf 0x75 ∧ barCodeErr dataBuf = false ∧
    (g.isFirstConnect ≠ 0 ∨ phoneIDErr g dataBuf = false)

instance (g : Globals) (dataBuf : Buffer 50) : Decidable (Accepted g dataBuf) := by
  unfold Accepted; infer_instance

/-- What the dispatcher can do to the globals, branch by branch. -/
inductive Dealt (g : Globals) (dataBuf : Buffer 50) : Globals → Prop
  | ignored : Dealt g dataBuf g
  | refused : HasCode dataBuf 0x75 → barCodeErr dataBuf = true →
      Dealt g dataBuf { g with netCompleteFlag := 0 }
  | paired : HasCode dataBuf 0x75 → barCodeErr dataBuf = false → g.isFirstConnect ≠ 0 →
      Dealt g dataBuf (wifiAckSend
        { g with isFirstConnect := 0, phoneIP := frameIP dataBuf, phoneID := frameID dataBuf,
                 boardID := frameBoardID dataBuf } 0x76 0)
  | repeated : HasCode dataBuf 0x75 → barCodeErr dataBuf = false → g.isFirstConnect = 0 →
      phoneIDErr g dataBuf = false →
      Dealt g dataBuf
        (wifiAckSend { g with phoneIP := frameIP dataBuf, netReconnectFlag := 1 } 0x76 0)
  | searchRefused : HasCode dataBuf 0x78 → barCodeErr dataBuf = true →
      Dealt g dataBuf { g with searchingFlag := 0 }
  | searched : HasCode dataBuf 0x78 → barCodeErr dataBuf = false →
      Dealt g dataBuf
        { wifiAckSend { g with phoneID := frameID dataBuf } 0x78 0 with searchingFlag := 1 }
  | heartbeat : HasCode dataBuf 0xA9 →
      Dealt g dataBuf { wifiAckSend g 0x77 0 with isIdleFlag := 1 }
  | meetingEnd : HasCode dataBuf 0xA1 →
      Dealt g dataBuf { g with meetingEndFlag := 1, isIdleFlag := 0 }
  | touchInfo : HasCode dataBuf 0xA6 → Dealt g dataBuf (wifiAckSend g 0xB2 0)
  | versionInfo : HasCode dataBuf 0xA7 → Dealt g dataBuf (wifiAckSend g 0xB1 0)
  | acked {code : UInt8} : HasCode dataBuf code → code ∈ ackCodes →
      Dealt g dataBuf (wifiAckSend g 0x77 0)
  | timeCheck : HasCode dataBuf 0x73 →
      Dealt g dataBuf { g with timeBase := 0, timeCheckingFlag := 1 }

theorem dealConnect_dealt {g : Globals} {dataBuf : Buffer 50} (h : HasCode dataBuf 0x75) :
    Dealt g dataBuf (dealConnect g dataBuf) := by
  unfold dealConnect
  split_ifs with hbar hfirst hid
  · exact .refused h hbar
  · exact .paired h (by simpa using hbar) hfirst
  · exact .ignored
  · exact .repeated h (by simpa using hbar) (by simpa using hfirst) (by simpa using hid)

theorem dealSearch_dealt {g : Globals} {dataBuf : Buffer 50} (h : HasCode dataBuf 0x78) :
    Dealt g dataBuf (dealSearch g dataBuf) := by
  unfold dealSearch
  split_ifs with hbar
  · exact .searchRefused h hbar
  · exact .searched h (by simpa using hbar)

theorem wifiDataDeal_dealt (g : Globals) (dataBuf : Buffer 50) (num : UInt8) :
    Dealt g dataBuf (wifiDataDeal g dataBuf num) := by
  unfold wifiDataDeal
  by_cases hh : dataBuf.rd 0 = 0xFA ∧ dataBuf.rd 1 = 0x0A
  · rw [if_pos hh]
    obtain ⟨h0, h1⟩ := hh
    split
    case h_1 hc => exact dealConnect_dealt ⟨h0, h1, hc⟩
    case h_2 hc => exact dealSearch_dealt ⟨h0, h1, hc⟩
    case h_3 hc => exact .heartbeat ⟨h0, h1, hc⟩
    case h_4 hc => exact .meetingEnd ⟨h0, h1, hc⟩
    case h_8 hc => exact .touchInfo ⟨h0, h1, hc⟩
    case h_9 hc => exact .versionInfo ⟨h0, h1, hc⟩
    case h_20 hc => exact .timeCheck ⟨h0, h1, hc⟩
    -- the codes without an effect, and the plain acknowledgements
    case h_5 | h_6 | h_7 | h_21 => exact .ignored
    all_goals exact .acked ⟨h0, h1, ‹_›⟩ (by decide)
  · rw [if_neg hh]
    exact .ignored

/-- A search that passes the bar code is always answered. -/
theorem wifiDataDeal_search {g : Globals} {dataBuf : Buffer 50} (num : UInt8)
    (h : HasCode dataBuf 0x78) (hbar : barCodeErr dataBuf = false) :
    wifiDataDeal g dataBuf num =
      { wifiAckSend { g with phoneID := frameID dataBuf } 0x78 0 with searchingFlag := 1 } := by
  obtain ⟨h0, h1, h2⟩ := h
  simp [wifiDataDeal, h0, h1, h2, dealSearch, hbar]

/-- The dispatcher drops the link flag on a refused connection request, and
never sets it. -/
theorem wifiDataDeal_netCompleteFlag (g : Globals) (dataBuf : Buffer 50) (num : UInt8) :
    (wifiDataDeal g dataBuf num).netCompleteFlag =
      if HasCode dataBuf 0x75 ∧ barCodeErr dataBuf = true then 0 else g.netCompleteFlag := by
  split_ifs with h
  · obtain ⟨⟨h0, h1, h2⟩, hbar⟩ := h
    simp [wifiDataDeal, h0, h1, h2, dealConnect, hbar]
  · have hdealt := wifiDataDeal_dealt g dataBuf num
    generalize wifiDataDeal g dataBuf num = g' at hdealt
    cases hdealt with
    | refused hcode hbar => exact absurd ⟨hcode, hbar⟩ h
    | paired | repeated | searched | heartbeat | touchInfo | versionInfo | acked =>
        simp only [wifiAckSend_netCompleteFlag]
    | _ => rfl

/-- An accepted request leaves its address, and `is_First_connect` at 0. -/
theorem wifiDataDeal_accepted (g : Globals) (dataBuf : Buffer 50) (num : UInt8) :
    (wifiDataDeal g dataBuf num).phoneIP =
        (if Accepted g dataBuf then frameIP dataBuf else g.phoneIP) ∧
      (wifiDataDeal g dataBuf num).isFirstConnect =
        if Accepted g dataBuf then 0 else g.isFirstConnect := by
  by_cases h : Accepted g dataBuf
  · obtain ⟨⟨h0, h1, h2⟩, hbar, hid⟩ := h
    rw [if_pos ⟨⟨h0, h1, h2⟩, hbar, hid⟩, if_pos ⟨⟨h0, h1, h2⟩, hbar, hid⟩]
    simp only [wifiDataDeal, h0, h1, h2, and_self, if_true, dealConnect, hbar]
    by_cases hfirst : g.isFirstConnect ≠ 0
    · simp [hfirst]
    · simp [hid.resolve_left hfirst, not_not.mp hfirst]
  · rw [if_neg h, if_neg h]
    have hdealt := wifiDataDeal_dealt g dataBuf num
    generalize wifiDataDeal g dataBuf num = g' at hdealt
    cases hdealt with
    | paired hcode hbar hfirst => exact absurd ⟨hcode, hbar, .inl hfirst⟩ h
    | repeated hcode hbar _ hid => exact absurd ⟨hcode, hbar, .inr hid⟩ h
    | searched | heartbeat | touchInfo | versionInfo | acked =>
        simp only [wifiAckSend_phoneIP, wifiAckSend_isFirstConnect, and_self]
    | ignored | refused | searchRefused | meetingEnd | timeCheck => exact ⟨rfl, rfl⟩

/-- The codes the dispatcher acts on. -/
def actedCodes : List UInt8 := [0x75, 0x78, 0xA9, 0xA1, 0xA6, 0xA7, 0x73] ++ ackCodes

/-- Only a frame with the header and a code of the list has an effect. -/
theorem wifiDataDeal_acted {g : Globals} {dataBuf : Buffer 50} {num : UInt8}
    (h : wifiDataDeal g dataBuf num ≠ g) :
    dataBuf.rd 0 = 0xFA ∧ dataBuf.rd 1 = 0x0A ∧ dataBuf.rd 2 ∈ actedCodes := by
  have key {code : UInt8} (hc : HasCode dataBuf code) (hmem : code ∈ actedCodes) :
      dataBuf.rd 0 = 0xFA ∧ dataBuf.rd 1 = 0x0A ∧ dataBuf.rd 2 ∈ actedCodes :=
    ⟨hc.1, hc.2.1, by rw [hc.2.2]; exact hmem⟩
  have hdealt := wifiDataDeal_dealt g dataBuf num
  generalize hg : wifiDataDeal g dataBuf num = g' at h hdealt
  cases hdealt with
  | ignored => exact absurd rfl h
  | refused hc | paired hc | repeated hc | searchRefused hc | searched hc | heartbeat hc
  | meetingEnd hc | touchInfo hc | versionInfo hc | timeCheck hc => exact key hc (by decide)
  | acked hc hmem => exact key hc (List.mem_append_right _ hmem)

/-- The dispatcher reads the frame at fixed offsets only: the header and the
code, and for the two requests the offsets up to 36. -/
theorem wifiDataDeal_congr {g : Globals} {dataBuf dataBuf' : Buffer 50} {num num' : UInt8} {n : ℕ}
    (h : ∀ i < n, dataBuf.rd i = dataBuf'.rd i) (hn : 3 ≤ n)
    (hreq : 37 ≤ n ∨ dataBuf.rd 2 ∉ ([0x75, 0x78] : List UInt8)) :
    wifiDataDeal g dataBuf num = wifiDataDeal g dataBuf' num' := by
  have hany (k off : ℕ) (hk : off + k ≤ n) (f : ℕ → UInt8) :
      ((List.range k).any fun i => dataBuf.rd (off + i) != f i)
        = (List.range k).any fun i => dataBuf'.rd (off + i) != f i := by
    rw [Bool.eq_iff_iff]
    simp only [List.any_eq_true, List.mem_range]
    exact exists_congr fun i => and_congr_right fun hi => by rw [h (off + i) (by omega)]
  have hfields (hlong : 37 ≤ n) :
      barCodeErr dataBuf = barCodeErr dataBuf' ∧ phoneIDErr g dataBuf = phoneIDErr g dataBuf' ∧
        frameIP dataBuf = frameIP dataBuf' ∧ frameID dataBuf = frameID dataBuf' ∧
        frameBoardID dataBuf = frameBoardID dataBuf' := by
    refine ⟨hany 10 27 (by omega) _, hany 16 11 (by omega) _, Buffer.ext_rd fun i hi => ?_,
      Buffer.ext_rd fun i hi => ?_, Buffer.ext_rd fun i hi => ?_⟩
    · rw [frameIP, frameIP, Buffer.rd_tabulate _ hi, Buffer.rd_tabulate _ hi, h (7 + i) (by omega)]
    · rw [frameID, frameID, Buffer.rd_tabulate _ hi, Buffer.rd_tabulate _ hi, h (11 + i) (by omega)]
    · rw [frameBoardID, frameBoardID, Buffer.rd_tabulate _ hi, Buffer.rd_tabulate _ hi,
        h (35 + i) (by omega)]
  have hconnect (hc : dataBuf.rd 2 = 0x75) : dealConnect g dataBuf = dealConnect g dataBuf' := by
    obtain ⟨hbar, hid, hip, hfid, hboard⟩ := hfields (hreq.resolve_right (by simp [hc]))
    rw [dealConnect, dealConnect, hbar, hid, hip, hfid, hboard]
  have hsearch (hc : dataBuf.rd 2 = 0x78) : dealSearch g dataBuf = dealSearch g dataBuf' := by
    obtain ⟨hbar, -, -, hfid, -⟩ := hfields (hreq.resolve_right (by simp [hc]))
    rw [dealSearch, dealSearch, hbar, hfid]
  unfold wifiDataDeal
  rw [← h 0 (by omega), ← h 1 (by omega), ← h 2 (by omega)]
  by_cases hh : dataBuf.rd 0 = 0xFA ∧ dataBuf.rd 1 = 0x0A
  · rw [if_pos hh, if_pos hh]
    split
    case h_1 hc => exact hconnect hc
    case h_2 hc => exact hsearch hc
    all_goals rfl
  · rw [if_neg hh, if_neg hh]

end DolphinNote
