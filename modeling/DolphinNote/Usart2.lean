/-
DolphinNote/Usart2.lean

The serial port of the WiFi module (`usart2.c`, second half): `Uart2_Put_Buf`
and the parts of `USART2_IRQHandler` between `rt_interrupt_enter` and
`rt_interrupt_leave`.

The port is used in two modes.  While `socket_start` is 0 the bytes it receives
are replies to AT commands and go to `USART2_RX_BUF`; while it is 1 the port
carries phone frames and drains the transmit ring.  The three uses keep their
data apart (`WifiRx`, `WifiTx`, `AtRx`).
-/
import DolphinNote.Usart1

namespace DolphinNote

/-! ### The transmit ring -/

/-- The transmit ring, the enable bit of its interrupt, and the last byte
written to the data register. -/
structure WifiTx where
  wifiTxBuffer : Buffer 256
  count2 : UInt8
  txCounter2 : UInt8
  txeie : Bool
  dr : UInt8
  deriving DecidableEq

/-- The ring at power-on. -/
def WifiTx.powerOn : WifiTx where
  wifiTxBuffer := Buffer.zero 256
  count2 := 0
  txCounter2 := 0
  txeie := false
  dr := 0

/-- `WIFI_TxBuffer[count_2++] = x`: the index is a byte and the ring has a cell
for each of its values. -/
def WifiTx.push (t : WifiTx) (x : UInt8) : WifiTx :=
  { t with wifiTxBuffer := t.wifiTxBuffer.wr t.count2.toNat x t.count2.toNat_lt,
           count2 := t.count2 + 1 }

/-- `Uart2_Put_Buf(DataToSend, data_num)`. -/
def uart2PutBuf (t : WifiTx) {n : ℕ} (dataToSend : Buffer n) (dataNum : UInt8) : WifiTx :=
  let t := (List.range dataNum.toNat).foldl (fun t i => t.push (dataToSend.rd i)) t
  if t.txeie then t else { t with txeie := true }

/-- The transmit part of the handler. -/
def WifiTx.transmit (t : WifiTx) (txe : Bool) : WifiTx :=
  if txe && t.txeie then
    let txCounter2 := t.txCounter2 + 1
    { t with dr := t.wifiTxBuffer.rd t.txCounter2.toNat, txCounter2 := txCounter2,
             txeie := if txCounter2 = t.count2 then false else t.txeie }
  else t

/-! ### The frame receiver -/

/-- The statics of the handler and the receive buffer. -/
structure WifiRx where
  dataLen : ℕ
  dataCount : ℕ
  rxState : ℕ
  idCnt : ℕ
  wifiRxBuffer : Buffer 50
  deriving DecidableEq

/-- The receiver at power-on. -/
def WifiRx.powerOn : WifiRx where
  dataLen := 0
  dataCount := 0
  rxState := 0
  idCnt := 0
  wifiRxBuffer := Buffer.zero 50

/-- The receive part of the handler, for one received byte. -/
def WifiRx.receive (r : WifiRx) (g : Globals) (resData : UInt8) : Exec (WifiRx × Globals) :=
  match r.rxState with
  | 0 =>
      if resData = 0xFA then do
        let rx ← store .wifiRxBuffer r.wifiRxBuffer 0 resData
        pure ({ r with rxState := 1, wifiRxBuffer := rx }, g)
      else pure (r, g)
  | 1 =>
      if resData = 0x0A then do
        let rx ← store .wifiRxBuffer r.wifiRxBuffer 1 resData
        pure ({ r with rxState := 2, wifiRxBuffer := rx }, g)
      else pure (r, g)
  | 2 => do
      let rx ← store .wifiRxBuffer r.wifiRxBuffer 2 resData
      pure ({ r with rxState := 3, wifiRxBuffer := rx }, g)
  | 3 => do
      let rx ← store .wifiRxBuffer r.wifiRxBuffer (3 + r.idCnt) resData
      if 1 < r.idCnt + 1 then
        pure ({ r with idCnt := 0, rxState := 4, wifiRxBuffer := rx }, g)
      else pure ({ r with idCnt := r.idCnt + 1, wifiRxBuffer := rx }, g)
  | 4 => do
      let rx ← store .wifiRxBuffer r.wifiRxBuffer (5 + r.idCnt) resData
      if 1 < r.idCnt + 1 then
        let dataLen := (rx.rd 6).toNat <<< 8 ||| (rx.rd 5).toNat
        pure ({ r with idCnt := 0, dataLen := dataLen, dataCount := 0,
                       rxState := if dataLen = 0 then 6 else 5, wifiRxBuffer := rx }, g)
      else pure ({ r with idCnt := r.idCnt + 1, wifiRxBuffer := rx }, g)
  | 5 =>
      if 0 < r.dataLen then do
        let rx ← store .wifiRxBuffer r.wifiRxBuffer (7 + r.dataCount) resData
        pure ({ r with dataLen := r.dataLen - 1, dataCount := r.dataCount + 1,
                       rxState := if r.dataLen - 1 = 0 then 6 else 5, wifiRxBuffer := rx }, g)
      else pure (r, g)
  | 6 => do
      let rx ← store .wifiRxBuffer r.wifiRxBuffer (7 + r.dataCount) resData
      pure ({ r with dataCount := r.dataCount + 1, rxState := 7, wifiRxBuffer := rx }, g)
  | 7 => do
      let rx ← store .wifiRxBuffer r.wifiRxBuffer (7 + r.dataCount) resData
      let num := UInt8.ofNat (8 + r.dataCount)
      Traced.emit (.wifiDataDeal rx num) ()
      pure ({ r with rxState := 0, wifiRxBuffer := rx }, wifiDataDeal g rx num)
  | _ => pure ({ r with rxState := 0 }, g)

/-! ### AT replies -/

/-- `USART2_RX_BUF` and `USART2_RX_STA`. -/
structure AtRx where
  usart2RxBuf : Buffer 200
  usart2RxSta : UInt16
  deriving DecidableEq

/-- The reply buffer at power-on. -/
def AtRx.powerOn : AtRx where
  usart2RxBuf := Buffer.zero 200
  usart2RxSta := 0

/-- The bytes of a reply are collected until the buffer is full or the flag
in bit 15 says that the last reply has not been read. -/
def AtRx.receive (t : AtRx) (res : UInt8) : Exec AtRx :=
  if t.usart2RxSta &&& 0x8000 = 0 then
    if t.usart2RxSta < 200 then do
      let buf ← store .usart2RxBuf t.usart2RxBuf t.usart2RxSta.toNat res
      pure { usart2RxBuf := buf, usart2RxSta := t.usart2RxSta + 1 }
    else pure { t with usart2RxSta := t.usart2RxSta ||| 0x8000 }
  else pure t

/-! ### The handler -/

/-- The WiFi port. -/
structure Usart2 where
  rx : WifiRx
  tx : WifiTx
  at_ : AtRx
  deriving DecidableEq

/-- The port at power-on. -/
def Usart2.powerOn : Usart2 where
  rx := .powerOn
  tx := .powerOn
  at_ := .powerOn

/-- `USART2_IRQHandler`, between `rt_interrupt_enter` and `rt_interrupt_leave`. -/
def usart2IRQHandler (socketStart : UInt8) (s : Usart2 × Globals) (x : Sample) :
    Exec (Usart2 × Globals) :=
  match socketStart with
  | 0 =>
      match x.rx with
      | some res => do
          let a ← s.1.at_.receive res
          pure ({ s.1 with at_ := a }, s.2)
      | none => pure s
  | 1 =>
      let u := { s.1 with tx := s.1.tx.transmit x.txe }
      match x.rx with
      | some resData => do
          let (rx, g) ← u.rx.receive s.2 resData
          pure ({ u with rx := rx }, g)
      | none => pure (u, s.2)
  | _ => pure s

end DolphinNote
