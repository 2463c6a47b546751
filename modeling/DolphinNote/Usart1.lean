/-
DolphinNote/Usart1.lean

The serial port of the touch screen (`usart2.c`, first half): `Uart1_Put_Buf`
and the parts of `USART1_IRQHandler` between `rt_interrupt_enter` and
`rt_interrupt_leave`.

The statics of the handler and the transmit ring are one record; the enable
bit of the transmit interrupt and the last byte written to the data register
are kept with them.
-/
import DolphinNote.Screen

namespace DolphinNote

/-- What an activation of a USART handler finds: the overrun flag, the
transmit-empty flag, and the received byte if there is one.  On an overrun the
handler reads the data register once to clear the flag, and what it held is
lost; `rx` is what the receive part finds afterwards. -/
structure Sample where
  ore : Bool
  txe : Bool
  rx : Option UInt8
  deriving DecidableEq, Repr

/-- Activations that deliver a byte stream and nothing else. -/
def received (s : List UInt8) : List Sample := s.map fun b => ⟨false, false, some b⟩

/-- The screen port. -/
structure Usart1 where
  errCnt : UInt8
  dataLen : UInt8
  dataCount : UInt8
  rxState : ℕ
  screenTxBuffer : Buffer 50
  screenRxBuffer : Buffer 255
  count1 : UInt8
  txCounter1 : UInt8
  txeie : Bool
  dr : UInt8
  deriving DecidableEq

/-- The port at power-on. -/
def Usart1.powerOn : Usart1 where
  errCnt := 0
  dataLen := 0
  dataCount := 0
  rxState := 0
  screenTxBuffer := Buffer.zero 50
  screenRxBuffer := Buffer.zero 255
  count1 := 0
  txCounter1 := 0
  txeie := false
  dr := 0

/-- The transmit part.  The ring has 50 cells and an 8-bit index. -/
def Usart1.transmit (u : Usart1) (txe : Bool) : Exec Usart1 :=
  if txe && u.txeie then do
    let dr ← load .screenTxBuffer u.screenTxBuffer u.txCounter1.toNat
    let txCounter1 := u.txCounter1 + 1
    pure { u with dr := dr, txCounter1 := txCounter1,
                  txeie := if txCounter1 = u.count1 then false else u.txeie }
  else pure u

/-- The receive part, for one received byte. -/
def Usart1.receive (u : Usart1) (g : Globals) (resData : UInt8) : Exec (Usart1 × Globals) :=
  match u.rxState with
  | 0 =>
      if resData = 0x68 then do
        let rx ← store .screenRxBuffer u.screenRxBuffer 0 resData
        pure ({ u with rxState := 1, screenRxBuffer := rx }, g)
      else pure (u, g)
  | 1 =>
      if resData < 50 then do
        let rx ← store .screenRxBuffer u.screenRxBuffer 1 resData
        pure ({ u with rxState := 2, screenRxBuffer := rx, dataLen := resData, dataCount := 0 }, g)
      else pure (u, g)
  | 2 =>
      if 0 < u.dataLen then do
        let rx ← store .screenRxBuffer u.screenRxBuffer (2 + u.dataCount.toNat) resData
        let u := { u with dataLen := u.dataLen - 1, dataCount := u.dataCount + 1,
                          screenRxBuffer := rx }
        if u.dataLen = 0 then do
          let num := UInt8.ofNat (u.dataCount.toNat + 2)
          Traced.emit (.screenDataAnalize rx num) ()
          let g ← screenDataAnalize g rx num
          pure ({ u with rxState := 0 }, g)
        else pure (u, g)
      else if 1 ≤ u.errCnt + 1 then pure ({ u with errCnt := 0, rxState := 0 }, g)
      else pure ({ u with errCnt := u.errCnt + 1 }, g)
  | _ => pure ({ u with rxState := 0 }, g)

/-- `USART1_IRQHandler`, between `rt_interrupt_enter` and `rt_interrupt_leave`. -/
def usart1IRQHandler (s : Usart1 × Globals) (x : Sample) : Exec (Usart1 × Globals) := do
  let u ← s.1.transmit x.txe
  match x.rx with
  | some resData => u.receive s.2 resData
  | none => pure (u, s.2)

end DolphinNote
