/-
DolphinNote/Screen.lean

`Screen.c`: the dispatcher `Screen_data_analize` for frames of the touch
screen.  A frame of type `0x02` carries ten bytes per point; each becomes a
twelve-byte record in `pen_data` (coordinates, state, time stamp), and the
records are handed to `wifi_send_pen_data`.  A frame of type `0x60` clears the
first hundred bytes of `pen_data`.
-/
import DolphinNote.Wifi

namespace DolphinNote

/-- `(data_buf[1] - 2) / 10`: an `int` division, truncated to a byte. -/
def pointCnt (len : UInt8) : UInt8 := UInt8.ofInt (((len.toNat : ℤ) - 2).tdiv 10)

/-- The state byte of record `i`, and `up_down_flag`, by the pen status of the
point.  A status other than `04` and `07` leaves both alone. -/
def penState (dataBuf : Buffer 255) (st : Buffer 200 × UInt8) (i : ℕ) :
    Exec (Buffer 200 × UInt8) := do
  let status ← load .dataBuf dataBuf (3 + i * 10)
  if status = 0x04 then do
    let x ← load .dataBuf dataBuf (4 + i * 10)
    let pen ← store .penData st.1 (i * 12 + 8) ((x &&& 0x7F) ||| 0x80)
    pure (pen, st.2)
  else if status = 0x07 then do
    let x ← load .dataBuf dataBuf (4 + i * 10)
    let pen ← store .penData st.1 (i * 12 + 8) (x &&& 0x7F)
    pure (pen, 1)
  else pure st

/-- One round of the point loop: the record `i` of `pen_data`, and
`up_down_flag`. -/
def penPoint (dataBuf : Buffer 255) (timeBase : UInt32) (st : Buffer 200 × UInt8) (i : ℕ) :
    Exec (Buffer 200 × UInt8) := do
  let pen ← (List.range 8).foldlM (fun pen j => do
    let x ← load .dataBuf dataBuf (5 + j + i * 10)
    store .penData pen (i * 12 + j) x) st.1
  let st ← penState dataBuf (pen, st.2) i
  let pen ← store .penData st.1 (i * 12 + 9) (timeBase &&& 0x0000FF).toUInt8
  let pen ← store .penData pen (i * 12 + 10) ((timeBase &&& 0x00FF00) >>> 8).toUInt8
  let pen ← store .penData pen (i * 12 + 11) ((timeBase &&& 0xFF0000) >>> 16).toUInt8
  pure (pen, st.2)

/-- `Screen_data_analize(data_buf, num)`.  The length is not looked at. -/
def screenDataAnalize (g : Globals) (dataBuf : Buffer 255) (_num : UInt8) : Exec Globals := do
  let head ← load .dataBuf dataBuf 0
  if head = 0x68 then do
    let code ← load .dataBuf dataBuf 2
    if code = 0x02 then do
      let len ← load .dataBuf dataBuf 1
      let cnt := pointCnt len
      let st ←
        (List.range cnt.toNat).foldlM (penPoint dataBuf g.timeBase) (g.penData, g.upDownFlag)
      wifiSendPenData { g with penData := st.1, upDownFlag := st.2, penDataReady := 1 } st.1 cnt
    else if code = 0x60 then do
      let pen ← (List.range 100).foldlM (fun pen i => store .penData pen i 0) g.penData
      pure { g with upDownFlag := 0, penData := pen }
    else pure g
  else pure g

end DolphinNote
