/-
DolphinNote/Globals.lean

The globals of `wifi.c` and `Screen.c` that the frame handlers work on, under
the source's names, with their power-on values; and the effects of the
interrupt code that are recorded: the array accesses and the calls of the two
frame dispatchers.

All flags are `unsigned char` in the source and stay bytes here.
-/
import DolphinNote.Traced
import DolphinNote.Buffer

namespace DolphinNote

/-- The shared globals. -/
structure Globals where
  wifiDataToSend : Buffer 255
  phoneID : Buffer 16
  boardID : Buffer 2
  phoneIP : Buffer 4
  boardIP : Buffer 4
  wifiDataLen : UInt8
  isFirstConnect : UInt8
  timeBase : UInt32
  upDownFlag : UInt8
  penDataReady : UInt8
  netCompleteFlag : UInt8
  netReconnectFlag : UInt8
  isIdleFlag : UInt8
  meetingEndFlag : UInt8
  timeCheckingFlag : UInt8
  searchingFlag : UInt8
  penData : Buffer 200
  deriving DecidableEq

/-- The initialisers of the source: everything zero but `is_First_connect`. -/
def Globals.powerOn : Globals where
  wifiDataToSend := Buffer.zero 255
  phoneID := Buffer.zero 16
  boardID := Buffer.zero 2
  phoneIP := Buffer.zero 4
  boardIP := Buffer.zero 4
  wifiDataLen := 0
  isFirstConnect := 1
  timeBase := 0
  upDownFlag := 0
  penDataReady := 0
  netCompleteFlag := 0
  netReconnectFlag := 0
  isIdleFlag := 0
  meetingEndFlag := 0
  timeCheckingFlag := 0
  searchingFlag := 0
  penData := Buffer.zero 200

/-- `Bar_code`, which nothing writes. -/
def barCode : Buffer 10 := (Buffer.zero 10).wr 9 0x01

/-! ### Recorded effects -/

/-- The arrays whose accesses are recorded.  `dataBuf` is the frame a
dispatcher was called on. -/
inductive Arr
  | wifiRxBuffer | wifiTxBuffer | usart2RxBuf | screenRxBuffer | screenTxBuffer
  | wifiDataToSend | penData | dataBuf
  deriving DecidableEq, Repr

/-- The declared sizes. -/
def Arr.size : Arr → ℕ
  | .wifiRxBuffer => 50
  | .wifiTxBuffer => 256
  | .usart2RxBuf => 200
  | .screenRxBuffer => 255
  | .screenTxBuffer => 50
  | .wifiDataToSend => 255
  | .penData => 200
  | .dataBuf => 255

/-- An effect: an access of an array at an offset, or the call of a dispatcher
on a buffer and a length. -/
inductive Effect
  | rd (a : Arr) (i : ℕ)
  | wr (a : Arr) (i : ℕ)
  | wifiDataDeal (dataBuf : Buffer 50) (num : UInt8)
  | screenDataAnalize (dataBuf : Buffer 255) (num : UInt8)
  deriving DecidableEq

/-- An access is inside its array. -/
def Effect.InBounds : Effect → Prop
  | .rd a i => i < a.size
  | .wr a i => i < a.size
  | _ => True

/-- What ends a computation without a result: an access outside the array, or
a loop that never stops. -/
inductive Fault
  | outOfBounds (a : Arr) (i : ℕ)
  | diverges
  deriving DecidableEq, Repr

/-- Interrupt code: it may fault and records its effects. -/
abbrev Exec := Traced Fault Effect

/-- `a[i] = x`. -/
def store (a : Arr) {n : ℕ} (v : Buffer n) (i : ℕ) (x : UInt8) : Exec (Buffer n) :=
  if h : i < n then Traced.emit (.wr a i) (v.wr i x h) else Traced.fail (.outOfBounds a i)

/-- The value of `a[i]`. -/
def load (a : Arr) {n : ℕ} (v : Buffer n) (i : ℕ) : Exec UInt8 :=
  if i < n then Traced.emit (.rd a i) (v.rd i) else Traced.fail (.outOfBounds a i)

variable {a : Arr} {n : ℕ} {v : Buffer n} {i : ℕ} {x : UInt8} {A : Effect → Prop}

theorem store_of_lt (h : i < n) : store a v i x = Except.ok (v.wr i x h, [.wr a i]) := by
  unfold store
  rw [dif_pos h]
  rfl

theorem store_of_le (h : n ≤ i) : store a v i x = Except.error (.outOfBounds a i) := by
  unfold store
  rw [dif_neg (Nat.not_lt.mpr h)]
  rfl

theorem load_of_lt (h : i < n) : load a v i = Except.ok (v.rd i, [.rd a i]) := by
  unfold load
  rw [if_pos h]
  rfl

theorem ensures_store {Q : Buffer n → Prop} (h : i < n) (hA : A (.wr a i)) (hQ : Q (v.wr i x h)) :
    Traced.Ensures (store a v i x) A Q :=
  ⟨_, _, store_of_lt h, by simpa using hA, hQ⟩

theorem ensures_load {Q : UInt8 → Prop} (h : i < n) (hA : A (.rd a i)) (hQ : Q (v.rd i)) :
    Traced.Ensures (load a v i) A Q :=
  ⟨_, _, load_of_lt h, by simpa using hA, hQ⟩

theorem only_store (hn : n = a.size) : Traced.Only (store a v i x) Effect.InBounds := by
  subst hn
  unfold store
  split_ifs with h
  · exact .emit h
  · exact .fail

end DolphinNote
