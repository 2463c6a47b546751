/-
DolphinNote/MainLoop.lean

The board as a system of interleaved parts: the main loop
(`cc3200_thread_entry` with the AT routines of `cc3200.c` it calls), the
heartbeat thread (`led_thread_entry`), the key thread, the interrupts.

The main loop runs statement by statement: `Pc` has a constructor for each
statement that reads or writes shared data or asks the module something, named
after it.  Calls of `Uart2_Put_Buf` are one step (`Rounds` takes them apart);
`wifi_ack_send`, called from the main loop, is taken apart into its statements
and the rounds of its checksum loop (`ackStmts`).  The interrupts are whole
activations, as the two ports have the same preemption priority: what they do to
the shared data is a call of `wifi_data_deal` or `Screen_data_analize`, or one
byte taken from the transmit ring (see `Refinement`).

LED sequences, delays and the exchange of AT texts have no effect on the shared
data and are left out; what the module answers is a parameter of the step.
-/
import DolphinNote.ScreenFrames
import DolphinNote.Usart2
import DolphinNote.Transition

namespace DolphinNote

open Transition

/-! ### Control points -/

/-- The calls of `Uart2_Put_Buf` in the main loop. -/
inductive Put
  | search | complete | pen | idle | disconnect | snapshot | time | reconnect
  deriving DecidableEq, Repr

/-- The calls of `wifi_ack_send` in the main loop. -/
inductive Ack
  | disconnect | snapshot | time
  deriving DecidableEq, Repr

/-- Where the main loop stands. -/
inductive Pc
  -- between iterations: in `rt_thread_delay(1)`, and at the `switch`
  | delay | top
  -- state 0, `cc3200_start`
  | cfg | cfgWait | cfgDelay | staip
  -- state 1, `cc3200_set_udpPort`
  | portSock | portOpen | portWait
  -- state 2
  | keyTest | keyClear | reset | resetWait | resetState | searchTest | searchClear | phoneTest
  -- state 3, `cc3200_set_udpIP`
  | ipCopy (i : ℕ) | ipText | ipClose | ipSock | ipOpen | ipWait | ipDone
  -- state 4
  | completeTest
  -- state 5, connected
  | linkTest | penTest | penClear | penUp | idleTest | idleClear | idleBeat
  | netTest | netClear | snpTest | snpClear
  | endTest | endClear | endNet | endFirst | endIP (i : ℕ) | timeTest | timeClear
  -- state 5, disconnected: `cc3200_reconnect`
  | downTest | recTest | recDelay | recClear | recCmp (i : ℕ) | recCopy (j : ℕ) | recSame
  | recText | recClose | recSock | recOpen | recWait | recDone
  -- `Main_Fuction_state = n` at the end of an iteration
  | toState (n : UInt8)
  -- inside `wifi_ack_send`; its `sum` is set before it is read
  | ack (a : Ack) (i : ℕ) (sum : UInt8)
  | put (p : Put)
  deriving DecidableEq, Repr

/-- Where the heartbeat thread stands. -/
inductive LedPc
  | test | load | store (v : UInt8) | cmp | reset | clear
  deriving DecidableEq, Repr

/-- The board. -/
structure Sys where
  g : Globals
  tx : WifiTx
  socketStart : UInt8
  mainFuctionState : UInt8
  pc : Pc
  fKeyState : UInt8
  heartBeatLoseCnt : UInt8
  led : LedPc
  prePhoneIP : Buffer 4
  /-- The octets whose text is in `RT_Phone_IP`. -/
  rtPhoneIP : Buffer 4
  /-- The octets of the address in the last `AT+SOCK` command. -/
  sockIP : Buffer 4
  deriving DecidableEq

/-- Power-on. -/
def Sys.powerOn : Sys where
  g := .powerOn
  tx := .powerOn
  socketStart := 0
  mainFuctionState := 0
  pc := .top
  fKeyState := 0
  heartBeatLoseCnt := 0
  led := .test
  prePhoneIP := Buffer.zero 4
  rtPhoneIP := Buffer.zero 4
  sockIP := Buffer.zero 4

/-! ### Hand-overs and replies of the main loop -/

/-- The length passed to `Uart2_Put_Buf`. -/
def Put.num (g : Globals) : Put → UInt8
  | .search | .complete | .reconnect => 17
  | .pen => UInt8.ofNat (9 + g.wifiDataLen.toNat * 12)
  | .idle | .disconnect | .snapshot => 11
  | .time => 13

/-- Where the main loop goes on. -/
def Put.next : Put → Pc
  | .search => .phoneTest
  | .complete => .toState 5
  | .pen => .idleTest
  | .idle => .netTest
  | .disconnect => .snpTest
  | .snapshot => .endTest
  | .time | .reconnect => .delay

/-- The block handed over: what `wifi_data_to_send` holds, up to the length. -/
def Put.block (g : Globals) (p : Put) : List UInt8 := g.wifiDataToSend.bytes (p.num g).toNat

/-- The code of a reply. -/
def Ack.code : Ack → UInt8
  | .disconnect => 0xA1
  | .snapshot => 0x70
  | .time => 0x74

/-- The hand-over that follows a reply. -/
def Ack.put : Ack → Put
  | .disconnect => .disconnect
  | .snapshot => .snapshot
  | .time => .time

/-- `KEY_net_long_push` -/
def keyNetLongPush : UInt8 := 0x01

/-- `KEY_snp_short_push` -/
def keySnpShortPush : UInt8 := 0x20

/-- The bits the key thread posts. -/
def keyBits : List UInt8 := [0x01, 0x02, 0x04, 0x08, 0x10, 0x20]

/-! ### The main loop -/

/-- Go on elsewhere. -/
def Sys.goto (s : Sys) (pc : Pc) : Sys := { s with pc := pc }

/-- Change the globals and go on. -/
def Sys.assign (s : Sys) (g : Globals) (pc : Pc) : Sys := { s with g := g, pc := pc }

/-- The address the module is told to broadcast to: `Board_IP` with 255 as its
last octet. -/
def radioIP (g : Globals) : Buffer 4 := g.boardIP.wr 3 255

/-- The next statement of the main loop.  `again` is what ends or repeats a
waiting loop (a pin, or the failure of `cc3200_smartcfg`); `staip` is the
address `cc3200_get_staip` obtains, if it does. -/
def mainStep (again : Bool) (staip : Option (Buffer 4)) (s : Sys) : Sys :=
  match s.pc with
  | .delay => s.goto .top
  | .top =>
      s.goto <| match s.mainFuctionState with
        | 0 => .cfg
        | 1 => .portSock
        | 2 => .keyTest
        | 3 => .ipCopy 0
        | 4 => .completeTest
        | 5 => .linkTest
        | _ => .delay
  | .toState n => { s with mainFuctionState := n, pc := .delay }
  -- state 0
  | .cfg => { s with socketStart := 0, pc := .cfgWait }
  | .cfgWait => s.goto (if again then .cfgDelay else .staip)
  | .cfgDelay => s.goto .cfg
  | .staip => s.assign { s.g with boardIP := staip.getD s.g.boardIP } (.toState 1)
  -- state 1
  | .portSock => { s with sockIP := radioIP s.g, pc := .portOpen }
  | .portOpen => { s with socketStart := 1, pc := .portWait }
  | .portWait => s.goto (if again then .portWait else .toState 2)
  -- state 2: there is no `break` behind the reset
  | .keyTest => s.goto (if s.fKeyState &&& keyNetLongPush = keyNetLongPush then .keyClear else .searchTest)
  | .keyClear => { s with fKeyState := 0, pc := .reset }
  | .reset => { s with socketStart := 0, pc := .resetWait }
  | .resetWait => s.goto .resetState
  | .resetState => { s with mainFuctionState := 0, pc := .searchTest }
  | .searchTest => s.goto (if s.g.searchingFlag = 1 then .searchClear else .phoneTest)
  | .searchClear => s.assign { s.g with searchingFlag := 0 } (.put .search)
  | .phoneTest => s.goto (if s.g.phoneIP.rd 0 = 0 then .delay else .toState 3)
  -- state 3
  | .ipCopy i =>
      if h : i < 4 then
        { s with prePhoneIP := s.prePhoneIP.wr i (s.g.phoneIP.rd i), pc := .ipCopy (i + 1) }
      else s.goto .ipText
  | .ipText => { s with rtPhoneIP := s.g.phoneIP, pc := .ipClose }
  | .ipClose => { s with socketStart := 0, pc := .ipSock }
  | .ipSock => { s with sockIP := s.rtPhoneIP, pc := .ipOpen }
  | .ipOpen => { s with socketStart := 1, pc := .ipWait }
  | .ipWait => s.goto (if again then .ipWait else .ipDone)
  | .ipDone => s.assign { s.g with netCompleteFlag := 1 } (.toState 4)
  -- state 4
  | .completeTest => s.goto (if s.g.netCompleteFlag = 1 then .put .complete else .delay)
  -- state 5, connected
  | .linkTest => s.goto (if s.g.netCompleteFlag = 1 then .penTest else .downTest)
  | .penTest => s.goto (if s.g.penDataReady ≠ 0 then .penClear else .idleTest)
  | .penClear => s.assign { s.g with penDataReady := 0 } .penUp
  | .penUp => s.goto (if s.g.upDownFlag ≠ 0 then .put .pen else .idleTest)
  | .idleTest => s.goto (if s.g.isIdleFlag ≠ 0 then .idleClear else .netTest)
  | .idleClear => s.assign { s.g with isIdleFlag := 0 } .idleBeat
  | .idleBeat => { s with heartBeatLoseCnt := 0, pc := .put .idle }
  | .netTest => s.goto (if s.fKeyState &&& keyNetLongPush = keyNetLongPush then .netClear else .snpTest)
  | .netClear => { s with fKeyState := 0, pc := .ack .disconnect 0 0 }
  | .snpTest => s.goto (if s.fKeyState &&& keySnpShortPush = keySnpShortPush then .snpClear else .endTest)
  | .snpClear => { s with fKeyState := 0, pc := .ack .snapshot 0 0 }
  | .endTest => s.goto (if s.g.meetingEndFlag ≠ 0 then .endClear else .timeTest)
  | .endClear => s.assign { s.g with meetingEndFlag := 0 } .endNet
  | .endNet => s.assign { s.g with netCompleteFlag := 0 } .endFirst
  | .endFirst => s.assign { s.g with isFirstConnect := 1 } (.endIP 0)
  | .endIP i =>
      if h : i < 4 then s.assign { s.g with phoneIP := s.g.phoneIP.wr i 0 } (.endIP (i + 1))
      else s.goto (.toState 1)
  | .timeTest => s.goto (if s.g.timeCheckingFlag ≠ 0 then .timeClear else .delay)
  | .timeClear => s.assign { s.g with timeCheckingFlag := 0 } (.ack .time 0 0)
  -- state 5, disconnected; `net_complete_flag == 2` has an empty block
  | .downTest => s.goto (if s.g.netCompleteFlag = 0 then .recTest else .delay)
  | .recTest => s.goto (if s.g.netReconnectFlag ≠ 0 then .recClear else .recDelay)
  | .recDelay => s.goto .recTest
  | .recClear => s.assign { s.g with netReconnectFlag := 0 } (.recCmp 0)
  | .recCmp i =>
      s.goto <| if i < 4 then
          if s.prePhoneIP.rd i ≠ s.g.phoneIP.rd i then .recCopy 0 else .recCmp (i + 1)
        else .recSame
  | .recCopy j =>
      if h : j < 4 then
        { s with prePhoneIP := s.prePhoneIP.wr j (s.g.phoneIP.rd j), pc := .recCopy (j + 1) }
      else s.goto .recText
  | .recSame => s.assign { s.g with netCompleteFlag := 1 } (.put .reconnect)
  | .recText => { s with rtPhoneIP := s.g.phoneIP, pc := .recClose }
  | .recClose => { s with socketStart := 0, pc := .recSock }
  | .recSock => { s with sockIP := s.rtPhoneIP, pc := .recOpen }
  | .recOpen => { s with socketStart := 1, pc := .recWait }
  | .recWait => s.goto (if again then .recWait else .recDone)
  | .recDone => s.assign { s.g with netCompleteFlag := 1 } (.put .reconnect)
  -- the calls
  | .ack a i sum =>
      match (ackStmts a.code 0)[i]? with
      | some f =>
          let (g, sum) := f (s.g, sum)
          s.assign g (.ack a (i + 1) sum)
      | none => s.goto (.put a.put)
  | .put p => { s with tx := uart2PutBuf s.tx s.g.wifiDataToSend (p.num s.g), pc := p.next }

/-! ### The heartbeat thread -/

/-- The next statement of the heartbeat thread. -/
def ledStep (s : Sys) : Sys :=
  match s.led with
  | .test => { s with led := if s.g.netCompleteFlag ≠ 0 then .load else .test }
  | .load => { s with led := .store s.heartBeatLoseCnt }
  | .store v => { s with heartBeatLoseCnt := v + 1, led := .cmp }
  | .cmp => { s with led := if 4 ≤ s.heartBeatLoseCnt then .reset else .test }
  | .reset => { s with heartBeatLoseCnt := 0, led := .clear }
  | .clear => { s with g := { s.g with netCompleteFlag := 0 }, led := .test }

/-! ### Steps -/

/-- What can happen. -/
inductive Event
  | main (again : Bool) (staip : Option (Buffer 4))
  | led
  | key (bit : UInt8)
  | phone (dataBuf : Buffer 50) (num : UInt8)
  | screen (dataBuf : Buffer 255) (num : UInt8)
  | transmit
  | tick
  deriving DecidableEq

instance (dataBuf : Buffer 255) (num : UInt8) : Decidable (ScreenFrame dataBuf num) :=
  decidable_of_iff (dataBuf.rd 0 = 0x68 ∧ 1 ≤ (dataBuf.rd 1).toNat ∧ (dataBuf.rd 1).toNat < 50 ∧
      num.toNat = (dataBuf.rd 1).toNat + 2)
    ⟨fun ⟨h0, h1, h2, h3⟩ => ⟨h0, h1, h2, h3⟩, fun h => ⟨h.head, h.pos, h.lt, h.num⟩⟩

/-- One step.  Phone frames are dispatched and the ring is drained only while
`socket_start` is 1; `time_base` counts in `SysTick_Handler`. -/
def step (s : Sys) : Event → Option Sys
  | .main again staip => some (mainStep again staip s)
  | .led => some (ledStep s)
  | .key bit => if bit ∈ keyBits then some { s with fKeyState := s.fKeyState ||| bit } else none
  | .phone dataBuf num =>
      if s.socketStart = 1 then some { s with g := wifiDataDeal s.g dataBuf num } else none
  | .screen dataBuf num =>
      if ScreenFrame dataBuf num then
        (screenDataAnalize s.g dataBuf num).result?.map fun g => { s with g := g }
      else none
  | .transmit =>
      if s.socketStart = 1 ∧ s.tx.txeie = true then some { s with tx := s.tx.transmit true }
      else none
  | .tick => some { s with g := { s.g with timeBase := s.g.timeBase + 1 } }

/-- What one event does, event by event. -/
inductive Steps (s : Sys) : Event → Sys → Prop
  | main (again : Bool) (staip : Option (Buffer 4)) :
      Steps s (.main again staip) (mainStep again staip s)
  | led : Steps s .led (ledStep s)
  | key {bit : UInt8} : bit ∈ keyBits → Steps s (.key bit) { s with fKeyState := s.fKeyState ||| bit }
  | phone {dataBuf : Buffer 50} {num : UInt8} {g' : Globals} : s.socketStart = 1 →
      g' = wifiDataDeal s.g dataBuf num → Dealt s.g dataBuf g' →
      Steps s (.phone dataBuf num) { s with g := g' }
  | screen {dataBuf : Buffer 255} {num : UInt8} {g' : Globals} : ScreenFrame dataBuf num →
      Analized s.g dataBuf g' → Steps s (.screen dataBuf num) { s with g := g' }
  | transmit : s.socketStart = 1 → s.tx.txeie = true →
      Steps s .transmit { s with tx := s.tx.transmit true }
  | tick : Steps s .tick { s with g := { s.g with timeBase := s.g.timeBase + 1 } }

theorem steps_of_step {s s' : Sys} {e : Event} (h : step s e = some s') : Steps s e s' := by
  cases e with
  | main again staip =>
      obtain rfl := Option.some.inj h
      exact .main again staip
  | led =>
      obtain rfl := Option.some.inj h
      exact .led
  | key bit =>
      simp only [step] at h
      split_ifs at h with hbit
      obtain rfl := Option.some.inj h
      exact .key hbit
  | phone dataBuf num =>
      simp only [step] at h
      split_ifs at h with hsock
      obtain rfl := Option.some.inj h
      exact .phone hsock rfl (wifiDataDeal_dealt s.g dataBuf num)
  | screen dataBuf num =>
      simp only [step] at h
      split_ifs at h with hframe
      obtain ⟨g', hg, rfl⟩ := Option.map_eq_some_iff.mp h
      obtain ⟨l, hl⟩ := Traced.result?_eq_some.mp hg
      exact .screen hframe ((screenDataAnalize_spec hframe).post hl).2
  | transmit =>
      simp only [step] at h
      split_ifs at h with hready
      obtain rfl := Option.some.inj h
      exact .transmit hready.1 hready.2
  | tick =>
      obtain rfl := Option.some.inj h
      exact .tick

/-! ### Sample events -/

/-- The main loop takes its next statement; nothing is waited for. -/
def Event.next : Event := .main false none

/-- A sealed request of the phone with the ID `x, 0, 0, …` and the address
192.168.1.2, whose bar code ends in `c`. -/
def request (code x c : UInt8) : Buffer 50 :=
  let buf := (((((((((Buffer.zero 50).wr 0 0xFA).wr 1 0x0A).wr 2 code).wr 5 0x1E).wr 7 192).wr 8
    168).wr 9 1).wr 10 2).wr 11 x
  let buf := buf.wr 36 c
  (buf.wr 37 (buf.sumTo 37)).wr 38 0xED

/-- A heartbeat of the phone. -/
def heartbeat : Buffer 50 :=
  (((((Buffer.zero 50).wr 0 0xFA).wr 1 0x0A).wr 2 0xA9).wr 7 0xAD).wr 8 0xED

/-- A touch of the pen: one point, with the coordinate byte `x`. -/
def touch (x : UInt8) : Buffer 255 :=
  .tabulate 255 fun i => [0x68, 12, 0x02, 0x07, 0, x].getD i 0

/-- The end of the meeting. -/
def meetingEnd : Buffer 50 := heartbeat.wr 2 0xA1

/-- The paired phone's request, with another address. -/
def moved : Buffer 50 := (request 0x75 1 1).wr 10 3

/-- A phone is paired with, and the main loop enters state 5. -/
def opened : List Event :=
  List.replicate 9 .next ++ .phone (request 0x75 1 1) 39 :: List.replicate 27 .next

end DolphinNote
