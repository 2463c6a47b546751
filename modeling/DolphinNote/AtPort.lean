/-
DolphinNote/AtPort.lean

The reply buffer under every interleaving: `USART2_IRQHandler` with `socket_start` 0,
`TIM7_IRQHandler`, `cc3200_check_cmd` and `cc3200_send_cmd`, one access to
`USART2_RX_STA` after another.

TIM7 has the highest priority, so that it may expire between any two accesses of the
handler, and the handler runs between any two accesses of the thread.

* `uninterrupted_receive`, `uninterrupted_check` — the handler and the check without
  interruption are `AtRx.receive` and `cc3200CheckCmd`.
* `InBuffer` — what is written is in the buffer, what is searched ends in it.
* `Fits` — a reply that is terminated has fewer than 200 bytes, and no byte is stored
  for which TIM7 has expired behind the test of the length.
* `in_buffer_iff` — a run is safe exactly if it fits.
-/
import DolphinNote.AtCommand
import DolphinNote.History

namespace DolphinNote

open Transition CString

/-! ### Program counters -/

/-- Where the handler is: in front of the access named, with the byte received and what
has been read of `USART2_RX_STA`. -/
inductive HandlerPc
  | idle
  | flag (res : UInt8)
  | room (res : UInt8)
  | first (res : UInt8)
  | enable (res : UInt8)
  | fetch (res : UInt8)
  | bump (res : UInt8) (sta : UInt16)
  | put (res : UInt8) (sta : UInt16)
  | full
  | mark (sta : UInt16)
  deriving DecidableEq, Repr

/-- A call of `cc3200_send_cmd` that waits for its acknowledgement. -/
structure Waiting where
  ack : List UInt8
  waittime : UInt16
  deriving DecidableEq, Repr

/-- Where the thread is.  `cc3200_check_cmd` has been called on its own, or by a call
of `cc3200_send_cmd`. -/
inductive ThreadPc
  | idle
  | clear (ack : Option (List UInt8)) (waittime : UInt16)
  | loop (w : Waiting)
  | poll (w : Waiting)
  | test (str : List UInt8) (caller : Option Waiting)
  | index (str : List UInt8) (caller : Option Waiting)
  | terminate (i : UInt16) (str : List UInt8) (caller : Option Waiting)
  | search (str : List UInt8) (caller : Option Waiting)
  | discard (w : Waiting)
  deriving DecidableEq, Repr

/-- The buffer and its status, whether TIM7 runs, the handler and the thread. -/
structure AtPort where
  rx : AtRx
  tim7 : Bool
  irq : HandlerPc
  thread : ThreadPc
  deriving DecidableEq

/-- The port behind `usart2_init`. -/
def AtPort.init : AtPort where
  rx := .powerOn
  tim7 := false
  irq := .idle
  thread := .idle

/-! ### Steps -/

/-- `USART2_RX_BUF[i]=x`; behind the array the byte goes elsewhere. -/
def AtRx.put (t : AtRx) (i : UInt16) (x : UInt8) : AtRx :=
  if h : i.toNat < 200 then { t with usart2RxBuf := t.usart2RxBuf.wr i.toNat x h } else t

/-- The next access of `USART2_IRQHandler`. -/
def AtPort.handler (s : AtPort) : Option AtPort :=
  match s.irq with
  | .idle => none
  | .flag res => some { s with irq := if s.rx.usart2RxSta &&& 0x8000 = 0 then .room res else .idle }
  | .room res => some { s with irq := if s.rx.usart2RxSta < 200 then .first res else .full }
  | .first res => some { s with irq := if s.rx.usart2RxSta = 0 then .enable res else .fetch res }
  | .enable res => some { s with tim7 := true, irq := .fetch res }
  | .fetch res => some { s with irq := .bump res s.rx.usart2RxSta }
  | .bump res sta =>
      some { s with rx := { s.rx with usart2RxSta := sta + 1 }, irq := .put res sta }
  | .put res sta => some { s with rx := s.rx.put sta res, irq := .idle }
  | .full => some { s with irq := .mark s.rx.usart2RxSta }
  | .mark sta => some { s with rx := { s.rx with usart2RxSta := sta ||| 0x8000 }, irq := .idle }

/-- Behind a failed `cc3200_check_cmd`. -/
def ThreadPc.missed : Option Waiting → ThreadPc
  | none => .idle
  | some w => .discard w

/-- The next access of the thread. -/
def AtPort.run (s : AtPort) : Option AtPort :=
  match s.thread with
  | .idle => none
  | .clear ack waittime =>
      some { s with rx := s.rx.clear
                    thread := match ack with
                      | some ack => if waittime ≠ 0 then .loop { ack, waittime } else .idle
                      | none => .idle }
  | .loop w =>
      some { s with thread := if w.waittime - 1 = 0 then .idle
                              else .poll { w with waittime := w.waittime - 1 } }
  | .poll w =>
      some { s with thread := if s.rx.usart2RxSta &&& 0x8000 ≠ 0 then .test w.ack (some w)
                              else .loop w }
  | .test str caller =>
      some { s with thread := if s.rx.usart2RxSta &&& 0x8000 ≠ 0 then .index str caller
                              else .missed caller }
  | .index str caller =>
      some { s with thread := .terminate (s.rx.usart2RxSta &&& 0x7FFF) str caller }
  | .terminate i str caller => some { s with rx := s.rx.put i 0, thread := .search str caller }
  | .search str caller =>
      some { s with thread := match strstr str (cstring s.rx.usart2RxBuf 0) with
                      | some _ => .idle
                      | none => .missed caller }
  | .discard w => some { s with rx := s.rx.clear, thread := .loop w }

/-- A byte is received, the handler or the thread makes an access, TIM7 expires, or
one of the two functions is called. -/
inductive PortEvent
  | byte (res : UInt8)
  | handler
  | timeout
  | send (ack : Option (List UInt8)) (waittime : UInt16)
  | check (str : List UInt8)
  | thread
  deriving DecidableEq, Repr

/-- The port.  The thread runs only while the handler does not. -/
def AtPort.step (s : AtPort) : PortEvent → Option AtPort
  | .byte res => if s.irq = .idle then some { s with irq := .flag res } else none
  | .handler => s.handler
  | .timeout => if s.tim7 then some { s with rx := tim7IRQHandler s.rx, tim7 := false } else none
  | .send ack waittime =>
      if s.irq = .idle ∧ s.thread = .idle then some { s with thread := .clear ack waittime } else none
  | .check str =>
      if s.irq = .idle ∧ s.thread = .idle then some { s with thread := .test str none } else none
  | .thread => if s.irq = .idle then s.run else none

/-! ### Without interruption -/

/-- The handler without interruption. -/
theorem uninterrupted_receive {s : AtPort} (hidle : s.irq = .idle) (res : UInt8) :
    ∃ k t, exec AtPort.step s (.byte res :: List.replicate k .handler) = some t ∧
      t.irq = .idle ∧ t.thread = s.thread ∧ (s.rx.receive res).result? = some t.rx := by
  obtain ⟨rx, tim7, irq, thread⟩ := s
  obtain rfl : irq = .idle := hidle
  by_cases hflag : rx.usart2RxSta &&& 0x8000 = 0
  · by_cases hroom : rx.usart2RxSta < 200
    · -- the byte is recorded
      have hlt : rx.usart2RxSta.toNat < 200 := UInt16.lt_iff_toNat_lt.mp hroom
      obtain ⟨rx', hput⟩ :
          ∃ rx', AtRx.put { rx with usart2RxSta := rx.usart2RxSta + 1 } rx.usart2RxSta res = rx' :=
        ⟨_, rfl⟩
      have hres : (rx.receive res).result? = some rx' := by
        rw [← hput, AtRx.receive, if_pos hflag, if_pos hroom, store_of_lt hlt, AtRx.put, dif_pos hlt]
        rfl
      by_cases hzero : rx.usart2RxSta = 0
      · refine ⟨7, ⟨rx', true, .idle, thread⟩, ?_, rfl, rfl, hres⟩
        simpa [exec, AtPort.step, AtPort.handler, List.replicate_succ, hzero] using hput
      · refine ⟨6, ⟨rx', tim7, .idle, thread⟩, ?_, rfl, rfl, hres⟩
        simpa [exec, AtPort.step, AtPort.handler, List.replicate_succ, hflag, hroom, hzero]
          using hput
    · -- the buffer is full
      refine ⟨4, ⟨{ rx with usart2RxSta := rx.usart2RxSta ||| 0x8000 }, tim7, .idle, thread⟩, ?_,
        rfl, rfl, ?_⟩
      · simp [exec, AtPort.step, AtPort.handler, List.replicate_succ, hflag, hroom]
      · rw [AtRx.receive, if_pos hflag, if_neg hroom]
        rfl
  · refine ⟨1, ⟨rx, tim7, .idle, thread⟩, ?_, rfl, rfl, ?_⟩
    · simp [exec, AtPort.step, AtPort.handler, hflag]
    · rw [AtRx.receive, if_neg hflag]
      rfl

/-- The check without interruption, where the reply fits. -/
theorem uninterrupted_check {s : AtPort} (hirq : s.irq = .idle) (hidle : s.thread = .idle)
    (hfits : (s.rx.usart2RxSta &&& 0x7FFF).toNat < 200) (str : List UInt8) :
    ∃ k t found, exec AtPort.step s (.check str :: List.replicate k .thread) = some t ∧
      t.irq = .idle ∧ t.thread = .idle ∧
      (cc3200CheckCmd s.rx str).result? = some (t.rx, found) := by
  obtain ⟨rx, tim7, irq, thread⟩ := s
  obtain rfl : irq = .idle := hirq
  obtain rfl : thread = .idle := hidle
  by_cases hflag : rx.usart2RxSta &&& 0x8000 = 0
  · refine ⟨1, ⟨rx, tim7, .idle, .idle⟩, none, ?_, rfl, rfl, ?_⟩
    · simp [exec, AtPort.step, AtPort.run, ThreadPc.missed, hflag]
    · rw [cc3200CheckCmd, if_neg (not_not.mpr hflag)]
      rfl
  · have hres : (cc3200CheckCmd rx str).result? = some
        (rx.put (rx.usart2RxSta &&& 0x7FFF) 0,
          strstr str (cstring (rx.put (rx.usart2RxSta &&& 0x7FFF) 0).usart2RxBuf 0)) := by
      rw [cc3200CheckCmd, if_pos hflag, store_of_lt hfits, AtRx.put, dif_pos hfits]
      rfl
    refine ⟨4, ⟨rx.put (rx.usart2RxSta &&& 0x7FFF) 0, tim7, .idle, .idle⟩, _, ?_, rfl, rfl, hres⟩
    · have hends : ∀ o : Option ℕ, (match o with
          | some _ => ThreadPc.idle
          | none => ThreadPc.missed none) = .idle := by
        rintro (_ | _) <;> rfl
      simp [exec, AtPort.step, AtPort.run, List.replicate_succ, hflag, hends]

/-! ### Safety -/

/-- The byte stored, the terminator stored, and the end of the string searched are in
the buffer. -/
def InBuffer (s : AtPort) : PortEvent → Prop
  | .handler => match s.irq with
      | .put _ sta => sta.toNat < 200
      | _ => True
  | .thread => match s.thread with
      | .terminate i _ _ => i.toNat < 200
      | .search _ _ => ∃ i < 200, s.rx.usart2RxBuf.rd i = 0
      | _ => True
  | _ => True

/-- A byte is recorded: `USART2_RX_STA++`. -/
def records (t : Taken AtPort PortEvent) : Bool :=
  match t.label, t.before.irq with
  | .handler, .bump _ _ => true
  | _, _ => false

/-- The thread clears `USART2_RX_STA`. -/
def clears (t : Taken AtPort PortEvent) : Bool :=
  match t.label, t.before.thread with
  | .thread, .clear _ _ => true
  | .thread, .discard _ => true
  | _, _ => false

/-- The handler compares the length with the size of the buffer. -/
def compares (t : Taken AtPort PortEvent) : Bool :=
  match t.label, t.before.irq with
  | .handler, .room _ => true
  | _, _ => false

/-- The accesses behind that test up to the second reading of the length. -/
def HandlerPc.tested : HandlerPc → Bool
  | .first _ => true
  | .enable _ => true
  | .fetch _ => true
  | _ => false

/-- TIM7 expires behind the test. -/
def expires (t : Taken AtPort PortEvent) : Bool := t.label = .timeout ∧ t.before.irq.tested

/-- The bytes recorded since the length was cleared. -/
def recorded (h : List (Taken AtPort PortEvent)) : ℕ :=
  countSince (fun t => records t = true) (fun t => clears t = true) h

/-- How often TIM7 has expired since the last test of the length. -/
def expired (h : List (Taken AtPort PortEvent)) : ℕ :=
  countSince (fun t => expires t = true) (fun t => compares t = true) h

/-- A reply that is terminated is shorter than the buffer, and TIM7 has not expired
between the test of the length and its use. -/
def Fits (h : List (Taken AtPort PortEvent)) (s : AtPort) : PortEvent → Prop
  | .handler => match s.irq with
      | .put _ _ => expired h = 0
      | _ => True
  | .thread => match s.thread with
      | .terminate _ _ _ => recorded h < 200
      | _ => True
  | _ => True

/-! ### The invariant -/

section Invariant

variable {h : List (Taken AtPort PortEvent)} {s s' : AtPort} {rx rx' : AtRx} {irq irq' : HandlerPc}
  {thread : ThreadPc} {n : ℕ}

/-- What the handler has tested and read, if TIM7 has expired `n` times since the test:
the length it has read is below 200, and the flag is set exactly if it has. -/
def HandlerPc.Knows (sta : UInt16) (n : ℕ) : HandlerPc → Prop
  | .first _ => sta.toNat % 32768 < 200 ∧ (n = 0 ↔ sta.toNat < 32768)
  | .enable _ => sta.toNat % 32768 < 200 ∧ (n = 0 ↔ sta.toNat < 32768)
  | .fetch _ => sta.toNat % 32768 < 200 ∧ (n = 0 ↔ sta.toNat < 32768)
  | .bump _ r => sta.toNat % 32768 = r.toNat % 32768 ∧ r.toNat % 32768 < 200 ∧
      (n = 0 ↔ r.toNat < 32768)
  | .put _ r => r.toNat % 32768 < 200 ∧ (n = 0 ↔ r.toNat < 32768)
  | .mark r => sta.toNat % 32768 = r.toNat % 32768
  | _ => True

/-- The flag is set, and the handler does not get beyond its test. -/
def Shut (sta : UInt16) (irq : HandlerPc) : Prop :=
  32768 ≤ sta.toNat ∧ (irq = .idle ∨ ∃ res, irq = .flag res)

/-- What the thread has tested, read and written. -/
def ThreadPc.Knows (rx : AtRx) (irq : HandlerPc) : ThreadPc → Prop
  | .index _ _ => Shut rx.usart2RxSta irq
  | .terminate i _ _ => Shut rx.usart2RxSta irq ∧ i.toNat = rx.usart2RxSta.toNat % 32768
  | .search _ _ => Shut rx.usart2RxSta irq ∧ ∃ i < 200, rx.usart2RxBuf.rd i = 0
  | _ => True

/-- The length counts the bytes recorded; what the handler and the thread know is so. -/
structure AtPort.Kept (h : List (Taken AtPort PortEvent)) (s : AtPort) : Prop where
  num : s.rx.usart2RxSta.toNat % 32768 = recorded h
  le : recorded h ≤ 200
  irq : s.irq.Knows s.rx.usart2RxSta (expired h)
  thread : s.thread.Knows s.rx s.irq

theorem kept_init : AtPort.Kept [] .init :=
  ⟨rfl, Nat.zero_le _, trivial, trivial⟩

/-- While the handler is at work, the thread knows nothing that the handler changes. -/
theorem ThreadPc.Knows.busy (hk : thread.Knows rx irq) (hidle : irq ≠ .idle)
    (hflag : ∀ res, irq ≠ .flag res) (rx' : AtRx) (irq' : HandlerPc) : thread.Knows rx' irq' := by
  have hshut : ¬ Shut rx.usart2RxSta irq := by
    rintro ⟨-, h | ⟨res, h⟩⟩
    · exact hidle h
    · exact hflag res h
  cases thread with
  | index => exact absurd hk hshut
  | terminate => exact absurd hk.1 hshut
  | search => exact absurd hk.1 hshut
  | _ => trivial

/-- The thread knows what it does as long as the buffer, the length and the flag stay. -/
theorem ThreadPc.Knows.mono (hk : thread.Knows rx irq) (hbuf : rx'.usart2RxBuf = rx.usart2RxBuf)
    (hnum : rx'.usart2RxSta.toNat % 32768 = rx.usart2RxSta.toNat % 32768)
    (hshut : Shut rx.usart2RxSta irq → Shut rx'.usart2RxSta irq') : thread.Knows rx' irq' := by
  cases thread with
  | index => exact hshut hk
  | terminate => exact ⟨hshut hk.1, hk.2.trans hnum.symm⟩
  | search => exact ⟨hshut hk.1, hbuf ▸ hk.2⟩
  | _ => trivial

/-! ### Steps of the handler -/

/-- A step that neither records nor clears keeps the number. -/
theorem recorded_other {t : Taken AtPort PortEvent} (hc : clears t = false)
    (hr : records t = false) : recorded (t :: h) = recorded h :=
  countSince_other (by rw [hc]; decide) (by rw [hr]; decide)

theorem expired_other {t : Taken AtPort PortEvent} (hc : compares t = false)
    (he : expires t = false) : expired (t :: h) = expired h :=
  countSince_other (by rw [hc]; decide) (by rw [he]; decide)

/-- A step that records nothing. -/
theorem AtPort.Kept.other {t : Taken AtPort PortEvent} (hk : s.Kept h)
    (hc : clears t = false) (hr : records t = false)
    (hnum : s'.rx.usart2RxSta.toNat % 32768 = s.rx.usart2RxSta.toNat % 32768)
    (hirq : s'.irq.Knows s'.rx.usart2RxSta (expired (t :: h)))
    (hthread : s'.thread.Knows s'.rx s'.irq) : s'.Kept (t :: h) where
  num := (hnum.trans hk.num).trans (recorded_other hc hr).symm
  le := (recorded_other hc hr).trans_le hk.le
  irq := hirq
  thread := hthread

theorem put_sta (rx : AtRx) (i : UInt16) (x : UInt8) : (rx.put i x).usart2RxSta = rx.usart2RxSta := by
  unfold AtRx.put
  split_ifs <;> rfl

theorem kept_handler (hk : s.Kept h) (hs : s.handler = some s') :
    s'.Kept (⟨s, .handler, s'⟩ :: h) := by
  obtain ⟨rx, tim7, irq, thread⟩ := s
  have hnum := hk.num
  have hirq := hk.irq
  have hthread := hk.thread
  dsimp only at hnum hirq hthread
  cases irq with
  | idle => cases hs
  | flag res =>
      obtain rfl := Option.some.inj hs
      refine hk.other rfl rfl rfl ?_ (hthread.mono rfl rfl fun hshut => ⟨hshut.1, .inl ?_⟩)
      · show HandlerPc.Knows _ _ (if _ then _ else _)
        split_ifs <;> trivial
      · refine if_neg ?_
        rw [flag_eq_zero_iff]
        exact Nat.not_lt.mpr hshut.1
  | room res =>
      obtain rfl := Option.some.inj hs
      have hreset (t : AtPort) : expired (⟨⟨rx, tim7, .room res, thread⟩, .handler, t⟩ :: h) = 0 :=
        countSince_reset rfl
      refine hk.other rfl rfl rfl ?_ (hthread.busy nofun nofun _ _)
      rw [hreset]
      show HandlerPc.Knows _ _ (if _ then _ else _)
      split_ifs with hroom
      · have hlt : rx.usart2RxSta.toNat < 200 := UInt16.lt_iff_toNat_lt.mp hroom
        exact ⟨(Nat.mod_le _ _).trans_lt hlt, iff_of_true rfl (hlt.trans (by decide))⟩
      · trivial
  | first res =>
      obtain rfl := Option.some.inj hs
      refine hk.other rfl rfl rfl ?_ (hthread.busy nofun nofun _ _)
      rw [expired_other rfl rfl]
      show HandlerPc.Knows _ _ (if _ then _ else _)
      split_ifs
      · exact hirq
      · exact hirq
  | enable res =>
      obtain rfl := Option.some.inj hs
      refine hk.other rfl rfl rfl ?_ (hthread.busy nofun nofun _ _)
      rw [expired_other rfl rfl]
      exact hirq
  | fetch res =>
      obtain rfl := Option.some.inj hs
      refine hk.other rfl rfl rfl ?_ (hthread.busy nofun nofun _ _)
      rw [expired_other rfl rfl]
      exact ⟨rfl, hirq⟩
  | bump res r =>
      obtain rfl := Option.some.inj hs
      obtain ⟨hsame, hlt, hclear⟩ := hirq
      have htick (t : AtPort) :
          recorded (⟨⟨rx, tim7, .bump res r, thread⟩, .handler, t⟩ :: h) = recorded h + 1 :=
        countSince_tick Bool.false_ne_true rfl
      -- the length read is below 200: its successor has no carry into the flag
      have hnext : (r + 1).toNat % 32768 = r.toNat % 32768 + 1 := by
        rw [UInt16.toNat_add]
        show (r.toNat + 1) % 65536 % 32768 = _
        omega
      refine ⟨?_, ?_, ?_, hthread.busy nofun nofun _ _⟩
      · rw [htick, ← hnum, hsame]
        exact hnext
      · rw [htick, ← hnum, hsame]
        exact hlt
      · rw [expired_other rfl rfl]
        exact ⟨hlt, hclear⟩
  | put res r =>
      obtain rfl := Option.some.inj hs
      refine hk.other rfl rfl ?_ trivial (hthread.busy nofun nofun _ _)
      show (rx.put r res).usart2RxSta.toNat % 32768 = _
      rw [put_sta]
  | full =>
      obtain rfl := Option.some.inj hs
      exact hk.other rfl rfl rfl rfl (hthread.busy nofun nofun _ _)
  | mark r =>
      obtain rfl := Option.some.inj hs
      refine hk.other rfl rfl ?_ trivial (hthread.busy nofun nofun _ _)
      show (r ||| 0x8000).toNat % 32768 = rx.usart2RxSta.toNat % 32768
      rw [toNat_flagged, show rx.usart2RxSta.toNat % 32768 = r.toNat % 32768 from hirq]
      omega

/-! ### Steps of TIM7 and of the thread -/

/-- The flag is set with the length as it is; a handler behind its test knows of one
more expiry. -/
theorem HandlerPc.Knows.flagged {sta sta' : UInt16} {n' : ℕ} (hk : irq.Knows sta n)
    (hnum : sta'.toNat % 32768 = sta.toNat % 32768) (hset : 32768 ≤ sta'.toNat)
    (hn : n' = if irq.tested then n + 1 else n) : irq.Knows sta' n' := by
  have htested : irq.tested = true → sta.toNat % 32768 < 200 →
      sta'.toNat % 32768 < 200 ∧ (n' = 0 ↔ sta'.toNat < 32768) := by
    intro ht hlt
    rw [ht, if_pos rfl] at hn
    exact ⟨hnum.trans_lt hlt, iff_of_false (hn ▸ Nat.succ_ne_zero n) (Nat.not_lt.mpr hset)⟩
  cases irq with
  | first res => exact htested rfl hk.1
  | enable res => exact htested rfl hk.1
  | fetch res => exact htested rfl hk.1
  | bump res r =>
      obtain rfl : n' = n := hn
      exact ⟨hnum.trans hk.1, hk.2⟩
  | put res r =>
      obtain rfl : n' = n := hn
      exact hk
  | mark r => exact hnum.trans hk
  | _ => trivial

theorem kept_timeout (hk : s.Kept h) :
    AtPort.Kept (⟨s, .timeout, { s with rx := tim7IRQHandler s.rx, tim7 := false }⟩ :: h)
      { s with rx := tim7IRQHandler s.rx, tim7 := false } := by
  have hflagged := toNat_flagged s.rx.usart2RxSta
  have hnum : (tim7IRQHandler s.rx).usart2RxSta.toNat % 32768 = s.rx.usart2RxSta.toNat % 32768 := by
    rw [tim7IRQHandler, hflagged]
    omega
  have hset : 32768 ≤ (tim7IRQHandler s.rx).usart2RxSta.toNat :=
    (Nat.le_add_left _ _).trans_eq hflagged.symm
  refine hk.other rfl rfl hnum (hk.irq.flagged hnum hset ?_)
    (hk.thread.mono rfl hnum fun hshut => ⟨hset, hshut.2⟩)
  cases ht : s.irq.tested with
  | true =>
      rw [if_pos rfl]
      exact countSince_tick Bool.false_ne_true (decide_eq_true ⟨rfl, ht⟩)
  | false =>
      exact expired_other rfl (decide_eq_false fun hand => absurd (ht.symm.trans hand.2) (by decide))

/-- A terminator is put where the bytes recorded end. -/
theorem put_terminates {i : UInt16} (hi : i.toNat < 200) :
    ∃ k < 200, (rx.put i 0).usart2RxBuf.rd k = 0 := by
  refine ⟨i.toNat, hi, ?_⟩
  rw [AtRx.put, dif_pos hi]
  exact Buffer.rd_wr_self rx.usart2RxBuf i.toNat 0 hi

theorem kept_thread (hk : s.Kept h) (hfits : Fits h s .thread) (hidle : s.irq = .idle)
    (hs : s.run = some s') : s'.Kept (⟨s, .thread, s'⟩ :: h) := by
  obtain ⟨rx, tim7, irq, thread⟩ := s
  obtain rfl : irq = .idle := hidle
  have hthread := hk.thread
  -- the thread clears the length, or leaves it alone
  have hcleared (t : AtPort) (thread' : ThreadPc) (hknows : thread'.Knows rx.clear .idle)
      (ht : clears ⟨⟨rx, tim7, .idle, thread⟩, .thread, t⟩ = true) :
      AtPort.Kept (⟨⟨rx, tim7, .idle, thread⟩, .thread, t⟩ :: h) ⟨rx.clear, tim7, .idle, thread'⟩ := by
    have hzero : recorded (⟨⟨rx, tim7, .idle, thread⟩, .thread, t⟩ :: h) = 0 := countSince_reset ht
    exact ⟨hzero.symm, hzero.trans_le (Nat.zero_le _), trivial, hknows⟩
  cases thread with
  | idle => cases hs
  | clear ack waittime =>
      obtain rfl := Option.some.inj hs
      refine hcleared _ _ ?_ rfl
      cases ack with
      | none => trivial
      | some ack =>
          show ThreadPc.Knows _ _ (if _ then _ else _)
          split_ifs <;> trivial
  | loop w =>
      obtain rfl := Option.some.inj hs
      refine hk.other rfl rfl rfl trivial ?_
      show ThreadPc.Knows _ _ (if _ then _ else _)
      split_ifs <;> trivial
  | poll w =>
      obtain rfl := Option.some.inj hs
      refine hk.other rfl rfl rfl trivial ?_
      show ThreadPc.Knows _ _ (if _ then _ else _)
      split_ifs <;> trivial
  | test str caller =>
      obtain rfl := Option.some.inj hs
      refine hk.other rfl rfl rfl trivial ?_
      show ThreadPc.Knows _ _ (if _ then _ else _)
      split_ifs with hflag
      · rw [ne_eq, flag_eq_zero_iff, not_lt] at hflag
        exact ⟨hflag, .inl rfl⟩
      · cases caller <;> trivial
  | index str caller =>
      obtain rfl := Option.some.inj hs
      exact hk.other rfl rfl rfl trivial ⟨hthread, toNat_length _⟩
  | terminate i str caller =>
      obtain rfl := Option.some.inj hs
      obtain ⟨hshut, hi⟩ := hthread
      have hlt : i.toNat < 200 := by
        rw [hi]
        exact hk.num.trans_lt hfits
      refine hk.other rfl rfl ?_ trivial ⟨?_, put_terminates hlt⟩
      · show (rx.put i 0).usart2RxSta.toNat % 32768 = _
        rw [put_sta]
      · show Shut (rx.put i 0).usart2RxSta _
        rw [put_sta]
        exact hshut
  | search str caller =>
      obtain rfl := Option.some.inj hs
      refine hk.other rfl rfl rfl trivial ?_
      cases strstr str (cstring rx.usart2RxBuf 0) with
      | some i => trivial
      | none => cases caller <;> trivial
  | discard w =>
      obtain rfl := Option.some.inj hs
      exact hcleared _ _ trivial rfl

/-! ### Runs -/

/-- **One step.** -/
theorem AtPort.Kept.step {e : PortEvent} (hk : s.Kept h) (hfits : Fits h s e)
    (hs : s.step e = some s') : s'.Kept (⟨s, e, s'⟩ :: h) := by
  cases e with
  | byte res =>
      obtain ⟨hidle, hs'⟩ := Option.ite_none_right_eq_some.mp hs
      obtain rfl := Option.some.inj hs'
      exact hk.other rfl rfl rfl trivial
        (hk.thread.mono rfl rfl fun hshut => ⟨hshut.1, .inr ⟨res, rfl⟩⟩)
  | handler => exact kept_handler hk hs
  | timeout =>
      obtain ⟨-, hs'⟩ := Option.ite_none_right_eq_some.mp hs
      obtain rfl := Option.some.inj hs'
      exact kept_timeout hk
  | send ack waittime =>
      obtain ⟨-, hs'⟩ := Option.ite_none_right_eq_some.mp hs
      obtain rfl := Option.some.inj hs'
      refine hk.other rfl rfl rfl ?_ trivial
      rw [expired_other rfl rfl]
      exact hk.irq
  | check str =>
      obtain ⟨-, hs'⟩ := Option.ite_none_right_eq_some.mp hs
      obtain rfl := Option.some.inj hs'
      refine hk.other rfl rfl rfl ?_ trivial
      rw [expired_other rfl rfl]
      exact hk.irq
  | thread =>
      obtain ⟨hidle, hs'⟩ := Option.ite_none_right_eq_some.mp hs
      exact kept_thread hk hfits hidle hs'

/-- With the books in order, an access is in the buffer exactly if the reply fits. -/
theorem AtPort.Kept.inBuffer_iff (hk : s.Kept h) (e : PortEvent) : InBuffer s e ↔ Fits h s e := by
  cases e with
  | handler =>
      obtain ⟨rx, tim7, irq, thread⟩ := s
      cases irq with
      | put res r =>
          obtain ⟨hlt, hclear⟩ := hk.irq
          show r.toNat < 200 ↔ expired h = 0
          rw [hclear]
          omega
      | _ => exact Iff.rfl
  | thread =>
      obtain ⟨rx, tim7, irq, thread⟩ := s
      cases thread with
      | terminate i str caller =>
          show i.toNat < 200 ↔ recorded h < 200
          rw [hk.thread.2, ← hk.num]
      | search str caller => exact iff_of_true hk.thread.2 trivial
      | _ => exact Iff.rfl
  | _ => exact Iff.rfl

end Invariant

/-- **The reply buffer.**  Every access of a run is in the buffer exactly if every reply
that is terminated in it has fewer than 200 bytes, and TIM7 never expires between the
test of the length and the storing of a byte for it. -/
theorem in_buffer_iff (as : List PortEvent) :
    Along AtPort.step (fun s e _ => InBuffer s e) .init as ↔
      AlongPast AtPort.step (fun h s e _ => Fits h s e) .init as := by
  rw [← along_recorded []]
  refine Along.congr (I := fun r => r.1.Kept r.2) as kept_init ?_ ?_
  · rintro ⟨s, h⟩ e r' hk hfits hr
    obtain ⟨s', hs, rfl⟩ := recorded_eq_some.mp hr
    exact hk.step hfits hs
  · rintro ⟨s, h⟩ e r' hk -
    exact hk.inBuffer_iff e

instance (s : AtPort) (e : PortEvent) : Decidable (InBuffer s e) := by
  unfold InBuffer
  split <;> try infer_instance
  all_goals split <;> infer_instance

/-- A byte, and the handler for it. -/
def stored (first : Bool) : List PortEvent :=
  .byte 65 :: List.replicate (if first then 7 else 6) .handler

/-- A reply of 200 bytes, which is terminated behind the buffer. -/
def fullReply : List PortEvent :=
  stored true ++ (List.replicate 199 (stored false)).flatten ++
    [.timeout, .check [44], .thread, .thread, .thread]

/-- TIM7 expires behind the test of the length: the byte is stored at 32769. -/
def lateExpiry : List PortEvent :=
  stored true ++ [.byte 65, .handler, .handler, .timeout] ++ List.replicate 4 .handler

theorem in_buffer_fails :
    ¬ Along AtPort.step (fun s e _ => InBuffer s e) .init fullReply ∧
      ¬ Along AtPort.step (fun s e _ => InBuffer s e) .init lateExpiry := by
  decide +kernel

end DolphinNote
