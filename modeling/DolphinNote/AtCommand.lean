/-
DolphinNote/AtCommand.lean

An AT command and its acknowledgement: `cc3200_send_cmd` and `cc3200_check_cmd`
with the interrupts of the port, each of them atomic.

The bytes of the module arrive one by one, TIM7 closes a batch when the module has
been silent, and the thread looks at every tenth tick.  The purpose of the buffer
and of `USART2_RX_STA` is an `Inbox`: the bytes of the present batch, and whether it
is closed.  What a poll looks at are closed batches, one at a time (`batches`).

* `Represents` — the buffer and the status word stand for the inbox.  Bytes and
  timeouts keep this (`represents_byte`, `represents_timeout`), and the reply a poll
  searches is the batch (`represents_check`).
* `send_cmd_iff` — the command is acknowledged exactly if one batch contains the
  text; `batches_infix` — a batch is a piece of what has been received.
* `send_cmd_split` — a text that is cut by a silence is not found, nor is one that comes
  while another batch waits.
-/
import Mathlib.Data.Nat.Bitwise
import DolphinNote.Usart2
import DolphinNote.CString
import DolphinNote.Transition

namespace DolphinNote

open Transition CString

/-! ### The port -/

/-- `TIM7_IRQHandler` -/
def tim7IRQHandler (t : AtRx) : AtRx := { t with usart2RxSta := t.usart2RxSta ||| 0x8000 }

/-- `cc3200_check_cmd`: the place of the text in the reply, if it is found. -/
def cc3200CheckCmd (t : AtRx) (str : List UInt8) : Exec (AtRx × Option ℕ) :=
  if t.usart2RxSta &&& 0x8000 ≠ 0 then do
    let buf ← store .usart2RxBuf t.usart2RxBuf (t.usart2RxSta &&& 0x7FFF).toNat 0
    pure ({ t with usart2RxBuf := buf }, strstr str (cstring buf 0))
  else pure (t, none)

/-! ### cc3200_send_cmd -/

/-- The port, and a call of `cc3200_send_cmd`: its countdown, and the value it has
returned. -/
structure Sending where
  rx : AtRx
  waittime : UInt16
  res : Option UInt8

/-- `USART2_RX_STA=0` -/
def AtRx.clear (t : AtRx) : AtRx := { t with usart2RxSta := 0 }

/-- `while(--waittime)`, and the end of the function behind it. -/
def Sending.countdown (s : Sending) : Sending :=
  { s with waittime := s.waittime - 1, res := if s.waittime - 1 = 0 then some 1 else none }

/-- `cc3200_send_cmd` up to its first delay. -/
def cc3200SendCmd (ack : Option (List UInt8)) (waittime : UInt16) (rx : AtRx) : Sending :=
  let s : Sending := { rx := rx.clear, waittime, res := some 0 }
  if ack.isSome ∧ waittime ≠ 0 then s.countdown else s

/-- The loop behind `rt_thread_delay(10)`. -/
def Sending.poll (ack : List UInt8) (s : Sending) : Option Sending :=
  if s.rx.usart2RxSta &&& 0x8000 ≠ 0 then
    match (cc3200CheckCmd s.rx ack).result? with
    | none => none
    | some (rx, some _) => some { s with rx, res := some 0 }
    | some (rx, none) => some (Sending.countdown { s with rx := rx.clear })
  else some s.countdown

/-- A byte is received, TIM7 expires, or the delay is over. -/
inductive AtEvent
  | byte (res : UInt8)
  | timeout
  | poll
  deriving DecidableEq, Repr

/-- What happens until the call has returned. -/
def Sending.step (ack : List UInt8) (s : Sending) (e : AtEvent) : Option Sending :=
  if s.res = none then
    match e with
    | .byte res => (s.rx.receive res).result?.map fun rx => { s with rx }
    | .timeout => some { s with rx := tim7IRQHandler s.rx }
    | .poll => s.poll ack
  else none

/-! ### Batches -/

/-- The bytes received. -/
def bytesOf : List AtEvent → List UInt8
  | [] => []
  | .byte res :: es => res :: bytesOf es
  | _ :: es => bytesOf es

/-- The polls made. -/
def pollsOf (es : List AtEvent) : ℕ := es.count .poll

/-- What has been received of the present batch, and whether it is complete. -/
structure Inbox where
  bytes : List UInt8
  closed : Bool
  deriving DecidableEq, Repr

/-- An empty batch. -/
def Inbox.empty : Inbox := { bytes := [], closed := false }

/-- Nothing is added to a closed batch; a poll takes it out. -/
def Inbox.after (b : Inbox) : AtEvent → Inbox
  | .byte res => if b.closed then b else { b with bytes := b.bytes ++ [res] }
  | .timeout => { b with closed := true }
  | .poll => if b.closed then .empty else b

/-- The batches that the polls have looked at. -/
def batches : Inbox → List AtEvent → List (List UInt8)
  | _, [] => []
  | b, e :: es => (if e = .poll ∧ b.closed then [b.bytes] else []) ++ batches (b.after e) es

/-- A poll leaves an open batch where it is, -/
theorem batches_poll_open {b : Inbox} (hc : b.closed = false) (es : List AtEvent) :
    batches b (.poll :: es) = batches b es := by
  have hb : b.after .poll = b := if_neg (by rw [hc]; decide)
  rw [batches, hb, hc, if_neg (fun h => Bool.false_ne_true h.2), List.nil_append]

/-- and looks at a closed one. -/
theorem batches_poll_closed {b : Inbox} (hc : b.closed = true) (es : List AtEvent) :
    batches b (.poll :: es) = b.bytes :: batches .empty es := by
  have hb : b.after .poll = .empty := if_pos hc
  rw [batches, hb, hc, if_pos ⟨rfl, rfl⟩, List.singleton_append]

/-- Where the bytes of a batch come from, if `bs` will be received. -/
def Inbox.Piece (b : Inbox) (bs batch : List UInt8) : Prop :=
  if b.closed then batch = b.bytes ∨ batch <:+: bs else batch <:+: b.bytes ++ bs

theorem piece_of_mem_batches {b : Inbox} {es : List AtEvent} {batch : List UInt8}
    (h : batch ∈ batches b es) : b.Piece (bytesOf es) batch := by
  induction es generalizing b with
  | nil => cases h
  | cons e es ih =>
      obtain ⟨bytes, closed⟩ := b
      have hlater : batch ∈ batches (Inbox.after ⟨bytes, closed⟩ e) es →
          (Inbox.after ⟨bytes, closed⟩ e).Piece (bytesOf es) batch := ih
      cases closed with
      | false =>
          have hrest := hlater (by simpa only [batches, Bool.false_eq_true, and_false, if_false,
            List.nil_append] using h)
          cases e with
          | byte res =>
              have hrest : batch <:+: (bytes ++ [res]) ++ bytesOf es := hrest
              rwa [List.append_assoc, List.singleton_append] at hrest
          | timeout =>
              have hrest : batch = bytes ∨ batch <:+: bytesOf es := hrest
              show batch <:+: bytes ++ bytesOf es
              rcases hrest with rfl | hrest
              · exact (List.prefix_append _ _).isInfix
              · exact hrest.trans (List.suffix_append _ _).isInfix
          | poll => exact hrest
      | true =>
          cases e with
          | byte res => exact (hlater h).imp_right List.infix_cons
          | timeout => exact hlater h
          | poll =>
              rcases List.mem_cons.mp h with h | h
              · exact .inl h
              · exact .inr (hlater h)

/-- A batch is received in one piece. -/
theorem batches_infix {es : List AtEvent} {batch : List UInt8} (h : batch ∈ batches .empty es) :
    batch <:+: bytesOf es :=
  piece_of_mem_batches h

/-! ### The inbox -/

/-- The status word and the buffer stand for the inbox. -/
structure Represents (t : AtRx) (b : Inbox) : Prop where
  sta : t.usart2RxSta.toNat = b.bytes.length + if b.closed then 32768 else 0
  buf : t.usart2RxBuf.bytes b.bytes.length = b.bytes

variable {t : AtRx} {b : Inbox}

/-- Bit 15 is the flag, -/
theorem flag_eq_zero_iff (x : UInt16) : x &&& 0x8000 = 0 ↔ x.toNat < 32768 := by
  have hlt := x.toNat_lt
  have hand : (x &&& 0x8000).toNat = (x.toNat.testBit 15).toNat * 2 ^ 15 := Nat.and_two_pow x.toNat 15
  rw [← UInt16.toNat_inj, hand, Nat.testBit_eq_decide_div_mod_eq]
  show (decide (x.toNat / 2 ^ 15 % 2 = 1)).toNat * 2 ^ 15 = 0 ↔ _
  by_cases h : x.toNat / 2 ^ 15 % 2 = 1
  · rw [decide_eq_true h]
    exact iff_of_false (by decide) (by omega)
  · rw [decide_eq_false h]
    exact iff_of_true rfl (by omega)

/-- the others are the length, -/
theorem toNat_length (x : UInt16) : (x &&& 0x7FFF).toNat = x.toNat % 32768 := by
  rw [UInt16.toNat_and]
  exact Nat.and_two_pow_sub_one_eq_mod x.toNat 15

/-- which setting the flag leaves as it is. -/
theorem toNat_flagged (x : UInt16) : (x ||| 0x8000).toNat = x.toNat % 32768 + 32768 := by
  have hlt := x.toNat_lt
  have hor : ∀ m < 2 ^ 15, m ||| 2 ^ 15 = m + 2 ^ 15 := by
    intro m hm
    have h := Nat.two_pow_add_eq_or_of_lt hm 1
    rw [Nat.mul_one] at h
    rw [Nat.or_comm, ← h, Nat.add_comm]
  rw [UInt16.toNat_or]
  show x.toNat ||| 2 ^ 15 = _
  by_cases h : x.toNat < 2 ^ 15
  · rw [hor _ h]
    omega
  · obtain ⟨m, hm⟩ := Nat.exists_eq_add_of_le (Nat.not_lt.mp h)
    have hm' : m < 2 ^ 15 := by omega
    rw [hm, Nat.add_comm, ← hor m hm', Nat.or_assoc, Nat.or_self, hor m hm']
    omega

theorem represents_clear (t : AtRx) : Represents t.clear .empty :=
  ⟨rfl, rfl⟩

/-- A byte is added to an open batch, and lost behind a closed one. -/
theorem represents_byte (h : Represents t b) (res : UInt8) (hlen : b.bytes.length < 200) :
    ∃ t', (t.receive res).result? = some t' ∧ Represents t' (b.after (.byte res)) := by
  obtain ⟨bytes, closed⟩ := b
  obtain ⟨hsta, hbuf⟩ := h
  cases closed with
  | true =>
      have hflag : ¬ t.usart2RxSta &&& 0x8000 = 0 := by
        rw [flag_eq_zero_iff, hsta]
        exact Nat.not_lt.mpr (Nat.le_add_left _ _)
      refine ⟨t, ?_, hsta, hbuf⟩
      rw [AtRx.receive, if_neg hflag]
      rfl
  | false =>
      have hnum : t.usart2RxSta.toNat = bytes.length := hsta
      have hflag : t.usart2RxSta &&& 0x8000 = 0 := by
        rw [flag_eq_zero_iff, hnum]
        exact hlen.trans (by decide)
      have hroom : t.usart2RxSta < 200 := by
        rw [UInt16.lt_iff_toNat_lt, hnum]
        exact hlen
      have hlt : t.usart2RxSta.toNat < 200 := UInt16.lt_iff_toNat_lt.mp hroom
      refine ⟨{ usart2RxBuf := t.usart2RxBuf.wr t.usart2RxSta.toNat res hlt,
                usart2RxSta := t.usart2RxSta + 1 }, ?_, ?_, ?_⟩
      · rw [AtRx.receive, if_pos hflag, if_pos hroom, store_of_lt hlt]
        rfl
      · show (t.usart2RxSta + 1).toNat = (bytes ++ [res]).length
        rw [UInt16.toNat_add, hnum, List.length_append, List.length_singleton]
        show (bytes.length + 1) % 65536 = bytes.length + 1
        exact Nat.mod_eq_of_lt (by omega)
      · show (t.usart2RxBuf.wr t.usart2RxSta.toNat res hlt).bytes (bytes ++ [res]).length =
          bytes ++ [res]
        rw [List.length_append, List.length_singleton, Buffer.bytes_succ,
          Buffer.bytes_wr_of_le _ _ _ hnum.ge, ← hnum, Buffer.rd_wr_self, hnum]
        exact congrArg (· ++ [res]) hbuf

/-- TIM7 closes the batch. -/
theorem represents_timeout (h : Represents t b) (hlen : b.bytes.length < 200) :
    Represents (tim7IRQHandler t) (b.after .timeout) := by
  refine ⟨?_, h.buf⟩
  show (t.usart2RxSta ||| 0x8000).toNat = b.bytes.length + 32768
  rw [toNat_flagged, h.sta]
  split_ifs <;> omega

theorem Represents.flag (h : Represents t b) (hlen : b.bytes.length < 200) :
    t.usart2RxSta &&& 0x8000 ≠ 0 ↔ b.closed = true := by
  rw [ne_eq, flag_eq_zero_iff, h.sta]
  cases b.closed with
  | true => exact iff_of_true (Nat.not_lt.mpr (Nat.le_add_left _ _)) rfl
  | false => exact iff_of_false (not_not.mpr (hlen.trans (by decide))) (by decide)

/-- The reply searched is the closed batch. -/
theorem represents_check (h : Represents t b) (hc : b.closed = true) (hlen : b.bytes.length < 200)
    (hnz : 0 ∉ b.bytes) (str : List UInt8) :
    ∃ t', (cc3200CheckCmd t str).result? = some (t', strstr str b.bytes) := by
  have hidx : (t.usart2RxSta &&& 0x7FFF).toNat = b.bytes.length := by
    rw [toNat_length, h.sta, if_pos hc]
    omega
  have hstring := cstring_terminated (v := t.usart2RxBuf) hlen (h.buf.symm ▸ hnz)
  refine ⟨{ t with usart2RxBuf := t.usart2RxBuf.wr b.bytes.length 0 hlen }, ?_⟩
  rw [cc3200CheckCmd, if_pos ((h.flag hlen).mpr hc), hidx, store_of_lt hlen]
  exact congrArg (fun s => some (_, strstr str s)) (hstring.trans h.buf)

/-! ### Runs -/

section Runs

variable {ack : List UInt8} {s s' : Sending} {es : List AtEvent}

/-- The call stands before a delay, with the inbox `b` and the bytes `bs` to come. -/
structure Sending.Waits (s : Sending) (b : Inbox) (bs : List UInt8) : Prop where
  inbox : Represents s.rx b
  res : s.res = none
  waittime : 0 < s.waittime.toNat
  room : (b.bytes ++ bs).length < 200
  clean : 0 ∉ b.bytes ++ bs

/-- What is known of a run: the call has returned 0 exactly if a batch contains the
text, and otherwise goes on waiting, with polls left. -/
def Outcome (ack : List UInt8) (b : Inbox) (es : List AtEvent) (n : ℕ) (s' : Sending) : Prop :=
  (s'.res = some 0 ↔ ∃ batch ∈ batches b es, ack <:+: batch) ∧
    (s'.res = none → pollsOf es < n ∧ ∃ b', s'.Waits b' [])

theorem step_waiting (hres : s.res = none) (e : AtEvent) :
    s.step ack e = match e with
      | .byte res => (s.rx.receive res).result?.map fun rx => { s with rx }
      | .timeout => some { s with rx := tim7IRQHandler s.rx }
      | .poll => s.poll ack :=
  if_pos hres

/-- Nothing happens behind the return. -/
theorem returned_stops (hres : s.res ≠ none) (h : exec (Sending.step ack) s es = some s') :
    es = [] ∧ s' = s := by
  cases es with
  | nil => exact ⟨rfl, (Option.some.inj h).symm⟩
  | cons e es =>
      obtain ⟨t, ht, -⟩ := exec_cons_eq_some.mp h
      rw [show s.step ack e = none from if_neg hres] at ht
      cases ht

/-- The test of the loop: it goes on, or the call returns 1. -/
theorem countdown_cases (s : Sending) (hpos : 0 < s.waittime.toNat) :
    (s.countdown.res = some 1) ∨
      (s.countdown.res = none ∧ s.countdown.waittime.toNat + 1 = s.waittime.toNat ∧
        0 < s.countdown.waittime.toNat) := by
  have hle : (1 : UInt16) ≤ s.waittime := UInt16.le_iff_toNat_le.mpr hpos
  have hnum : (s.waittime - 1).toNat = s.waittime.toNat - 1 := UInt16.toNat_sub_of_le _ _ hle
  by_cases h : s.waittime - 1 = 0
  · exact .inl (if_pos h)
  · have hne : (s.waittime - 1).toNat ≠ 0 := fun h0 => h (UInt16.toNat.inj h0)
    refine .inr ⟨if_neg h, ?_, ?_⟩
    · show (s.waittime - 1).toNat + 1 = _
      omega
    · exact Nat.pos_of_ne_zero hne

/-- A poll that has found nothing, and the rest of the run. -/
theorem Outcome.countdown {rx : AtRx} (hinbox : Represents rx b) (hpos : 0 < s.waittime.toNat)
    (hroom : (b.bytes ++ bytesOf es).length < 200) (hclean : 0 ∉ b.bytes ++ bytesOf es)
    (ih : ∀ {t : Sending}, t.Waits b (bytesOf es) → exec (Sending.step ack) t es = some s' →
      Outcome ack b es t.waittime.toNat s')
    (h : exec (Sending.step ack) (Sending.countdown { s with rx }) es = some s') :
    (s'.res = some 0 ↔ ∃ batch ∈ batches b es, ack <:+: batch) ∧
      (s'.res = none → pollsOf es + 1 < s.waittime.toNat ∧ ∃ b', s'.Waits b' []) := by
  rcases countdown_cases { s with rx } hpos with hone | ⟨hnone, hnum, hpos'⟩
  · obtain ⟨rfl, rfl⟩ := returned_stops (by rw [hone]; exact Option.some_ne_none _) h
    refine ⟨iff_of_false ?_ ?_, fun hno => ?_⟩
    · rw [hone]
      decide
    · rintro ⟨batch, hb, -⟩
      cases hb
    · rw [hone] at hno
      cases hno
  · obtain ⟨hzero, hwaits⟩ := ih
      { inbox := hinbox, res := hnone, waittime := hpos', room := hroom, clean := hclean } h
    refine ⟨hzero, fun hno => ⟨?_, (hwaits hno).2⟩⟩
    rw [← hnum]
    exact Nat.succ_lt_succ (hwaits hno).1

/-- What has been received, or will be, gets less. -/
theorem after_sublist (b : Inbox) (e : AtEvent) (es : List AtEvent) :
    ((b.after e).bytes ++ bytesOf es).Sublist (b.bytes ++ bytesOf (e :: es)) := by
  obtain ⟨bytes, closed⟩ := b
  cases e with
  | byte res =>
      cases closed with
      | false =>
          show ((bytes ++ [res]) ++ bytesOf es).Sublist (bytes ++ res :: bytesOf es)
          rw [List.append_assoc, List.singleton_append]
      | true => exact (List.Sublist.refl bytes).append (List.sublist_cons_self res _)
  | timeout => exact List.Sublist.refl _
  | poll =>
      cases closed with
      | false => exact List.Sublist.refl _
      | true => exact List.sublist_append_right bytes _

theorem Sending.Waits.length_lt {bs : List UInt8} (hw : s.Waits b bs) : b.bytes.length < 200 := by
  have hroom := hw.room
  rw [List.length_append] at hroom
  omega

/-- A poll with an open batch, -/
theorem Sending.Waits.poll_open {bs : List UInt8} (hw : s.Waits b bs) (hc : b.closed = false)
    (ack : List UInt8) : s.poll ack = some s.countdown := by
  refine if_neg ?_
  rw [hw.inbox.flag hw.length_lt, hc]
  exact Bool.false_ne_true

/-- and one with a closed batch, which is searched. -/
theorem Sending.Waits.poll_closed {bs : List UInt8} (hw : s.Waits b bs) (hc : b.closed = true)
    (ack : List UInt8) :
    ∃ rx, s.poll ack = some (match strstr ack b.bytes with
      | some _ => { s with rx, res := some 0 }
      | none => Sending.countdown { s with rx := rx.clear }) := by
  have hflag : s.rx.usart2RxSta &&& 0x8000 ≠ 0 := (hw.inbox.flag hw.length_lt).mpr hc
  have hnz : 0 ∉ b.bytes := fun h0 => hw.clean (List.mem_append_left _ h0)
  obtain ⟨rx, hrx⟩ := represents_check hw.inbox hc hw.length_lt hnz ack
  refine ⟨rx, ?_⟩
  rw [Sending.poll, if_pos hflag, hrx]
  cases strstr ack b.bytes with
  | some i => rfl
  | none => rfl

/-- One event after which the call goes on waiting. -/
theorem Sending.Waits.after {e : AtEvent} (hw : s.Waits b (bytesOf (e :: es))) {rx : AtRx}
    (hinbox : Represents rx (b.after e)) : Sending.Waits { s with rx } (b.after e) (bytesOf es) where
  inbox := hinbox
  res := hw.res
  waittime := hw.waittime
  room := lt_of_le_of_lt (after_sublist b e es).length_le hw.room
  clean h0 := hw.clean ((after_sublist b e es).subset h0)

theorem Sending.Waits.run (hw : s.Waits b (bytesOf es))
    (h : exec (Sending.step ack) s es = some s') : Outcome ack b es s.waittime.toNat s' := by
  induction es generalizing s b with
  | nil =>
      obtain rfl := Option.some.inj h
      refine ⟨iff_of_false ?_ ?_, fun _ => ⟨hw.waittime, b, hw⟩⟩
      · rw [hw.res]
        exact (Option.some_ne_none _).symm
      · rintro ⟨batch, hb, -⟩
        cases hb
  | cons e es ih =>
      obtain ⟨t, ht, hrest⟩ := exec_cons_eq_some.mp h
      rw [step_waiting hw.res] at ht
      cases e with
      | byte res =>
          obtain ⟨rx, hrx, hrep⟩ := represents_byte hw.inbox res hw.length_lt
          dsimp only at ht
          rw [hrx] at ht
          obtain rfl := Option.some.inj ht
          exact ih (s := { s with rx }) (hw.after hrep) hrest
      | timeout =>
          obtain rfl := Option.some.inj ht
          have hrep := represents_timeout hw.inbox hw.length_lt
          exact ih (s := { s with rx := tim7IRQHandler s.rx }) (hw.after hrep) hrest
      | poll =>
          have hpolls : pollsOf (.poll :: es) = pollsOf es + 1 := List.count_cons_self
          rw [Outcome, hpolls]
          cases hc : b.closed with
          | false =>
              -- nothing to look at yet
              obtain rfl := Option.some.inj ((hw.poll_open hc ack).symm.trans ht)
              rw [batches_poll_open hc]
              exact Outcome.countdown hw.inbox hw.waittime hw.room hw.clean ih hrest
          | true =>
              obtain ⟨rx, hpoll⟩ := hw.poll_closed hc ack
              rw [batches_poll_closed hc, List.exists_mem_cons_iff, ← strstr_isSome_iff]
              have ht : s.poll ack = some t := ht
              rw [hpoll] at ht
              cases hfound : strstr ack b.bytes with
              | some i =>
                  rw [hfound] at ht
                  obtain rfl := Option.some.inj ht
                  obtain ⟨rfl, rfl⟩ := returned_stops (Option.some_ne_none _) hrest
                  exact ⟨iff_of_true rfl (.inl rfl), fun hno => by cases hno⟩
              | none =>
                  rw [hfound] at ht
                  obtain rfl := Option.some.inj ht
                  rw [Option.isSome_none, or_iff_right Bool.false_ne_true]
                  have hsub : (bytesOf es).Sublist (b.bytes ++ bytesOf es) :=
                    List.sublist_append_right _ _
                  exact Outcome.countdown (represents_clear rx) hw.waittime
                    (lt_of_le_of_lt hsub.length_le hw.room) (fun h0 => hw.clean (hsub.subset h0))
                    ih hrest

/-- A call that waits takes every event that may come. -/
theorem Sending.Waits.live (hw : s.Waits b []) (ack : List UInt8) (e : AtEvent) :
    (s.step ack e).isSome = true := by
  rw [step_waiting hw.res]
  cases e with
  | byte res =>
      obtain ⟨rx, hrx, -⟩ := represents_byte hw.inbox res hw.length_lt
      show ((s.rx.receive res).result?.map _).isSome = true
      rw [hrx]
      rfl
  | timeout => rfl
  | poll =>
      show (s.poll ack).isSome = true
      cases hc : b.closed with
      | false =>
          rw [hw.poll_open hc]
          rfl
      | true =>
          obtain ⟨rx, hpoll⟩ := hw.poll_closed hc ack
          rw [hpoll]
          rfl

/-- **The acknowledgement.**  The call returns 0 exactly if one of the batches it has
looked at contains the text.  It goes on waiting for fewer than `waittime - 1` polls. -/
theorem send_cmd_iff {waittime : UInt16} {rx : AtRx} (hwait : 2 ≤ waittime.toNat)
    (hlen : (bytesOf es).length < 200) (hnz : 0 ∉ bytesOf es)
    (h : exec (Sending.step ack) (cc3200SendCmd (some ack) waittime rx) es = some s) :
    (s.res = some 0 ↔ ∃ batch ∈ batches .empty es, ack <:+: batch) ∧
      (s.res = none →
        pollsOf es + 1 < waittime.toNat ∧ ∀ e, (s.step ack e).isSome = true) := by
  have hne : waittime ≠ 0 := by
    rintro rfl
    exact absurd hwait (by decide)
  have hstart : cc3200SendCmd (some ack) waittime rx =
      Sending.countdown { rx := rx.clear, waittime, res := some 0 } := if_pos ⟨rfl, hne⟩
  rw [hstart] at h
  obtain ⟨hzero, hwaits⟩ := Outcome.countdown (s := { rx, waittime, res := some 0 })
    (represents_clear rx) (Nat.lt_of_succ_lt hwait) hlen hnz (fun hw ht => hw.run ht) h
  refine ⟨hzero, fun hno => ⟨(hwaits hno).1, fun e => ?_⟩⟩
  obtain ⟨b', hb'⟩ := (hwaits hno).2
  exact hb'.live ack e

theorem send_cmd_iff_ok : ∃ s, exec (Sending.step [79, 75]) (cc3200SendCmd (some [79, 75]) 3 .powerOn)
      [.byte 79, .byte 75, .timeout, .poll] = some s ∧
    (s.res = some 0 ↔
      ∃ batch ∈ batches .empty [.byte 79, .byte 75, .timeout, .poll], [79, 75] <:+: batch) ∧
    (s.res = none → pollsOf [.byte 79, .byte 75, .timeout, .poll] + 1 < (3 : UInt16).toNat ∧
      ∀ e, (s.step [79, 75] e).isSome = true) := by
  have hrun : (exec (Sending.step [79, 75]) (cc3200SendCmd (some [79, 75]) 3 .powerOn)
      [.byte 79, .byte 75, .timeout, .poll]).isSome = true := by decide +kernel
  obtain ⟨s, hs⟩ := Option.isSome_iff_exists.mp hrun
  exact ⟨s, hs, send_cmd_iff (by decide) (by decide) (by decide) hs⟩

end Runs

/-! ### Replies that are not found -/

/-- The bytes that have been received when a batch is closed for the last time before
the last poll. -/
def closedBytes (es : List AtEvent) : List UInt8 :=
  bytesOf ((es.reverse.dropWhile (· ≠ .poll)).dropWhile (· ≠ .timeout)).reverse

/-- Events with their times in milliseconds, from `now` on: the next poll comes at
`tick`, and one every 10 ms behind it, and TIM7 expires at `due`, 10 ms behind the last
byte of an open batch. -/
def timely (now : ℕ) (due : Option ℕ) (tick : ℕ) (b : Inbox) : List (ℕ × AtEvent) → Bool
  | [] => true
  | (t, e) :: l =>
      now ≤ t && t ≤ tick && due.all (t ≤ ·) &&
        match e with
        | .byte _ => timely t (if b.closed then due else some (t + 10)) tick (b.after e) l
        | .timeout => due = some t && timely t none tick (b.after e) l
        | .poll => t = tick && timely t due (tick + 10) (b.after e) l

/-- Twenty milliseconds between the two letters of `OK`: they are in two batches. -/
def splitReply : List (ℕ × AtEvent) :=
  [(1, .byte 79), (10, .poll), (11, .timeout), (20, .poll), (21, .byte 75), (30, .poll),
    (31, .timeout), (40, .poll)]

/-- `OK` comes while another batch waits for its poll: it is in none. -/
def lostReply : List (ℕ × AtEvent) :=
  [(1, .byte 33), (10, .poll), (11, .timeout), (12, .byte 79), (13, .byte 75), (20, .poll),
    (21, .byte 33), (30, .poll), (31, .timeout), (40, .poll)]

/-- The acknowledgement `OK` is in the bytes of closed batches, and the call returns 1
after four polls. -/
def Missed (reply : List (ℕ × AtEvent)) : Prop :=
  timely 0 none 10 .empty reply = true ∧ [79, 75] <:+: closedBytes (reply.map (·.2)) ∧
    (exec (Sending.step [79, 75]) (cc3200SendCmd (some [79, 75]) 5 .powerOn)
      (reply.map (·.2))).map (·.res) = some (some 1)

instance (reply : List (ℕ × AtEvent)) : Decidable (Missed reply) :=
  inferInstanceAs (Decidable (_ ∧ _ ∧ _))

theorem send_cmd_split : Missed splitReply ∧ Missed lostReply := by
  decide +kernel

end DolphinNote
