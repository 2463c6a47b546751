/-
DolphinNote/Transmission.lean

What the main loop hands over to the transmit ring.  Two interrupts and the
main loop write one buffer, and a flag only says that there is something to
send; when the main loop gets to it, the buffer may hold the frame of another
writer, with another length, or a mixture.  A reply of the main loop is written
statement by statement and its checksum added up round by round, and a block is
copied byte by byte; interrupts come in between.

`Fine.Intact` is the invariant: the buffer is coded; while a reply of the main
loop is under way it will be, once the reply has been resumed; and while a
block is copied, what has been copied and what is still to be read make up one
whole frame.  A block is then whole (`blocks_whole`), if

* the buffer holds a frame of a code the hand-over is meant for, at the call and
  when the code byte is copied;
* no frame is answered with `0x77` between a checksum loop and the store of its
  result;
* no frame writes over the part of the block that is still to be read.
-/
import DolphinNote.Rounds
import DolphinNote.Replies

namespace DolphinNote

open Transition

/-! ### Blocks -/

/-- The codes of the frames a hand-over is meant for. -/
def Put.codes : Put → List UInt8
  | .search | .complete | .reconnect => [0x76, 0x78]
  | .pen => [0xDD]
  | .idle | .disconnect | .snapshot => [0x77, 0xA1, 0x70]
  | .time => [0x74]

/-- The hand-over the main loop is about to make. -/
def Pc.handsOver : Pc → Option Put
  | .put p => some p
  | _ => none

theorem Pc.handsOver_eq_some {pc : Pc} {p : Put} : pc.handsOver = some p ↔ pc = .put p := by
  cases pc <;> simp [handsOver]

/-- The reply the main loop is in the middle of, and how far it has come. -/
def Pc.replies : Pc → Option (Ack × ℕ)
  | .ack a i _ => some (a, i)
  | _ => none

/-- The length that was passed to a call of `Uart2_Put_Buf`, once it has copied
its last byte. -/
def PutPc.ended : PutPc → Option UInt8
  | .out => none
  | .copy i dataNum => if i < dataNum then none else some dataNum

theorem PutPc.ended_eq_some {put : PutPc} {n : UInt8} :
    put.ended = some n ↔ ∃ i, put = .copy i n ∧ ¬ i < n := by
  cases put with
  | out => simp [ended]
  | copy i dataNum =>
      simp only [ended, copy.injEq]
      split_ifs with hi
      · refine iff_of_false nofun ?_
        rintro ⟨_, ⟨rfl, rfl⟩, hge⟩
        exact hge hi
      · refine ⟨fun h => ⟨i, ⟨rfl, Option.some.inj h⟩, Option.some.inj h ▸ hi⟩, ?_⟩
        rintro ⟨_, ⟨-, rfl⟩, -⟩
        rfl

/-- A block whose hand-over the step completes is one whole frame, of the length
that was passed. -/
def BlockWhole (f : Fine) : Event → Prop
  | .main _ _ => ∀ n ∈ f.put.ended, f.copied.length = n.toNat ∧ WholeFrame f.copied
  | _ => True

/-! ### Safe steps -/

/-- The hand-over is meant for the frame in the buffer: so says its code byte at
the call, and so do the code byte and the length when the byte is copied. -/
def PutPc.Meant (g : Globals) (p : Put) : PutPc → Prop
  | .out => g.wifiDataToSend.rd 2 ∈ p.codes
  | .copy i dataNum => i = 2 → g.wifiDataToSend.rd 2 ∈ p.codes ∧ p.num g = dataNum

/-- The call of `Uart2_Put_Buf` has copied the code byte, and not yet the last
byte. -/
def PutPc.Midway : PutPc → Prop
  | .out => False
  | .copy i dataNum => 2 < i ∧ i < dataNum

/-- A reply of `len` bytes leaves alone what the call has still to read: it is
no longer than what has been read, or it ends with the block, and the trailer
is all that is left of both. -/
def PutPc.Spared (len : ℕ) : PutPc → Prop
  | .out => True
  | .copy i dataNum => len ≤ i.toNat ∨ (len = dataNum.toNat ∧ i.toNat + 1 = dataNum.toNat)

/-- The checksum loop of a status reply has added the code byte, and its result
is still to be stored. -/
def Pc.Summing : Pc → Prop
  | .ack a i _ => a ≠ .time ∧ 13 ≤ i ∧ i ≤ 18
  | _ => False

/-- `wifi_data_deal` answers the frame with a reply of this code. -/
def Answers (g : Globals) (dataBuf : Buffer 50) (code : UInt8) : Prop :=
  (code = 0x76 ∧ Accepted g dataBuf) ∨
    (code = 0x78 ∧ HasCode dataBuf 0x78 ∧ barCodeErr dataBuf = false) ∨
    (code = 0x77 ∧ ∃ c ∈ 0xA9 :: ackCodes, HasCode dataBuf c) ∨
    (code = 0xB2 ∧ HasCode dataBuf 0xA6) ∨ (code = 0xB1 ∧ HasCode dataBuf 0xA7)

/-- A reply of this code spoils neither the block the main loop is copying nor
the checksum it is adding up. -/
def Fine.Spared (f : Fine) (code : UInt8) : Prop :=
  (f.put.Midway → f.put.Spared (ackSize code)) ∧ (f.sys.pc.Summing → code ≠ 0x77)

/-- What the main loop sends is what the buffer was last filled with, and a
frame that comes in between spoils nothing, or is the reply `0x77` over
itself. -/
def BlockSafe (f : Fine) : Event → Prop
  | .main _ _ => ∀ p ∈ f.sys.pc.handsOver, f.put.Meant f.sys.g p
  | .phone dataBuf _ => ∀ code ∈ ackSendCodes, Answers f.sys.g dataBuf code →
      f.Spared code ∨ (code = 0x77 ∧ f.sys.g.wifiDataToSend.rd 2 = 0x77)
  | .screen dataBuf _ => dataBuf.rd 2 = 0x02 → ¬ f.put.Midway
  | _ => True

instance (f : Fine) : (e : Event) → Decidable (BlockWhole f e)
  | .main .. => inferInstanceAs <| Decidable
      (∀ n ∈ f.put.ended, f.copied.length = n.toNat ∧ WholeFrame f.copied)
  | .led | .key _ | .phone .. | .screen .. | .transmit | .tick => inferInstanceAs (Decidable True)

instance (g : Globals) (p : Put) : (put : PutPc) → Decidable (put.Meant g p)
  | .out => inferInstanceAs (Decidable (g.wifiDataToSend.rd 2 ∈ p.codes))
  | .copy i dataNum => inferInstanceAs <| Decidable
      (i = 2 → g.wifiDataToSend.rd 2 ∈ p.codes ∧ p.num g = dataNum)

instance : (put : PutPc) → Decidable put.Midway
  | .out => inferInstanceAs (Decidable False)
  | .copy i dataNum => inferInstanceAs (Decidable (2 < i ∧ i < dataNum))

instance (len : ℕ) : (put : PutPc) → Decidable (put.Spared len)
  | .out => inferInstanceAs (Decidable True)
  | .copy i dataNum => inferInstanceAs <| Decidable
      (len ≤ i.toNat ∨ (len = dataNum.toNat ∧ i.toNat + 1 = dataNum.toNat))

instance (pc : Pc) : Decidable pc.Summing := by
  unfold Pc.Summing; split <;> infer_instance

instance (g : Globals) (dataBuf : Buffer 50) (code : UInt8) : Decidable (Answers g dataBuf code) := by
  unfold Answers; infer_instance

instance (f : Fine) (code : UInt8) : Decidable (f.Spared code) := by
  unfold Fine.Spared; infer_instance

instance (f : Fine) : (e : Event) → Decidable (BlockSafe f e)
  | .main .. => inferInstanceAs (Decidable (∀ p ∈ f.sys.pc.handsOver, f.put.Meant f.sys.g p))
  | .phone dataBuf _ => inferInstanceAs <| Decidable
      (∀ code ∈ ackSendCodes, Answers f.sys.g dataBuf code →
        f.Spared code ∨ (code = 0x77 ∧ f.sys.g.wifiDataToSend.rd 2 = 0x77))
  | .screen dataBuf _ => inferInstanceAs (Decidable (dataBuf.rd 2 = 0x02 → ¬ f.put.Midway))
  | .led | .key _ | .transmit | .tick => inferInstanceAs (Decidable True)

/-! ### What an interrupt writes -/

/-- The codes of the frames that interrupts write. -/
def interruptCodes : List UInt8 := [0x77, 0x76, 0x78, 0xB1, 0xB2, 0xDD]

/-- What an interrupt that writes the transmit buffer leaves in it. -/
structure Written (g g' : Globals) : Prop where
  coded : Coded g'
  rd0 : g'.wifiDataToSend.rd 0 = 0xFA
  rd1 : g'.wifiDataToSend.rd 1 = 0x0A
  mem : g'.wifiDataToSend.rd 2 ∈ interruptCodes
  again : Coded g → g.wifiDataToSend.rd 2 = 0x77 → g'.wifiDataToSend.rd 2 = 0x77 →
    g'.wifiDataToSend = g.wifiDataToSend

/-- What a reply of the dispatcher leaves in it. -/
structure Replied (g : Globals) (code : UInt8) (g' : Globals) : Prop extends Written g g' where
  rd2 : g'.wifiDataToSend.rd 2 = code
  behind : ∀ j, ackSize code ≤ j → g'.wifiDataToSend.rd j = g.wifiDataToSend.rd j
  trailer : ackBody code ≠ .empty → g'.wifiDataToSend.rd (ackSize code - 1) = 0xED

/-- A reply is built in globals with the same buffer; the reply `0x77` in the
globals as they are. -/
theorem replied_wifiAckSend {g g' : Globals} (b : Globals) {code : UInt8}
    (hs : SameFrame (wifiAckSend b code 0) g') (hbuf : b.wifiDataToSend = g.wifiDataToSend)
    (hcode : code ∈ ([0x77, 0x76, 0x78, 0xB1, 0xB2] : List UInt8)) (hg : code ≠ 0x77 ∨ b = g) :
    Replied g code g' := by
  have hsend : ([0x77, 0x76, 0x78, 0xB1, 0xB2] : List UInt8) ⊆ ackSendCodes := by decide
  have hwritten : ([0x77, 0x76, 0x78, 0xB1, 0xB2] : List UInt8) ⊆ interruptCodes := by decide
  have hhead := wifiAckSend_head b code 0
  have hcode2 := wifiAckSend_rd_two b code 0
  rw [← hs.buf] at hhead hcode2
  refine ⟨⟨(coded_wifiAckSend b (hsend hcode)).of_same hs, hhead.1, hhead.2,
    hcode2.symm ▸ hwritten hcode, ?_⟩, hcode2, fun j hj => ?_, fun hc => ?_⟩
  · intro hcoded hold hnew
    obtain rfl : code = 0x77 := hcode2.symm.trans hnew
    obtain rfl := hg.resolve_left (not_not.mpr rfl)
    rw [hs.buf]
    exact hcoded.wifiAckSend_again hold
  · rw [hs.buf, wifiAckSend_rd_of_le b 0 hj, hbuf]
  · rw [hs.buf]
    exact wifiAckSend_trailer b 0 hc

/-- The dispatcher answers a frame or leaves the transmit buffer alone. -/
theorem replied_or_sameFrame {g g' : Globals} {dataBuf : Buffer 50} (h : Dealt g dataBuf g') :
    SameFrame g g' ∨ ∃ code ∈ ackSendCodes, Answers g dataBuf code ∧ Replied g code g' := by
  have again {c : UInt8} (hcode : HasCode dataBuf c) (hmem : c ∈ 0xA9 :: ackCodes)
      (hs : SameFrame (wifiAckSend g 0x77 0) g') :
      ∃ code ∈ ackSendCodes, Answers g dataBuf code ∧ Replied g code g' :=
    ⟨0x77, by decide, .inr (.inr (.inl ⟨rfl, c, hmem, hcode⟩)),
      replied_wifiAckSend g hs rfl (by decide) (.inr rfl)⟩
  cases h with
  | ignored | refused | searchRefused | meetingEnd | timeCheck => exact .inl ⟨rfl, rfl, rfl, rfl, rfl⟩
  | paired hcode hbar hfirst =>
      exact .inr ⟨0x76, by decide, .inl ⟨rfl, hcode, hbar, .inl hfirst⟩,
        replied_wifiAckSend _ (.refl _) rfl (by decide) (.inl (by decide))⟩
  | repeated hcode hbar _ hid =>
      exact .inr ⟨0x76, by decide, .inl ⟨rfl, hcode, hbar, .inr hid⟩,
        replied_wifiAckSend _ (.refl _) rfl (by decide) (.inl (by decide))⟩
  | searched hcode hbar =>
      exact .inr ⟨0x78, by decide, .inr (.inl ⟨rfl, hcode, hbar⟩),
        replied_wifiAckSend { g with phoneID := frameID dataBuf } ⟨rfl, rfl, rfl, rfl, rfl⟩ rfl (by decide)
          (.inl (by decide))⟩
  | heartbeat hcode => exact .inr (again hcode (by decide) ⟨rfl, rfl, rfl, rfl, rfl⟩)
  | acked hcode hmem => exact .inr (again hcode (List.mem_cons_of_mem _ hmem) (.refl _))
  | touchInfo hcode =>
      exact .inr ⟨0xB2, by decide, .inr (.inr (.inr (.inl ⟨rfl, hcode⟩))),
        replied_wifiAckSend g (.refl _) rfl (by decide) (.inl (by decide))⟩
  | versionInfo hcode =>
      exact .inr ⟨0xB1, by decide, .inr (.inr (.inr (.inr ⟨rfl, hcode⟩))),
        replied_wifiAckSend g (.refl _) rfl (by decide) (.inl (by decide))⟩

/-- A screen frame writes a pen frame or leaves the transmit buffer alone. -/
theorem written_or_sameFrame {g g' : Globals} {dataBuf : Buffer 255} {num : UInt8}
    (hframe : ScreenFrame dataBuf num) (h : Analized g dataBuf g') :
    SameFrame g g' ∨ (dataBuf.rd 2 = 0x02 ∧ Written g g' ∧ g'.wifiDataToSend.rd 2 = 0xDD) := by
  cases h with
  | ignored | cleared => exact .inl ⟨rfl, rfl, rfl, rfl, rfl⟩
  | points hcode henc =>
      have hcnt := pointCnt_toNat hframe.lt
      have hlt := hframe.lt
      refine .inr ⟨hcode, ⟨PenEncoded.coded henc (by dsimp only; omega), henc.rd0, henc.rd1, ?_, ?_⟩,
        henc.rd2⟩
      · rw [show _ = (0xDD : UInt8) from henc.rd2]
        decide
      · exact fun _ _ hnew => absurd (henc.rd2.symm.trans hnew) (by decide)

/-! ### A block that is being copied -/

/-- What has been copied of a block of `n` bytes, `i` of them, and what is still
to be read make up one whole frame, from the code byte on. -/
structure Copied (buf : Buffer 255) (copied : List UInt8) (i n : ℕ) : Prop where
  le : i ≤ n
  size : 9 ≤ n
  length : copied.length = i
  rd0 : buf.rd 0 = 0xFA
  rd1 : buf.rd 1 = 0x0A
  head : i < 3 → copied = buf.bytes i
  whole : 3 ≤ i → WholeFrame (copied ++ (buf.bytes n).drop i)

section Copies

variable {buf buf' : Buffer 255} {copied : List UInt8} {i n L : ℕ}

/-- The call of a block begins. -/
theorem copied_zero (hf : FrameIn buf L) (hn : n = 9 + L) : Copied buf [] 0 n where
  le := by omega
  size := by omega
  length := rfl
  rd0 := hf.rd0
  rd1 := hf.rd1
  head _ := rfl
  whole h := absurd h (by omega)

/-- A round of the loop. -/
theorem Copied.round (h : Copied buf copied i n) (hi : i < n)
    (hcode : i = 2 → ∃ L, n = 9 + L ∧ FrameIn buf L) :
    Copied buf (copied ++ [buf.rd i]) (i + 1) n := by
  have hbytes := Buffer.drop_bytes buf hi
  refine ⟨hi, h.size, by rw [List.length_append, h.length]; rfl, h.rd0, h.rd1, fun hlt => ?_,
    fun hge => ?_⟩
  · rw [h.head (by omega), Buffer.bytes_succ]
  · rw [List.append_assoc, List.singleton_append, ← hbytes]
    by_cases h2 : i = 2
    · -- the code byte has been read, and the frame is the one in the buffer
      obtain ⟨L, hn, hf⟩ := hcode h2
      rw [h.head (by omega), ← Buffer.take_bytes buf hi.le, List.take_append_drop]
      exact hf.whole_iff.mpr hn
    · exact h.whole (by omega)

/-- The loop has come to its end. -/
theorem Copied.done (h : Copied buf copied i n) (hi : n ≤ i) :
    copied.length = n ∧ WholeFrame copied := by
  obtain rfl : i = n := Nat.le_antisymm h.le hi
  have hwhole := h.whole (by have := h.size; omega)
  rw [List.drop_eq_nil_of_le (by simp), List.append_nil] at hwhole
  exact ⟨h.length, hwhole⟩

/-- The last byte of the block is the trailer. -/
theorem Copied.trailer (h : Copied buf copied i n) (hi : i + 1 = n) : buf.rd i = 0xED := by
  have hwhole := h.whole (by have := h.size; omega)
  have hdrop : (buf.bytes n).drop i = [buf.rd i] := by
    rw [Buffer.drop_bytes buf (by omega), List.drop_eq_nil_of_le (by simp; omega)]
  rw [hdrop] at hwhole
  have htr := hwhole.2.2
  rw [List.length_append, h.length] at htr
  simpa [h.length] using htr

/-- An interrupt writes the buffer and leaves what is still to be read. -/
theorem Copied.written (h : Copied buf copied i n) (h0 : buf'.rd 0 = 0xFA) (h1 : buf'.rd 1 = 0x0A)
    (hread : 3 ≤ i → ∀ j, i ≤ j → j < n → buf'.rd j = buf.rd j) : Copied buf' copied i n := by
  refine ⟨h.le, h.size, h.length, h0, h1, fun hi => ?_, fun hi => ?_⟩
  · -- so far the header has been copied, and every frame has the same
    have hlow : ∀ j < i, buf.rd j = buf'.rd j := by
      intro j hj
      obtain rfl | rfl : j = 0 ∨ j = 1 := by omega
      · rw [h.rd0, h0]
      · rw [h.rd1, h1]
    rw [h.head hi]
    exact Buffer.bytes_congr hlow
  · have hrest : (buf'.bytes n).drop i = (buf.bytes n).drop i := by
      refine List.ext_getElem (by simp) fun j hj _ => ?_
      rw [List.length_drop, Buffer.length_bytes] at hj
      simpa [Buffer.bytes] using hread hi (i + j) (by omega) (by omega)
    rw [hrest]
    exact h.whole hi

end Copies

/-- A reply that spares a block writes nothing new into what is still to be
read of it. -/
theorem Replied.spares {g g' : Globals} {code i n : UInt8} {copied : List UInt8}
    (hr : Replied g code g') (h : Copied g.wifiDataToSend copied i.toNat n.toNat)
    (hspared : (PutPc.copy i n).Spared (ackSize code)) :
    ∀ j, i.toNat ≤ j → j < n.toNat → g'.wifiDataToSend.rd j = g.wifiDataToSend.rd j := by
  intro j hij hjn
  rcases hspared with hle | ⟨hlen, hlast⟩
  · exact hr.behind j (hle.trans hij)
  · -- the trailer is left
    have hsize := h.size
    obtain rfl : j = i.toNat := by omega
    have hfull : ackBody code ≠ .empty := by
      intro hc
      simp only [ackSize, hc] at hlen
      omega
    have htr := hr.trailer hfull
    rw [hlen, ← hlast, Nat.add_sub_cancel] at htr
    rw [htr, h.trailer hlast]

/-! ### A reply that is under way -/

/-- The main loop is about to run the `i`-th statement of a reply: its header
stands as far as it has been stored, the sum is that of the header, a reply
`0x77` of an interrupt stands whole, and a buffer that in the end has a code of
this hand-over will be coded. -/
structure AckIntact (a : Ack) (i : ℕ) (s : Globals × UInt8) : Prop where
  rd0 : 1 ≤ i → s.1.wifiDataToSend.rd 0 = 0xFA
  rd1 : 2 ≤ i → s.1.wifiDataToSend.rd 1 = 0x0A
  sum : a ≠ .time → 10 ≤ i → i ≤ 12 → s.2 = s.1.wifiDataToSend.sumTo (i - 10)
  again : a ≠ .time → 3 ≤ i → s.1.wifiDataToSend.rd 2 = 0x77 → Again i s
  settled : (resume a.code i s).1.wifiDataToSend.rd 2 ∈ a.put.codes → Coded (resume a.code i s).1

/-- The bodies of the replies of the main loop. -/
theorem Ack.body_status {a : Ack} (h : a ≠ .time) : ackBody a.code = .status := by
  cases a with
  | time => exact absurd rfl h
  | disconnect | snapshot => rfl

/-- Of the codes that interrupts write, only `0x77` is one of a hand-over behind a
reply. -/
theorem Ack.of_interruptCodes {a : Ack} {code : UInt8} (hw : code ∈ interruptCodes)
    (hput : code ∈ a.put.codes) : a ≠ .time ∧ code = 0x77 := by
  simp only [interruptCodes, List.mem_cons, List.not_mem_nil, or_false] at hw
  cases a with
  | time =>
      obtain rfl : code = 0x74 := by simpa only [Ack.put, Put.codes, List.mem_singleton] using hput
      exact absurd hw (by decide)
  | disconnect | snapshot =>
      refine ⟨nofun, ?_⟩
      rcases hw with rfl | rfl | rfl | rfl | rfl | rfl
      · rfl
      all_goals exact absurd hput (by decide)

/-- A reply begins. -/
theorem ackIntact_zero (a : Ack) (s : Globals × UInt8) : AckIntact a 0 s where
  rd0 h := absurd h (by omega)
  rd1 h := absurd h (by omega)
  sum _ h := absurd h (by omega)
  again _ h := absurd h (by omega)
  settled _ := by
    rw [resume_zero]
    exact coded_wifiAckSend s.1 (by cases a <;> decide)

/-- Two states in which the reply goes on alike. -/
theorem AckIntact.of_same {a : Ack} {i : ℕ} {s s' : Globals × UInt8} (h : AckIntact a i s)
    (hs : SameReply s s') : AckIntact a i s' := by
  have hbuf := hs.1.buf
  have hend : SameReply (resume a.code i s) (resume a.code i s') := resume_same hs
  refine ⟨?_, ?_, ?_, fun ha hi hcode => ?_, fun hcode => ?_⟩
  · rw [hbuf]
    exact h.rd0
  · rw [hbuf]
    exact h.rd1
  · rw [hbuf, hs.2]
    exact h.sum
  · rw [hbuf] at hcode
    have hold := h.again ha hi hcode
    exact ⟨hold.coded.of_same hs.1, by rw [hbuf, hcode], by rw [hbuf, hs.2]; exact hold.sum⟩
  · rw [hend.1.buf] at hcode
    exact (h.settled hcode).of_same hend.1

/-- A statement of the reply. -/
theorem AckIntact.step {a : Ack} {i : ℕ} {f : AckStmt} {s : Globals × UInt8} (h : AckIntact a i s)
    (hf : (ackStmts a.code 0)[i]? = some f) : AckIntact a (i + 1) (f s) := by
  refine ⟨fun _ => ?_, fun hi => ?_, fun ha hi hi' => ?_, fun ha hi hcode => ?_, ?_⟩
  · obtain rfl | hpos : i = 0 ∨ 1 ≤ i := by omega
    · obtain rfl := Option.some.inj hf
      exact Buffer.rd_wr_self _ 0 _ (by omega)
    · rw [ackStmts_rd (by omega) (by omega) hf, h.rd0 hpos]
  · obtain rfl | hpos : i = 1 ∨ 2 ≤ i := by omega
    · obtain rfl := Option.some.inj hf
      exact Buffer.rd_wr_self _ 1 _ (by omega)
    · rw [ackStmts_rd (by omega) (by omega) hf, h.rd1 hpos]
  · -- the loop begins, or adds one of the first two bytes
    obtain rfl | ⟨j, rfl⟩ : i = 9 ∨ ∃ j, i = 10 + j := by
      by_cases h9 : i = 9
      · exact .inl h9
      · exact .inr ⟨i - 10, by omega⟩
    · obtain rfl := Option.some.inj (hf.symm.trans (ackStmts_loop (Ack.body_status ha)))
      rfl
    · obtain rfl := Option.some.inj (hf.symm.trans (ackStmts_round (Ack.body_status ha) (by omega)))
      have hold := h.sum ha (by omega) (by omega)
      rw [Nat.add_sub_cancel_left] at hold
      rw [show 10 + j + 1 - 10 = j + 1 by omega, Buffer.sumTo_succ, ← hold]
  · have hlt : 2 < i := by
      by_contra hle
      obtain rfl : i = 2 := by omega
      obtain rfl := Option.some.inj hf
      have hthis : a.code = 0x77 := (Buffer.rd_wr_self _ 2 _ (by omega)).symm.trans hcode
      cases a <;> exact absurd hthis (by decide)
    rw [ackStmts_rd (by omega) hlt hf] at hcode
    exact (h.again ha hlt hcode).step (Ack.body_status ha) hlt hf
  · rw [← resume_succ s hf]
    exact h.settled

/-- An interrupt writes the buffer. -/
theorem AckIntact.written {a : Ack} {i : ℕ} {g g' : Globals} {sum : UInt8}
    (h : AckIntact a i (g, sum)) (hw : Written g g')
    (hsumming : (Pc.ack a i sum).Summing → g'.wifiDataToSend.rd 2 = 0x77 →
      g.wifiDataToSend.rd 2 = 0x77) : AckIntact a i (g', sum) := by
  have hsum : a ≠ .time → 10 ≤ i → i ≤ 12 → sum = g'.wifiDataToSend.sumTo (i - 10) := by
    intro ha hi hi'
    refine (h.sum ha hi hi').trans (Buffer.sumTo_congr fun j hj => ?_)
    obtain rfl | rfl : j = 0 ∨ j = 1 := by omega
    · exact (h.rd0 (by omega)).trans hw.rd0.symm
    · exact (h.rd1 (by omega)).trans hw.rd1.symm
  have hagain : a ≠ .time → 3 ≤ i → g'.wifiDataToSend.rd 2 = 0x77 → Again i (g', sum) := by
    refine fun ha hi hcode => ⟨hw.coded, hcode, fun h10 h18 => ?_⟩
    by_cases h12 : i ≤ 12
    · exact hsum ha h10 h12
    · -- the reply was there before
      have hold := hsumming ⟨ha, by omega, h18⟩ hcode
      have hpart := h.again ha hi hold
      rw [hw.again hpart.coded hold hcode]
      exact hpart.sum h10 h18
  refine ⟨fun _ => hw.rd0, fun _ => hw.rd1, hsum, hagain, fun hcode => ?_⟩
  by_cases hhead : i < 3
  · rw [resume_of_head hhead hw.rd0 hw.rd1]
    exact coded_wifiAckSend g' (by cases a <;> decide)
  · rw [resume_code (by omega)] at hcode
    obtain ⟨ha, h77⟩ := Ack.of_interruptCodes hw.mem hcode
    exact (hagain ha (by omega) h77).resume (Ack.body_status ha) (by omega)

/-! ### The invariant -/

/-- A call of `Uart2_Put_Buf`: before its first round the buffer is coded, if
the hand-over is meant for it; then it is coded, and the block under way is
whole. -/
def PutIntact (g : Globals) (p : Put) (copied : List UInt8) : PutPc → Prop
  | .out => g.wifiDataToSend.rd 2 ∈ p.codes → Coded g
  | .copy i dataNum => Coded g ∧ Copied g.wifiDataToSend copied i.toNat dataNum.toNat

/-- The transmit buffer is coded, but for the two calls that may find it
otherwise. -/
def Fine.Intact (f : Fine) : Prop :=
  match f.sys.pc with
  | .ack a i sum => AckIntact a i (f.sys.g, sum)
  | .put p => PutIntact f.sys.g p f.copied f.put
  | _ => Coded f.sys.g

theorem Fine.intact_powerOn : Fine.powerOn.Intact := ⟨nofun, by decide⟩

/-- A coded buffer keeps the invariant where no reply and no copy is under
way. -/
theorem Fine.Intact.of_coded {f : Fine} (hcoded : Coded f.sys.g) (hout : f.put = .out)
    (hack : ∀ a i sum, f.sys.pc = .ack a i sum → i = 0) : f.Intact := by
  unfold Fine.Intact
  split
  case h_1 a i sum hpc =>
    obtain rfl := hack a i sum hpc
    exact ackIntact_zero a _
  case h_2 p hpc =>
    rw [hout]
    exact fun _ => hcoded
  case h_3 => exact hcoded

/-- What is neither a reply nor a copy has a coded buffer. -/
theorem Fine.Intact.coded {f : Fine} (h : f.Intact) (hack : ∀ a i sum, f.sys.pc ≠ .ack a i sum)
    (hput : ∀ p, f.sys.pc ≠ .put p) : Coded f.sys.g := by
  unfold Fine.Intact at h
  split at h
  case h_1 a i sum hpc => exact absurd hpc (hack a i sum)
  case h_2 p hpc => exact absurd hpc (hput p)
  case h_3 => exact h

/-! ### Statements of the main loop -/

/-- A frame the hand-over is meant for has its length. -/
theorem Put.num_of_code {p : Put} {g : Globals} (h : g.wifiDataToSend.rd 2 ∈ p.codes)
    (hcoded : Coded g) : ∃ L, (p.num g).toNat = 9 + L ∧ FrameIn g.wifiDataToSend L := by
  obtain ⟨L, hL, hnum⟩ : ∃ L, codeLen g.wifiDataLen (g.wifiDataToSend.rd 2) = some L ∧
      (L ≤ 48 → (p.num g).toNat = 9 + L) := by
    generalize g.wifiDataToSend.rd 2 = code at h
    cases p <;> simp only [Put.codes, List.mem_cons, List.not_mem_nil, or_false] at h
    case pen =>
      subst h
      refine ⟨_, rfl, fun hL => ?_⟩
      rw [Put.num, UInt8.toNat_ofNat']
      omega
    all_goals
      rcases h with rfl | rfl | rfl <;> exact ⟨_, rfl, fun _ => rfl⟩
  obtain ⟨hf, hle⟩ := hcoded.frame L hL
  exact ⟨L, hnum hle, hf⟩

/-- A reply of the main loop begins at its first statement. -/
theorem mainStep_ack {again : Bool} {staip : Option (Buffer 4)} {s : Sys} {a : Ack} {i : ℕ}
    {sum : UInt8} (hne : ∀ a i sum, s.pc ≠ .ack a i sum)
    (h : (mainStep again staip s).pc = .ack a i sum) : i = 0 := by
  cases hpc : s.pc with
  | ack a i sum => exact absurd hpc (hne a i sum)
  | put p => cases p <;> simp [mainStep, hpc, Put.next] at h
  | top =>
      simp only [mainStep, hpc, Sys.goto] at h
      split at h <;> cases h
  | netClear | snpClear | timeClear =>
      simp only [mainStep, hpc, Sys.assign, Pc.ack.injEq] at h
      exact h.2.1.symm
  | cfgWait | portWait | keyTest | searchTest | phoneTest | ipWait | completeTest | linkTest
  | penTest | penUp | idleTest | netTest | snpTest | endTest | timeTest | downTest | recTest
  | recWait | ipCopy | endIP | recCopy | recCmp =>
      simp only [mainStep, hpc, Sys.goto, Sys.assign] at h
      split_ifs at h
  | _ => simp [mainStep, hpc, Sys.goto, Sys.assign] at h

/-- Apart from the replies, the main loop leaves the transmit buffer alone, and
what its code looks at. -/
theorem mainStep_coded {s : Sys} (again : Bool) (staip : Option (Buffer 4)) (h : Coded s.g)
    (hne : ∀ a i sum, s.pc ≠ .ack a i sum) : Coded (mainStep again staip s).g := by
  have hg := mainStep_globals again staip s
  generalize (mainStep again staip s).g = g' at hg
  cases hg with
  | ack hpc => exact absurd hpc (hne _ _ _)
  | _ => exact ⟨h.frame, h.again⟩

/-- A statement of the main loop outside `Uart2_Put_Buf`. -/
theorem Fine.Intact.main {f : Fine} (again : Bool) (staip : Option (Buffer 4)) (h : f.Intact)
    (hout : f.put = .out) (hput : ∀ p, f.sys.pc ≠ .put p) :
    Fine.Intact { f with sys := mainStep again staip f.sys } := by
  by_cases hack : ∀ a i sum, f.sys.pc ≠ .ack a i sum
  · exact .of_coded (mainStep_coded again staip (h.coded hack hput) hack) hout
      fun a i sum hpc => mainStep_ack hack hpc
  simp only [not_forall, not_not] at hack
  obtain ⟨a, i, sum, hpc⟩ := hack
  simp only [Fine.Intact, hpc] at h
  simp only [mainStep, hpc]
  split
  case h_1 stmt hstmt => exact h.step hstmt
  case h_2 hend =>
    -- the reply is finished
    have hsettled := h.settled
    rw [resume_of_length_le _ (List.getElem?_eq_none_iff.mp hend)] at hsettled
    show PutIntact f.sys.g a.put f.copied f.put
    rw [hout]
    exact hsettled

/-! ### Interrupts -/

/-- A step that leaves the frame data and the main loop alone keeps the
invariant. -/
theorem Fine.Intact.of_same {f : Fine} {s : Sys} (h : f.Intact) (hpc : s.pc = f.sys.pc)
    (hs : SameFrame f.sys.g s.g) : Fine.Intact { f with sys := s } := by
  unfold Fine.Intact at h ⊢
  simp only [hpc]
  split at h
  case h_1 a i sum _ => exact h.of_same ⟨hs, rfl⟩
  case h_2 p _ =>
    cases hput : f.put with
    | out =>
        rw [hput] at h
        intro hcode
        rw [hs.buf] at hcode
        exact (h hcode).of_same hs
    | copy i dataNum =>
        rw [hput] at h
        exact ⟨h.1.of_same hs, by rw [hs.buf]; exact h.2⟩
  case h_3 => exact h.of_same hs

/-- An interrupt that writes the transmit buffer keeps the invariant, if it
spoils neither a checksum nor a block. -/
theorem Fine.Intact.written {f : Fine} {g' : Globals} (h : f.Intact) (hw : Written f.sys.g g')
    (hsumming : f.sys.pc.Summing → g'.wifiDataToSend.rd 2 = 0x77 →
      f.sys.g.wifiDataToSend.rd 2 = 0x77)
    (hmidway : ∀ i n, f.put = .copy i n → f.put.Midway → Coded f.sys.g →
      Copied f.sys.g.wifiDataToSend f.copied i.toNat n.toNat →
      ∀ j, i.toNat ≤ j → j < n.toNat →
        g'.wifiDataToSend.rd j = f.sys.g.wifiDataToSend.rd j) :
    Fine.Intact { f with sys := { f.sys with g := g' } } := by
  unfold Fine.Intact at h ⊢
  dsimp only
  split at h
  case h_1 a i sum hpc => exact h.written hw fun hs => hsumming (by rw [hpc]; exact hs)
  case h_2 p _ =>
    cases hput : f.put with
    | out => exact fun _ => hw.coded
    | copy i n =>
        rw [hput] at h
        refine ⟨hw.coded, h.2.written hw.rd0 hw.rd1 fun hi j hij hjn => ?_⟩
        refine hmidway i n hput ?_ h.1 h.2 j hij hjn
        rw [hput]
        exact ⟨hi, lt_of_le_of_lt hij hjn⟩
  case h_3 => exact hw.coded

/-- A phone frame keeps the invariant, if it is safe. -/
theorem Fine.Intact.phone {f : Fine} {dataBuf : Buffer 50} {num : UInt8} {g' : Globals}
    (h : f.Intact) (hdealt : Dealt f.sys.g dataBuf g') (hsafe : BlockSafe f (.phone dataBuf num)) :
    Fine.Intact { f with sys := { f.sys with g := g' } } := by
  rcases replied_or_sameFrame hdealt with hsame | ⟨code, hmem, hans, hr⟩
  · exact h.of_same rfl hsame
  rcases hsafe code hmem hans with ⟨hspared, hsumming⟩ | ⟨rfl, hold⟩
  · refine h.written hr.toWritten (fun hs h77 => absurd (hr.rd2.symm.trans h77) (hsumming hs)) ?_
    intro i n hput hmid _ hcopied
    have hblock := hspared hmid
    rw [hput] at hblock
    exact hr.spares hcopied hblock
  · -- the reply `0x77` over itself
    refine h.written hr.toWritten (fun _ _ => hold) fun i n _ _ hcoded _ j _ _ => ?_
    rw [hr.again hcoded hold hr.rd2]

/-- So does a screen frame. -/
theorem Fine.Intact.screen {f : Fine} {dataBuf : Buffer 255} {num : UInt8} {g' : Globals}
    (h : f.Intact) (hframe : ScreenFrame dataBuf num) (ha : Analized f.sys.g dataBuf g')
    (hsafe : BlockSafe f (.screen dataBuf num)) :
    Fine.Intact { f with sys := { f.sys with g := g' } } := by
  rcases written_or_sameFrame hframe ha with hsame | ⟨hcode, hw, hpen⟩
  · exact h.of_same rfl hsame
  · exact h.written hw (fun _ h77 => absurd (hpen.symm.trans h77) (by decide))
      fun i n hput hmid => absurd hmid (hsafe hcode)

/-! ### Runs -/

/-- **One step** keeps the invariant, if it is safe. -/
theorem Fine.Intact.step {f f' : Fine} {e : Event} (h : f.Intact) (hplaced : f.Placed)
    (hs : FineSteps f e f') (hsafe : BlockSafe f e) : f'.Intact := by
  cases hs with
  | @call p _ _ hpc hput =>
      have hcode : f.sys.g.wifiDataToSend.rd 2 ∈ p.codes := by
        have hmeant := hsafe p (Pc.handsOver_eq_some.mpr hpc)
        rwa [hput] at hmeant
      simp only [Fine.Intact, hpc, hput] at h ⊢
      obtain ⟨L, hnum, hf⟩ := Put.num_of_code hcode (h hcode)
      exact ⟨h hcode, copied_zero hf hnum⟩
  | @round p i dataNum _ _ hpc hput hi =>
      have hmeant := hsafe p (Pc.handsOver_eq_some.mpr hpc)
      simp only [Fine.Intact, hpc, hput] at h hmeant ⊢
      obtain ⟨hcoded, hcopied⟩ := h
      have hlt : i.toNat < dataNum.toNat := hi
      have hsucc : (i + 1).toNat = i.toNat + 1 := by
        have := dataNum.toNat_lt
        rw [UInt8.toNat_add, UInt8.toNat_one]
        omega
      refine ⟨hcoded, ?_⟩
      rw [hsucc]
      refine hcopied.round hlt fun h2 => ?_
      obtain ⟨hcode, rfl⟩ := hmeant (UInt8.toNat_inj.mp h2)
      exact Put.num_of_code hcode hcoded
  | @ret p i dataNum _ _ _ hpc hput _ _ =>
      simp only [Fine.Intact, hpc, hput] at h
      exact .of_coded h.1 rfl fun a j sum hnext => by cases p <;> cases hnext
  | main again staip hpc => exact h.main again staip (hplaced hpc) hpc
  | other hmain hs =>
      cases steps_of_step hs with
      | main again staip => exact absurd rfl (hmain again staip)
      | led =>
          obtain ⟨flag, cnt, led, hled⟩ := ledStep_frame f.sys
          rw [hled]
          exact h.of_same rfl ⟨rfl, rfl, rfl, rfl, rfl⟩
      | phone _ _ hdealt => exact h.phone hdealt hsafe
      | screen hframe ha => exact h.screen hframe ha hsafe
      | key | transmit | tick => exact h.of_same rfl ⟨rfl, rfl, rfl, rfl, rfl⟩

/-- A block that has been copied to its end is whole. -/
theorem Fine.Intact.blockWhole {f : Fine} (e : Event) (h : f.Intact) (hplaced : f.Placed) :
    BlockWhole f e := by
  cases e with
  | main again staip =>
      intro n hn
      obtain ⟨i, hput, hi⟩ := PutPc.ended_eq_some.mp hn
      obtain ⟨p, hpc⟩ : ∃ p, f.sys.pc = .put p := by
        by_contra hne
        have hout := hplaced fun p hp => hne ⟨p, hp⟩
        rw [hput] at hout
        cases hout
      simp only [Fine.Intact, hpc, hput] at h
      exact h.2.done (Nat.not_lt.mp hi)
  | _ => trivial

/-- **Every block is one whole frame**, byte by byte as it is copied, in every
run in which the main loop sends what the buffer was last filled with, and no
frame that comes in between spoils a checksum or a block. -/
theorem blocks_whole (as : List Event)
    (hsafe : Along fineStep (fun f e _ => BlockSafe f e) Fine.powerOn as) :
    Along fineStep (fun f e _ => BlockWhole f e) Fine.powerOn as :=
  hsafe.mono (I := fun f => f.Placed ∧ f.Intact) ⟨fun _ => rfl, Fine.intact_powerOn⟩
    fun _ e _ ⟨hplaced, hi⟩ hc hs =>
      have hs := fineSteps_of_fineStep hs
      ⟨⟨hplaced.step hs, hi.step hplaced hs hc⟩, hi.blockWhole e hplaced⟩

/-- A search that is answered. -/
theorem blocks_whole_search :
    Along fineStep (fun f e _ => BlockWhole f e) Fine.powerOn
      (List.replicate 13 .next ++ .phone (request 0x78 1 1) 39 :: List.replicate 22 .next) :=
  blocks_whole _ (by decide +kernel)

/-- A search and a heartbeat behind it: the reply to the heartbeat is sent with
the length of the reply to the search. -/
theorem blocks_mixed :
    ¬ Along fineStep (fun f e _ => BlockWhole f e) Fine.powerOn
      (List.replicate 13 .next ++ .phone (request 0x78 1 1) 39 :: .phone heartbeat 9 ::
        List.replicate 22 .next) := by
  decide +kernel

/-- A heartbeat between two rounds of the checksum loop of `wifi_ack_send(0x70, 0)`:
the reply `0x77` is sent with the sum of the other one. -/
example :
    ¬ Along fineStep (fun f e _ => BlockWhole f e) Fine.powerOn
      (List.replicate 9 .next ++ .phone (request 0x75 1 1) 39 :: List.replicate 36 .next ++
        .key keySnpShortPush :: List.replicate 30 .next ++ .phone heartbeat 9 ::
        List.replicate 22 .next) := by
  decide +kernel

/-- A heartbeat while the reply to a search is copied: the block is a mixture. -/
example :
    ¬ Along fineStep (fun f e _ => BlockWhole f e) Fine.powerOn
      (List.replicate 13 .next ++ .phone (request 0x78 1 1) 39 :: List.replicate 10 .next ++
        .phone heartbeat 9 :: List.replicate 12 .next) := by
  decide +kernel

end DolphinNote
