/-
DolphinNote/FrameContents.lean

What the frames for the phone contain.

* `frame_law_iff`: one law for all encoders.  The status replies (`0x77`,
  `0xA1`, `0x70`) leave the low byte of their parameter out of the checksum,
  every other reply and every pen frame obeys the law.
* `pen_content_iff`: the pen frame that `Screen_data_analize` makes of a frame of
  the screen.  A point whose status is neither `04` nor `07` has the state byte
  of the record that was there before.
-/
import DolphinNote.PhoneStreams
import DolphinNote.Refinement
import DolphinNote.ScreenFrames

namespace DolphinNote

open Transition Traced

/-! ### The frame law -/

/-- The buffer begins with a frame of this code that announces `L` bytes. -/
structure LawIn (buf : Buffer 255) (code : UInt8) (L : ℕ) : Prop extends FrameIn buf L where
  code : buf.rd 2 = code

/-- The law for a reply, with the length that `wifi_ack_send` records. -/
def ReplyLaw (g : Globals) (code : UInt8) (para : UInt16) : Prop :=
  ∃ L, LawIn (wifiAckSend g code para).wifiDataToSend code L ∧
    (wifiAckSend g code para).wifiDataLen.toNat = 9 + L

/-- The law for a frame of `wifi_send_pen_data`, which returns. -/
def PenLaw {n : ℕ} (g : Globals) (data : Buffer n) (penCnt : UInt8) : Prop :=
  ∃ g' l, wifiSendPenData g data penCnt = Except.ok (g', l) ∧
    LawIn g'.wifiDataToSend 0xDD (penCnt.toNat * 12)

/-- The codes of the status replies. -/
def statusCodes : List UInt8 := [0x77, 0xA1, 0x70]

section Replies

variable {g : Globals} {code : UInt8} {para : UInt16}

theorem low_eq_zero_iff : (para &&& 0xFF).toUInt8 = 0 ↔ para.toNat % 256 = 0 := by
  have hlow : (para &&& 0xFF).toUInt8.toNat = para.toNat % 256 := by
    have hmask : para.toNat &&& 0xFF = para.toNat % 2 ^ 8 := Nat.and_two_pow_sub_one_eq_mod _ 8
    rw [UInt16.toNat_toUInt8, UInt16.toNat_and, show (0xFF : UInt16).toNat = 0xFF from rfl, hmask]
    omega
  rw [← UInt8.toNat_inj, hlow]
  rfl

/-- The checksum of a status reply is that of the eight bytes in front of the
low byte of the parameter. -/
theorem sum_ackStatus (buf : Buffer 255) :
    (ackStatus buf para).sumTo 9 = (ackStatus buf para).rd 9 + (para &&& 0xFF).toUInt8 := by
  unfold ackStatus
  dsimp only
  rw [Buffer.sumTo_succ]
  congr 1
  · rw [Buffer.rd_wr_of_ne _ (by decide), Buffer.rd_wr_self]
    refine Buffer.sumTo_congr fun i hi => ?_
    rw [Buffer.rd_wr_of_ne _ (by omega), Buffer.rd_wr_of_ne _ (by omega)]
  · rw [Buffer.rd_wr_of_ne _ (by decide), Buffer.rd_wr_of_ne _ (by decide), Buffer.rd_wr_self]

theorem code_ackStatus : (ackStatus (ackHeader g code) para).rd 2 = code := by
  simp [ackStatus, ackHeader, Buffer.rd_wr]

theorem code_ackAddress : (ackAddress g (ackHeader g code)).rd 2 = code := by
  simp [ackAddress, ackHeader, Buffer.rd_wr]

theorem code_ackTime : (ackTime (ackHeader g code)).rd 2 = code := by
  simp [ackTime, ackHeader, Buffer.rd_wr]

/-- The law holds of a status reply exactly with a low byte that is zero. -/
theorem lawIn_ackStatus_iff {L : ℕ} :
    LawIn (ackStatus (ackHeader g code) para) code L ↔ L = 2 ∧ para.toNat % 256 = 0 := by
  rw [← low_eq_zero_iff]
  constructor
  · intro h
    obtain rfl : L = 2 := h.len.symm.trans (headerIn_ackStatus g code para).len
    refine ⟨rfl, ?_⟩
    have hsum := h.sum
    rw [show 7 + 2 = 9 from rfl, sum_ackStatus] at hsum
    exact left_eq_add.mp hsum
  · rintro ⟨rfl, hlow⟩
    exact ⟨frameIn_ackStatus hlow, code_ackStatus⟩

/-- One kind of reply, given its body and its length. -/
theorem replyLaw_of_body {body : Buffer 255} {n : UInt8}
    (hbuf : (wifiAckSend g code para).wifiDataToSend = body)
    (hlen : (wifiAckSend g code para).wifiDataLen = n) :
    ReplyLaw g code para ↔ ∃ L, LawIn body code L ∧ n.toNat = 9 + L := by
  unfold ReplyLaw
  rw [hbuf, hlen]

theorem replyLaw_status (hbuf : (wifiAckSend g code para).wifiDataToSend =
      ackStatus (ackHeader g code) para) (hlen : (wifiAckSend g code para).wifiDataLen = 11) :
    ReplyLaw g code para ↔ para.toNat % 256 = 0 := by
  rw [replyLaw_of_body hbuf hlen]
  constructor
  · rintro ⟨L, h, -⟩
    exact (lawIn_ackStatus_iff.mp h).2
  · exact fun hlow => ⟨2, lawIn_ackStatus_iff.mpr ⟨rfl, hlow⟩, rfl⟩

theorem replyLaw_address (hbuf : (wifiAckSend g code para).wifiDataToSend =
      ackAddress g (ackHeader g code)) (hlen : (wifiAckSend g code para).wifiDataLen = 17) :
    ReplyLaw g code para :=
  (replyLaw_of_body hbuf hlen).mpr ⟨8, ⟨frameIn_ackAddress g code, code_ackAddress⟩, rfl⟩

theorem replyLaw_time (hbuf : (wifiAckSend g code para).wifiDataToSend =
      ackTime (ackHeader g code)) (hlen : (wifiAckSend g code para).wifiDataLen = 13) :
    ReplyLaw g code para :=
  (replyLaw_of_body hbuf hlen).mpr ⟨4, ⟨frameIn_ackTime g code, code_ackTime⟩, rfl⟩

/-- Every reply obeys the law, the status replies if the low byte is zero. -/
theorem replyLaw_iff (h : code ∈ replyCodes) :
    ReplyLaw g code para ↔ (code ∈ statusCodes → para.toNat % 256 = 0) := by
  simp only [replyCodes, List.mem_cons, List.not_mem_nil, or_false] at h
  rcases h with rfl | rfl | rfl | rfl | rfl | rfl
  · rw [replyLaw_status rfl rfl, forall_prop_of_true (by decide)]
  · rw [replyLaw_status rfl rfl, forall_prop_of_true (by decide)]
  · rw [replyLaw_status rfl rfl, forall_prop_of_true (by decide)]
  · exact iff_of_true (replyLaw_address rfl rfl) fun hmem => absurd hmem (by decide)
  · exact iff_of_true (replyLaw_address rfl rfl) fun hmem => absurd hmem (by decide)
  · exact iff_of_true (replyLaw_time rfl rfl) fun hmem => absurd hmem (by decide)

theorem penLaw {n : ℕ} {data : Buffer n} {penCnt : UInt8} (hk : penCnt.toNat ≤ 20)
    (hn : penCnt.toNat * 12 ≤ n) : PenLaw g data penCnt := by
  have hspec : Ensures (wifiSendPenData g data penCnt) (fun _ => True) fun g' => ∃ buf,
      PenEncoded g data penCnt.toNat buf ∧
      g' = { g with wifiDataLen := penCnt, wifiDataToSend := buf } :=
    wifiSendPenData_spec hk hn (fun _ _ => trivial) (fun _ _ => trivial) fun _ _ => trivial
  obtain ⟨g', l, hrun, -, buf, henc, rfl⟩ := hspec
  exact ⟨_, l, hrun, henc.frameIn hk, henc.rd2⟩

end Replies

/-- **One frame law for all encoders**, but for the status replies: these obey it
exactly if the low byte of the parameter is zero. -/
theorem frame_law_iff (g : Globals) (code : UInt8) (para : UInt16) {n : ℕ} (data : Buffer n)
    (penCnt : UInt8) :
    (code ∈ replyCodes → (ReplyLaw g code para ↔ (code ∈ statusCodes → para.toNat % 256 = 0))) ∧
      (penCnt.toNat ≤ 20 → penCnt.toNat * 12 ≤ n → PenLaw g data penCnt) :=
  ⟨replyLaw_iff, penLaw⟩

/-- A reply with the parameter one. -/
theorem frame_law_fails : ¬ ReplyLaw .powerOn 0x77 1 := by
  rw [replyLaw_status rfl rfl]
  decide

/-! ### Pen frames -/

/-- The record of point `i` in a pen frame. -/
def recordBytes (dataBuf : Buffer 255) (tb : UInt32) (state : UInt8) (i : ℕ) : List UInt8 :=
  (List.range 8).map (fun j => dataBuf.rd (5 + j + i * 10)) ++
    [state, UInt8.ofNat tb.toNat, UInt8.ofNat (tb.toNat / 256), UInt8.ofNat (tb.toNat / 65536)]

/-- A pen frame up to its checksum. -/
def penBody (id : Buffer 16) (tb : UInt32) (dataBuf : Buffer 255) (state : ℕ → UInt8) (k : ℕ) :
    List UInt8 :=
  [0xFA, 0x0A, 0xDD, id.rd 14, id.rd 15, UInt8.ofNat (12 * k), UInt8.ofNat (12 * k / 256)] ++
    (List.range k).flatMap fun i => recordBytes dataBuf tb (state i) i

/-- The pen frame of `k` points. -/
def penFrame (id : Buffer 16) (tb : UInt32) (dataBuf : Buffer 255) (state : ℕ → UInt8) (k : ℕ) :
    List UInt8 :=
  penBody id tb dataBuf state k ++ [(penBody id tb dataBuf state k).sum, 0xED]

/-- A state byte for each status and pen byte, the ones of `04` and `07` as they are. -/
def StateRule (f : UInt8 → UInt8 → UInt8) : Prop :=
  ∀ pen, f 0x04 pen = 0x80 ||| (pen &&& 0x7F) ∧ f 0x07 pen = pen &&& 0x7F

/-- A frame `68 len 02 …` of `k` points. -/
structure PointsFrame (dataBuf : Buffer 255) (num : UInt8) (k : ℕ) : Prop where
  head : dataBuf.rd 0 = 0x68
  len : (dataBuf.rd 1).toNat = 2 + 10 * k
  code : dataBuf.rd 2 = 0x02
  num : num.toNat = (dataBuf.rd 1).toNat + 2

/-- The globals with this pairing and this time. -/
def Globals.setPhone (g : Globals) (id : Buffer 16) (tb : UInt32) : Globals :=
  { g with phoneID := id, timeBase := tb }

/-- A global state that a history leads to, with this pairing and this time. -/
def Earlier (id : Buffer 16) (tb : UInt32) (g : Globals) : Prop :=
  ∃ b, Reachable boardStep Board.powerOn b ∧ g = b.sys.g.setPhone id tb

/-- What the phone is sent of the frame: with a state byte from the point alone,
after every history. -/
def PenContent (dataBuf : Buffer 255) (num : UInt8) (k : ℕ) : Prop :=
  ∃ f, StateRule f ∧ ∀ id tb g, Earlier id tb g →
    ∃ g' l, screenDataAnalize g dataBuf num = Except.ok (g', l) ∧
      g'.wifiDataToSend.bytes (9 + 12 * k) = penFrame id tb dataBuf
        (fun i => f (dataBuf.rd (3 + i * 10)) (dataBuf.rd (4 + i * 10))) k

/-- Two histories that end in the same frame, pairing and time give the same bytes. -/
def SameBytes (dataBuf : Buffer 255) (num : UInt8) (k : ℕ) : Prop :=
  ∀ id tb g₁ g₂, Earlier id tb g₁ → Earlier id tb g₂ → ∀ g₁' g₂' l₁ l₂,
    screenDataAnalize g₁ dataBuf num = Except.ok (g₁', l₁) →
    screenDataAnalize g₂ dataBuf num = Except.ok (g₂', l₂) →
    g₁'.wifiDataToSend.bytes (9 + 12 * k) = g₂'.wifiDataToSend.bytes (9 + 12 * k)

/-- Every point has one of the two statuses that are dealt with. -/
def Known (dataBuf : Buffer 255) (k : ℕ) : Prop :=
  ∀ i < k, dataBuf.rd (3 + i * 10) = 0x04 ∨ dataBuf.rd (3 + i * 10) = 0x07

/-- One byte of the time, masked out and shifted down. -/
theorem timeByte_eq (tb : UInt32) {mask n : UInt32} (hn : n.toNat < 32)
    (hmask : mask.toNat >>> n.toNat = 0xFF) :
    ((tb &&& mask) >>> n).toUInt8 = UInt8.ofNat (tb.toNat / 2 ^ n.toNat) := by
  have hbits : (tb.toNat &&& mask.toNat) >>> n.toNat = tb.toNat / 2 ^ n.toNat % 2 ^ 8 := by
    rw [Nat.shiftRight_and_distrib, hmask, Nat.shiftRight_eq_div_pow]
    exact Nat.and_two_pow_sub_one_eq_mod _ 8
  apply UInt8.toNat_inj.mp
  rw [UInt32.toNat_toUInt8, UInt32.toNat_shiftRight, UInt32.toNat_and, Nat.mod_eq_of_lt hn, hbits,
    UInt8.toNat_ofNat', Nat.mod_mod]

theorem timeLow_eq (tb : UInt32) : (tb &&& 0x0000FF).toUInt8 = UInt8.ofNat tb.toNat := by
  rw [← UInt32.shiftRight_zero (a := tb &&& 0x0000FF), timeByte_eq tb (by decide) rfl]
  rw [show (0 : UInt32).toNat = 0 from rfl, pow_zero, Nat.div_one]

/-- Some more cells of a buffer. -/
theorem Buffer.bytes_add {n : ℕ} (v : Buffer n) (k m : ℕ) :
    v.bytes (k + m) = v.bytes k ++ (List.range m).map fun j => v.rd (k + j) := by
  unfold Buffer.bytes
  rw [List.range_add, List.map_append, List.map_map]
  rfl

section Contents

variable {g g' : Globals} {dataBuf : Buffer 255} {num : UInt8} {k : ℕ} {tb : UInt32}
  {old pen : Buffer 200} {buf : Buffer 255}

/-- The twelve bytes of a record. -/
theorem RecordOf.bytes {i : ℕ} (h : RecordOf dataBuf tb old pen i) :
    (List.range 12).map (fun j => pen.rd (i * 12 + j)) = recordBytes dataBuf tb
      (stateByte (dataBuf.rd (3 + i * 10)) (dataBuf.rd (4 + i * 10)) (old.rd (i * 12 + 8))) i := by
  have h1 : UInt8.ofNat (tb.toNat / 256) = ((tb &&& 0x00FF00) >>> 8).toUInt8 :=
    (timeByte_eq tb (n := 8) (by decide) rfl).symm
  have h2 : UInt8.ofNat (tb.toNat / 65536) = ((tb &&& 0xFF0000) >>> 16).toUInt8 :=
    (timeByte_eq tb (n := 16) (by decide) rfl).symm
  rw [show 12 = 8 + 4 from rfl, List.range_add, List.map_append, List.map_map]
  unfold recordBytes
  refine congrArg₂ _ (List.map_congr_left fun j hj => h.coords j (List.mem_range.mp hj)) ?_
  show [pen.rd (i * 12 + 8), pen.rd (i * 12 + 9), pen.rd (i * 12 + 10), pen.rd (i * 12 + 11)] = _
  rw [h.state, h.time0, h.time1, h.time2, timeLow_eq, h1, h2]

/-- The frame that was encoded from the records. -/
theorem PenEncoded.bytes (h : PenEncoded g pen k buf) (hrecs : ∀ i < k, RecordOf dataBuf tb old pen i) :
    buf.bytes (9 + 12 * k) = penFrame g.phoneID tb dataBuf (fun i =>
      stateByte (dataBuf.rd (3 + i * 10)) (dataBuf.rd (4 + i * 10)) (old.rd (i * 12 + 8))) k := by
  have hbody : ∀ m ≤ k, buf.bytes (7 + 12 * m) = buf.bytes 7 ++ (List.range m).flatMap fun i =>
      recordBytes dataBuf tb
        (stateByte (dataBuf.rd (3 + i * 10)) (dataBuf.rd (4 + i * 10)) (old.rd (i * 12 + 8))) i := by
    -- record after record
    intro m hm
    induction m with
    | zero => exact (List.append_nil _).symm
    | succ m ih =>
        have hrec : (List.range 12).map (fun j => buf.rd (7 + 12 * m + j)) =
            (List.range 12).map fun j => pen.rd (m * 12 + j) := by
          refine List.map_congr_left fun j hj => ?_
          have hj12 := List.mem_range.mp hj
          rw [show 7 + 12 * m + j = 7 + (m * 12 + j) by omega, h.records _ (by omega)]
        rw [show 7 + 12 * (m + 1) = 7 + 12 * m + 12 by omega, Buffer.bytes_add, ih (by omega), hrec,
          (hrecs m (by omega)).bytes, List.range_succ, List.flatMap_append, List.append_assoc,
          List.flatMap_singleton]
  have hhead : buf.bytes 7 = [0xFA, 0x0A, 0xDD, g.phoneID.rd 14, g.phoneID.rd 15,
      UInt8.ofNat (12 * k), UInt8.ofNat (12 * k / 256)] := by
    rw [← h.rd0, ← h.rd1, ← h.rd2, ← h.rd3, ← h.rd4, Nat.mul_comm 12 k, ← h.rd5, ← h.rd6]
    rfl
  have hsum := h.sum
  have htrailer := h.trailer
  rw [Nat.mul_comm k 12] at hsum htrailer
  rw [show 9 + 12 * k = 7 + 12 * k + 2 by omega, Buffer.bytes_add]
  show _ ++ [buf.rd (7 + 12 * k), buf.rd (7 + 12 * k + 1)] = _
  rw [hsum, Buffer.sumTo_eq_sum, show 7 + 12 * k + 1 = 8 + 12 * k by omega, htrailer,
    hbody k le_rfl, hhead]
  rfl

theorem PointsFrame.screenFrame (h : PointsFrame dataBuf num k) (hk : k ≤ 4) :
    ScreenFrame dataBuf num :=
  ⟨h.head, by rw [h.len]; omega, by rw [h.len]; omega, h.num⟩

theorem PointsFrame.pointCnt (h : PointsFrame dataBuf num k) (hk : k ≤ 4) :
    (pointCnt (dataBuf.rd 1)).toNat = k := by
  rw [pointCnt_toNat (by rw [h.len]; omega), h.len]
  omega

/-- **The pen frame** that the dispatcher leaves, whatever the points are: the
state byte of a point with another status is the one of the old record. -/
theorem screenDataAnalize_bytes (h : PointsFrame dataBuf num k) (hk : k ≤ 4) (g : Globals) :
    ∃ g' l, screenDataAnalize g dataBuf num = Except.ok (g', l) ∧
      g'.wifiDataToSend.bytes (9 + 12 * k) = penFrame g.phoneID g.timeBase dataBuf (fun i =>
        stateByte (dataBuf.rd (3 + i * 10)) (dataBuf.rd (4 + i * 10)) (g.penData.rd (i * 12 + 8))) k ∧
      ∀ i < k, g'.wifiDataToSend.rd (7 + (i * 12 + 8)) =
        stateByte (dataBuf.rd (3 + i * 10)) (dataBuf.rd (4 + i * 10)) (g.penData.rd (i * 12 + 8)) := by
  obtain ⟨g', l, hrun, -, -, -, hrecs, henc⟩ :=
    screenDataAnalize_points (g := g) (h.screenFrame hk) h.code
  rw [h.pointCnt hk] at hrecs henc
  refine ⟨g', l, hrun, henc.bytes hrecs, fun i hi => ?_⟩
  rw [henc.records _ (by omega), (hrecs i hi).state]

/-! #### The histories -/

theorem penFrame_congr {id : Buffer 16} {state state' : ℕ → UInt8}
    (h : ∀ i < k, state i = state' i) :
    penFrame id tb dataBuf state k = penFrame id tb dataBuf state' k := by
  have hbody : penBody id tb dataBuf state k = penBody id tb dataBuf state' k := by
    unfold penBody
    rw [List.flatMap_congr fun i hi => by rw [h i (List.mem_range.mp hi)]]
  rw [penFrame, hbody, penFrame]

/-- With known statuses the old records do not show. -/
theorem penContent_of_known (h : PointsFrame dataBuf num k) (hk : k ≤ 4) (hknown : Known dataBuf k) :
    PenContent dataBuf num k := by
  refine ⟨fun status pen => stateByte status pen 0, fun pen => ⟨UInt8.or_comm _ _, rfl⟩, ?_⟩
  rintro id tb _ ⟨b, -, rfl⟩
  obtain ⟨g', l, hrun, hbytes, -⟩ :=
    screenDataAnalize_bytes h hk (b.sys.g.setPhone id tb)
  refine ⟨g', l, hrun, hbytes.trans (penFrame_congr fun i hi => ?_)⟩
  rcases hknown i hi with hstatus | hstatus
  · rw [hstatus]
    rfl
  · rw [hstatus]
    rfl

/-- The bytes of a content are those of every history. -/
theorem sameBytes_of_penContent (h : PenContent dataBuf num k) : SameBytes dataBuf num k := by
  obtain ⟨f, -, hf⟩ := h
  intro id tb g₁ g₂ h₁ h₂ g₁' g₂' l₁ l₂ hrun₁ hrun₂
  obtain ⟨_, _, hrun, hbytes₁⟩ := hf id tb g₁ h₁
  cases hrun₁.symm.trans hrun
  obtain ⟨_, _, hrun, hbytes₂⟩ := hf id tb g₂ h₂
  cases hrun₂.symm.trans hrun
  rw [hbytes₁, hbytes₂]

/-- Four points with the pen lifted. -/
def lifted : List UInt8 :=
  [0x68, 42, 0x02] ++ (List.replicate 4 (0x04 :: List.replicate 9 0)).flatten ++ [0]

/-- They leave their state byte in the first four records. -/
theorem exists_lifted : ∃ b, Reachable boardStep Board.powerOn b ∧
    ∀ i < 4, b.sys.g.penData.rd (i * 12 + 8) = 0x80 := by
  have hrun : (exec boardStep Board.powerOn ((received lifted).map (.irq .usart1))).map
      (fun b => (List.range 4).map fun i => b.sys.g.penData.rd (i * 12 + 8)) =
        some [0x80, 0x80, 0x80, 0x80] := by
    decide +kernel
  obtain ⟨b, hb, hval⟩ := Option.map_eq_some_iff.mp hrun
  refine ⟨b, ⟨_, hb⟩, fun i hi => ?_⟩
  have hcell := congrArg (fun l => l.getD i 0) hval
  interval_cases i <;> exact hcell

/-- A point with another status shows which history it was. -/
theorem not_sameBytes (h : PointsFrame dataBuf num k) (hk : k ≤ 4) (hbad : ¬ Known dataBuf k) :
    ¬ SameBytes dataBuf num k := by
  intro hsame
  unfold Known at hbad
  push Not at hbad
  obtain ⟨i, hi, h04, h07⟩ := hbad
  have hstate : ∀ pen old, stateByte (dataBuf.rd (3 + i * 10)) pen old = old := fun pen old => by
    rw [stateByte, if_neg h04, if_neg h07]
  obtain ⟨b, hb, hlifted⟩ := exists_lifted
  obtain ⟨g₁, l₁, hrun₁, -, hrd₁⟩ :=
    screenDataAnalize_bytes h hk (Board.powerOn.sys.g.setPhone (.zero 16) 0)
  obtain ⟨g₂, l₂, hrun₂, -, hrd₂⟩ := screenDataAnalize_bytes h hk (b.sys.g.setPhone (.zero 16) 0)
  -- power-on and the lifted points, with the same pairing and time
  have hbytes := hsame _ _ _ _ ⟨_, ⟨[], rfl⟩, rfl⟩ ⟨b, hb, rfl⟩ g₁ g₂ l₁ l₂ hrun₁ hrun₂
  have hcell : 7 + (i * 12 + 8) < 9 + 12 * k := by omega
  have heq : g₁.wifiDataToSend.rd (7 + (i * 12 + 8)) = g₂.wifiDataToSend.rd (7 + (i * 12 + 8)) := by
    rw [← Buffer.getD_bytes _ hcell, hbytes, Buffer.getD_bytes _ hcell]
  rw [hrd₁ i hi, hrd₂ i hi, hstate, hstate] at heq
  have hzero : Board.powerOn.sys.g.penData.rd (i * 12 + 8) = 0 := by
    have hi4 : i < 4 := by omega
    interval_cases i <;> rfl
  have hold : (0 : UInt8) = 0x80 := hzero.symm.trans (heq.trans (hlifted i (by omega)))
  exact absurd hold (by decide)

/-- **Pen frame encoding**: exactly the frames whose points all have the status
`04` or `07` are encoded from the frame, the pairing and the time alone. -/
theorem pen_content_iff (h : PointsFrame dataBuf num k) (hk : k ≤ 4) :
    (PenContent dataBuf num k ↔ Known dataBuf k) ∧ (SameBytes dataBuf num k ↔ Known dataBuf k) := by
  have hback : SameBytes dataBuf num k → Known dataBuf k := fun hsame => by
    by_contra hbad
    exact not_sameBytes h hk hbad hsame
  exact ⟨⟨fun hc => hback (sameBytes_of_penContent hc), penContent_of_known h hk⟩,
    ⟨hback, fun hknown => sameBytes_of_penContent (penContent_of_known h hk hknown)⟩⟩

end Contents

/-- One point with the pen down. -/
theorem pen_content_iff_touch :
    (PenContent (touch 0) 14 1 ↔ Known (touch 0) 1) ∧
      (SameBytes (touch 0) 14 1 ↔ Known (touch 0) 1) :=
  pen_content_iff ⟨by decide +kernel, by decide +kernel, by decide +kernel, by decide +kernel⟩
    (by decide)

/-- A frame of one point with the status `00`. -/
def hover : Buffer 255 := .tabulate 255 fun i => [0x68, 12, 0x02].getD i 0

/-- It is sent with the state of the record before. -/
theorem pen_content_fails : ¬ PenContent hover 14 1 ∧ ¬ SameBytes hover 14 1 := by
  have hframe : PointsFrame hover 14 1 :=
    ⟨by decide +kernel, by decide +kernel, by decide +kernel, by decide +kernel⟩
  have hbad : ¬ Known hover 1 := fun h => absurd (h 0 (by decide)) (by decide +kernel)
  have hdiffer := not_sameBytes hframe (by decide) hbad
  exact ⟨fun hc => hdiffer (sameBytes_of_penContent hc), hdiffer⟩

end DolphinNote
