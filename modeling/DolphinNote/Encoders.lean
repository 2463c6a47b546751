/-
DolphinNote/Encoders.lean

The frames the two encoders of `wifi.c` build, as lists of bytes.

* `wifi_ack_send` leaves one of three reply frames, or only a rewritten header.
  With `para = 0`, as every caller passes it, each reply obeys the frame law.
* `wifi_send_pen_data` returns for every point count up to 20, touches only
  the cells the frame needs, and leaves the pen frame of its records
  (`wifiSendPenData_spec`).
-/
import DolphinNote.Protocol
import DolphinNote.Wifi

namespace DolphinNote

open Traced

/-! ### Frames in the transmit buffer -/

/-- The buffer begins with the header of a frame that announces `L` bytes. -/
structure HeaderIn {n : ℕ} (buf : Buffer n) (L : ℕ) : Prop where
  rd0 : buf.rd 0 = 0xFA
  rd1 : buf.rd 1 = 0x0A
  len : (buf.rd 5).toNat + 256 * (buf.rd 6).toNat = L

/-- `wifi_data_to_send` begins with a whole frame that announces `L` bytes. -/
structure FrameIn (buf : Buffer 255) (L : ℕ) : Prop extends HeaderIn buf L where
  sum : buf.rd (7 + L) = buf.sumTo (7 + L)
  trailer : buf.rd (8 + L) = 0xED

theorem phoneFrame_bytes_iff {n : ℕ} {buf : Buffer n} {k : ℕ} :
    PhoneFrame (buf.bytes k) ↔ ∃ L, k = 9 + L ∧ HeaderIn buf L := by
  constructor
  · rintro ⟨h0, h1, hlen⟩
    rw [Buffer.length_bytes] at hlen
    have ha := announced_bytes buf (k := k) (by omega)
    rw [Buffer.getD_bytes buf (by omega)] at h0 h1
    exact ⟨_, hlen, h0, h1, ha.symm⟩
  · rintro ⟨L, rfl, h⟩
    refine ⟨?_, ?_, ?_⟩
    · rw [Buffer.getD_bytes buf (by omega), h.rd0]
    · rw [Buffer.getD_bytes buf (by omega), h.rd1]
    · rw [announced_bytes buf (by omega), h.len, Buffer.length_bytes]

theorem HeaderIn.announced {n : ℕ} {buf : Buffer n} {L k : ℕ} (h : HeaderIn buf L) (hk : 7 ≤ k) :
    announced (buf.bytes k) = L := by
  rw [announced_bytes buf hk, h.len]

/-- The frame law, read off the buffer. -/
theorem wholeFrame_bytes_iff {buf : Buffer 255} {k : ℕ} :
    WholeFrame (buf.bytes k) ↔ ∃ L, k = 9 + L ∧ FrameIn buf L := by
  have hseal (L : ℕ) : Sealed (buf.bytes (9 + L)) ↔
      buf.rd (7 + L) = buf.sumTo (7 + L) ∧ buf.rd (8 + L) = 0xED := by
    have h7 : 9 + L - 2 = 7 + L := by omega
    have h8 : 9 + L - 1 = 8 + L := by omega
    unfold Sealed
    rw [Buffer.length_bytes, h7, h8, Buffer.getD_bytes buf (by omega),
      Buffer.getD_bytes buf (by omega), Buffer.take_bytes buf (by omega), ← Buffer.sumTo_eq_sum]
  unfold WholeFrame
  rw [phoneFrame_bytes_iff]
  constructor
  · rintro ⟨⟨L, rfl, h⟩, hs⟩
    obtain ⟨hsum, htr⟩ := (hseal L).mp hs
    exact ⟨L, rfl, h, hsum, htr⟩
  · rintro ⟨L, rfl, h⟩
    exact ⟨⟨L, rfl, h.toHeaderIn⟩, (hseal L).mpr ⟨h.sum, h.trailer⟩⟩

/-- A buffer that begins with a whole frame holds it in exactly one length. -/
theorem FrameIn.whole_iff {buf : Buffer 255} {L k : ℕ} (h : FrameIn buf L) :
    WholeFrame (buf.bytes k) ↔ k = 9 + L := by
  rw [wholeFrame_bytes_iff]
  constructor
  · rintro ⟨L', hk, h'⟩
    rw [hk, ← h.len, h'.len]
  · exact fun hk => ⟨L, hk, h⟩

/-! ### Replies -/

theorem headerIn_ackStatus (g : Globals) (code : UInt8) (para : UInt16) :
    HeaderIn (ackStatus (ackHeader g code) para) 2 := by
  unfold ackStatus
  dsimp only
  refine ⟨?_, ?_, ?_⟩
  · simp [ackHeader, Buffer.rd_wr]
  · simp [ackHeader, Buffer.rd_wr]
  · simp [Buffer.rd_wr]

/-- A status reply covers its parameter up to the low byte: the checksum is the
frame's when that byte is zero. -/
theorem frameIn_ackStatus {g : Globals} {code : UInt8} {para : UInt16}
    (hpara : (para &&& 0xFF).toUInt8 = 0) : FrameIn (ackStatus (ackHeader g code) para) 2 := by
  refine ⟨headerIn_ackStatus g code para, Buffer.rd_eq_sumTo_of_sealed _ _ _ ?_,
    Buffer.rd_wr_self _ _ _ _⟩
  rw [hpara, Buffer.sumTo_succ _ 8, Buffer.rd_wr_self, add_zero]

theorem frameIn_ackAddress (g : Globals) (code : UInt8) :
    FrameIn (ackAddress g (ackHeader g code)) 8 := by
  unfold ackAddress
  dsimp only
  refine ⟨⟨?_, ?_, ?_⟩, Buffer.rd_eq_sumTo_of_sealed _ _ _ rfl, Buffer.rd_wr_self _ _ _ _⟩
  · simp [ackHeader, Buffer.rd_wr]
  · simp [ackHeader, Buffer.rd_wr]
  · simp [Buffer.rd_wr]

theorem frameIn_ackTime (g : Globals) (code : UInt8) : FrameIn (ackTime (ackHeader g code)) 4 := by
  unfold ackTime
  dsimp only
  refine ⟨⟨?_, ?_, ?_⟩, Buffer.rd_eq_sumTo_of_sealed _ _ _ rfl, Buffer.rd_wr_self _ _ _ _⟩
  · simp [ackHeader, Buffer.rd_wr]
  · simp [ackHeader, Buffer.rd_wr]
  · simp [Buffer.rd_wr]

/-! ### Pen frames -/

/-- The pen frame of `penCnt` records in `wifi_data_to_send`. -/
structure PenEncoded {n : ℕ} (g : Globals) (data : Buffer n) (k : ℕ) (buf : Buffer 255) : Prop where
  rd0 : buf.rd 0 = 0xFA
  rd1 : buf.rd 1 = 0x0A
  rd2 : buf.rd 2 = 0xDD
  rd3 : buf.rd 3 = g.phoneID.rd 14
  rd4 : buf.rd 4 = g.phoneID.rd 15
  rd5 : buf.rd 5 = UInt8.ofNat (k * 12)
  rd6 : buf.rd 6 = UInt8.ofNat (k * 12 / 256)
  records : ∀ j < k * 12, buf.rd (7 + j) = data.rd j
  sum : buf.rd (7 + k * 12) = buf.sumTo (7 + k * 12)
  trailer : buf.rd (8 + k * 12) = 0xED

variable {A : Effect → Prop} {n : ℕ} {data : Buffer n}

theorem penCopy_spec {buf : Buffer 255} {ii : ℕ} (hii : ii < 20) (hn : (ii + 1) * 12 ≤ n)
    (hrd : ∀ i < (ii + 1) * 12, A (.rd .penData i))
    (hwr : ∀ i < 7 + (ii + 1) * 12, A (.wr .wifiDataToSend i)) :
    Ensures (penCopy data buf ii) A fun buf' =>
      (∀ j < 7 + ii * 12, buf'.rd j = buf.rd j) ∧
      ∀ j < 12, buf'.rd (7 + ii * 12 + j) = data.rd (ii * 12 + j) := by
  refine Ensures.forLoop (I := fun m (buf' : Buffer 255) => (∀ j < 7 + ii * 12, buf'.rd j = buf.rd j) ∧
    ∀ j < m, buf'.rd (7 + ii * 12 + j) = data.rd (ii * 12 + j)) ⟨fun _ _ => rfl, by omega⟩ ?_
  rintro j buf' hj ⟨hlow, hcopied⟩
  refine (ensures_load (Q := (· = data.rd (ii * 12 + j))) (by omega)
    (hrd _ (by omega)) rfl).bind fun x hx => ?_
  subst hx
  refine ensures_store (by omega) (hwr _ (by omega)) ⟨fun i hi => ?_, fun i hi => ?_⟩
  · rw [Buffer.rd_wr_of_ne _ (by omega), hlow i hi]
  · by_cases hij : i = j
    · rw [hij, Buffer.rd_wr_self]
    · rw [Buffer.rd_wr_of_ne _ (by omega), hcopied i (by omega)]

/-- The checksum loop stops and returns the sum, as long as its bound fits the
byte it counts with. -/
theorem penSumLoop_spec {buf : Buffer 255} {bound : ℕ} (hb : bound ≤ 255)
    (hrd : ∀ i < bound, A (.rd .wifiDataToSend i)) (m : ℕ) {fuel : ℕ} {ii : UInt8} {sum : UInt8}
    (hm : ii.toNat + m = bound) (hfuel : m < fuel) (hsum : sum = buf.sumTo ii.toNat) :
    Ensures (penSumLoop buf bound fuel ii sum) A (· = buf.sumTo bound) := by
  induction m generalizing fuel ii sum with
  | zero =>
      obtain ⟨fuel, rfl⟩ : ∃ f, fuel = f + 1 := ⟨fuel - 1, by omega⟩
      rw [penSumLoop, if_neg (by omega)]
      have hii : ii.toNat = bound := hm
      exact .pure (by rw [hsum, hii])
  | succ m ih =>
      obtain ⟨fuel, rfl⟩ : ∃ f, fuel = f + 1 := ⟨fuel - 1, by omega⟩
      rw [penSumLoop, if_pos (by omega)]
      refine (ensures_load (Q := (· = buf.rd ii.toNat)) (by omega)
        (hrd _ (by omega)) rfl).bind fun x hx => ?_
      have hnext : (ii + 1).toNat = ii.toNat + 1 := by
        rw [UInt8.toNat_add, UInt8.toNat_one]
        omega
      refine ih (by omega) (by omega) ?_
      rw [hnext, Buffer.sumTo_succ, hsum, hx]

theorem PenEncoded.frameIn {g : Globals} {k : ℕ} {buf : Buffer 255} (h : PenEncoded g data k buf)
    (hk : k ≤ 20) : FrameIn buf (k * 12) := by
  refine ⟨⟨h.rd0, h.rd1, ?_⟩, h.sum, h.trailer⟩
  rw [h.rd5, h.rd6, UInt8.toNat_ofNat', UInt8.toNat_ofNat']
  omega

/-- The copies of all records, after the header. -/
theorem penRecords_spec {g : Globals} {k : ℕ} (hk : k ≤ 20) (hn : k * 12 ≤ n)
    (hrd : ∀ i < k * 12, A (.rd .penData i))
    (hwr : ∀ i < 7 + k * 12, A (.wr .wifiDataToSend i)) :
    Ensures ((List.range k).foldlM (penCopy data) (penHeader g k)) A fun buf =>
      (∀ j < 7, buf.rd j = (penHeader g k).rd j) ∧ ∀ j < k * 12, buf.rd (7 + j) = data.rd j := by
  refine (Ensures.forLoop (I := fun m (buf : Buffer 255) => (∀ j < 7, buf.rd j = (penHeader g k).rd j) ∧
    ∀ j < m * 12, buf.rd (7 + j) = data.rd j) ⟨fun _ _ => rfl, by omega⟩ ?_)
  rintro ii buf hii ⟨hhead, hrecs⟩
  refine (penCopy_spec (by omega) (by omega) (fun i hi => hrd i (by omega))
    fun i hi => hwr i (by omega)).mono (fun _ h => h) ?_
  rintro buf' ⟨hlow, hnew⟩
  refine ⟨fun j hj => by rw [hlow j (by omega), hhead j hj], fun j hj => ?_⟩
  by_cases hold : j < ii * 12
  · rw [hlow (7 + j) (by omega), hrecs j hold]
  · have h := hnew (j - ii * 12) (by omega)
    rwa [show 7 + ii * 12 + (j - ii * 12) = 7 + j by omega,
      show ii * 12 + (j - ii * 12) = j by omega] at h

/-- **The pen encoder.**  For up to 20 points it returns, reads the records and
the frame, writes the frame, and leaves the pen frame of the records. -/
theorem wifiSendPenData_spec {g : Globals} {penCnt : UInt8} (hk : penCnt.toNat ≤ 20)
    (hn : penCnt.toNat * 12 ≤ n)
    (hpen : ∀ i < penCnt.toNat * 12, A (.rd .penData i))
    (hrd : ∀ i < 7 + penCnt.toNat * 12, A (.rd .wifiDataToSend i))
    (hwr : ∀ i < 9 + penCnt.toNat * 12, A (.wr .wifiDataToSend i)) :
    Ensures (wifiSendPenData g data penCnt) A fun g' => ∃ buf,
      PenEncoded g data penCnt.toNat buf ∧
      g' = { g with wifiDataLen := penCnt, wifiDataToSend := buf } := by
  unfold wifiSendPenData
  -- the header, store by store
  refine (ensures_store (Q := (· = _)) (by omega) (hwr 0 (by omega)) rfl).bind ?_
  rintro _ rfl
  refine (ensures_store (Q := (· = _)) (by omega) (hwr 1 (by omega)) rfl).bind ?_
  rintro _ rfl
  refine (ensures_store (Q := (· = _)) (by omega) (hwr 2 (by omega)) rfl).bind ?_
  rintro _ rfl
  refine (ensures_store (Q := (· = _)) (by omega) (hwr 3 (by omega)) rfl).bind ?_
  rintro _ rfl
  refine (ensures_store (Q := (· = _)) (by omega) (hwr 4 (by omega)) rfl).bind ?_
  rintro _ rfl
  refine (ensures_store (Q := (· = _)) (by omega) (hwr 5 (by omega)) rfl).bind ?_
  rintro _ rfl
  refine (ensures_store (Q := (· = _)) (by omega) (hwr 6 (by omega)) rfl).bind ?_
  rintro _ rfl
  -- the records, the sum and the trailer
  refine (penRecords_spec (g := g) hk hn hpen fun i hi => hwr i (by omega)).bind ?_
  rintro buf ⟨hhead, hrecs⟩
  refine (penSumLoop_spec (by omega) (fun i hi => hrd i (by omega)) (7 + penCnt.toNat * 12)
    (by simp; omega) (by omega) rfl).bind ?_
  rintro _ rfl
  refine (ensures_store (Q := (· = _)) (by omega) (hwr _ (by omega)) rfl).bind ?_
  rintro _ rfl
  refine (ensures_store (Q := (· = _)) (by omega) (hwr _ (by omega)) rfl).bind ?_
  rintro _ rfl
  refine .pure ⟨_, ?_, rfl⟩
  set k := penCnt.toNat with hkdef
  have hlow (j : ℕ) (hj : j < 7 + k * 12) (x : UInt8) :
      ((buf.wr (7 + k * 12) (buf.sumTo (k * 12 + 7)) (by omega)).wr (8 + k * 12) x (by omega)).rd j
        = buf.rd j := by
    rw [Buffer.rd_wr_of_ne _ (by omega), Buffer.rd_wr_of_ne _ (by omega)]
  refine ⟨?_, ?_, ?_, ?_, ?_, ?_, ?_, fun j hj => ?_, ?_, Buffer.rd_wr_self _ _ _ _⟩
  iterate 7
    rw [hlow _ (by omega), hhead _ (by omega)]
    simp [penHeader, Buffer.rd_wr, hkdef]
  · rw [hlow _ (by omega), hrecs j hj]
  · rw [Buffer.rd_wr_of_ne _ (by omega), Buffer.rd_wr_self, Buffer.sumTo_congr (hlow · · _),
      Nat.add_comm]

end DolphinNote
