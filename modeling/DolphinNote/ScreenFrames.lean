/-
DolphinNote/ScreenFrames.lean

What `Screen_data_analize` does with a frame of the screen receiver, that is a
frame `68 len …` with `len` in 1..49.

`screenDataAnalize_spec` bounds every access: reads of the frame stay inside
it, at most four points (48 bytes) of `pen_data` are touched except by the
clearing frame, which writes a hundred, and the pen frame ends at index 56.
`Analized` says what becomes of the globals.
-/
import DolphinNote.Encoders
import DolphinNote.Screen

namespace DolphinNote

open Traced

/-- A frame as the screen receiver dispatches it. -/
structure ScreenFrame (dataBuf : Buffer 255) (num : UInt8) : Prop where
  head : dataBuf.rd 0 = 0x68
  pos : 1 ≤ (dataBuf.rd 1).toNat
  lt : (dataBuf.rd 1).toNat < 50
  num : num.toNat = (dataBuf.rd 1).toNat + 2

/-- How much of `pen_data` a frame of this type may touch. -/
def penBound (code : UInt8) : ℕ := if code = 0x60 then 100 else 48

/-- The accesses a frame of `num` bytes may lead to. -/
def Footprint (num : ℕ) (code : UInt8) : Effect → Prop
  | .rd .dataBuf i => i < num
  | .rd .penData i => i < penBound code
  | .wr .penData i => i < penBound code
  | .rd .wifiDataToSend i => i ≤ 56
  | .wr .wifiDataToSend i => i ≤ 56
  | _ => False

/-- What a frame makes of the globals. -/
inductive Analized (g : Globals) (dataBuf : Buffer 255) : Globals → Prop
  | ignored : Analized g dataBuf g
  | points {pen : Buffer 200} {upDown : UInt8} {buf : Buffer 255} : dataBuf.rd 2 = 0x02 →
      PenEncoded g pen (pointCnt (dataBuf.rd 1)).toNat buf →
      Analized g dataBuf
        { g with penData := pen, upDownFlag := upDown, penDataReady := 1,
                 wifiDataLen := pointCnt (dataBuf.rd 1), wifiDataToSend := buf }
  | cleared {pen : Buffer 200} : dataBuf.rd 2 = 0x60 →
      Analized g dataBuf { g with upDownFlag := 0, penData := pen }

theorem pointCnt_toNat {len : UInt8} (h : len.toNat < 50) :
    (pointCnt len).toNat = (len.toNat - 2) / 10 := by
  have key : ∀ n < 50, (pointCnt (UInt8.ofNat n)).toNat = (n - 2) / 10 := by decide
  simpa using key len.toNat h

variable {g : Globals} {dataBuf : Buffer 255} {num : UInt8}

/-- What becomes of the state byte of a record: with a status other than `04`
and `07` the old one stays. -/
def stateByte (status pen old : UInt8) : UInt8 :=
  if status = 0x04 then (pen &&& 0x7F) ||| 0x80 else if status = 0x07 then pen &&& 0x7F else old

/-- Record `i` of `pen`, written over `old` from the point `i` of the frame. -/
structure RecordOf (dataBuf : Buffer 255) (tb : UInt32) (old pen : Buffer 200) (i : ℕ) : Prop where
  coords : ∀ j < 8, pen.rd (i * 12 + j) = dataBuf.rd (5 + j + i * 10)
  state : pen.rd (i * 12 + 8) =
    stateByte (dataBuf.rd (3 + i * 10)) (dataBuf.rd (4 + i * 10)) (old.rd (i * 12 + 8))
  time0 : pen.rd (i * 12 + 9) = (tb &&& 0x0000FF).toUInt8
  time1 : pen.rd (i * 12 + 10) = ((tb &&& 0x00FF00) >>> 8).toUInt8
  time2 : pen.rd (i * 12 + 11) = ((tb &&& 0xFF0000) >>> 16).toUInt8

/-- A record depends on its twelve cells. -/
theorem RecordOf.congr {tb : UInt32} {old pen pen' : Buffer 200} {i : ℕ}
    (h : RecordOf dataBuf tb old pen i) (heq : ∀ j < 12, pen'.rd (i * 12 + j) = pen.rd (i * 12 + j)) :
    RecordOf dataBuf tb old pen' i where
  coords j hj := by rw [heq j (by omega), h.coords j hj]
  state := by rw [heq 8 (by omega), h.state]
  time0 := by rw [heq 9 (by omega), h.time0]
  time1 := by rw [heq 10 (by omega), h.time1]
  time2 := by rw [heq 11 (by omega), h.time2]

section Points

variable {A : Effect → Prop} {st : Buffer 200 × UInt8} {i k : ℕ}

theorem penState_spec (hi : i < k) (hk : k ≤ 16) (hrd : ∀ j < 3 + k * 10, A (.rd .dataBuf j))
    (hwr : ∀ j < k * 12, A (.wr .penData j)) :
    Ensures (penState dataBuf st i) A fun st' =>
      st'.1.rd (i * 12 + 8) =
        stateByte (dataBuf.rd (3 + i * 10)) (dataBuf.rd (4 + i * 10)) (st.1.rd (i * 12 + 8)) ∧
      ∀ j, j ≠ i * 12 + 8 → st'.1.rd j = st.1.rd j := by
  unfold penState stateByte
  refine (ensures_load (Q := (· = dataBuf.rd (3 + i * 10))) (by omega) (hrd _ (by omega)) rfl).bind ?_
  rintro _ rfl
  split_ifs
  · refine (ensures_load (Q := (· = dataBuf.rd (4 + i * 10))) (by omega)
      (hrd _ (by omega)) rfl).bind ?_
    rintro _ rfl
    refine (ensures_store (Q := (· = _)) (by omega) (hwr _ (by omega)) rfl).bind ?_
    rintro _ rfl
    refine .pure ⟨?_, fun j hj => ?_⟩
    · rw [Buffer.rd_wr_self]
    · rw [Buffer.rd_wr_of_ne _ hj.symm]
  · refine (ensures_load (Q := (· = dataBuf.rd (4 + i * 10))) (by omega)
      (hrd _ (by omega)) rfl).bind ?_
    rintro _ rfl
    refine (ensures_store (Q := (· = _)) (by omega) (hwr _ (by omega)) rfl).bind ?_
    rintro _ rfl
    refine .pure ⟨?_, fun j hj => ?_⟩
    · rw [Buffer.rd_wr_self]
    · rw [Buffer.rd_wr_of_ne _ hj.symm]
  · exact .pure ⟨rfl, fun _ _ => rfl⟩

/-- The coordinates of one point. -/
theorem penCoords_spec {pen : Buffer 200} (hi : i < k) (hk : k ≤ 16)
    (hrd : ∀ j < 3 + k * 10, A (.rd .dataBuf j)) (hwr : ∀ j < k * 12, A (.wr .penData j)) :
    Ensures ((List.range 8).foldlM (fun pen j => do
      let x ← load .dataBuf dataBuf (5 + j + i * 10)
      store .penData pen (i * 12 + j) x) pen) A fun pen' =>
        (∀ j < 8, pen'.rd (i * 12 + j) = dataBuf.rd (5 + j + i * 10)) ∧
        ∀ j, (∀ m < 8, j ≠ i * 12 + m) → pen'.rd j = pen.rd j := by
  refine Ensures.forLoop (I := fun n (pen' : Buffer 200) =>
    (∀ j < n, pen'.rd (i * 12 + j) = dataBuf.rd (5 + j + i * 10)) ∧
      ∀ j, (∀ m < n, j ≠ i * 12 + m) → pen'.rd j = pen.rd j) ⟨by omega, fun _ _ => rfl⟩ ?_
  rintro n pen' hn ⟨hcoords, hrest⟩
  refine (ensures_load (Q := (· = dataBuf.rd (5 + n + i * 10))) (by omega)
    (hrd _ (by omega)) rfl).bind ?_
  rintro _ rfl
  refine ensures_store (by omega) (hwr _ (by omega)) ⟨fun j hj => ?_, fun j hj => ?_⟩
  · by_cases hjn : j = n
    · rw [hjn, Buffer.rd_wr_self]
    · rw [Buffer.rd_wr_of_ne _ (by omega), hcoords j (by omega)]
  · rw [Buffer.rd_wr_of_ne _ (hj n (by omega)).symm, hrest j fun m hm => hj m (by omega)]

/-- One point: its record, and bytes of the frame behind the first three. -/
theorem penPoint_spec {tb : UInt32} (hi : i < k) (hk : k ≤ 16)
    (hrd : ∀ j < 3 + k * 10, A (.rd .dataBuf j)) (hwr : ∀ j < k * 12, A (.wr .penData j)) :
    Ensures (penPoint dataBuf tb st i) A fun st' =>
      RecordOf dataBuf tb st.1 st'.1 i ∧ ∀ j, (∀ m < 12, j ≠ i * 12 + m) → st'.1.rd j = st.1.rd j := by
  unfold penPoint
  refine (penCoords_spec hi hk hrd hwr).bind ?_
  rintro pen ⟨hcoords, hpen⟩
  refine (penState_spec hi hk hrd hwr).bind ?_
  rintro st' ⟨hstate, hst'⟩
  -- the time stamp
  refine (ensures_store (Q := (· = _)) (by omega) (hwr _ (by omega)) rfl).bind ?_
  rintro _ rfl
  refine (ensures_store (Q := (· = _)) (by omega) (hwr _ (by omega)) rfl).bind ?_
  rintro _ rfl
  refine (ensures_store (Q := (· = _)) (by omega) (hwr _ (by omega)) rfl).bind ?_
  rintro _ rfl
  have hlow : ∀ j, j ≠ i * 12 + 9 → j ≠ i * 12 + 10 → j ≠ i * 12 + 11 →
      ∀ x y z, (((st'.1.wr (i * 12 + 9) x).wr (i * 12 + 10) y).wr (i * 12 + 11) z).rd j =
        st'.1.rd j := by
    intro j h9 h10 h11 x y z
    rw [Buffer.rd_wr_of_ne _ h11.symm, Buffer.rd_wr_of_ne _ h10.symm, Buffer.rd_wr_of_ne _ h9.symm]
  refine .pure ⟨⟨fun j hj => ?_, ?_, ?_, ?_, ?_⟩, fun j hj => ?_⟩
  · rw [hlow _ (by omega) (by omega) (by omega), hst' _ (by omega), hcoords j hj]
  · rw [hlow _ (by omega) (by omega) (by omega), hstate, hpen _ (by omega)]
  · rw [Buffer.rd_wr_of_ne _ (by omega), Buffer.rd_wr_of_ne _ (by omega), Buffer.rd_wr_self]
  · rw [Buffer.rd_wr_of_ne _ (by omega), Buffer.rd_wr_self]
  · rw [Buffer.rd_wr_self]
  · rw [hlow j (hj 9 (by omega)) (hj 10 (by omega)) (hj 11 (by omega)), hst' j (hj 8 (by omega)),
      hpen j fun m hm => hj m (by omega)]

/-- All points of a frame. -/
theorem penPoints_spec {tb : UInt32} (hk : k ≤ 16) (hrd : ∀ j < 3 + k * 10, A (.rd .dataBuf j))
    (hwr : ∀ j < k * 12, A (.wr .penData j)) :
    Ensures ((List.range k).foldlM (penPoint dataBuf tb) st) A fun st' =>
      ∀ i < k, RecordOf dataBuf tb st.1 st'.1 i := by
  refine (Ensures.forLoop (I := fun n (st' : Buffer 200 × UInt8) =>
    (∀ i < n, RecordOf dataBuf tb st.1 st'.1 i) ∧ ∀ j, n * 12 ≤ j → st'.1.rd j = st.1.rd j)
    ⟨by omega, fun _ _ => rfl⟩ ?_).mono (fun _ hA => hA) fun _ hQ => hQ.1
  rintro n st' hn ⟨hrecs, hrest⟩
  refine (penPoint_spec hn hk hrd hwr).mono (fun _ hA => hA) ?_
  rintro st'' ⟨hrec, hframe⟩
  refine ⟨fun i hi => ?_, fun j hj => ?_⟩
  · by_cases hin : i = n
    · rw [hin]
      exact ⟨hrec.coords, by rw [hrec.state, hrest _ (by omega)], hrec.time0, hrec.time1, hrec.time2⟩
    · exact (hrecs i (by omega)).congr fun j hj => hframe _ (by omega)
  · rw [hframe j (by omega), hrest j (by omega)]

end Points

/-- Type `0x02`: the points become records, the records a pen frame, and the
frame is announced. -/
theorem screenDataAnalize_points (h : ScreenFrame dataBuf num) (hpoints : dataBuf.rd 2 = 0x02) :
    Ensures (screenDataAnalize g dataBuf num) (Footprint num.toNat (dataBuf.rd 2))
      fun g' => g'.penDataReady = 1 ∧ Analized g dataBuf g' ∧
        (∀ i < (pointCnt (dataBuf.rd 1)).toNat,
          RecordOf dataBuf g.timeBase g.penData g'.penData i) ∧
        PenEncoded g g'.penData (pointCnt (dataBuf.rd 1)).toNat g'.wifiDataToSend := by
  have hnum := h.num
  have hlt := h.lt
  have hpos := h.pos
  have hcnt := pointCnt_toNat hlt
  have hbound : penBound (dataBuf.rd 2) = 48 := by rw [hpoints]; rfl
  unfold screenDataAnalize
  refine (ensures_load (Q := (· = dataBuf.rd 0)) (by omega) (show 0 < num.toNat by omega) rfl).bind ?_
  rintro _ rfl
  rw [if_pos h.head]
  refine (ensures_load (Q := (· = dataBuf.rd 2)) (by omega) (show 2 < num.toNat by omega) rfl).bind ?_
  rintro _ rfl
  rw [if_pos hpoints]
  refine (ensures_load (Q := (· = dataBuf.rd 1)) (by omega) (show 1 < num.toNat by omega) rfl).bind ?_
  rintro _ rfl
  dsimp only
  refine Ensures.bind (penPoints_spec (by omega) (fun j hj => ?_) fun j hj => ?_) fun st hrecs => ?_
  · show j < num.toNat
    omega
  · show j < penBound (dataBuf.rd 2)
    omega
  · refine (wifiSendPenData_spec (by omega) (by omega) (fun i hi => ?_) (fun i hi => ?_)
      fun i hi => ?_).mono (fun _ hA => hA) ?_
    · show i < penBound (dataBuf.rd 2)
      omega
    · show i ≤ 56
      omega
    · show i ≤ 56
      omega
    · rintro _ ⟨buf, henc, rfl⟩
      have henc' : PenEncoded g st.1 (pointCnt (dataBuf.rd 1)).toNat buf :=
        ⟨henc.rd0, henc.rd1, henc.rd2, henc.rd3, henc.rd4, henc.rd5, henc.rd6, henc.records,
          henc.sum, henc.trailer⟩
      exact ⟨rfl, .points hpoints henc', hrecs, henc'⟩

/-- **The pen pipeline.**  On a frame of the screen receiver the dispatcher
returns, stays inside its footprint, and does one of three things. -/
theorem screenDataAnalize_spec (h : ScreenFrame dataBuf num) :
    Ensures (screenDataAnalize g dataBuf num) (Footprint num.toNat (dataBuf.rd 2))
      (Analized g dataBuf) := by
  by_cases hpoints : dataBuf.rd 2 = 0x02
  · exact (screenDataAnalize_points h hpoints).mono (fun _ hA => hA) fun _ hQ => hQ.2.1
  have hnum := h.num
  have hpos := h.pos
  unfold screenDataAnalize
  refine (ensures_load (Q := (· = dataBuf.rd 0)) (by omega) (show 0 < num.toNat by omega) rfl).bind ?_
  rintro _ rfl
  rw [if_pos h.head]
  refine (ensures_load (Q := (· = dataBuf.rd 2)) (by omega) (show 2 < num.toNat by omega) rfl).bind ?_
  rintro _ rfl
  rw [if_neg hpoints]
  by_cases hclear : dataBuf.rd 2 = 0x60
  · rw [if_pos hclear]
    refine (Ensures.forLoop (I := fun _ (_ : Buffer 200) => True) trivial fun i pen hi _ => ?_).bind
      fun pen _ => .pure (.cleared hclear)
    refine ensures_store (by omega) ?_ trivial
    show i < penBound (dataBuf.rd 2)
    rw [hclear]
    exact hi
  · rw [if_neg hclear]
    exact .pure .ignored

end DolphinNote
