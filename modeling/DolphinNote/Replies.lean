/-
DolphinNote/Replies.lean

`wifi_data_to_send` between its writers.  The code byte at offset 2 names the
last writer, and with it the length of the frame the buffer begins with
(`Coded`).  Every whole call of a writer leaves a coded buffer.

A call of `wifi_ack_send` in the main loop can be interrupted between its
statements and between the rounds of its checksum loop.  `resume code i` are
the statements from the `i`-th on; what they make of a buffer that an interrupt
has rewritten depends on where it came:

* before the code byte is stored, the reply overwrites everything
  (`resume_of_head`);
* later the code byte of the interrupt's frame stays (`resume_code`), and the
  reply `0x77` is left as it is, if the loop adds up its bytes and not those of
  the frame before (`Again.resume`).
-/
import DolphinNote.Encoders

namespace DolphinNote

/-! ### Coded buffers -/

/-- The payload length of the frame that a code byte names. -/
def codeLen (wifiDataLen code : UInt8) : Option ℕ :=
  match code with
  | 0x77 | 0xA1 | 0x70 => some 2
  | 0x76 | 0x78 => some 8
  | 0x74 => some 4
  | 0xDD => some (wifiDataLen.toNat * 12)
  | _ => none

/-- The buffer begins with the whole frame that its code byte names, of a
length that fits a byte; a reply `0x77` carries the phone's ID and a zero. -/
structure Coded (g : Globals) : Prop where
  frame : ∀ L, codeLen g.wifiDataLen (g.wifiDataToSend.rd 2) = some L →
    FrameIn g.wifiDataToSend L ∧ L ≤ 48
  again : g.wifiDataToSend.rd 2 = 0x77 →
    g.wifiDataToSend.rd 3 = g.phoneID.rd 14 ∧ g.wifiDataToSend.rd 4 = g.phoneID.rd 15 ∧
      g.wifiDataToSend.rd 7 = 0 ∧ g.wifiDataToSend.rd 8 = 0

theorem Coded.of_frame {g : Globals} {L : ℕ} (hf : FrameIn g.wifiDataToSend L) (hL : L ≤ 48)
    (hc : codeLen g.wifiDataLen (g.wifiDataToSend.rd 2) = some L)
    (hne : g.wifiDataToSend.rd 2 ≠ 0x77) : Coded g where
  frame L' h' := by
    obtain rfl : L = L' := Option.some.inj (hc.symm.trans h')
    exact ⟨hf, hL⟩
  again h := absurd h hne

/-- Two states whose transmit buffers agree, and what replies are built from. -/
structure SameFrame (g g' : Globals) : Prop where
  buf : g'.wifiDataToSend = g.wifiDataToSend
  len : g'.wifiDataLen = g.wifiDataLen
  id : g'.phoneID = g.phoneID
  boardIP : g'.boardIP = g.boardIP
  boardID : g'.boardID = g.boardID

theorem SameFrame.refl (g : Globals) : SameFrame g g := ⟨rfl, rfl, rfl, rfl, rfl⟩

theorem Coded.of_same {g g' : Globals} (h : Coded g) (hs : SameFrame g g') : Coded g' := by
  refine ⟨?_, ?_⟩
  · rw [hs.buf, hs.len]
    exact h.frame
  · rw [hs.buf, hs.id]
    exact h.again

theorem wifiAckSend_rd_two (g : Globals) (code : UInt8) (para : UInt16) :
    (wifiAckSend g code para).wifiDataToSend.rd 2 = code := by
  simp only [wifiAckSend, ackBuffer]
  cases ackBody code <;> simp [ackHeader, ackStatus, ackAddress, ackTime, Buffer.rd_wr]

theorem wifiAckSend_head (g : Globals) (code : UInt8) (para : UInt16) :
    (wifiAckSend g code para).wifiDataToSend.rd 0 = 0xFA ∧
      (wifiAckSend g code para).wifiDataToSend.rd 1 = 0x0A := by
  simp only [wifiAckSend, ackBuffer]
  cases ackBody code <;> simp [ackHeader, ackStatus, ackAddress, ackTime, Buffer.rd_wr]

/-- The codes a reply can have. -/
def ackSendCodes : List UInt8 := [0x77, 0xA1, 0x70, 0x76, 0x78, 0x74, 0xB1, 0xB2]

/-- A reply with parameter 0 leaves a coded buffer. -/
theorem coded_wifiAckSend (g : Globals) {code : UInt8} (h : code ∈ ackSendCodes) :
    Coded (wifiAckSend g code 0) := by
  have hstatus (c : UInt8) : FrameIn (ackStatus (ackHeader g c) 0) 2 := frameIn_ackStatus rfl
  have hcode := wifiAckSend_rd_two g code 0
  have empty (hnone : codeLen (wifiAckSend g code 0).wifiDataLen code = none) (hne : code ≠ 0x77) :
      Coded (wifiAckSend g code 0) := by
    refine ⟨fun L hL => ?_, fun h77 => absurd (hcode.symm.trans h77) hne⟩
    rw [hcode, hnone] at hL
    cases hL
  simp only [ackSendCodes, List.mem_cons, List.not_mem_nil, or_false] at h
  rcases h with rfl | rfl | rfl | rfl | rfl | rfl | rfl | rfl
  · refine ⟨fun L hL => ?_, fun _ => ?_⟩
    · rw [hcode] at hL
      obtain rfl : 2 = L := Option.some.inj hL
      exact ⟨hstatus _, by omega⟩
    · simp [wifiAckSend, ackBuffer, ackBody, ackStatus, ackHeader, Buffer.rd_wr]
  · exact .of_frame (hstatus _) (by omega) (by rw [hcode]; rfl) (by rw [hcode]; decide)
  · exact .of_frame (hstatus _) (by omega) (by rw [hcode]; rfl) (by rw [hcode]; decide)
  · exact .of_frame (frameIn_ackAddress g _) (by omega) (by rw [hcode]; rfl) (by rw [hcode]; decide)
  · exact .of_frame (frameIn_ackAddress g _) (by omega) (by rw [hcode]; rfl) (by rw [hcode]; decide)
  · exact .of_frame (frameIn_ackTime g _) (by omega) (by rw [hcode]; rfl) (by rw [hcode]; decide)
  · exact empty rfl (by decide)
  · exact empty rfl (by decide)

/-- So does the pen encoder. -/
theorem PenEncoded.coded {g g' : Globals} {n : ℕ} {data : Buffer n}
    (h : PenEncoded g data g'.wifiDataLen.toNat g'.wifiDataToSend)
    (hk : g'.wifiDataLen.toNat ≤ 4) : Coded g' :=
  .of_frame (h.frameIn (by omega)) (by omega) (by rw [h.rd2]; rfl) (by rw [h.rd2]; decide)

theorem Globals.setByte_eq_self {g : Globals} {i : ℕ} {x : UInt8} (hi : i < 255)
    (h : g.wifiDataToSend.rd i = x) : g.setByte i x hi = g := by
  rw [Globals.setByte, (Buffer.wr_eq_self_iff hi).mpr h]

/-! ### What a reply reaches -/

/-- The bytes a call of `wifi_ack_send` fills. -/
def ackSize (code : UInt8) : ℕ :=
  match ackBody code with
  | .status => 11
  | .address => 17
  | .time => 13
  | .empty => 5

/-- The bytes behind a reply stay. -/
theorem wifiAckSend_rd_of_le (g : Globals) (para : UInt16) {code : UInt8} {j : ℕ}
    (hj : ackSize code ≤ j) :
    (wifiAckSend g code para).wifiDataToSend.rd j = g.wifiDataToSend.rd j := by
  unfold ackSize at hj
  unfold wifiAckSend ackBuffer
  cases hc : ackBody code <;>
    simp only [hc, ackStatus, ackAddress, ackTime, ackHeader] at hj ⊢ <;>
    simp (disch := omega) only [Buffer.rd_wr_of_ne]

/-- A reply that is more than a header ends with the trailer. -/
theorem wifiAckSend_trailer (g : Globals) (para : UInt16) {code : UInt8}
    (hc : ackBody code ≠ .empty) :
    (wifiAckSend g code para).wifiDataToSend.rd (ackSize code - 1) = 0xED := by
  unfold wifiAckSend ackBuffer ackSize
  cases h : ackBody code with
  | empty => exact absurd h hc
  | status => exact Buffer.rd_wr_self _ 10 _ (by omega)
  | address => exact Buffer.rd_wr_self _ 16 _ (by omega)
  | time => exact Buffer.rd_wr_self _ 12 _ (by omega)

/-- The bytes of the reply `0x77` in a coded buffer. -/
theorem Coded.again_bytes {g : Globals} (h : Coded g) (hcode : g.wifiDataToSend.rd 2 = 0x77) :
    g.wifiDataToSend.rd 5 = 0x02 ∧ g.wifiDataToSend.rd 6 = 0x00 ∧
      g.wifiDataToSend.rd 9 = g.wifiDataToSend.sumTo 8 ∧ g.wifiDataToSend.rd 10 = 0xED := by
  obtain ⟨hf, -⟩ := h.frame 2 (by rw [hcode]; rfl)
  obtain ⟨-, -, -, h8⟩ := h.again hcode
  have hlen := hf.len
  have h9 := hf.sum
  rw [Buffer.sumTo_succ _ 8, h8, add_zero] at h9
  refine ⟨UInt8.toNat_inj.mp ?_, UInt8.toNat_inj.mp ?_, h9, hf.trailer⟩
  · show _ = 2
    omega
  · show _ = 0
    omega

/-- The reply `0x77` once more is the same reply. -/
theorem Coded.wifiAckSend_again {g : Globals} (h : Coded g) (hcode : g.wifiDataToSend.rd 2 = 0x77) :
    (wifiAckSend g 0x77 0).wifiDataToSend = g.wifiDataToSend := by
  obtain ⟨hf, -⟩ := h.frame 2 (by rw [hcode]; rfl)
  obtain ⟨h3, h4, h7, h8⟩ := h.again hcode
  obtain ⟨h5, h6, h9, h10⟩ := h.again_bytes hcode
  have same {i : ℕ} {x : UInt8} (hi : i < 255) (hx : g.wifiDataToSend.rd i = x) :
      g.wifiDataToSend.wr i x hi = g.wifiDataToSend := (Buffer.wr_eq_self_iff hi).mpr hx
  have hhead : ackHeader g 0x77 = g.wifiDataToSend := by
    rw [ackHeader, same _ hf.rd0, same _ hf.rd1, same _ hcode, same _ h3, same _ h4]
  show ackStatus (ackHeader g 0x77) 0 = g.wifiDataToSend
  have hpara : ((0 : UInt16) >>> 8).toUInt8 = 0 ∧ ((0 : UInt16) &&& 0xFF).toUInt8 = 0 := by decide
  simp only [ackStatus, hhead, hpara.1, hpara.2, same _ h5, same _ h6, same _ h7, same _ h8,
    same _ h9, same _ h10]

/-! ### Resumed replies -/

/-- The statements of a reply from the `i`-th on. -/
def resume (code : UInt8) (i : ℕ) (s : Globals × UInt8) : Globals × UInt8 :=
  runStmts ((ackStmts code 0).drop i) s

theorem resume_zero (code : UInt8) (s : Globals × UInt8) :
    (resume code 0 s).1 = wifiAckSend s.1 code 0 := by
  rw [resume, List.drop_zero, runStmts_ackStmts]

theorem resume_succ {code : UInt8} {i : ℕ} {f : AckStmt} (s : Globals × UInt8)
    (h : (ackStmts code 0)[i]? = some f) : resume code i s = resume code (i + 1) (f s) := by
  obtain ⟨hi, rfl⟩ := List.getElem?_eq_some_iff.mp h
  rw [resume, resume, List.drop_eq_getElem_cons hi]
  rfl

theorem resume_of_length_le {code : UInt8} {i : ℕ} (s : Globals × UInt8)
    (h : (ackStmts code 0).length ≤ i) : resume code i s = s := by
  rw [resume, List.drop_eq_nil_of_le h]
  rfl

/-- A property of the place and the state that every statement from the `i`-th
on keeps holds at the end. -/
theorem resume_induction {P : ℕ → Globals × UInt8 → Prop} {code : UInt8} {i : ℕ}
    {s : Globals × UInt8} (h : P i s)
    (hstep : ∀ j f s, i ≤ j → (ackStmts code 0)[j]? = some f → P j s → P (j + 1) (f s)) :
    ∃ n, P n (resume code i s) := by
  induction hk : (ackStmts code 0).length - i generalizing i s with
  | zero =>
      rw [resume_of_length_le s (by omega)]
      exact ⟨i, h⟩
  | succ k ih =>
      have hlt : i < (ackStmts code 0).length := by omega
      have hf := List.getElem?_eq_getElem hlt
      rw [resume_succ s hf]
      exact ih (hstep i _ s le_rfl hf h) (fun j f s hj => hstep j f s (by omega)) (by omega)

/-- Two states in which a reply goes on alike. -/
def SameReply (s s' : Globals × UInt8) : Prop := SameFrame s.1 s'.1 ∧ s'.2 = s.2

theorem ackStmts_same (code : UInt8) (para : UInt16) :
    ∀ f ∈ ackStmts code para, ∀ s s', SameReply s s' → SameReply (f s) (f s') := by
  have hbyte {i : ℕ} {x : Globals → UInt8} (hi : i < 255)
      (hx : ∀ g g', SameFrame g g' → x g' = x g) (s s' : Globals × UInt8) (h : SameReply s s') :
      SameReply (ackByte i x hi s) (ackByte i x hi s') := by
    refine ⟨⟨?_, h.1.len, h.1.id, h.1.boardIP, h.1.boardID⟩, h.2⟩
    simp only [ackByte, Globals.setByte, h.1.buf, hx _ _ h.1]
  have hloop (n : ℕ) : ∀ f ∈ ackSumLoop n, ∀ s s', SameReply s s' → SameReply (f s) (f s') := by
    unfold ackSumLoop
    rw [List.forall_mem_cons, List.forall_mem_map]
    refine ⟨fun s s' h => ⟨h.1, rfl⟩, fun i _ s s' h => ⟨h.1, ?_⟩⟩
    simp only [h.1.buf, h.2]
  have hstore {i : ℕ} (hi : i < 255) (s s' : Globals × UInt8) (h : SameReply s s') :
      SameReply (ackSumStore i hi s) (ackSumStore i hi s') := by
    refine ⟨⟨?_, h.1.len, h.1.id, h.1.boardIP, h.1.boardID⟩, h.2⟩
    simp only [ackSumStore, Globals.setByte, h.1.buf, h.2]
  unfold ackStmts
  cases ackBody code <;>
    simp only [List.cons_append, List.nil_append, List.forall_mem_cons, List.forall_mem_append,
      List.not_mem_nil, false_imp_iff, implies_true, and_true]
  all_goals
    repeat' apply And.intro
    all_goals first
      | exact hloop _
      | exact hstore _
      | exact fun s s' h => ⟨⟨h.1.buf, rfl, h.1.id, h.1.boardIP, h.1.boardID⟩, h.2⟩
      | exact hbyte _ fun g g' h => by simp only [h.id, h.boardIP, h.boardID]

/-- The rest of a reply depends on the buffer, the length, the sum and what
replies are built from. -/
theorem resume_same {code : UInt8} {i : ℕ} {s s' : Globals × UInt8} (h : SameReply s s') :
    SameReply (resume code i s) (resume code i s') := by
  have run {l : List AckStmt} (hl : ∀ f ∈ l, ∀ s s', SameReply s s' → SameReply (f s) (f s')) :
      ∀ s s', SameReply s s' → SameReply (runStmts l s) (runStmts l s') := by
    induction l with
    | nil => exact fun _ _ h => h
    | cons f l ih =>
        rw [List.forall_mem_cons] at hl
        exact fun s s' h => ih hl.2 _ _ (hl.1 s s' h)
  exact run (fun f hf => ackStmts_same code 0 f (List.mem_of_mem_drop hf)) s s' h

/-- Before the code byte is stored nothing of the reply is lost: an interrupt
has written the same two header bytes. -/
theorem resume_of_head {code : UInt8} {i : ℕ} {s : Globals × UInt8} (hi : i < 3)
    (h0 : s.1.wifiDataToSend.rd 0 = 0xFA) (h1 : s.1.wifiDataToSend.rd 1 = 0x0A) :
    (resume code i s).1 = wifiAckSend s.1 code 0 := by
  have first : (ackStmts code 0)[0]? = some (ackByte 0 fun _ => 0xFA) := rfl
  have second : (ackStmts code 0)[1]? = some (ackByte 1 fun _ => 0x0A) := rfl
  have hone : resume code 0 s = resume code 1 s := by
    rw [resume_succ s first, ackByte, Globals.setByte_eq_self _ h0]
  have htwo : resume code 1 s = resume code 2 s := by
    rw [resume_succ s second, ackByte, Globals.setByte_eq_self _ h1]
  rw [← resume_zero]
  interval_cases i
  · rfl
  · rw [hone]
  · rw [hone, htwo]

/-- A statement behind the store of one of the first three bytes leaves it
alone. -/
theorem ackStmts_rd {code : UInt8} {i j : ℕ} {f : AckStmt} {s : Globals × UInt8} (hj : j < 3)
    (hji : j < i) (hf : (ackStmts code 0)[i]? = some f) :
    (f s).1.wifiDataToSend.rd j = s.1.wifiDataToSend.rd j := by
  have hloop (n : ℕ) : ∀ f ∈ ackSumLoop n, ∀ s, (f s).1.wifiDataToSend.rd j = s.1.wifiDataToSend.rd j := by
    unfold ackSumLoop
    rw [List.forall_mem_cons, List.forall_mem_map]
    exact ⟨fun _ => rfl, fun _ _ _ => rfl⟩
  have hkeep : ∀ f ∈ (ackStmts code 0).drop (j + 1), ∀ s,
      (f s).1.wifiDataToSend.rd j = s.1.wifiDataToSend.rd j := by
    have hset {k : ℕ} {x : UInt8} (hk : k < 255) (hjk : k ≠ j) (g : Globals) :
        (g.setByte k x hk).wifiDataToSend.rd j = g.wifiDataToSend.rd j := Buffer.rd_wr_of_ne hk hjk
    unfold ackStmts
    interval_cases j <;> cases ackBody code <;>
      simp only [List.cons_append, List.nil_append, List.drop_succ_cons, List.drop_zero,
        List.forall_mem_cons, List.forall_mem_append, List.not_mem_nil, false_imp_iff, implies_true,
        and_true]
    all_goals
      repeat' apply And.intro
      all_goals first
        | exact hloop _
        | exact fun _ => rfl
        | exact fun s => hset _ (by decide) s.1
  have hmem : f ∈ (ackStmts code 0).drop (j + 1) := by
    rw [List.mem_iff_getElem?]
    exact ⟨i - (j + 1), by rw [List.getElem?_drop, Nat.add_sub_cancel' hji, hf]⟩
  exact hkeep f hmem s

/-- Behind the store of the code byte the rest of a reply leaves it alone. -/
theorem resume_code {code : UInt8} {i : ℕ} {s : Globals × UInt8} (hi : 3 ≤ i) :
    (resume code i s).1.wifiDataToSend.rd 2 = s.1.wifiDataToSend.rd 2 := by
  have hstep : ∀ j f s', i ≤ j → (ackStmts code 0)[j]? = some f →
      s'.1.wifiDataToSend.rd 2 = s.1.wifiDataToSend.rd 2 →
      (f s').1.wifiDataToSend.rd 2 = s.1.wifiDataToSend.rd 2 :=
    fun j f s' hj hf h => (ackStmts_rd (by omega) (by omega) hf).trans h
  obtain ⟨_, h⟩ := resume_induction (P := fun _ s' =>
    s'.1.wifiDataToSend.rd 2 = s.1.wifiDataToSend.rd 2) rfl hstep
  exact h

/-- The checksum loop of a status reply begins. -/
theorem ackStmts_loop {code : UInt8} (hc : ackBody code = .status) :
    (ackStmts code 0)[9]? = some fun (g, _) => (g, 0) := by
  unfold ackStmts
  rw [hc]
  rfl

/-- Its rounds. -/
theorem ackStmts_round {code : UInt8} {j : ℕ} (hc : ackBody code = .status) (hj : j < 8) :
    (ackStmts code 0)[10 + j]? = some fun (g, sum) => (g, sum + g.wifiDataToSend.rd j) := by
  unfold ackStmts
  rw [hc]
  interval_cases j <;> rfl

/-- A status reply has come to its `i`-th statement, and an interrupt has
written the reply `0x77`: the buffer holds it whole, and the sum is one of its
bytes. -/
structure Again (i : ℕ) (s : Globals × UInt8) : Prop where
  coded : Coded s.1
  code : s.1.wifiDataToSend.rd 2 = 0x77
  sum : 10 ≤ i → i ≤ 18 → s.2 = s.1.wifiDataToSend.sumTo (i - 10)

/-- The rest of a status reply leaves the reply `0x77` as it is. -/
theorem Again.step {code : UInt8} {i : ℕ} {f : AckStmt} {s : Globals × UInt8} (h : Again i s)
    (hc : ackBody code = .status) (hi : 3 ≤ i) (hf : (ackStmts code 0)[i]? = some f) :
    Again (i + 1) (f s) := by
  obtain ⟨h3, h4, h7, h8⟩ := h.coded.again h.code
  obtain ⟨h5, h6, h9, h10⟩ := h.coded.again_bytes h.code
  obtain ⟨g, sum⟩ := s
  -- a store of the byte that is there
  have store {j : ℕ} {x : UInt8} (hj : j < 255) (hx : g.wifiDataToSend.rd j = x)
      (hout : i + 1 < 10 ∨ 18 < i + 1) : Again (i + 1) (g.setByte j x hj, sum) := by
    rw [Globals.setByte_eq_self hj hx]
    exact ⟨h.coded, h.code, by omega⟩
  -- a round of the loop
  have round (hsum : 10 ≤ i ∧ i < 18) :
      Again (i + 1) (g, sum + g.wifiDataToSend.rd (i - 10)) := by
    refine ⟨h.coded, h.code, fun _ _ => ?_⟩
    have hold : sum = g.wifiDataToSend.sumTo (i - 10) := h.sum hsum.1 (by omega)
    rw [Nat.sub_add_comm hsum.1, Buffer.sumTo_succ, ← hold]
  have hlen : (ackStmts code 0).length = 21 := by
    unfold ackStmts
    rw [hc]
    rfl
  have hlt : i < 21 := hlen ▸ (List.getElem?_eq_some_iff.mp hf).1
  unfold ackStmts at hf
  rw [hc] at hf
  interval_cases i <;> obtain rfl := Option.some.inj hf
  · exact store _ h3 (by omega)
  · exact store _ h4 (by omega)
  · exact store _ h5 (by omega)
  · exact store _ h6 (by omega)
  · exact store _ h7 (by omega)
  · exact store _ h8 (by omega)
  · exact ⟨h.coded, h.code, fun _ _ => rfl⟩
  iterate 8 exact round (by omega)
  · exact store _ (h9.trans (h.sum (by omega) (by omega)).symm) (by omega)
  · exact store _ h10 (by omega)
  · -- the length, which the reply's code does not look at
    have hcode : g.wifiDataToSend.rd 2 = 0x77 := h.code
    have hlen (n : UInt8) : codeLen n (g.wifiDataToSend.rd 2) = some 2 := by rw [hcode]; rfl
    refine ⟨⟨fun L hL => h.coded.frame L ?_, h.coded.again⟩, hcode, by omega⟩
    exact (hlen _).trans ((hlen 11).symm.trans hL)

theorem Again.resume {code : UInt8} {i : ℕ} {s : Globals × UInt8} (h : Again i s)
    (hc : ackBody code = .status) (hi : 3 ≤ i) : Coded (resume code i s).1 := by
  obtain ⟨_, h'⟩ := resume_induction (P := Again) h fun j f s hj hf h =>
    h.step hc (by omega) hf
  exact h'.coded

end DolphinNote
