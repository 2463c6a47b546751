/-
DolphinNote/FlashQueue.lean

The queue of pen data in the flash memory (Screen.c), with the accesses of
`SPI_FLASH_BufferWrite` and `SPI_FLASH_BufferRead` taken as ideal.

`SeqRearAddr` is never advanced, the empty test looks at equality only, and
`ScreenRecSeqOut` gives `SPI_FLASH_SectorErase` a byte address.  So the queue is
a FIFO on some runs only, and `queue_law_iff` says on which: those that fill it
before anything is taken, take no more than there is, and take nothing (but
`FF`) from a sector that has been erased.
-/
import Mathlib.Data.Nat.Bitwise
import DolphinNote.SpiFlash
import DolphinNote.Transition

namespace DolphinNote

open NorFlash Transition

/-! ### Screen.c -/

/-- `FlashSeq_structdef` -/
structure FlashSeq where
  seqFrontAddr : UInt32
  seqRearAddr : UInt32
  seqReadAddr : UInt32
  deriving DecidableEq, Repr

/-- `State_typedef` -/
inductive StateTypedef
  | ok | error
  deriving DecidableEq, Repr

/-- The sequences for the beeper. -/
inductive BeepSeq
  | armed | flash80Waring | flash60Waring
  deriving DecidableEq, Repr

/-- What the queue works on; `beep` is what `ledseq_run` was last called with. -/
structure FlashQueue where
  flashScreenDataSeq : FlashSeq
  dataFrameInFlash : UInt32
  cells : Cells
  beep : Option BeepSeq
  beepStatFlag : UInt8
  errStatus : UInt8

/-- The ideal write: byte after byte, addresses modulo 2 MiB. -/
def idealWrite (m : Cells) (a : ℕ) : List UInt8 → Cells
  | [] => m
  | x :: xs => idealWrite (Function.update m (a % 0x200000) x) (a + 1) xs

/-- The ideal read. -/
def idealRead (m : Cells) (a n : ℕ) : List UInt8 := read w25x16 m a n

/-- `ScreenRecSeqInit` -/
def screenRecSeqInit (q : FlashQueue) : FlashQueue :=
  { q with flashScreenDataSeq := { seqFrontAddr := 0, seqRearAddr := 0, seqReadAddr := 0 } }

/-- The bytes of `_DataLen` points. -/
def pointBytes (dataFrame : ℕ → UInt8) (dataLen : UInt8) : List UInt8 :=
  (List.range (12 * dataLen.toNat)).map dataFrame

/-- The warnings behind a successful write. -/
def FlashQueue.warn (q : FlashQueue) : FlashQueue :=
  if q.dataFrameInFlash > 1258290 ∧ q.dataFrameInFlash < 1677720 then
    { q with beep := some .flash80Waring, beepStatFlag := 2 }
  else if q.dataFrameInFlash > 1677720 then
    { q with beep := some .flash60Waring, beepStatFlag := 1 }
  else q

/-- `ScreenRecSeqIn` -/
def screenRecSeqIn (dataFrame : ℕ → UInt8) (dataLen : UInt8) (q : FlashQueue) :
    StateTypedef × FlashQueue :=
  let seq := q.flashScreenDataSeq
  let next := seq.seqFrontAddr + dataLen.toUInt32 * 12
  -- full: behind the end of the memory, and beyond the rear
  if next &&& 0x200000 ≠ 0 ∧ next &&& 0x1FFFFF > seq.seqRearAddr then
    (.error, { q with beep := some .armed, beepStatFlag := 3, errStatus := 0xE1 })
  else
    let front := next &&& 0x1FFFFF
    -- the amount, as far as the rear tells it
    let dataFrameInFlash :=
      if front < seq.seqRearAddr then front + 0x200000 - seq.seqRearAddr else front - seq.seqRearAddr
    (.ok, FlashQueue.warn
      { q with cells := idealWrite q.cells seq.seqFrontAddr.toNat (pointBytes dataFrame dataLen),
               flashScreenDataSeq := { seq with seqFrontAddr := front },
               dataFrameInFlash })

/-- `ScreenRecSeqOut`: its result, the bytes stored to `_DataFrame`, and the queue
behind it. -/
def screenRecSeqOut (dataLen : UInt8) (q : FlashQueue) :
    StateTypedef × List UInt8 × FlashQueue :=
  let seq := q.flashScreenDataSeq
  if seq.seqReadAddr = seq.seqFrontAddr then (.error, [], q)
  else
    let dataFrame := idealRead q.cells seq.seqReadAddr.toNat dataLen.toNat
    -- the address is given where the number of a sector is taken
    let cells :=
      if seq.seqReadAddr / 4096 ≠ (seq.seqReadAddr + dataLen.toUInt32) / 4096 then
        spiFlashSectorErase q.cells seq.seqReadAddr
      else q.cells
    (.ok, dataFrame,
      { q with cells,
               flashScreenDataSeq :=
                 { seq with seqReadAddr := (seq.seqReadAddr + dataLen.toUInt32) &&& 0x1FFFFF } })

/-! ### Runs -/

/-- A call. -/
inductive QueueCall
  | seqIn (dataFrame : ℕ → UInt8) (dataLen : UInt8)
  | seqOut (dataLen : UInt8)

/-- The queue with what its calls have accepted, delivered and erased. -/
structure Ledger where
  queue : FlashQueue
  accepted : List UInt8
  delivered : List UInt8
  erased : List ℕ

/-- The queue after `ScreenRecSeqInit`. -/
def Ledger.init (q : FlashQueue) : Ledger where
  queue := screenRecSeqInit q
  accepted := []
  delivered := []
  erased := []

/-- The sectors that the call erases. -/
def erases (dataLen : UInt8) (q : FlashQueue) : List ℕ :=
  let seq := q.flashScreenDataSeq
  if seq.seqReadAddr = seq.seqFrontAddr then []
  else if seq.seqReadAddr / 4096 ≠ (seq.seqReadAddr + dataLen.toUInt32) / 4096 then
    [seq.seqReadAddr.toNat % 512]
  else []

/-- A call, and the entries in the ledger. -/
def callStep (s : Ledger) : QueueCall → Option Ledger
  | .seqIn dataFrame dataLen =>
      match screenRecSeqIn dataFrame dataLen s.queue with
      | (.ok, q) => some { s with queue := q, accepted := s.accepted ++ pointBytes dataFrame dataLen }
      | (.error, q) => some { s with queue := q }
  | .seqOut dataLen =>
      match screenRecSeqOut dataLen s.queue with
      | (.ok, bytes, q) => some { s with queue := q, delivered := s.delivered ++ bytes,
                                         erased := erases dataLen s.queue ++ s.erased }
      | (.error, _, q) => some { s with queue := q }

/-! ### The law of the queue -/

/-- The number of bytes queued. -/
def Ledger.queued (s : Ledger) : ℕ := s.accepted.length - s.delivered.length

/-- What is in the queue. -/
def Ledger.content (s : Ledger) : FlashSeq × Cells × List UInt8 × List UInt8 :=
  (s.queue.flashScreenDataSeq, s.queue.cells, s.accepted, s.delivered)

/-- A call of a FIFO queue of 2 MiB. -/
def FifoCall (s : Ledger) (c : QueueCall) (s' : Ledger) : Prop :=
  s'.delivered <+: s'.accepted ∧
    match c with
    | .seqIn dataFrame dataLen =>
        ((screenRecSeqIn dataFrame dataLen s.queue).1 = .error ↔
          0x200000 - s.queued < 12 * dataLen.toNat) ∧
        ((screenRecSeqIn dataFrame dataLen s.queue).1 = .error → s'.content = s.content) ∧
        ((screenRecSeqIn dataFrame dataLen s.queue).1 = .ok →
          s'.queue.dataFrameInFlash.toNat = s'.queued)
    | .seqOut dataLen =>
        ((screenRecSeqOut dataLen s.queue).1 = .error ↔ s.queued < dataLen.toNat) ∧
        ((screenRecSeqOut dataLen s.queue).1 = .error → s'.content = s.content)

/-- Where the code meets the law: a call that does not reach the end of the
memory comes before anything is taken, and one that does is too large for the
queue; no more is taken than there is, nothing from an empty queue, and no byte
(but `FF`) from an erased sector. -/
def WithinQueue (s : Ledger) : QueueCall → Prop
  | .seqIn _ dataLen =>
      let front := s.queue.flashScreenDataSeq.seqFrontAddr.toNat
      let read := s.queue.flashScreenDataSeq.seqReadAddr.toNat
      if front + 12 * dataLen.toNat ≤ 0x200000 then read = 0
      else 0x200000 < front - read + 12 * dataLen.toNat
  | .seqOut dataLen =>
      let front := s.queue.flashScreenDataSeq.seqFrontAddr.toNat
      let read := s.queue.flashScreenDataSeq.seqReadAddr.toNat
      if read = front then 0 < dataLen.toNat
      else read + dataLen.toNat ≤ front ∧ ∀ i, read ≤ i → i < read + dataLen.toNat →
        i / 4096 ∈ s.erased → s.accepted.getD i 0xFF = 0xFF

/-- The variables, the memory and the ledger, as long as the calls meet the
condition. -/
structure Ledger.Inv (s : Ledger) : Prop where
  rear : s.queue.flashScreenDataSeq.seqRearAddr = 0
  front : s.queue.flashScreenDataSeq.seqFrontAddr.toNat = s.accepted.length
  read : s.queue.flashScreenDataSeq.seqReadAddr.toNat = s.delivered.length
  le : s.accepted.length ≤ 0x200000
  dvd : 12 ∣ s.accepted.length
  fifo : s.delivered <+: s.accepted
  fresh : s.delivered = [] → s.erased = []
  cells : ∀ i (h : i < s.accepted.length),
    s.queue.cells i = if i / 4096 ∈ s.erased then 0xFF else s.accepted[i]

theorem Ledger.inv_init (q : FlashQueue) : (Ledger.init q).Inv where
  rear := rfl
  front := rfl
  read := rfl
  le := Nat.zero_le _
  dvd := Nat.dvd_zero 12
  fifo := List.prefix_rfl
  fresh _ := rfl
  cells _ h := absurd h (Nat.not_lt_zero _)

/-! ### Masks and memory -/

/-- The bit tested for a full queue. -/
theorem and_bit_ne_zero_iff {x : UInt32} (h : x.toNat < 0x400000) :
    x &&& 0x200000 ≠ 0 ↔ 0x200000 ≤ x.toNat := by
  have hbit : (x &&& 0x200000).toNat = (x.toNat.testBit 21).toNat * 0x200000 := by
    rw [UInt32.toNat_and]
    exact Nat.and_two_pow x.toNat 21
  rw [ne_eq, ← UInt32.toNat_inj, hbit, Nat.testBit_eq_decide_div_mod_eq]
  by_cases hle : 0x200000 ≤ x.toNat
  · have hone : x.toNat / 2 ^ 21 % 2 = 1 := by omega
    rw [decide_eq_true hone]
    exact iff_of_true (by decide) hle
  · have hzero : x.toNat / 2 ^ 21 % 2 ≠ 1 := by omega
    rw [decide_eq_false hzero]
    exact iff_of_false (fun h => h rfl) hle

/-- The mask of an address. -/
theorem toNat_and_mask (x : UInt32) : (x &&& 0x1FFFFF).toNat = x.toNat % 0x200000 := by
  rw [UInt32.toNat_and]
  exact Nat.and_two_pow_sub_one_eq_mod x.toNat 21

/-- A write that ends inside the memory. -/
theorem idealWrite_apply {m : Cells} {a : ℕ} {xs : List UInt8} (h : a + xs.length ≤ 0x200000)
    (c : ℕ) : idealWrite m a xs c = if c < a then m c else xs[c - a]?.getD (m c) := by
  induction xs generalizing m a with
  | nil => simp [idealWrite]
  | cons x xs ih =>
      rw [List.length_cons] at h
      rw [idealWrite, Nat.mod_eq_of_lt (by omega), ih (by omega)]
      rcases Nat.lt_trichotomy c a with hlt | rfl | hgt
      · rw [if_pos (by omega), if_pos hlt, Function.update_of_ne hlt.ne]
      · rw [if_pos (Nat.lt_succ_self c), if_neg (Nat.lt_irrefl c), Nat.sub_self,
          Function.update_self]
        rfl
      · obtain ⟨k, rfl⟩ : ∃ k, c = a + (k + 1) := ⟨c - a - 1, by omega⟩
        rw [if_neg (by omega), if_neg (by omega), Function.update_of_ne hgt.ne',
          Nat.add_sub_cancel_left, show a + (k + 1) - (a + 1) = k by omega]
        rfl

/-! ### One call -/

@[simp] theorem warn_flashScreenDataSeq (q : FlashQueue) :
    q.warn.flashScreenDataSeq = q.flashScreenDataSeq := by
  unfold FlashQueue.warn
  split_ifs <;> rfl

@[simp] theorem warn_cells (q : FlashQueue) : q.warn.cells = q.cells := by
  unfold FlashQueue.warn
  split_ifs <;> rfl

@[simp] theorem warn_dataFrameInFlash (q : FlashQueue) :
    q.warn.dataFrameInFlash = q.dataFrameInFlash := by
  unfold FlashQueue.warn
  split_ifs <;> rfl

@[simp] theorem length_pointBytes (dataFrame : ℕ → UInt8) (dataLen : UInt8) :
    (pointBytes dataFrame dataLen).length = 12 * dataLen.toNat := by
  simp [pointBytes]

section Calls

variable {q : FlashQueue}

/-- What `ScreenRecSeqIn` does: it refuses what would reach beyond the memory. -/
theorem seqIn_cases (hrear : q.flashScreenDataSeq.seqRearAddr = 0)
    (hle : q.flashScreenDataSeq.seqFrontAddr.toNat ≤ 0x200000)
    (hdvd : 12 ∣ q.flashScreenDataSeq.seqFrontAddr.toNat) (dataFrame : ℕ → UInt8) (dataLen : UInt8) :
    (0x200000 < q.flashScreenDataSeq.seqFrontAddr.toNat + 12 * dataLen.toNat ∧
      ∃ q', screenRecSeqIn dataFrame dataLen q = (.error, q') ∧
        q'.flashScreenDataSeq = q.flashScreenDataSeq ∧ q'.cells = q.cells) ∨
    (q.flashScreenDataSeq.seqFrontAddr.toNat + 12 * dataLen.toNat < 0x200000 ∧
      ∃ q', screenRecSeqIn dataFrame dataLen q = (.ok, q') ∧
        q'.flashScreenDataSeq.seqFrontAddr.toNat =
          q.flashScreenDataSeq.seqFrontAddr.toNat + 12 * dataLen.toNat ∧
        q'.flashScreenDataSeq.seqRearAddr = 0 ∧
        q'.flashScreenDataSeq.seqReadAddr = q.flashScreenDataSeq.seqReadAddr ∧
        q'.cells = idealWrite q.cells q.flashScreenDataSeq.seqFrontAddr.toNat
          (pointBytes dataFrame dataLen) ∧
        q'.dataFrameInFlash.toNat =
          q.flashScreenDataSeq.seqFrontAddr.toNat + 12 * dataLen.toNat) := by
  have hlen := dataLen.toNat_lt
  have hnext : (q.flashScreenDataSeq.seqFrontAddr + dataLen.toUInt32 * 12).toNat =
      q.flashScreenDataSeq.seqFrontAddr.toNat + 12 * dataLen.toNat := by
    rw [UInt32.toNat_add, UInt32.toNat_mul, UInt8.toNat_toUInt32]
    show (_ + _ * 12 % 2 ^ 32) % 2 ^ 32 = _
    omega
  have hpositive : ∀ x : UInt32, x > q.flashScreenDataSeq.seqRearAddr ↔ 0 < x.toNat := fun x => by
    rw [hrear]
    exact UInt32.lt_iff_toNat_lt
  have hsmall : q.flashScreenDataSeq.seqFrontAddr.toNat + 12 * dataLen.toNat < 0x400000 := by omega
  -- only multiples of 12 are reached, so never the end of the memory
  have hsplit : (0x200000 < q.flashScreenDataSeq.seqFrontAddr.toNat + 12 * dataLen.toNat ∧
      0 < (q.flashScreenDataSeq.seqFrontAddr.toNat + 12 * dataLen.toNat) % 0x200000) ∨
        q.flashScreenDataSeq.seqFrontAddr.toNat + 12 * dataLen.toNat < 0x200000 := by
    omega
  unfold screenRecSeqIn
  dsimp only
  generalize q.flashScreenDataSeq.seqFrontAddr + dataLen.toUInt32 * 12 = next at hnext ⊢
  have hmask := toNat_and_mask next
  have hbit := and_bit_ne_zero_iff (hnext.trans_lt hsmall)
  rw [hnext] at hmask hbit
  rcases hsplit with ⟨hbig, hpos⟩ | hlt
  · -- refused
    have hfull : next &&& 0x200000 ≠ 0 ∧ next &&& 0x1FFFFF > q.flashScreenDataSeq.seqRearAddr :=
      ⟨hbit.mpr hbig.le, (hpositive _).mpr (hpos.trans_eq hmask.symm)⟩
    rw [if_pos hfull]
    exact .inl ⟨hbig, _, rfl, rfl, rfl⟩
  · have hfits : ¬ (next &&& 0x200000 ≠ 0 ∧
        next &&& 0x1FFFFF > q.flashScreenDataSeq.seqRearAddr) :=
      fun hc => absurd (hbit.mp hc.1) (Nat.not_le.mpr hlt)
    have hge : ¬ next &&& 0x1FFFFF < q.flashScreenDataSeq.seqRearAddr := by
      rw [hrear, UInt32.lt_iff_toNat_lt]
      exact Nat.not_lt_zero _
    rw [Nat.mod_eq_of_lt hlt] at hmask
    rw [if_neg hfits, if_neg hge, hrear, UInt32.sub_zero]
    refine .inr ⟨hlt, _, rfl, ?_⟩
    rw [warn_flashScreenDataSeq, warn_cells, warn_dataFrameInFlash]
    exact ⟨hmask, rfl, rfl, rfl, hmask⟩

/-- What `ScreenRecSeqOut` does: it refuses only if the two addresses are equal. -/
theorem seqOut_cases (hrear : q.flashScreenDataSeq.seqRearAddr = 0) (dataLen : UInt8) :
    (q.flashScreenDataSeq.seqReadAddr.toNat = q.flashScreenDataSeq.seqFrontAddr.toNat ∧
      screenRecSeqOut dataLen q = (.error, [], q)) ∨
    (q.flashScreenDataSeq.seqReadAddr.toNat ≠ q.flashScreenDataSeq.seqFrontAddr.toNat ∧
      ∃ q', screenRecSeqOut dataLen q =
          (.ok, idealRead q.cells q.flashScreenDataSeq.seqReadAddr.toNat dataLen.toNat, q') ∧
        q'.flashScreenDataSeq.seqFrontAddr = q.flashScreenDataSeq.seqFrontAddr ∧
        q'.flashScreenDataSeq.seqRearAddr = 0 ∧
        q'.flashScreenDataSeq.seqReadAddr.toNat =
          (q.flashScreenDataSeq.seqReadAddr.toNat + dataLen.toNat) % 0x200000 ∧
        (erases dataLen q = [] ∨ 0 < dataLen.toNat) ∧
        ∀ c, q'.cells c = if c / 4096 ∈ erases dataLen q then 0xFF else q.cells c) := by
  unfold screenRecSeqOut erases
  dsimp only
  by_cases heq : q.flashScreenDataSeq.seqReadAddr = q.flashScreenDataSeq.seqFrontAddr
  · rw [if_pos heq]
    exact .inl ⟨congrArg UInt32.toNat heq, rfl⟩
  · rw [if_neg heq, if_neg heq]
    refine .inr ⟨fun h => heq (UInt32.toNat_inj.mp h), _, rfl, rfl, hrear, ?_, ?_, ?_⟩
    · have hlen := dataLen.toNat_lt
      rw [toNat_and_mask, UInt32.toNat_add, UInt8.toNat_toUInt32]
      omega
    · by_cases hcross : q.flashScreenDataSeq.seqReadAddr / 4096 ≠
          (q.flashScreenDataSeq.seqReadAddr + dataLen.toUInt32) / 4096
      · refine .inr (Nat.pos_of_ne_zero fun hz => hcross ?_)
        rw [UInt8.toNat_inj.mp (hz.trans UInt8.toNat_zero.symm)]
        simp
      · exact .inl (if_neg hcross)
    · intro c
      dsimp only
      by_cases hcross : q.flashScreenDataSeq.seqReadAddr / 4096 ≠
          (q.flashScreenDataSeq.seqReadAddr + dataLen.toUInt32) / 4096
      · rw [if_pos hcross, if_pos hcross, sectorErase_apply]
        simp only [List.mem_singleton]
      · rw [if_neg hcross, if_neg hcross, if_neg List.not_mem_nil]

end Calls

/-- `ScreenRecSeqIn` in the ledger. -/
theorem screenRecSeqIn_cases {s : Ledger} (h : s.Inv) (dataFrame : ℕ → UInt8) (dataLen : UInt8) :
    (0x200000 < s.accepted.length + 12 * dataLen.toNat ∧
      ∃ q, screenRecSeqIn dataFrame dataLen s.queue = (.error, q) ∧
        q.flashScreenDataSeq = s.queue.flashScreenDataSeq ∧ q.cells = s.queue.cells) ∨
    (s.accepted.length + 12 * dataLen.toNat < 0x200000 ∧
      ∃ q, screenRecSeqIn dataFrame dataLen s.queue = (.ok, q) ∧
        q.flashScreenDataSeq.seqFrontAddr.toNat = s.accepted.length + 12 * dataLen.toNat ∧
        q.flashScreenDataSeq.seqRearAddr = 0 ∧
        q.flashScreenDataSeq.seqReadAddr = s.queue.flashScreenDataSeq.seqReadAddr ∧
        q.cells = idealWrite s.queue.cells s.accepted.length (pointBytes dataFrame dataLen) ∧
        q.dataFrameInFlash.toNat = s.accepted.length + 12 * dataLen.toNat) := by
  have hcases := seqIn_cases h.rear (by rw [h.front]; exact h.le) (by rw [h.front]; exact h.dvd)
    dataFrame dataLen
  rwa [h.front] at hcases

/-- `ScreenRecSeqOut` in the ledger. -/
theorem screenRecSeqOut_cases {s : Ledger} (h : s.Inv) (dataLen : UInt8) :
    (s.delivered.length = s.accepted.length ∧
      screenRecSeqOut dataLen s.queue = (.error, [], s.queue)) ∨
    (s.delivered.length < s.accepted.length ∧
      ∃ q, screenRecSeqOut dataLen s.queue =
          (.ok, idealRead s.queue.cells s.delivered.length dataLen.toNat, q) ∧
        q.flashScreenDataSeq.seqFrontAddr = s.queue.flashScreenDataSeq.seqFrontAddr ∧
        q.flashScreenDataSeq.seqRearAddr = 0 ∧
        q.flashScreenDataSeq.seqReadAddr.toNat =
          (s.delivered.length + dataLen.toNat) % 0x200000 ∧
        (erases dataLen s.queue = [] ∨ 0 < dataLen.toNat) ∧
        ∀ c, q.cells c =
          if c / 4096 ∈ erases dataLen s.queue then 0xFF else s.queue.cells c) := by
  have hlen := h.fifo.length_le
  have hcases := seqOut_cases h.rear dataLen
  rw [h.read, h.front] at hcases
  exact hcases.imp_right fun ⟨hne, hres⟩ => ⟨Nat.lt_of_le_of_ne hlen hne, hres⟩

/-- What has been delivered, with the bytes read now, is the beginning of what
has been accepted exactly if the bytes are there and not erased. -/
theorem prefix_read_iff {s : Ledger} (h : s.Inv) (dataLen : UInt8) :
    s.delivered ++ idealRead s.queue.cells s.delivered.length dataLen.toNat <+: s.accepted ↔
      s.delivered.length + dataLen.toNat ≤ s.accepted.length ∧
        ∀ i, s.delivered.length ≤ i → i < s.delivered.length + dataLen.toNat →
          i / 4096 ∈ s.erased → s.accepted.getD i 0xFF = 0xFF := by
  have hlen : (s.delivered ++ idealRead s.queue.cells s.delivered.length dataLen.toNat).length =
      s.delivered.length + dataLen.toNat := by
    simp [idealRead, NorFlash.read]
  have hentry : ∀ i
      (hi : i < (s.delivered ++ idealRead s.queue.cells s.delivered.length dataLen.toNat).length)
      (hil : i < s.accepted.length), s.delivered.length ≤ i →
      (s.delivered ++ idealRead s.queue.cells s.delivered.length dataLen.toNat)[i] =
        if i / 4096 ∈ s.erased then 0xFF else s.accepted[i] := by
    intro i hi hil hd
    have hmax := h.le
    rw [List.getElem_append_right hd]
    simp only [idealRead, NorFlash.read, List.getElem_map, List.getElem_range]
    show s.queue.cells ((s.delivered.length + (i - s.delivered.length)) % 0x200000) = _
    rw [Nat.add_sub_cancel' hd, Nat.mod_eq_of_lt (by omega), h.cells i hil]
  rw [List.prefix_iff_getElem]
  constructor
  · rintro ⟨hle, heq⟩
    rw [hlen] at hle
    refine ⟨hle, fun i hi hlt herased => ?_⟩
    have hil : i < s.accepted.length := hlt.trans_le hle
    have hi' := hentry i (hlen ▸ hlt) hil hi
    rw [heq i (hlen ▸ hlt), if_pos herased] at hi'
    rw [List.getD_eq_getElem _ _ hil, hi']
  · rintro ⟨hle, hff⟩
    refine ⟨hlen.trans_le hle, fun i hi => ?_⟩
    have hil : i < s.accepted.length := by omega
    by_cases hd : s.delivered.length ≤ i
    · rw [hentry i hi hil hd]
      split_ifs with herased
      · have hi' := hff i hd (hlen ▸ hi) herased
        rwa [List.getD_eq_getElem _ _ hil, eq_comm] at hi'
      · rfl
    · rw [List.getElem_append_left (Nat.not_le.mp hd)]
      exact (List.prefix_iff_getElem.mp h.fifo).2 i (Nat.not_le.mp hd)

/-! ### The law -/

section Step

variable {s s' : Ledger} {dataFrame : ℕ → UInt8} {dataLen : UInt8}

/-- An In counts what is queued only if nothing has been taken, and refuses in time
only if the queue is full. -/
theorem fifoCall_seqIn_iff (h : s.Inv) (hs : callStep s (.seqIn dataFrame dataLen) = some s') :
    FifoCall s (.seqIn dataFrame dataLen) s' ↔ WithinQueue s (.seqIn dataFrame dataLen) := by
  have hle := h.fifo.length_le
  have hmax := h.le
  have hqueued : s.queued = s.accepted.length - s.delivered.length := rfl
  simp only [callStep] at hs
  simp only [FifoCall, WithinQueue, h.front, h.read]
  rcases screenRecSeqIn_cases h dataFrame dataLen with
    ⟨hbig, q, hres, hseq, hcells⟩ | ⟨hlt, q, hres, -, -, -, -, hcount⟩
  · rw [hres] at hs ⊢
    obtain rfl := Option.some.inj hs
    have hsame : Ledger.content { s with queue := q } = s.content := by
      simp only [Ledger.content, hseq, hcells]
    rw [if_neg (Nat.not_le.mpr hbig)]
    constructor
    · rintro ⟨-, hfull, -⟩
      have := hfull.mp rfl
      omega
    · exact fun hfull => ⟨h.fifo, iff_of_true rfl (by omega), fun _ => hsame, nofun⟩
  · rw [hres] at hs ⊢
    obtain rfl := Option.some.inj hs
    have hqueued' : (s.accepted ++ pointBytes dataFrame dataLen).length - s.delivered.length =
        s.accepted.length + 12 * dataLen.toNat - s.delivered.length := by
      rw [List.length_append, length_pointBytes]
    simp only [Ledger.queued, hqueued', hcount]
    rw [if_pos hlt.le]
    constructor
    · rintro ⟨-, -, -, hc⟩
      have := hc trivial
      omega
    · intro hzero
      refine ⟨h.fifo.trans (List.prefix_append _ _), iff_of_false nofun (by omega), nofun,
        fun _ => ?_⟩
      rw [hzero, Nat.sub_zero]

/-- An Out delivers what comes next only if it is there, and not erased. -/
theorem fifoCall_seqOut_iff (h : s.Inv) (hs : callStep s (.seqOut dataLen) = some s') :
    FifoCall s (.seqOut dataLen) s' ↔ WithinQueue s (.seqOut dataLen) := by
  have hqueued : s.queued = s.accepted.length - s.delivered.length := rfl
  simp only [callStep] at hs
  simp only [FifoCall, WithinQueue, h.front, h.read]
  rcases screenRecSeqOut_cases h dataLen with ⟨hempty, hres⟩ | ⟨hlt, q, hres, -⟩
  · rw [hres] at hs ⊢
    obtain rfl := Option.some.inj hs
    rw [if_pos hempty]
    constructor
    · rintro ⟨-, hfew, -⟩
      have := hfew.mp rfl
      omega
    · exact fun hpos => ⟨h.fifo, iff_of_true rfl (by omega), fun _ => rfl⟩
  · rw [hres] at hs ⊢
    obtain rfl := Option.some.inj hs
    rw [if_neg hlt.ne, ← prefix_read_iff h dataLen]
    constructor
    · exact fun hf => hf.1
    · intro hpre
      have hfit := ((prefix_read_iff h dataLen).mp hpre).1
      exact ⟨hpre, iff_of_false nofun (by omega), nofun⟩

/-- **One call** is that of a FIFO queue exactly under the condition. -/
theorem fifoCall_iff {c : QueueCall} (h : s.Inv) (hs : callStep s c = some s') :
    FifoCall s c s' ↔ WithinQueue s c := by
  cases c with
  | seqIn => exact fifoCall_seqIn_iff h hs
  | seqOut => exact fifoCall_seqOut_iff h hs

/-- What an In writes goes behind what is there, and nothing has been erased. -/
theorem Ledger.Inv.seqIn (h : s.Inv) (hc : WithinQueue s (.seqIn dataFrame dataLen))
    (hs : callStep s (.seqIn dataFrame dataLen) = some s') : s'.Inv := by
  have hfifo := ((fifoCall_seqIn_iff h hs).mpr hc).1
  have hmax := h.le
  simp only [callStep] at hs
  simp only [WithinQueue, h.front, h.read] at hc
  rcases screenRecSeqIn_cases h dataFrame dataLen with
    ⟨-, q, hres, hseq, hcells⟩ | ⟨hlt, q, hres, hfront, hrear, hread, hcells, -⟩
  · rw [hres] at hs
    obtain rfl := Option.some.inj hs
    exact { h with rear := by rw [hseq]; exact h.rear, front := by rw [hseq]; exact h.front,
                   read := by rw [hseq]; exact h.read, cells := by rw [hcells]; exact h.cells }
  · rw [hres] at hs
    obtain rfl := Option.some.inj hs
    rw [if_pos hlt.le] at hc
    -- nothing has been delivered, so nothing has been erased
    have hnone := h.fresh (List.length_eq_zero_iff.mp hc)
    refine ⟨hrear, by simp [hfront], by rw [hread]; exact h.read, by simp; omega,
      ?_, hfifo, h.fresh, fun i hi => ?_⟩
    · rw [List.length_append, length_pointBytes]
      exact Nat.dvd_add h.dvd (Nat.dvd_mul_right _ _)
    · have hold := h.cells i
      simp only [hnone, List.not_mem_nil, if_false] at hold ⊢
      rw [hcells, idealWrite_apply (by rw [length_pointBytes]; omega)]
      by_cases hlt' : i < s.accepted.length
      · rw [if_pos hlt', hold hlt', List.getElem_append_left hlt']
      · rw [List.length_append] at hi
        rw [if_neg hlt', List.getElem_append_right (Nat.not_lt.mp hlt'),
          List.getElem?_eq_getElem (by omega)]
        rfl

/-- An Out adds what it erases to what has been erased. -/
theorem Ledger.Inv.seqOut (h : s.Inv) (hc : WithinQueue s (.seqOut dataLen))
    (hs : callStep s (.seqOut dataLen) = some s') : s'.Inv := by
  have hfifo := ((fifoCall_seqOut_iff h hs).mpr hc).1
  have hmax := h.le
  simp only [callStep] at hs
  simp only [WithinQueue, h.front, h.read] at hc
  rcases screenRecSeqOut_cases h dataLen with
    ⟨-, hres⟩ | ⟨hlt, q, hres, hfront, hrear, hread, herases, hcells⟩
  · rw [hres] at hs
    obtain rfl := Option.some.inj hs
    exact { h with }
  · rw [hres] at hs
    obtain rfl := Option.some.inj hs
    rw [if_neg hlt.ne] at hc
    have hdvd := h.dvd
    have hcount : (s.delivered ++ idealRead s.queue.cells s.delivered.length dataLen.toNat).length =
        s.delivered.length + dataLen.toNat := by
      simp [idealRead, NorFlash.read]
    refine ⟨hrear, by rw [hfront]; exact h.front, ?_, hmax, hdvd, hfifo, fun hnil => ?_,
      fun i hi => ?_⟩
    · rw [hread, hcount]
      exact Nat.mod_eq_of_lt (by omega)
    · -- nothing is delivered, so nothing is erased
      have hzero := congrArg List.length hnil
      rw [hcount, List.length_nil] at hzero
      rw [herases.resolve_right (by omega), List.nil_append]
      exact h.fresh (List.append_eq_nil_iff.mp hnil).1
    · rw [hcells, h.cells i hi]
      simp only [List.mem_append]
      by_cases hnow : i / 4096 ∈ erases dataLen s.queue
      · rw [if_pos hnow, if_pos (.inl hnow)]
      · rw [if_neg hnow]
        simp only [hnow, false_or]

/-- A call that meets the condition keeps the invariant. -/
theorem Ledger.Inv.step {c : QueueCall} (h : s.Inv) (hc : WithinQueue s c)
    (hs : callStep s c = some s') : s'.Inv := by
  cases c with
  | seqIn => exact h.seqIn hc hs
  | seqOut => exact h.seqOut hc hs

end Step

/-- **The queue.**  After `ScreenRecSeqInit` a sequence of calls is that of a FIFO
queue exactly if each of them meets the condition. -/
theorem queue_law_iff (q : FlashQueue) (cs : List QueueCall) :
    Along callStep FifoCall (Ledger.init q) cs ↔
      Along callStep (fun s c _ => WithinQueue s c) (Ledger.init q) cs :=
  Along.congr (I := Ledger.Inv) cs (Ledger.inv_init q) (fun _ _ _ hi hc hs => hi.step hc hs)
    fun _ _ _ hi hs => fifoCall_iff hi hs

/-- The queue before `ScreenRecSeqInit`. -/
def FlashQueue.powerOn : FlashQueue where
  flashScreenDataSeq := { seqFrontAddr := 0, seqRearAddr := 0, seqReadAddr := 0 }
  dataFrameInFlash := 0
  cells := blank
  beep := none
  beepStatFlag := 0
  errStatus := 0

/-- A point, taken before the next one comes, is still counted. -/
theorem queue_law_fails : ¬ Along callStep FifoCall (Ledger.init .powerOn)
    [.seqIn (fun _ => 0) 1, .seqOut 12, .seqIn (fun _ => 0) 1] := by
  intro h
  have hlast := (((h _ rfl).2 _ rfl).2 _ rfl).1
  exact absurd (hlast.2.2.2 rfl) (by decide +kernel)

end DolphinNote
