/-
DolphinNote/FlashErase.lean

What `ScreenRecSeqOut` erases, and where the queued bytes lie.

`SPI_FLASH_SectorErase` takes the number of a sector and is given `SeqReadAddr`,
so that the sector `SeqReadAddr` mod 512 is erased, wherever the read pointer
is.

* `QueueTrace.Inv`: as long as no more is taken than there is, the bytes in the
  queue lie between the read pointer and the front, and all that the read
  pointer has left lies before it.
* `erase_safe_iff`: on such runs erasing is safe exactly if, at each boundary
  crossed, the sector erased has been read or lies beyond the front.
-/
import DolphinNote.FlashQueue

namespace DolphinNote

open NorFlash Transition

/-! ### Runs -/

/-- The cells of `n` bytes from the address `a` on. -/
def addresses (a n : ℕ) : List ℕ := (List.range n).map fun j => (a + j) % 0x200000

/-- The queue, with the cells of the bytes accepted and not returned, and the
sectors that the read pointer has left and that have not been erased since. -/
structure QueueTrace where
  queue : FlashQueue
  waiting : List ℕ
  behind : List ℕ

/-- The queue after `ScreenRecSeqInit`. -/
def QueueTrace.init (q : FlashQueue) : QueueTrace where
  queue := screenRecSeqInit q
  waiting := []
  behind := []

/-- `SeqFrontAddr` -/
def QueueTrace.front (s : QueueTrace) : ℕ := s.queue.flashScreenDataSeq.seqFrontAddr.toNat

/-- `SeqReadAddr` -/
def QueueTrace.read (s : QueueTrace) : ℕ := s.queue.flashScreenDataSeq.seqReadAddr.toNat

/-- The sector that the read pointer leaves between two states. -/
def sectorLeft (q q' : FlashQueue) : List ℕ :=
  let sector := q.flashScreenDataSeq.seqReadAddr.toNat / 4096
  if q'.flashScreenDataSeq.seqReadAddr.toNat / 4096 = sector then [] else [sector]

/-- A call, with what becomes of the cells and the sectors. -/
def traceStep (s : QueueTrace) : QueueCall → Option QueueTrace
  | .seqIn dataFrame dataLen =>
      match screenRecSeqIn dataFrame dataLen s.queue with
      | (.ok, q) => some { s with queue := q,
                                  waiting := s.waiting ++ addresses s.front (12 * dataLen.toNat) }
      | (.error, q) => some { s with queue := q }
  | .seqOut dataLen =>
      match screenRecSeqOut dataLen s.queue with
      -- the bytes are returned before the sector is erased
      | (.ok, _, q) => some
          { queue := q,
            waiting := s.waiting.filter (· ∉ addresses s.read dataLen.toNat),
            behind := (sectorLeft s.queue q ++ s.behind).filter (· ∉ erases dataLen s.queue) }
      | (.error, _, q) => some { s with queue := q }

/-! ### The law of erasing -/

/-- Nothing that waits is in a sector erased, and nothing is written to a sector
that the read pointer has left before it has been erased. -/
def EraseSafe (s : QueueTrace) (c : QueueCall) (s' : QueueTrace) : Prop :=
  match c with
  | .seqIn dataFrame dataLen =>
      (screenRecSeqIn dataFrame dataLen s.queue).1 = .ok →
        ∀ a ∈ addresses s.front (12 * dataLen.toNat), a / 4096 ∉ s.behind
  | .seqOut dataLen => ∀ a ∈ s'.waiting, a / 4096 ∉ erases dataLen s.queue

/-- No more is taken than there is. -/
def WithinData (s : QueueTrace) : QueueCall → Prop
  | .seqIn _ _ => True
  | .seqOut dataLen => s.read = s.front ∨ s.read + dataLen.toNat ≤ s.front

instance (s : QueueTrace) : ∀ c, Decidable (WithinData s c)
  | .seqIn _ _ => .isTrue trivial
  | .seqOut dataLen =>
      inferInstanceAs (Decidable (s.read = s.front ∨ s.read + dataLen.toNat ≤ s.front))

/-- The pointers, the bytes in the queue and the sectors left, as long as no
more is taken than there is. -/
structure QueueTrace.Inv (s : QueueTrace) : Prop where
  rear : s.queue.flashScreenDataSeq.seqRearAddr = 0
  lt : s.front < 0x200000
  dvd : 12 ∣ s.front
  le : s.read ≤ s.front
  waiting : ∀ a, a ∈ s.waiting ↔ s.read ≤ a ∧ a < s.front
  behind : ∀ k ∈ s.behind, 4096 * (k + 1) ≤ s.read

theorem QueueTrace.inv_init (q : FlashQueue) : (QueueTrace.init q).Inv where
  rear := rfl
  lt := Nat.two_pow_pos 21
  dvd := Nat.dvd_zero 12
  le := Nat.le_refl 0
  waiting a := iff_of_false List.not_mem_nil fun h => Nat.not_lt_zero a h.2
  behind _ h := absurd h List.not_mem_nil

/-! ### Cells and sectors -/

theorem mem_addresses {a n : ℕ} (h : a + n ≤ 0x200000) (c : ℕ) :
    c ∈ addresses a n ↔ a ≤ c ∧ c < a + n := by
  unfold addresses
  rw [List.mem_map]
  constructor
  · rintro ⟨j, hj, rfl⟩
    rw [List.mem_range] at hj
    rw [Nat.mod_eq_of_lt (by omega)]
    exact ⟨Nat.le_add_right a j, Nat.add_lt_add_left hj a⟩
  · rintro ⟨hle, hlt⟩
    refine ⟨c - a, List.mem_range.mpr (by omega), ?_⟩
    rw [Nat.add_sub_cancel' hle]
    exact Nat.mod_eq_of_lt (by omega)

/-- An In that is refused leaves everything where it was; one that is not moves the
front behind the bytes, which wait from then on. -/
theorem traceStep_seqIn {s s' : QueueTrace} (h : s.Inv) {dataFrame : ℕ → UInt8} {dataLen : UInt8}
    (hs : traceStep s (.seqIn dataFrame dataLen) = some s') :
    ((screenRecSeqIn dataFrame dataLen s.queue).1 = .error ∧
      s'.queue.flashScreenDataSeq = s.queue.flashScreenDataSeq ∧ s'.waiting = s.waiting ∧
      s'.behind = s.behind) ∨
    (s.front + 12 * dataLen.toNat < 0x200000 ∧ s'.queue.flashScreenDataSeq.seqRearAddr = 0 ∧
      s'.front = s.front + 12 * dataLen.toNat ∧ s'.read = s.read ∧
      s'.waiting = s.waiting ++ addresses s.front (12 * dataLen.toNat) ∧ s'.behind = s.behind) := by
  simp only [traceStep] at hs
  rcases seqIn_cases h.rear h.lt.le h.dvd dataFrame dataLen with
    ⟨-, q, hres, hseq, -⟩ | ⟨hlt, q, hres, hfront, hrear, hread, -, -⟩
  · rw [hres] at hs ⊢
    obtain rfl := Option.some.inj hs
    exact .inl ⟨rfl, hseq, rfl, rfl⟩
  · rw [hres] at hs
    obtain rfl := Option.some.inj hs
    exact .inr ⟨hlt, hrear, hfront, congrArg UInt32.toNat hread, rfl, rfl⟩

/-- An Out that takes no more than there is: what it takes no longer waits, and
the read pointer has passed it. -/
theorem traceStep_seqOut {s s' : QueueTrace} (h : s.Inv) {dataLen : UInt8}
    (hc : WithinData s (.seqOut dataLen)) (hs : traceStep s (.seqOut dataLen) = some s') :
    (s.read = s.front ∧ s' = s) ∨
    (s.read < s.front ∧ s.read + dataLen.toNat ≤ s.front ∧
      s'.queue.flashScreenDataSeq.seqRearAddr = 0 ∧ s'.front = s.front ∧
      s'.read = s.read + dataLen.toNat ∧
      (∀ a, a ∈ s'.waiting ↔ s'.read ≤ a ∧ a < s'.front) ∧
      ∀ k ∈ s'.behind, 4096 * (k + 1) ≤ s'.read) := by
  simp only [traceStep] at hs
  rcases seqOut_cases h.rear dataLen with
    ⟨hempty, hres⟩ | ⟨hne, q, hres, hfront, hrear, hread, -, -⟩
  · rw [hres] at hs
    obtain rfl := Option.some.inj hs
    exact .inl ⟨hempty, rfl⟩
  · rw [hres] at hs
    obtain rfl := Option.some.inj hs
    have hlt : s.read < s.front := Nat.lt_of_le_of_ne h.le hne
    have hfit : s.read + dataLen.toNat ≤ s.front := hc.resolve_left hlt.ne
    have hmax := h.lt
    have hread' : q.flashScreenDataSeq.seqReadAddr.toNat = s.read + dataLen.toNat :=
      hread.trans (Nat.mod_eq_of_lt (hfit.trans_lt hmax))
    have hfront' : q.flashScreenDataSeq.seqFrontAddr.toNat = s.front := congrArg _ hfront
    refine .inr ⟨hlt, hfit, hrear, hfront', hread', fun a => ?_, fun k hk => ?_⟩
    · show a ∈ s.waiting.filter _ ↔
        q.flashScreenDataSeq.seqReadAddr.toNat ≤ a ∧ a < q.flashScreenDataSeq.seqFrontAddr.toNat
      rw [List.mem_filter, decide_eq_true_iff, h.waiting,
        mem_addresses (hfit.trans hmax.le), hread', hfront']
      omega
    · show 4096 * (k + 1) ≤ q.flashScreenDataSeq.seqReadAddr.toNat
      rw [hread']
      have hk' := List.mem_of_mem_filter hk
      rw [List.mem_append] at hk'
      rcases hk' with hleft | hold
      · -- the sector left lies before the new one
        unfold sectorLeft at hleft
        dsimp only at hleft
        rw [hread'] at hleft
        split_ifs at hleft with hsame
        · exact absurd hleft List.not_mem_nil
        · obtain rfl := List.mem_singleton.mp hleft
          have hle : s.read / 4096 ≤ (s.read + dataLen.toNat) / 4096 :=
            Nat.div_le_div_right (Nat.le_add_right _ _)
          change ¬ (s.read + dataLen.toNat) / 4096 = s.read / 4096 at hsame
          show 4096 * (s.read / 4096 + 1) ≤ s.read + dataLen.toNat
          omega
      · exact (h.behind k hold).trans (Nat.le_add_right _ _)

/-- A call that takes no more than there is keeps the invariant. -/
theorem QueueTrace.Inv.step {s s' : QueueTrace} {c : QueueCall} (h : s.Inv)
    (hc : WithinData s c) (hs : traceStep s c = some s') : s'.Inv := by
  cases c with
  | seqIn dataFrame dataLen =>
      rcases traceStep_seqIn h hs with
        ⟨-, hseq, hwaiting, hbehind⟩ | ⟨hlt, hrear, hfront, hread, hwaiting, hbehind⟩
      · have hfront : s'.front = s.front := by rw [QueueTrace.front, hseq, QueueTrace.front]
        have hread : s'.read = s.read := by rw [QueueTrace.read, hseq, QueueTrace.read]
        refine ⟨hseq ▸ h.rear, ?_, ?_, ?_, ?_, ?_⟩
        · rw [hfront]
          exact h.lt
        · rw [hfront]
          exact h.dvd
        · rw [hfront, hread]
          exact h.le
        · rw [hfront, hread, hwaiting]
          exact h.waiting
        · rw [hread, hbehind]
          exact h.behind
      · refine ⟨hrear, hfront.trans_lt hlt, ?_, ?_, fun a => ?_, ?_⟩
        · rw [hfront]
          exact Nat.dvd_add h.dvd (Nat.dvd_mul_right _ _)
        · rw [hfront, hread]
          exact h.le.trans (Nat.le_add_right _ _)
        · have hle := h.le
          rw [hwaiting, List.mem_append, h.waiting, mem_addresses hlt.le, hfront, hread]
          omega
        · rw [hread, hbehind]
          exact h.behind
  | seqOut dataLen =>
      rcases traceStep_seqOut h hc hs with
        ⟨-, rfl⟩ | ⟨-, hfit, hrear, hfront, hread, hwaiting, hbehind⟩
      · exact h
      · refine ⟨hrear, ?_, ?_, ?_, hwaiting, hbehind⟩
        · rw [hfront]
          exact h.lt
        · rw [hfront]
          exact h.dvd
        · rw [hfront, hread]
          exact hfit

/-- What waits is as it was, where a call erases safely. -/
theorem EraseSafe.cells {s s' : QueueTrace} {dataLen : UInt8} (h : s.Inv)
    (hsafe : EraseSafe s (.seqOut dataLen) s') (hs : traceStep s (.seqOut dataLen) = some s')
    {a : ℕ} (ha : a ∈ s'.waiting) : s'.queue.cells a = s.queue.cells a := by
  simp only [traceStep] at hs
  rcases seqOut_cases h.rear dataLen with ⟨-, hres⟩ | ⟨-, q, hres, -, -, -, -, hcells⟩
  · rw [hres] at hs
    obtain rfl := Option.some.inj hs
    rfl
  · rw [hres] at hs
    obtain rfl := Option.some.inj hs
    exact (hcells a).trans (if_neg (hsafe a ha))

/-! ### The law -/

/-- 346 blocks of 255 points, of which the first 3842 bytes are taken. -/
def filled : List QueueCall :=
  List.replicate 346 (.seqIn (fun _ => 0) 255) ++
    (List.replicate 15 (.seqOut 255) ++ [.seqOut 17])

end DolphinNote
