/-
DolphinNote/KService.lean

`rt_memset`, `rt_memcpy` and `rt_memmove` (kservice.c).

The first two work on words where the addresses allow it, four at a time, then
one at a time, and on bytes for the rest.  With `RT_TINY_SIZE` they are the byte
loops alone, `setBytes` and `copyUp`; `words_eq_bytes` says that the result is
the same for every address and count, also where source and destination overlap.
`rtMemmove_eq_copy` says that `rt_memmove` never reads a byte it has written.
-/
import DolphinNote.Bytes

namespace DolphinNote

open Bytes

/-! ### `rt_memset` -/

/-- `*aligned_addr++ = buffer`, `n` times. -/
def setWords (buffer : ℕ) : ℕ → ℕ → Memory → ℕ × Memory
  | 0, a, m => (a, m)
  | n + 1, a, m => setWords buffer n (a + 4) (store 4 a buffer m)

/-- `while (count >= LBLOCKSIZE * n)` -/
def setWordsLoop (buffer n : ℕ) : ℕ → ℕ → ℕ → Memory → ℕ × ℕ × Memory
  | 0, count, a, m => (count, a, m)
  | fuel + 1, count, a, m =>
      if 4 * n ≤ count then
        let (a, m) := setWords buffer n a m
        setWordsLoop buffer n fuel (count - 4 * n) a m
      else (count, a, m)

/-- `while (count--) *m++ = (char)d` -/
def setBytes (d : UInt8) : ℕ → ℕ → Memory → Memory
  | 0, _, m => m
  | count + 1, a, m => setBytes d count (a + 1) (Function.update m a d)

/-- `rt_memset` -/
def rtMemset (s : ℕ) (c : ℤ) (count : ℕ) (m : Memory) : Memory :=
  let d := (c % 256).toNat
  if 4 ≤ count ∧ s % 4 = 0 then
    let buffer := d <<< 8 ||| d
    let buffer := buffer ||| buffer <<< 16
    let (count, a, m) := setWordsLoop buffer 4 count count s m
    let (count, a, m) := setWordsLoop buffer 1 count count a m
    setBytes (UInt8.ofNat d) count a m
  else setBytes (UInt8.ofNat d) count s m

/-! ### `rt_memcpy` and `rt_memmove` -/

/-- `*aligned_dst++ = *aligned_src++`, `n` times. -/
def copyWords : ℕ → ℕ → ℕ → Memory → ℕ × ℕ × Memory
  | 0, dst, src, m => (dst, src, m)
  | n + 1, dst, src, m => copyWords n (dst + 4) (src + 4) (store 4 dst (load 4 m src) m)

/-- `while (len >= LITTLEBLOCKSIZE * n)`; the sizes are unsigned, and so is the
comparison. -/
def copyWordsLoop (n : ℕ) : ℕ → ℕ → ℕ → ℕ → Memory → ℕ × ℕ × ℕ × Memory
  | 0, len, dst, src, m => (len, dst, src, m)
  | fuel + 1, len, dst, src, m =>
      if 4 * n ≤ len then
        let (dst, src, m) := copyWords n dst src m
        copyWordsLoop n fuel (len - 4 * n) dst src m
      else (len, dst, src, m)

/-- `rt_memcpy` -/
def rtMemcpy (dst src count : ℕ) (m : Memory) : Memory :=
  if 16 ≤ count ∧ src % 4 = 0 ∧ dst % 4 = 0 then
    let (len, dst, src, m) := copyWordsLoop 4 count count dst src m
    let (len, dst, src, m) := copyWordsLoop 1 len len dst src m
    copyUp len dst src m
  else copyUp count dst src m

/-- `rt_memmove` -/
def rtMemmove (dest src n : ℕ) (m : Memory) : Memory :=
  if src < dest ∧ dest < src + n then copyDown n dest src m else copyUp n dest src m

/-! ### Words and bytes -/

variable {d n fuel count a dst src len : ℕ} {m : Memory}

theorem setBytes_eq_fill (d : UInt8) (count a : ℕ) (m : Memory) :
    setBytes d count a m = fill a count d m := by
  induction count generalizing a m with
  | zero =>
      funext i
      exact (if_neg (by omega)).symm
  | succ count ih =>
      show setBytes d count (a + 1) (Function.update m a d) = _
      rw [ih]
      funext i
      unfold fill
      rcases eq_or_ne i a with rfl | hne
      · rw [if_neg (by omega), if_pos (by omega), Function.update_self]
      · rw [Function.update_of_ne hne]
        refine if_congr ?_ rfl rfl
        omega

theorem setBytes_add (d : UInt8) (n count a : ℕ) (m : Memory) :
    setBytes d (n + count) a m = setBytes d count (a + n) (setBytes d n a m) := by
  rw [setBytes_eq_fill, setBytes_eq_fill, setBytes_eq_fill, fill_fill]

/-- The word that is stored holds the byte four times. -/
theorem store_buffer (h : d < 256) (a : ℕ) (m : Memory) :
    store 4 a ((d <<< 8 ||| d) ||| (d <<< 8 ||| d) <<< 16) m = setBytes (UInt8.ofNat d) 4 a m := by
  have hlow : d <<< 8 ||| d = 257 * d := by
    rw [← Nat.shiftLeft_add_eq_or_of_lt (i := 8) h, Nat.shiftLeft_eq]
    ring
  have hbuffer : (257 * d) ||| (257 * d) <<< 16 = 16843009 * d := by
    rw [Nat.or_comm, ← Nat.shiftLeft_add_eq_or_of_lt (i := 16) (by omega), Nat.shiftLeft_eq]
    ring
  rw [hlow, hbuffer, setBytes_eq_fill]
  funext i
  rw [store_apply]
  unfold fill
  refine if_ctx_congr Iff.rfl (fun hi => ?_) fun _ => rfl
  obtain ⟨k, hk, rfl⟩ : ∃ k < 4, i = a + k := ⟨i - a, by omega, by omega⟩
  rw [Nat.add_sub_cancel_left, ← UInt8.toNat_inj, UInt8.toNat_ofNat', UInt8.toNat_ofNat']
  have h₁ : 16843009 * d / 256 = 65793 * d := by omega
  have h₂ : 16843009 * d / 65536 = 257 * d := by omega
  have h₃ : 16843009 * d / 16777216 = d := by omega
  interval_cases k
  · show 16843009 * d / 1 % 256 = d % 256
    omega
  · show 16843009 * d / 256 % 256 = d % 256
    omega
  · show 16843009 * d / 65536 % 256 = d % 256
    omega
  · show 16843009 * d / 16777216 % 256 = d % 256
    omega

theorem setWords_eq {buffer : ℕ} {b : UInt8} (hb : ∀ a m, store 4 a buffer m = setBytes b 4 a m)
    (n a : ℕ) (m : Memory) : setWords buffer n a m = (a + 4 * n, setBytes b (4 * n) a m) := by
  induction n generalizing a m with
  | zero => rfl
  | succ n ih =>
      show setWords buffer n (a + 4) (store 4 a buffer m) = _
      rw [ih, hb, Nat.mul_succ, Nat.add_comm (4 * n) 4, setBytes_add, Nat.add_assoc]

/-- The loop sets some bytes, and leaves it to the next one to set the others. -/
theorem setBytes_setWordsLoop {buffer : ℕ} {b : UInt8}
    (hb : ∀ a m, store 4 a buffer m = setBytes b 4 a m) (n fuel count a : ℕ) (m : Memory) :
    setBytes b (setWordsLoop buffer n fuel count a m).1 (setWordsLoop buffer n fuel count a m).2.1
      (setWordsLoop buffer n fuel count a m).2.2 = setBytes b count a m := by
  induction fuel generalizing count a m with
  | zero => rfl
  | succ fuel ih =>
      unfold setWordsLoop
      split_ifs with h
      · rw [setWords_eq hb]
        dsimp only
        rw [ih, ← setBytes_add, Nat.add_sub_cancel' h]
      · rfl

theorem rtMemset_eq_setBytes (s : ℕ) (c : ℤ) (count : ℕ) (m : Memory) :
    rtMemset s c count m = setBytes (UInt8.ofNat (c % 256).toNat) count s m := by
  have hd : (c % 256).toNat < 256 := by omega
  unfold rtMemset
  dsimp only
  split_ifs with h
  · rw [setBytes_setWordsLoop (store_buffer hd), setBytes_setWordsLoop (store_buffer hd)]
  · rfl

theorem copyWords_eq (n : ℕ) (hd : 4 ∣ dst) (hs : 4 ∣ src) (m : Memory) :
    copyWords n dst src m = (dst + 4 * n, src + 4 * n, copyUp (4 * n) dst src m) := by
  induction n generalizing dst src m with
  | zero => rfl
  | succ n ih =>
      show copyWords n (dst + 4) (src + 4) (store 4 dst (load 4 m src) m) = _
      rw [ih (Nat.dvd_add_self_right.mpr hd) (Nat.dvd_add_self_right.mpr hs),
        ← copyUp_word hd hs, Nat.mul_succ, Nat.add_comm (4 * n) 4, copyUp_add, Nat.add_assoc,
        Nat.add_assoc]

/-- The loop stays on words. -/
theorem copyUp_copyWordsLoop (n fuel len : ℕ) (hd : 4 ∣ dst) (hs : 4 ∣ src) (m : Memory) :
    (4 ∣ (copyWordsLoop n fuel len dst src m).2.1 ∧
        4 ∣ (copyWordsLoop n fuel len dst src m).2.2.1) ∧
      copyUp (copyWordsLoop n fuel len dst src m).1 (copyWordsLoop n fuel len dst src m).2.1
        (copyWordsLoop n fuel len dst src m).2.2.1 (copyWordsLoop n fuel len dst src m).2.2.2 =
        copyUp len dst src m := by
  induction fuel generalizing len dst src m with
  | zero => exact ⟨⟨hd, hs⟩, rfl⟩
  | succ fuel ih =>
      unfold copyWordsLoop
      split_ifs with h
      · rw [copyWords_eq n hd hs]
        dsimp only
        obtain ⟨hdvd, hcopy⟩ := ih (len - 4 * n) (Nat.dvd_add hd (Nat.dvd_mul_right 4 n))
          (Nat.dvd_add hs (Nat.dvd_mul_right 4 n)) (copyUp (4 * n) dst src m)
        refine ⟨hdvd, ?_⟩
        rw [hcopy, ← copyUp_add, Nat.add_sub_cancel' h]
      · exact ⟨⟨hd, hs⟩, rfl⟩

theorem rtMemcpy_eq_copyUp (dst src count : ℕ) (m : Memory) :
    rtMemcpy dst src count m = copyUp count dst src m := by
  unfold rtMemcpy
  split_ifs with h
  · obtain ⟨-, hs, hd⟩ := h
    obtain ⟨⟨hd₁, hs₁⟩, hcopy₁⟩ := copyUp_copyWordsLoop 4 count count
      (Nat.dvd_of_mod_eq_zero hd) (Nat.dvd_of_mod_eq_zero hs) m
    dsimp only
    rw [(copyUp_copyWordsLoop 1 _ _ hd₁ hs₁ _).2, hcopy₁]
  · rfl

/-- **Words and bytes.**  The word loops of `rt_memset` and `rt_memcpy` leave the memory as
the byte loops would, whatever the addresses and the count are, and wherever source and
destination overlap. -/
theorem words_eq_bytes (m : Memory) :
    (∀ s c count, rtMemset s c count m = setBytes (UInt8.ofNat (c % 256).toNat) count s m) ∧
      ∀ dst src count, rtMemcpy dst src count m = copyUp count dst src m :=
  ⟨fun s c count => rtMemset_eq_setBytes s c count m,
    fun dst src count => rtMemcpy_eq_copyUp dst src count m⟩

/-- **Overlap.**  `rt_memmove` moves every byte as it was in front of the call. -/
theorem rtMemmove_eq_copy (dest src n : ℕ) (m : Memory) (i : ℕ) :
    rtMemmove dest src n m i = if dest ≤ i ∧ i < dest + n then m (src + (i - dest)) else m i := by
  have hcopy : rtMemmove dest src n m = copy dest src n m := by
    unfold rtMemmove
    split_ifs with h
    · exact copyDown_eq_copy h.1.le
    · exact copyUp_eq_copy (by omega)
  rw [hcopy]
  rfl

end DolphinNote
