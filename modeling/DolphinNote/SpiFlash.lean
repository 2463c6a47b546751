/-
DolphinNote/SpiFlash.lean

The driver of the W25X16 (spi_flash.c), and what becomes of the bytes given to
it.

`SPI_FLASH_BufferWrite` cuts a range of byte addresses at the page boundaries
(`slices_pageWrites`).  `SPI_FLASH_PageWrite` and `SPI_FLASH_BufferRead` take
their address for a page number, so a piece lands at the beginning of the page
with the number of its first byte.  When what is read is what was written at
these byte addresses is `read_back_iff`.
-/
import DolphinNote.NorFlash

namespace DolphinNote

open NorFlash

/-! ### The device -/

/-- The W25X16: `SPI_FLASH_PageSize`, `SPI_FLASH_SectorSize`, 2 MiB. -/
def w25x16 : Geometry where
  page := 256
  sector := 4096
  size := 0x200000
  page_pos := by decide

/-- The address in the three bytes that follow an instruction. -/
def sentAddr (addr : UInt32) : ℕ :=
  ((addr &&& 0xFF0000) >>> 16).toUInt8.toNat * 65536 + ((addr &&& 0xFF00) >>> 8).toUInt8.toNat * 256 +
    (addr &&& 0xFF).toUInt8.toNat

/-! ### spi_flash.c -/

/-- `SPI_FLASH_SectorErase` -/
def spiFlashSectorErase (m : Cells) (sectorAddr : UInt32) : Cells :=
  let sectorAddr := sectorAddr <<< 12
  erase w25x16 m (sentAddr sectorAddr)

/-- The page program of `SPI_FLASH_PageWrite`. -/
def pageProgram (pBuffer : ℕ → UInt8) (writeAddr : UInt32) (numByteToWrite : UInt16) : Program :=
  let writeAddr := writeAddr <<< 8
  let numByteToWrite := if numByteToWrite > 256 then 256 else numByteToWrite
  { addr := sentAddr writeAddr, data := pBuffer, len := numByteToWrite.toNat }

/-- `SPI_FLASH_PageWrite` -/
def spiFlashPageWrite (m : Cells) (pBuffer : ℕ → UInt8) (writeAddr : UInt32)
    (numByteToWrite : UInt16) : Cells :=
  (pageProgram pBuffer writeAddr numByteToWrite).run w25x16 m

/-- A call of `SPI_FLASH_PageWrite`; `pBuffer` is an offset into the caller's
buffer. -/
structure PageWrite where
  pBuffer : ℕ
  writeAddr : UInt32
  numByteToWrite : UInt16
  deriving DecidableEq, Repr

/-- The moving variables of `SPI_FLASH_BufferWrite`, and the calls so far. -/
structure Writer where
  pBuffer : ℕ
  writeAddr : UInt32
  calls : List PageWrite

namespace Writer

/-- Call `SPI_FLASH_PageWrite`. -/
def pageWrite (w : Writer) (numByteToWrite : UInt16) : Writer :=
  { w with calls := w.calls ++ [⟨w.pBuffer, w.writeAddr, numByteToWrite⟩] }

/-- `WriteAddr += n; pBuffer += n;` -/
def advance (w : Writer) (n : UInt16) : Writer :=
  { w with pBuffer := w.pBuffer + n.toNat, writeAddr := w.writeAddr + n.toUInt32 }

/-- `while (NumOfPage--)` -/
def pages : ℕ → Writer → Writer
  | 0, w => w
  | numOfPage + 1, w => pages numOfPage ((w.pageWrite 256).advance 256)

end Writer

/-- The calls of `SPI_FLASH_PageWrite` made by `SPI_FLASH_BufferWrite`. -/
def pageWrites (writeAddr : UInt32) (numByteToWrite : UInt16) : List PageWrite :=
  let addr : UInt8 := (writeAddr % 256).toUInt8
  let count : UInt8 := (256 - addr.toUInt16).toUInt8
  let numOfPage : UInt8 := (numByteToWrite / 256).toUInt8
  let numOfSingle : UInt8 := (numByteToWrite % 256).toUInt8
  let w : Writer := { pBuffer := 0, writeAddr, calls := [] }
  if addr = 0 then
    if numOfPage = 0 then (w.pageWrite numByteToWrite).calls
    else ((w.pages numOfPage.toNat).pageWrite numOfSingle.toUInt16).calls
  else if numOfPage = 0 then
    if numOfSingle > count then
      let temp := numOfSingle - count
      (((w.pageWrite count.toUInt16).advance count.toUInt16).pageWrite temp.toUInt16).calls
    else (w.pageWrite numByteToWrite).calls
  else
    let numByteToWrite := numByteToWrite - count.toUInt16
    let numOfPage : UInt8 := (numByteToWrite / 256).toUInt8
    let numOfSingle : UInt8 := (numByteToWrite % 256).toUInt8
    let w := ((w.pageWrite count.toUInt16).advance count.toUInt16).pages numOfPage.toNat
    if numOfSingle ≠ 0 then (w.pageWrite numOfSingle.toUInt16).calls else w.calls

/-- `SPI_FLASH_BufferWrite` -/
def spiFlashBufferWrite (m : Cells) (pBuffer : ℕ → UInt8) (writeAddr : UInt32)
    (numByteToWrite : UInt16) : Cells :=
  (pageWrites writeAddr numByteToWrite).foldl
    (fun m c => spiFlashPageWrite m (fun i => pBuffer (c.pBuffer + i)) c.writeAddr c.numByteToWrite) m

/-- `SPI_FLASH_BufferRead` -/
def spiFlashBufferRead (m : Cells) (readAddr : UInt32) (numByteToRead : UInt16) : List UInt8 :=
  let readAddr := readAddr <<< 8
  read w25x16 m (sentAddr readAddr) numByteToRead.toNat

/-! ### Page splitting -/

/-- The range the call writes, and the offset of its bytes. -/
def PageWrite.slice (c : PageWrite) : (ℕ × ℕ) × ℕ :=
  ((c.writeAddr.toNat, c.numByteToWrite.toNat), c.pBuffer)

/-- The calls that write something. -/
def nonempty (cs : List PageWrite) : List PageWrite := cs.filter fun c => c.numByteToWrite ≠ 0

/-- The range of `n` bytes from `a` on, cut at the page boundaries, with the
offset of each piece. -/
def slices (a n : ℕ) : List ((ℕ × ℕ) × ℕ) := (pieces w25x16 a n).map fun s => (s, s.1 - a)

theorem nonempty_pageWrite_zero (w : Writer) :
    nonempty (w.pageWrite (0 : UInt8).toUInt16).calls = nonempty w.calls := by
  simp [nonempty, Writer.pageWrite]

/-- The writer has dealt with the first `k` bytes of the range from `a` on. -/
structure Writer.Covers (w : Writer) (a k : ℕ) : Prop where
  offset : w.pBuffer = k
  addr : w.writeAddr.toNat = (a + k) % 2 ^ 32
  sent : (nonempty w.calls).map PageWrite.slice = slices a k

/-- One call, up to a page boundary at most. -/
theorem Writer.Covers.pageWrite {w : Writer} {a k t : ℕ} {n : UInt16} (h : w.Covers a k)
    (hcut : k = 0 ∨ 256 ∣ a + k) (hn : n.toNat ≤ 256 - (a + k) % 256) (ht : t = k + n.toNat)
    (hfit : a + t ≤ 2 ^ 32) :
    (nonempty (w.pageWrite n).calls).map PageWrite.slice = slices a t := by
  subst ht
  have hcalls : nonempty (w.pageWrite n).calls =
      nonempty w.calls ++ nonempty [⟨w.pBuffer, w.writeAddr, n⟩] := List.filter_append ..
  rw [hcalls, List.map_append, h.sent]
  by_cases h0 : n = 0
  · subst h0
    simp [nonempty]
  · have hpos : 0 < n.toNat := Nat.pos_of_ne_zero fun hz => h0 (UInt16.toNat.inj hz)
    have hone : nonempty [⟨w.pBuffer, w.writeAddr, n⟩] = [⟨w.pBuffer, w.writeAddr, n⟩] := by
      simp [nonempty, h0]
    have haddr : w.writeAddr.toNat = a + k := by
      rw [h.addr]
      exact Nat.mod_eq_of_lt (by omega)
    have hlast : pieces w25x16 (a + k) n.toNat = [(a + k, n.toNat)] := pieces_single hpos hn
    have hsplit : pieces w25x16 a (k + n.toNat) =
        pieces w25x16 a k ++ pieces w25x16 (a + k) n.toNat := by
      rcases hcut with rfl | hdvd
      · simp
      · exact pieces_add hdvd
    rw [slices, slices, hsplit, hlast, hone, List.map_append, List.map_singleton,
      List.map_singleton, PageWrite.slice, haddr, h.offset, Nat.add_sub_cancel_left]

/-- A call and the step behind it. -/
theorem Writer.Covers.chunk {w : Writer} {a k t : ℕ} {n : UInt16} (h : w.Covers a k)
    (hcut : k = 0 ∨ 256 ∣ a + k) (hn : n.toNat ≤ 256 - (a + k) % 256) (ht : t = k + n.toNat)
    (hfit : a + t ≤ 2 ^ 32) : ((w.pageWrite n).advance n).Covers a t where
  offset := by rw [ht, ← h.offset]; rfl
  addr := by
    show (w.writeAddr + n.toUInt32).toNat = _
    rw [UInt32.toNat_add, h.addr, UInt16.toNat_toUInt32]
    omega
  sent := h.pageWrite hcut hn ht hfit

/-- The loop over whole pages. -/
theorem Writer.Covers.pages {w : Writer} {a k t j : ℕ} (h : w.Covers a k) (hdvd : 256 ∣ a + k)
    (ht : t = k + 256 * j) (hfit : a + t ≤ 2 ^ 32) : (w.pages j).Covers a t := by
  induction j generalizing w k with
  | zero => rwa [ht]
  | succ j ih =>
      have h256 : (256 : UInt16).toNat = 256 := rfl
      have hone := h.chunk (t := k + 256) (n := 256) (.inr hdvd) (by omega) (by omega) (by omega)
      exact ih hone (by omega) (by omega)

/-- The 8-bit variables hold what they are computed from. -/
theorem toNat_numOfPage (n : UInt16) : (n / 256).toUInt8.toNat = n.toNat / 256 := by
  have hlt := n.toNat_lt
  rw [UInt16.toNat_toUInt8, UInt16.toNat_div]
  exact Nat.mod_eq_of_lt (Nat.div_lt_of_lt_mul hlt)

theorem toNat_numOfSingle (n : UInt16) : (n % 256).toUInt8.toUInt16.toNat = n.toNat % 256 := by
  rw [UInt8.toNat_toUInt16, UInt16.toNat_toUInt8, UInt16.toNat_mod]
  exact Nat.mod_mod _ _

theorem toNat_addr (a : UInt32) : (a % 256).toUInt8.toNat = a.toNat % 256 := by
  rw [UInt32.toNat_toUInt8, UInt32.toNat_mod]
  exact Nat.mod_mod _ _

/-- The first piece of a range that does not start at a page boundary. -/
theorem toNat_count {a : UInt32} (h : a.toNat % 256 ≠ 0) :
    (256 - (a % 256).toUInt8.toUInt16).toUInt8.toUInt16.toNat = 256 - a.toNat % 256 := by
  have hlt := Nat.mod_lt a.toNat (show 256 > 0 by decide)
  have hle : (a % 256).toUInt8.toUInt16 ≤ 256 := by
    rw [UInt16.le_iff_toNat_le, UInt8.toNat_toUInt16, toNat_addr]
    exact hlt.le
  rw [UInt8.toNat_toUInt16, UInt16.toNat_toUInt8, UInt16.toNat_sub_of_le _ _ hle,
    UInt8.toNat_toUInt16, toNat_addr]
  show (256 - a.toNat % 256) % 256 = _
  omega

/-- From a page boundary on: whole pages, and what is left. -/
theorem Writer.Covers.rest {w : Writer} {a k t : ℕ} {n : UInt16} (h : w.Covers a k)
    (hdvd : 256 ∣ a + k) (ht : t = k + n.toNat) (hfit : a + t ≤ 2 ^ 32) :
    (nonempty ((w.pages (n / 256).toUInt8.toNat).pageWrite (n % 256).toUInt8.toUInt16).calls).map
      PageWrite.slice = slices a t := by
  have hsingle := toNat_numOfSingle n
  have hpages := h.pages (t := k + 256 * (n.toNat / 256)) hdvd rfl (by omega)
  rw [toNat_numOfPage]
  exact hpages.pageWrite (n := (n % 256).toUInt8.toUInt16) (.inr (by omega)) (by omega) (by omega)
    hfit

/-- A range that starts at a page boundary. -/
theorem slices_aligned {a : UInt32} {n : UInt16} (h0 : (a % 256).toUInt8 = 0)
    (hfit : a.toNat + n.toNat ≤ 2 ^ 32) (h : (⟨0, a, []⟩ : Writer).Covers a.toNat 0) :
    (nonempty (pageWrites a n)).map PageWrite.slice = slices a.toNat n.toNat := by
  have haddr := toNat_addr a
  have halign : a.toNat % 256 = 0 := by rw [← haddr, h0]; rfl
  unfold pageWrites
  dsimp only
  rw [if_pos h0]
  by_cases hp : (n / 256).toUInt8 = 0
  · have hsmall : n.toNat / 256 = 0 := by rw [← toNat_numOfPage, hp]; rfl
    rw [if_pos hp]
    exact h.pageWrite (.inl rfl) (by omega) (Nat.zero_add _).symm hfit
  · rw [if_neg hp]
    exact h.rest (Nat.dvd_of_mod_eq_zero halign) (Nat.zero_add _).symm hfit

/-- A range that starts inside a page. -/
theorem slices_unaligned {a : UInt32} {n : UInt16} (h0 : (a % 256).toUInt8 ≠ 0)
    (hfit : a.toNat + n.toNat ≤ 2 ^ 32) (h : (⟨0, a, []⟩ : Writer).Covers a.toNat 0) :
    (nonempty (pageWrites a n)).map PageWrite.slice = slices a.toNat n.toNat := by
  have hodd : a.toNat % 256 ≠ 0 := fun hz => h0 (UInt8.toNat.inj ((toNat_addr a).trans hz))
  have hcount := toNat_count hodd
  have hsingle := toNat_numOfSingle n
  unfold pageWrites
  dsimp only
  rw [if_neg h0]
  generalize (256 - (a % 256).toUInt8.toUInt16).toUInt8 = count at hcount ⊢
  -- behind the first piece, if the range goes on there
  have hfirst (hle : count.toUInt16.toNat ≤ n.toNat) :
      (((⟨0, a, []⟩ : Writer).pageWrite count.toUInt16).advance count.toUInt16).Covers a.toNat
        count.toUInt16.toNat :=
    h.chunk (.inl rfl) (by omega) (Nat.zero_add _).symm (by omega)
  by_cases hp : (n / 256).toUInt8 = 0
  · have hsmall : n.toNat / 256 = 0 := by rw [← toNat_numOfPage, hp]; rfl
    rw [if_pos hp]
    by_cases hgt : (n % 256).toUInt8 > count
    · have hlt : count.toUInt16.toNat < (n % 256).toUInt8.toUInt16.toNat :=
        UInt8.lt_iff_toNat_lt.mp hgt
      have htemp : ((n % 256).toUInt8 - count).toUInt16.toNat =
          (n % 256).toUInt8.toUInt16.toNat - count.toUInt16.toNat :=
        UInt8.toNat_sub_of_le _ _ (UInt8.le_of_lt hgt)
      rw [if_pos hgt]
      exact (hfirst (by omega)).pageWrite (n := ((n % 256).toUInt8 - count).toUInt16)
        (.inr (by omega)) (by omega) (by omega) hfit
    · have hle : (n % 256).toUInt8.toUInt16.toNat ≤ count.toUInt16.toNat :=
        UInt8.le_iff_toNat_le.mp (UInt8.not_lt.mp hgt)
      rw [if_neg hgt]
      exact h.pageWrite (.inl rfl) (by omega) (Nat.zero_add _).symm hfit
  · have hlarge : n.toNat / 256 ≠ 0 := fun hz => hp (UInt8.toNat.inj ((toNat_numOfPage n).trans hz))
    have hleft : (n - count.toUInt16).toNat = n.toNat - count.toUInt16.toNat :=
      UInt16.toNat_sub_of_le _ _ (UInt16.le_iff_toNat_le.mpr (by omega))
    have hrest := (hfirst (by omega)).rest (n := n - count.toUInt16) (t := n.toNat) (by omega)
      (by omega) hfit
    rw [if_neg hp]
    by_cases hs : ((n - count.toUInt16) % 256).toUInt8 = 0
    · -- the call left out would write nothing
      rw [if_neg (not_not.mpr hs), ← hrest, hs, nonempty_pageWrite_zero]
    · rw [if_pos hs]
      exact hrest

/-- **Page splitting.**  The calls that write something cut the range at its
page boundaries. -/
theorem slices_pageWrites {a : UInt32} {n : UInt16} (hfit : a.toNat + n.toNat ≤ 2 ^ 32) :
    (nonempty (pageWrites a n)).map PageWrite.slice = slices a.toNat n.toNat := by
  have hstart : (⟨0, a, []⟩ : Writer).Covers a.toNat 0 :=
    { offset := rfl, addr := (Nat.mod_eq_of_lt a.toNat_lt).symm, sent := by simp [nonempty, slices] }
  by_cases h0 : (a % 256).toUInt8 = 0
  · exact slices_aligned h0 hfit hstart
  · exact slices_unaligned h0 hfit hstart

/-- **The calls of `SPI_FLASH_BufferWrite`** that write something lie one behind the
other from the first address to the last.  Each passes the bytes of its range, at
most 256 of them, and stays in one page. -/
theorem pageWrites_tile {a : UInt32} {n : UInt16} (hfit : a.toNat + n.toNat ≤ 2 ^ 32) :
    Tiles a.toNat
        ((nonempty (pageWrites a n)).map fun c => (c.writeAddr.toNat, c.numByteToWrite.toNat))
        (a.toNat + n.toNat) ∧
      ∀ c ∈ nonempty (pageWrites a n), a.toNat + c.pBuffer = c.writeAddr.toNat ∧
        c.numByteToWrite.toNat ≤ 256 ∧
        (c.writeAddr.toNat + c.numByteToWrite.toNat - 1) / 256 = c.writeAddr.toNat / 256 := by
  have hslices := slices_pageWrites hfit
  constructor
  · have hranges : (nonempty (pageWrites a n)).map
        (fun c => (c.writeAddr.toNat, c.numByteToWrite.toNat)) =
          ((nonempty (pageWrites a n)).map PageWrite.slice).map Prod.fst := by
      rw [List.map_map]
      rfl
    rw [hranges, hslices, slices, List.map_map]
    show Tiles a.toNat ((pieces w25x16 a.toNat n.toNat).map id) _
    rw [List.map_id]
    exact tiles_pieces a.toNat n.toNat
  · intro c hc
    have hmem : c.slice ∈ slices a.toNat n.toNat := hslices ▸ List.mem_map_of_mem hc
    obtain ⟨⟨s, k⟩, hs, he⟩ := List.mem_map.mp hmem
    obtain ⟨hrange, hoff⟩ := Prod.mk.inj he
    obtain ⟨rfl, rfl⟩ := Prod.mk.inj hrange
    obtain ⟨⟨hle, hlt, -⟩, hk⟩ := mem_pieces_iff.mp hs
    have hpage : w25x16.page = 256 := rfl
    rw [hpage] at hk
    dsimp only at hoff
    omega

/-- The last 300 bytes of the address space, from inside of a page. -/
theorem pageWrites_tile_end :
    Tiles (2 ^ 32 - 300)
        ((nonempty (pageWrites 4294966996 300)).map
          fun c => (c.writeAddr.toNat, c.numByteToWrite.toNat))
        (2 ^ 32) ∧
      ∀ c ∈ nonempty (pageWrites 4294966996 300), 4294966996 + c.pBuffer = c.writeAddr.toNat ∧
        c.numByteToWrite.toNat ≤ 256 ∧
        (c.writeAddr.toNat + c.numByteToWrite.toNat - 1) / 256 = c.writeAddr.toNat / 256 :=
  pageWrites_tile (a := 4294966996) (n := 300) (by decide)

/-! ### Addresses -/

/-- The three bytes carry the low 24 bits. -/
theorem sentAddr_eq (addr : UInt32) : sentAddr addr = addr.toNat % 2 ^ 24 := by
  have hlow : (addr &&& 0xFF).toNat = addr.toNat % 256 := by
    rw [UInt32.toNat_and]
    exact Nat.and_two_pow_sub_one_eq_mod addr.toNat 8
  have hmid : ((addr &&& 0xFF00) >>> 8).toNat = addr.toNat / 256 % 256 := by
    rw [UInt32.toNat_shiftRight, UInt32.toNat_and]
    show (addr.toNat &&& 0xFF00) >>> 8 = _
    rw [Nat.shiftRight_and_distrib, Nat.shiftRight_eq_div_pow]
    exact Nat.and_two_pow_sub_one_eq_mod (addr.toNat / 2 ^ 8) 8
  have hhigh : ((addr &&& 0xFF0000) >>> 16).toNat = addr.toNat / 65536 % 256 := by
    rw [UInt32.toNat_shiftRight, UInt32.toNat_and]
    show (addr.toNat &&& 0xFF0000) >>> 16 = _
    rw [Nat.shiftRight_and_distrib, Nat.shiftRight_eq_div_pow]
    exact Nat.and_two_pow_sub_one_eq_mod (addr.toNat / 2 ^ 16) 8
  unfold sentAddr
  rw [UInt32.toNat_toUInt8, UInt32.toNat_toUInt8, UInt32.toNat_toUInt8, hlow, hmid, hhigh]
  omega

/-- An address shifted by `SPI_FLASH_PageWrite` and `SPI_FLASH_BufferRead` is that
of the page with its number. -/
theorem sentAddr_shift (addr : UInt32) :
    sentAddr (addr <<< 8) % w25x16.size = addr.toNat % 8192 * 256 := by
  rw [sentAddr_eq, UInt32.toNat_shiftLeft]
  show addr.toNat <<< 8 % 2 ^ 32 % 2 ^ 24 % 0x200000 = _
  rw [Nat.shiftLeft_eq]
  omega

/-- The address shifted by `SPI_FLASH_SectorErase` is that of the sector with its
number. -/
theorem sentAddr_sector (addr : UInt32) :
    sentAddr (addr <<< 12) % w25x16.size = addr.toNat % 512 * 4096 := by
  rw [sentAddr_eq, UInt32.toNat_shiftLeft]
  show addr.toNat <<< 12 % 2 ^ 32 % 2 ^ 24 % 0x200000 = _
  rw [Nat.shiftLeft_eq]
  omega

theorem sectorErase_apply (m : Cells) (addr : UInt32) (c : ℕ) :
    spiFlashSectorErase m addr c = if c / 4096 = addr.toNat % 512 then 0xFF else m c := by
  show (if c / 4096 = sentAddr (addr <<< 12) % w25x16.size / 4096 then 0xFF else m c) = _
  rw [sentAddr_sector, Nat.mul_div_cancel _ (by decide)]

/-- A page program fills its page from the beginning. -/
theorem pageProgram_puts {p : ℕ → UInt8} {a : UInt32} {n : UInt16} {c : ℕ} {x : UInt8} :
    (pageProgram p a n).Puts w25x16 c x ↔
      c / 256 = a.toNat % 8192 ∧ c % 256 < n.toNat ∧ p (c % 256) = x := by
  have hlen : (pageProgram p a n).len = min n.toNat 256 := by
    show (if n > 256 then (256 : UInt16) else n).toNat = _
    split_ifs with h
    · have hlt : 256 < n.toNat := UInt16.lt_iff_toNat_lt.mp h
      exact (Nat.min_eq_right hlt.le).symm
    · have hle : n.toNat ≤ 256 := UInt16.le_iff_toNat_le.mp (UInt16.not_lt.mp h)
      exact (Nat.min_eq_left hle).symm
  have hcell : ∀ i, (pageProgram p a n).cell w25x16 i = a.toNat % 8192 * 256 + i % 256 := by
    intro i
    show sentAddr (a <<< 8) % w25x16.size / 256 * 256 + (sentAddr (a <<< 8) % w25x16.size + i) % 256 = _
    rw [sentAddr_shift]
    omega
  constructor
  · rintro ⟨i, hi, hic, rfl⟩
    rw [hlen] at hi
    rw [hcell] at hic
    obtain rfl : i = c % 256 := by omega
    exact ⟨by omega, by omega, rfl⟩
  · rintro ⟨hpage, hlt, rfl⟩
    refine ⟨c % 256, by rw [hlen]; omega, ?_, rfl⟩
    rw [hcell]
    omega

/-- The cell of the byte `i` of a read. -/
def readCell (r i : ℕ) : ℕ := (r % 8192 * 256 + i) % 0x200000

theorem bufferRead_eq (m : Cells) (r : UInt32) (n : UInt16) :
    spiFlashBufferRead m r n = (List.range n.toNat).map fun i => m (readCell r.toNat i) := by
  refine List.map_congr_left fun i _ => congrArg m ?_
  show (sentAddr (r <<< 8) + i) % 0x200000 = _
  have h := sentAddr_shift r
  change sentAddr (r <<< 8) % 0x200000 = _ at h
  unfold readCell
  omega

/-! ### What is written -/

/-- A range of byte addresses. -/
structure Extent where
  writeAddr : UInt32
  numByteToWrite : UInt16
  deriving DecidableEq, Repr

namespace Extent

/-- The first address, and the first one behind the range. -/
def first (e : Extent) : ℕ := e.writeAddr.toNat

def last (e : Extent) : ℕ := e.writeAddr.toNat + e.numByteToWrite.toNat

/-- The address is in the range. -/
def Has (e : Extent) (a : ℕ) : Prop := e.first ≤ a ∧ a < e.last

/-- The ranges have no address in common. -/
def Apart (e e' : Extent) : Prop := ∀ a, e.Has a → ¬ e'.Has a

/-- A page program for the range starts at `s`: at its first address and at the
page boundaries inside. -/
def Starts (e : Extent) (s : ℕ) : Prop := e.Has s ∧ (s = e.first ∨ 256 ∣ s)

end Extent

/-- A call of `SPI_FLASH_BufferWrite`. -/
structure BufferWrite extends Extent where
  pBuffer : ℕ → UInt8

/-- The device after the call. -/
def BufferWrite.run (m : Cells) (w : BufferWrite) : Cells :=
  spiFlashBufferWrite m w.pBuffer w.writeAddr w.numByteToWrite

/-- The page programs of the calls. -/
def pagePrograms (ws : List BufferWrite) : List Program :=
  ws.flatMap fun w => (pageWrites w.writeAddr w.numByteToWrite).map fun c =>
    pageProgram (fun i => w.pBuffer (c.pBuffer + i)) c.writeAddr c.numByteToWrite

theorem foldl_run (ws : List BufferWrite) (m : Cells) :
    ws.foldl BufferWrite.run m = (pagePrograms ws).foldl (Program.run w25x16) m := by
  unfold pagePrograms
  simp only [List.foldl_flatMap, List.foldl_map]
  rfl

/-- The calls that write something, for a range inside the address space. -/
theorem exists_pageWrite_iff {e : Extent} (hfit : e.last ≤ 2 ^ 32) {s k o : ℕ} :
    (∃ c ∈ pageWrites e.writeAddr e.numByteToWrite, c.numByteToWrite ≠ 0 ∧ c.slice = ((s, k), o)) ↔
      e.Starts s ∧ k = min (256 - s % 256) (e.last - s) ∧ o = s - e.first := by
  have hslices : (∃ c ∈ pageWrites e.writeAddr e.numByteToWrite, c.numByteToWrite ≠ 0 ∧
      c.slice = ((s, k), o)) ↔ ((s, k), o) ∈ slices e.first e.numByteToWrite.toNat := by
    rw [Extent.first, ← slices_pageWrites hfit]
    simp [nonempty, and_assoc]
  have hmem : ((s, k), o) ∈ slices e.first e.numByteToWrite.toNat ↔
      (s, k) ∈ pieces w25x16 e.first e.numByteToWrite.toNat ∧ o = s - e.first := by
    simp only [slices, List.mem_map, Prod.mk.injEq]
    constructor
    · rintro ⟨t, ht, rfl, rfl⟩
      exact ⟨ht, rfl⟩
    · rintro ⟨ht, rfl⟩
      exact ⟨_, ht, rfl, rfl⟩
  rw [hslices, hmem, mem_pieces_iff]
  constructor
  · rintro ⟨⟨⟨hle, hlt, hstart⟩, hk⟩, ho⟩
    exact ⟨⟨⟨hle, hlt⟩, hstart⟩, hk, ho⟩
  · rintro ⟨⟨⟨hle, hlt⟩, hstart⟩, hk, ho⟩
    exact ⟨⟨⟨hle, hlt, hstart⟩, hk⟩, ho⟩

/-- **What a cell is sent.**  A byte of a range, in the page with the number of
the last start before it. -/
theorem puts_iff {ws : List BufferWrite} (hin : ∀ w ∈ ws, w.last ≤ 0x200000) {c : ℕ} {x : UInt8} :
    (∃ v ∈ pagePrograms ws, v.Puts w25x16 c x) ↔
      ∃ w ∈ ws, ∃ s, w.Starts s ∧ s % 8192 = c / 256 ∧
        c % 256 < min (256 - s % 256) (w.last - s) ∧ w.pBuffer (s - w.first + c % 256) = x := by
  constructor
  · rintro ⟨v, hv, hput⟩
    obtain ⟨w, hw, hv⟩ := List.mem_flatMap.mp hv
    obtain ⟨k, hk, rfl⟩ := List.mem_map.mp hv
    obtain ⟨hpage, hlt, hx⟩ := pageProgram_puts.mp hput
    have hne : k.numByteToWrite ≠ 0 := fun h => by
      rw [h] at hlt
      exact absurd hlt (Nat.not_lt_zero _)
    obtain ⟨hstart, hlen, hoff⟩ :=
      (exists_pageWrite_iff ((hin w hw).trans (by decide))).mp ⟨k, hk, hne, rfl⟩
    exact ⟨w, hw, _, hstart, hpage.symm, hlen ▸ hlt, hoff ▸ hx⟩
  · rintro ⟨w, hw, s, hstart, hpage, hlt, hx⟩
    obtain ⟨k, hk, -, hslice⟩ :=
      (exists_pageWrite_iff ((hin w hw).trans (by decide))).mpr ⟨hstart, rfl, rfl⟩
    obtain ⟨hs, hoff⟩ := Prod.mk.inj hslice
    obtain ⟨haddr, hlen⟩ := Prod.mk.inj hs
    refine ⟨_, List.mem_flatMap.mpr ⟨w, hw, List.mem_map.mpr ⟨k, hk, rfl⟩⟩, ?_⟩
    exact pageProgram_puts.mpr ⟨by rw [haddr, hpage], by rw [hlen]; exact hlt, by rw [hoff]; exact hx⟩

/-- Only one of the calls writes to an address. -/
theorem BufferWrite.unique {ws : List BufferWrite}
    (hapart : ws.Pairwise fun w w' => w.Apart w'.toExtent) {w w' : BufferWrite} (hw : w ∈ ws)
    (hw' : w' ∈ ws) {a : ℕ} (h : w.Has a) (h' : w'.Has a) : w = w' := by
  by_contra hne
  have hsymm : Std.Symm fun w w' : BufferWrite => w.Apart w'.toExtent :=
    ⟨fun v v' hv b hb hb' => hv b hb' hb⟩
  exact hapart.forall hw hw' hne a h h'

/-! ### Reading back -/

/-- The bytes that were written from `r` on are read back, whatever they are. -/
def ReadsBack (es : List Extent) (e : Extent) (r : UInt32) (n : UInt16) : Prop :=
  ∀ ws : List BufferWrite, ws.map BufferWrite.toExtent = es → ∀ w ∈ ws, w.toExtent = e →
    spiFlashBufferRead (ws.foldl BufferWrite.run blank) r n =
      (List.range n.toNat).map fun i => w.pBuffer (r.toNat - e.first + i)

/-- The calls that write the byte `d a` to each address `a`. -/
def writesOf (d : ℕ → UInt8) (es : List Extent) : List BufferWrite :=
  es.map fun e => { e with pBuffer := fun i => d (e.first + i) }

theorem map_writesOf (d : ℕ → UInt8) (es : List Extent) :
    (writesOf d es).map BufferWrite.toExtent = es := by
  rw [writesOf, List.map_map]
  exact List.map_id es

/-- Which byte a cell is sent by these calls. -/
theorem writesOf_puts_iff {es : List Extent} (hin : ∀ e ∈ es, e.last ≤ 0x200000) {d : ℕ → UInt8}
    {c : ℕ} {x : UInt8} :
    (∃ v ∈ pagePrograms (writesOf d es), v.Puts w25x16 c x) ↔
      ∃ e ∈ es, ∃ s, e.Starts s ∧ s % 8192 = c / 256 ∧
        c % 256 < min (256 - s % 256) (e.last - s) ∧ d (s + c % 256) = x := by
  have hws : ∀ w ∈ writesOf d es, w.last ≤ 0x200000 := by
    intro w hw
    obtain ⟨e, he, rfl⟩ := List.mem_map.mp hw
    exact hin e he
  have haddr : ∀ (e : Extent) s, e.Starts s → e.first + (s - e.first + c % 256) = s + c % 256 :=
    fun e s hs => by have := hs.1.1; omega
  rw [puts_iff hws]
  constructor
  · rintro ⟨w, hw, s, hs, hpage, hlt, hx⟩
    obtain ⟨e, he, rfl⟩ := List.mem_map.mp hw
    exact ⟨e, he, s, hs, hpage, hlt, haddr e s hs ▸ hx⟩
  · rintro ⟨e, he, s, hs, hpage, hlt, hx⟩
    exact ⟨_, List.mem_map.mpr ⟨e, he, rfl⟩, s, hs, hpage, hlt, by rw [← haddr e s hs] at hx; exact hx⟩

/-- All bytes are `FF` but the one for the address `t`. -/
def oneZero (t a : ℕ) : UInt8 := if a = t then 0 else 0xFF

section ReadsBack

variable {es : List Extent} {e : Extent} {r : UInt32} {n : UInt16}

/-- What a read that is right finds in a cell. -/
theorem ReadsBack.cell (h : ReadsBack es e r n) (he : e ∈ es) (hr : e.first ≤ r.toNat)
    (d : ℕ → UInt8) {i : ℕ} (hi : i < n.toNat) :
    (pagePrograms (writesOf d es)).foldl (Program.run w25x16) blank (readCell r.toNat i) =
      d (r.toNat + i) := by
  have hread := h (writesOf d es) (map_writesOf d es) _ (List.mem_map.mpr ⟨e, he, rfl⟩) rfl
  rw [foldl_run, bufferRead_eq] at hread
  have hcell := List.map_inj_left.mp hread i (List.mem_range.mpr hi)
  have haddr : e.first + (r.toNat - e.first + i) = r.toNat + i := by omega
  exact hcell.trans (congrArg d haddr)

/-- A byte that is read back was programmed into the cell it is read from. -/
theorem ReadsBack.programmed (h : ReadsBack es e r n) (hin : ∀ e ∈ es, e.last ≤ 0x200000)
    (he : e ∈ es) (hr : e.first ≤ r.toNat) {i : ℕ} (hi : i < n.toNat) :
    i < 256 ∧ ∃ e' ∈ es, e'.Starts r.toNat ∧ r.toNat % 256 + i < 256 ∧ r.toNat + i < e'.last := by
  have hzero := h.cell he hr (oneZero (r.toNat + i)) hi
  rw [oneZero, if_pos rfl] at hzero
  -- a cell to which no zero is sent stays `FF`
  obtain ⟨e', he', s, hs, hpage, hlt, hx⟩ : ∃ e' ∈ es, ∃ s, e'.Starts s ∧
      s % 8192 = readCell r.toNat i / 256 ∧
      readCell r.toNat i % 256 < min (256 - s % 256) (e'.last - s) ∧
      s + readCell r.toNat i % 256 = r.toNat + i := by
    by_contra hno
    have hones : (pagePrograms (writesOf (oneZero (r.toNat + i)) es)).foldl (Program.run w25x16)
        blank (readCell r.toNat i) = 0xFF :=
      programs_ones fun v hv y hy => by
        obtain ⟨e', he', s, hs, hpage, hlt, rfl⟩ := (writesOf_puts_iff hin).mp ⟨v, hv, hy⟩
        exact if_neg fun heq => hno ⟨e', he', s, hs, hpage, hlt, heq⟩
    rw [hones] at hzero
    exact absurd hzero (by decide)
  have hn := n.toNat_lt
  unfold readCell at hpage hlt hx
  have hsmall : i < 256 := by omega
  obtain rfl : s = r.toNat := by omega
  exact ⟨hsmall, e', he', hs, by omega, by omega⟩

/-- No other page program starts in the page that is read. -/
theorem ReadsBack.alone (h : ReadsBack es e r n) (hin : ∀ e ∈ es, e.last ≤ 0x200000) (he : e ∈ es)
    (hr : e.first ≤ r.toNat) (hn : n ≠ 0) {e' : Extent} (he' : e' ∈ es) {s : ℕ} (hs : e'.Starts s)
    (hpage : s % 8192 = r.toNat % 8192) : s = r.toNat := by
  have hpos : 0 < n.toNat := Nat.pos_of_ne_zero fun hz => hn (UInt16.toNat.inj hz)
  have hlast := hs.1.2
  -- the program that starts at `s` clears the first byte read
  obtain ⟨v, hv, hput⟩ := (writesOf_puts_iff (d := oneZero s) (c := readCell r.toNat 0) (x := 0)
    hin).mpr ⟨e', he', s, hs, by unfold readCell; omega, by unfold readCell; omega,
      if_pos (by unfold readCell; omega)⟩
  have hread := (programs_zero (m := blank) hv hput).symm.trans (h.cell he hr (oneZero s) hpos)
  by_contra hne
  rw [oneZero, if_neg (by omega)] at hread
  exact absurd hread (by decide)

/-- **Read after write.**  What has been written is read back, whatever it is,
exactly if the read stays in one page, begins where a page program has begun,
and no other one has begun in a page with the same number. -/
theorem read_back_iff (hapart : es.Pairwise Extent.Apart) (hin : ∀ e ∈ es, e.last ≤ 0x200000)
    (he : e ∈ es) (hr : e.first ≤ r.toNat) (hlast : r.toNat + n.toNat ≤ e.last) :
    ReadsBack es e r n ↔ n = 0 ∨ (e.Starts r.toNat ∧ r.toNat % 256 + n.toNat ≤ 256 ∧
      ∀ e' ∈ es, ∀ s, e'.Starts s → s % 8192 = r.toNat % 8192 → s = r.toNat) := by
  constructor
  · intro h
    refine or_iff_not_imp_left.mpr fun hn => ?_
    have hpos : 0 < n.toNat := Nat.pos_of_ne_zero fun hz => hn (UInt16.toNat.inj hz)
    obtain ⟨-, e', he', hstart, -, -⟩ := h.programmed hin he hr hpos
    obtain ⟨-, -, -, -, hpage, -⟩ := h.programmed hin he hr (Nat.sub_lt hpos Nat.one_pos)
    have hhas : e.Has r.toNat := ⟨hr, by omega⟩
    have hsame : e' = e := by
      by_contra hne
      have hsymm : Std.Symm Extent.Apart := ⟨fun v v' hv b hb hb' => hv b hb' hb⟩
      exact hapart.forall he' he hne r.toNat hstart.1 hhas
    exact ⟨hsame ▸ hstart, by omega, fun e' he' s hs hsr => h.alone hin he hr hn he' hs hsr⟩
  · rintro (rfl | ⟨hstart, hpage, halone⟩) ws rfl w hw rfl
    · rfl
    · rw [foldl_run, bufferRead_eq]
      refine List.map_congr_left fun i hi => ?_
      have hi := List.mem_range.mp hi
      have hws : ∀ w ∈ ws, w.last ≤ 0x200000 := fun w hw => hin _ (List.mem_map_of_mem hw)
      have hcell : readCell r.toNat i / 256 = r.toNat % 8192 ∧ readCell r.toNat i % 256 = i := by
        unfold readCell
        omega
      have hiff := fun x => puts_iff (c := readCell r.toNat i) (x := x) hws
      rw [hcell.1, hcell.2] at hiff
      obtain ⟨v, hv, hput⟩ := (hiff _).mpr ⟨w, hw, r.toNat, hstart, rfl, by omega, rfl⟩
      refine programs_blank hv hput fun u hu y hy => ?_
      obtain ⟨w', hw', s, hs, hsr, -, rfl⟩ := (hiff y).mp ⟨u, hu, hy⟩
      -- a program that starts in this page starts at `r`, so it belongs to the same call
      obtain rfl := halone _ (List.mem_map_of_mem hw') s hs hsr
      rw [BufferWrite.unique (List.pairwise_map.mp hapart) hw' hw hs.1 hstart.1]

end ReadsBack

/-- Two blocks in pages of their own: the second one is read back. -/
theorem read_back_two :
    ReadsBack [⟨0, 12⟩, ⟨256, 12⟩] ⟨256, 12⟩ 256 12 := by
  have hstarts : ∀ (a : UInt32), a.toNat % 256 = 0 → ∀ s, (⟨a, 12⟩ : Extent).Starts s →
      s = a.toNat := by
    rintro a ha s ⟨⟨h1, h2⟩, h3⟩
    change a.toNat ≤ s at h1
    change s < a.toNat + 12 at h2
    change s = a.toNat ∨ 256 ∣ s at h3
    omega
  refine (read_back_iff ?_ ?_ (List.mem_cons_of_mem _ List.mem_cons_self) (by decide)
    (by decide)).mpr (.inr ⟨⟨by unfold Extent.Has; decide, .inl rfl⟩, by decide, ?_⟩)
  · simp only [List.pairwise_cons, List.mem_singleton, forall_eq, List.not_mem_nil, false_imp_iff,
      implies_true, List.Pairwise.nil, and_true]
    rintro a ⟨-, h2⟩ ⟨h3, -⟩
    change a < 12 at h2
    change 256 ≤ a at h3
    omega
  · simp only [List.forall_mem_cons, List.not_mem_nil, false_imp_iff, implies_true, and_true]
    decide
  · simp only [List.forall_mem_cons, List.not_mem_nil, false_imp_iff, implies_true, and_true]
    refine ⟨fun s hs hsr => ?_, fun s hs _ => hstarts 256 rfl s hs⟩
    rw [hstarts 0 rfl s hs] at hsr
    exact absurd hsr (by decide)

/-- The second of two bytes is not read back at its own address. -/
theorem not_read_back : ∃ es : List Extent, ∃ e ∈ es, ∃ r n, es.Pairwise Extent.Apart ∧
    (∀ e ∈ es, e.last ≤ 0x200000) ∧ e.first ≤ r.toNat ∧ r.toNat + n.toNat ≤ e.last ∧
    ¬ ReadsBack es e r n := by
  refine ⟨[⟨0, 2⟩], ⟨0, 2⟩, List.mem_cons_self, 1, 1, List.pairwise_singleton _ _, ?_,
    by decide, by decide, fun h => ?_⟩
  · intro e he
    rw [List.mem_singleton.mp he]
    decide
  · have hread := h [{ writeAddr := 0, numByteToWrite := 2, pBuffer := fun _ => 0 }] rfl _
      List.mem_cons_self rfl
    exact absurd hread (by decide +kernel)

end DolphinNote
