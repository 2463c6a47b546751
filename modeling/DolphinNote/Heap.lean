/-
DolphinNote/Heap.lean

The system heap (mem.c, with `RT_USING_SMALL_MEM` and `RT_MEM_STATS`).

The heap is a row of blocks in memory, each behind a header of twelve bytes with
the offsets of the next and of the previous one.  A request takes the first
block from `lfree` on that is large enough, and splits it if the rest can hold a
block of its own; a block that is given back is joined with its neighbours.

Numbers are 32 bits wide: `rtAlign`, the sum of a count and the subtractions of
the source wrap around.  `none` is an assertion that fails, or a walk along the
blocks that does not end.
-/
import DolphinNote.KService

namespace DolphinNote

open Bytes

/-! ### Numbers and headers -/

/-- `RT_NULL` -/
def rtNull : ℕ := 0

/-- `RT_ALIGN(x, RT_ALIGN_SIZE)` -/
def rtAlign (x : ℕ) : ℕ := (x + 3) % 2 ^ 32 / 4 * 4

/-- `RT_ALIGN_DOWN(x, RT_ALIGN_SIZE)` -/
def rtAlignDown (x : ℕ) : ℕ := x / 4 * 4

/-- `a - b` -/
def sub32 (a b : ℕ) : ℕ := (a + 2 ^ 32 - b) % 2 ^ 32

/-- `HEAP_MAGIC` -/
def heapMagic : ℕ := 0x1ea0

/-- `SIZEOF_STRUCT_MEM` -/
abbrev sizeofStructMem : ℕ := 12

/-- `MIN_SIZE_ALIGNED`, and `MIN_SIZE` -/
abbrev minSizeAligned : ℕ := 12

/-- `struct heap_mem` -/
structure HeapMem where
  magic : ℕ
  used : ℕ
  next : ℕ
  prev : ℕ
  deriving DecidableEq, Repr

/-- `*mem` -/
def heapMem (m : Memory) (mem : ℕ) : HeapMem where
  magic := load 2 m mem
  used := load 2 m (mem + 2)
  next := load 4 m (mem + 4)
  prev := load 4 m (mem + 8)

/-- `mem->magic = v` -/
def setMagic (mem v : ℕ) (m : Memory) : Memory := store 2 mem v m

/-- `mem->used = v` -/
def setUsed (mem v : ℕ) (m : Memory) : Memory := store 2 (mem + 2) v m

/-- `mem->next = v` -/
def setNext (mem v : ℕ) (m : Memory) : Memory := store 4 (mem + 4) v m

/-- `mem->prev = v` -/
def setPrev (mem v : ℕ) (m : Memory) : Memory := store 4 (mem + 8) v m

/-- The variables of mem.c, and the memory. -/
structure Heap where
  heapPtr : ℕ
  memSizeAligned : ℕ
  lfree : ℕ
  usedMem : ℕ
  maxMem : ℕ
  mem : Memory

namespace Heap

/-- `heap_end` -/
def heapEnd (h : Heap) : ℕ := h.heapPtr + (h.memSizeAligned + sizeofStructMem)

/-- `*(struct heap_mem *)&heap_ptr[ptr]` -/
def block (h : Heap) (ptr : ℕ) : HeapMem := heapMem h.mem (h.heapPtr + ptr)

/-! ### `rt_system_heap_init` -/

/-- `rt_system_heap_init`; `none` is the region that is refused. -/
def rtSystemHeapInit (beginAddr endAddr : ℕ) (m : Memory) : Option Heap :=
  let beginAlign := rtAlign beginAddr
  let endAlign := rtAlignDown endAddr
  if 2 * sizeofStructMem < endAlign ∧ beginAlign ≤ endAlign - 2 * sizeofStructMem then
    let size := endAlign - beginAlign - 2 * sizeofStructMem
    let next := size + sizeofStructMem
    let m := setUsed beginAlign 0 (setPrev beginAlign 0 (setNext beginAlign next
      (setMagic beginAlign heapMagic m)))
    let heapEnd := beginAlign + next
    let m := setPrev heapEnd next (setNext heapEnd next (setUsed heapEnd 1
      (setMagic heapEnd heapMagic m)))
    some { heapPtr := beginAlign, memSizeAligned := size, lfree := beginAlign, usedMem := 0,
           maxMem := 0, mem := m }
  else none

/-! ### `plug_holes` -/

/-- `mem` and the block behind it become one. -/
def combine (mem nmem : ℕ) (h : Heap) : Heap :=
  let m := setNext mem (heapMem h.mem nmem).next h.mem
  { h with lfree := if h.lfree = nmem then mem else h.lfree,
           mem := setPrev (h.heapPtr + (heapMem m nmem).next) (mem - h.heapPtr) m }

/-- `plug hole forward` -/
def plugForward (mem : ℕ) (h : Heap) : Heap :=
  let nmem := h.heapPtr + (heapMem h.mem mem).next
  if mem ≠ nmem ∧ (heapMem h.mem nmem).used = 0 ∧ nmem ≠ h.heapEnd then combine mem nmem h
  else h

/-- `plug hole backward` -/
def plugBackward (mem : ℕ) (h : Heap) : Heap :=
  let pmem := h.heapPtr + (heapMem h.mem mem).prev
  if pmem ≠ mem ∧ (heapMem h.mem pmem).used = 0 then combine pmem mem h else h

/-- `plug_holes` -/
def plugHoles (mem : ℕ) (h : Heap) : Option Heap :=
  if h.heapPtr ≤ mem ∧ mem < h.heapEnd ∧ (heapMem h.mem mem).used = 0 then
    some (plugBackward mem (plugForward mem h))
  else none

/-! ### `rt_malloc` -/

/-- `mem2` is created behind the first `size` bytes of a block, and linked to it. -/
def insertMem2 (ptr ptr2 : ℕ) (h : Heap) : Memory :=
  let mem2 := h.heapPtr + ptr2
  let m := setUsed mem2 0 (setMagic mem2 heapMagic h.mem)
  let m := setPrev mem2 ptr (setNext mem2 (heapMem m (h.heapPtr + ptr)).next m)
  setNext (h.heapPtr + ptr) ptr2 m

/-- The block behind `mem2` points back to it. -/
def linkMem2 (ptr2 : ℕ) (h : Heap) : Memory :=
  let next := (h.block ptr2).next
  if next ≠ h.memSizeAligned + sizeofStructMem then setPrev (h.heapPtr + next) ptr2 h.mem
  else h.mem

/-- `used_mem += n`, and `max_mem`. -/
def countUsed (n : ℕ) (h : Heap) : Heap :=
  let used := (h.usedMem + n) % 2 ^ 32
  { h with usedMem := used, maxMem := if h.maxMem < used then used else h.maxMem }

/-- A block is split, or taken as it is. -/
def take (size ptr : ℕ) (h : Heap) : Heap :=
  let mem := h.heapPtr + ptr
  if size + sizeofStructMem + minSizeAligned ≤
      sub32 (h.block ptr).next (ptr + sizeofStructMem) then
    let ptr2 := ptr + sizeofStructMem + size
    let h := { h with mem := setUsed mem 1 (insertMem2 ptr ptr2 h) }
    countUsed (size + sizeofStructMem) { h with mem := linkMem2 ptr2 h }
  else
    let h := { h with mem := setUsed mem 1 h.mem }
    countUsed (sub32 (h.block ptr).next ptr) h

/-- `while (lfree->used && lfree != heap_end)` -/
def raise : ℕ → Heap → Option Heap
  | 0, _ => none
  | fuel + 1, h =>
      if (heapMem h.mem h.lfree).used ≠ 0 ∧ h.lfree ≠ h.heapEnd then
        raise fuel { h with lfree := h.heapPtr + (heapMem h.mem h.lfree).next }
      else some h

/-- There are no more blocks than bytes. -/
def fuel (h : Heap) : ℕ := h.memSizeAligned + sizeofStructMem + 1

/-- What the loop of `rt_malloc` does with the block it has found. -/
def rtMallocTake (size ptr : ℕ) (h : Heap) : Option (ℕ × Heap) :=
  let mem := h.heapPtr + ptr
  let h := take size ptr h
  let h := { h with mem := setMagic mem heapMagic h.mem }
  (if mem = h.lfree then raise h.fuel h else some h).bind fun h =>
    if mem + sizeofStructMem + size ≤ h.heapEnd ∧ (mem + sizeofStructMem) % 4 = 0 ∧
        mem % 4 = 0 then
      some (mem + sizeofStructMem, h)
    else none

/-- The loop of `rt_malloc`. -/
def rtMallocLoop (size : ℕ) : ℕ → ℕ → Heap → Option (ℕ × Heap)
  | 0, _, _ => none
  | n + 1, ptr, h =>
      if ptr < sub32 h.memSizeAligned size then
        if (h.block ptr).used = 0 ∧ size ≤ sub32 (h.block ptr).next (ptr + sizeofStructMem) then
          rtMallocTake size ptr h
        else rtMallocLoop size n (h.block ptr).next h
      else some (rtNull, h)

/-- `rt_malloc` -/
def rtMalloc (size : ℕ) (h : Heap) : Option (ℕ × Heap) :=
  if size = 0 then some (rtNull, h)
  else
    let size := rtAlign size
    if h.memSizeAligned < size then some (rtNull, h)
    else
      -- every data block must be at least MIN_SIZE_ALIGNED long
      let size := if size < minSizeAligned then minSizeAligned else size
      rtMallocLoop size h.fuel (sub32 h.lfree h.heapPtr) h

/-! ### `rt_free`, `rt_realloc` and `rt_calloc` -/

/-- `rt_free` -/
def rtFree (rmem : ℕ) (h : Heap) : Option Heap :=
  if rmem = rtNull then some h
  else if rmem % 4 = 0 ∧ h.heapPtr ≤ rmem ∧ rmem < h.heapEnd then
    let mem := rmem - sizeofStructMem
    if (heapMem h.mem mem).used ≠ 0 ∧ (heapMem h.mem mem).magic = heapMagic then
      let m := setMagic mem heapMagic (setUsed mem 0 h.mem)
      plugHoles mem
        { h with lfree := if mem < h.lfree then mem else h.lfree,
                 usedMem := sub32 h.usedMem (sub32 (heapMem m mem).next (sub32 mem h.heapPtr)),
                 mem := m }
    else none
  else none

/-- `rt_realloc` -/
def rtRealloc (rmem newsize : ℕ) (h : Heap) : Option (ℕ × Heap) :=
  let newsize := rtAlign newsize
  if h.memSizeAligned < newsize then some (rtNull, h)
  else if rmem = rtNull then rtMalloc newsize h
  else if rmem < h.heapPtr ∨ h.heapEnd ≤ rmem then some (rmem, h)
  else
    let mem := rmem - sizeofStructMem
    let ptr := sub32 mem h.heapPtr
    let size := sub32 (sub32 (heapMem h.mem mem).next ptr) sizeofStructMem
    if size = newsize then some (rmem, h)
    else if newsize + sizeofStructMem + minSizeAligned < size then
      let ptr2 := ptr + sizeofStructMem + newsize
      let h := { h with usedMem := sub32 h.usedMem (size - newsize), mem := insertMem2 ptr ptr2 h }
      -- `lfree` stays, also where the new block is below it
      (plugHoles (h.heapPtr + ptr2) { h with mem := linkMem2 ptr2 h }).map fun h => (rmem, h)
    else
      (rtMalloc newsize h).bind fun (nmem, h) =>
        if nmem = rtNull then some (nmem, h)
        else
          (rtFree rmem { h with
            mem := rtMemcpy nmem rmem (if size < newsize then size else newsize) h.mem }).map
              fun h => (nmem, h)

/-- `rt_calloc` -/
def rtCalloc (count size : ℕ) (h : Heap) : Option (ℕ × Heap) :=
  let size := count * size % 2 ^ 32
  (rtMalloc size h).map fun (p, h) =>
    if p = rtNull then (p, h) else (p, { h with mem := rtMemset p 0 size h.mem })

end Heap

end DolphinNote
