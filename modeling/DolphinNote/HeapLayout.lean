/-
DolphinNote/HeapLayout.lean

The blocks of the heap, and what the functions of mem.c make of them.

`Lays h l` reads the memory of `h` as the row of blocks `l`: the headers are
where the blocks begin, each with the offsets of its neighbours, and the blocks
fill the heap up to `heap_end`.  The functions exchange a few blocks for others
of the same length (`Lays.exchange`), and what they change in memory are
headers.
-/
import DolphinNote.Heap
import DolphinNote.Rows

namespace DolphinNote

open Bytes Rows

/-! ### Headers -/

section Headers

variable {m m' : Memory} {a b v i : ℕ}

theorem sub32_of_le (h : b ≤ a) (ha : a < 2 ^ 32) : sub32 a b = a - b := by
  unfold sub32
  omega

theorem rtAlign_dvd (x : ℕ) : 4 ∣ rtAlign x := Nat.dvd_mul_left 4 _

theorem heapMem_congr (h : ∀ i, a ≤ i → i < a + 12 → m' i = m i) : heapMem m' a = heapMem m a := by
  unfold heapMem
  rw [load_congr (n := 2) (a := a) fun i _ _ => h i (by omega) (by omega),
    load_congr (n := 2) (a := a + 2) fun i _ _ => h i (by omega) (by omega),
    load_congr (n := 4) (a := a + 4) fun i _ _ => h i (by omega) (by omega),
    load_congr (n := 4) (a := a + 8) fun i _ _ => h i (by omega) (by omega)]

theorem next_lt (m : Memory) (a : ℕ) : (heapMem m a).next < 2 ^ 32 := load_lt 4 m (a + 4)

theorem heapMem_setMagic (h : v < 256 ^ 2) :
    heapMem (setMagic a v m) a = { heapMem m a with magic := v } := by
  unfold setMagic heapMem
  rw [load_store, load_store_of_apart (by omega), load_store_of_apart (by omega),
    load_store_of_apart (by omega), Nat.mod_eq_of_lt h]

theorem heapMem_setUsed (h : v < 256 ^ 2) :
    heapMem (setUsed a v m) a = { heapMem m a with used := v } := by
  unfold setUsed heapMem
  rw [load_store, load_store_of_apart (by omega), load_store_of_apart (by omega),
    load_store_of_apart (by omega), Nat.mod_eq_of_lt h]

theorem heapMem_setNext (h : v < 256 ^ 4) :
    heapMem (setNext a v m) a = { heapMem m a with next := v } := by
  unfold setNext heapMem
  rw [load_store, load_store_of_apart (by omega), load_store_of_apart (by omega),
    load_store_of_apart (by omega), Nat.mod_eq_of_lt h]

theorem heapMem_setPrev (h : v < 256 ^ 4) :
    heapMem (setPrev a v m) a = { heapMem m a with prev := v } := by
  unfold setPrev heapMem
  rw [load_store, load_store_of_apart (by omega), load_store_of_apart (by omega),
    load_store_of_apart (by omega), Nat.mod_eq_of_lt h]

theorem setMagic_of_apart (h : i < a ∨ a + 12 ≤ i) : setMagic a v m i = m i :=
  store_of_apart (by omega)

theorem setUsed_of_apart (h : i < a ∨ a + 12 ≤ i) : setUsed a v m i = m i :=
  store_of_apart (by omega)

theorem setNext_of_apart (h : i < a ∨ a + 12 ≤ i) : setNext a v m i = m i :=
  store_of_apart (by omega)

theorem setPrev_of_apart (h : i < a ∨ a + 12 ≤ i) : setPrev a v m i = m i :=
  store_of_apart (by omega)

/-- A header apart from the one that is written. -/
theorem heapMem_of_apart {f : Memory → Memory} (hf : ∀ i, i < a ∨ a + 12 ≤ i → f m i = m i)
    (h : b + 12 ≤ a ∨ a + 12 ≤ b) : heapMem (f m) b = heapMem m b :=
  heapMem_congr fun i _ _ => hf i (by omega)

end Headers

/-! ### Blocks -/

/-- The bytes behind a header, and whether they are in use. -/
structure Block where
  size : ℕ
  used : Bool
  deriving DecidableEq, Repr

/-- The header included. -/
def Block.span (b : Block) : ℕ := 12 + b.size

/-- The header of a block at `ptr`. -/
def Block.header (b : Block) (prev ptr : ℕ) : HeapMem where
  magic := heapMagic
  used := if b.used then 1 else 0
  next := ptr + b.span
  prev := prev

namespace Heap

/-- The memory holds the blocks. -/
structure Lays (h : Heap) (l : List Block) : Prop where
  row : Row Block.span (fun prev ptr b => h.block ptr = b.header prev ptr) 0 0 l
  extent : stop Block.span 0 l = h.memSizeAligned + 12
  last : (h.block (h.memSizeAligned + 12)).used ≠ 0
  dvd : ∀ b ∈ l, 4 ∣ b.size
  align : 4 ∣ h.heapPtr
  bound : h.heapPtr + h.memSizeAligned + 24 ≤ 2 ^ 32

variable {h h' : Heap} {l l₁ l₂ old new : List Block} {b c : Block} {x y ptr size : ℕ}

theorem Lays.le (H : h.Lays l) (hb : At Block.span 0 l x b) : x + b.size ≤ h.memSizeAligned := by
  have hbounds := hb.bounds
  rw [H.extent] at hbounds
  unfold Block.span at hbounds
  omega

theorem Lays.header (H : h.Lays l) (hb : At Block.span 0 l x b) :
    ∃ prev, h.block x = b.header prev x :=
  H.row.at hb

theorem Lays.used_iff (H : h.Lays l) (hb : At Block.span 0 l x b) :
    (h.block x).used = 0 ↔ b.used = false := by
  obtain ⟨prev, hx⟩ := H.header hb
  rw [hx]
  unfold Block.header
  rcases b.used with - | -
  · exact iff_of_true rfl rfl
  · exact iff_of_false Nat.one_ne_zero (Bool.noConfusion)

theorem Lays.next (H : h.Lays l) (hb : At Block.span 0 l x b) : (h.block x).next = x + b.span := by
  obtain ⟨prev, hx⟩ := H.header hb
  rw [hx]
  rfl

theorem Lays.magic (H : h.Lays l) (hb : At Block.span 0 l x b) : (h.block x).magic = heapMagic := by
  obtain ⟨prev, hx⟩ := H.header hb
  rw [hx]
  rfl

theorem dvd_stop (hl : ∀ b ∈ l, 4 ∣ b.size) (hx : 4 ∣ x) : 4 ∣ stop Block.span x l := by
  induction l generalizing x with
  | nil => exact hx
  | cons b l ih =>
      rw [stop_cons]
      refine ih (fun c hc => hl c (List.mem_cons_of_mem _ hc)) ?_
      have hb := hl b List.mem_cons_self
      unfold Block.span
      omega

/-- Blocks are aligned. -/
theorem Lays.dvd_at (H : h.Lays l) (hb : At Block.span 0 l x b) : 4 ∣ x := by
  obtain ⟨l₁, l₂, rfl, rfl⟩ := hb
  exact dvd_stop (fun c hc => H.dvd c (List.mem_append_left _ hc)) (Nat.dvd_zero 4)

/-- The bytes of a block, without its header. -/
def Payload (h : Heap) (x : ℕ) (b : Block) (i : ℕ) : Prop :=
  h.heapPtr + x + 12 ≤ i ∧ i < h.heapPtr + x + b.span

/-- **Exchange.**  Blocks of the same length take the place of others; of the rest of the
memory only the link back to them changes. -/
theorem Lays.exchange (H : h.Lays (l₁ ++ old ++ l₂)) (hptr : h'.heapPtr = h.heapPtr)
    (hsize : h'.memSizeAligned = h.memSizeAligned)
    (hstop : stop Block.span (stop Block.span 0 l₁) new =
      stop Block.span (stop Block.span 0 l₁) old)
    (hnew : Row Block.span (fun prev ptr b => h'.block ptr = b.header prev ptr)
      (final Block.span 0 0 l₁) (stop Block.span 0 l₁) new)
    (hdvd : ∀ b ∈ new, 4 ∣ b.size)
    (hlow : ∀ i < h.heapPtr + stop Block.span 0 l₁, h'.mem i = h.mem i)
    (hhigh : ∀ i, h.heapPtr + stop Block.span (stop Block.span 0 l₁) old + 12 ≤ i →
      h'.mem i = h.mem i)
    {q : ℕ} (hlink : h'.block (stop Block.span (stop Block.span 0 l₁) old) =
      { h.block (stop Block.span (stop Block.span 0 l₁) old) with prev := q })
    (hq : l₂ ≠ [] → q = final Block.span (final Block.span 0 0 l₁) (stop Block.span 0 l₁) new) :
    h'.Lays (l₁ ++ new ++ l₂) := by
  have hrow := row_append.mp H.row
  have hrow₁ := row_append.mp hrow.1
  have hend : stop Block.span (stop Block.span (stop Block.span 0 l₁) old) l₂ =
      h.memSizeAligned + 12 := by
    rw [← H.extent, stop_append, stop_append]
  refine ⟨row_append.mpr ⟨row_append.mpr ⟨hrow₁.1.imp fun p x b hb hx => ?_, hnew⟩, ?_⟩, ?_, ?_,
    fun b hb => ?_, hptr ▸ H.align, ?_⟩
  · -- in front of them nothing changes
    have hle := hb.bounds.2
    rw [← hx]
    unfold block
    rw [hptr]
    refine heapMem_congr fun i _ _ => hlow i ?_
    have hspan : b.span = 12 + b.size := rfl
    omega
  · rw [final_append, stop_append, hstop]
    rcases l₂ with - | ⟨b, l₂⟩
    · trivial
    · have hrow₂ := hrow.2
      rw [final_append, stop_append, row_cons] at hrow₂
      refine ⟨?_, hrow₂.2.imp fun p x c hc hx => ?_⟩
      · show h'.block (stop Block.span (stop Block.span 0 l₁) old) = _
        rw [hlink, hrow₂.1, hq (List.cons_ne_nil _ _)]
        rfl
      · have hle := hc.bounds.1
        have hspan : b.span = 12 + b.size := rfl
        rw [← hx]
        unfold block
        rw [hptr]
        refine heapMem_congr fun i _ _ => hhigh i ?_
        omega
  · rw [stop_append, stop_append, hstop, hend, hsize]
  · rw [hsize]
    rcases l₂ with - | ⟨b, l₂⟩
    · rw [stop_nil] at hend
      rw [← hend, hlink, hend]
      exact H.last
    · -- the end is behind the block that is linked
      have hle : stop Block.span (stop Block.span 0 l₁) old + 12 ≤ h.memSizeAligned + 12 := by
        rw [← hend, stop_cons]
        have hspan : b.span = 12 + b.size := rfl
        have hle := le_stop (w := Block.span) (stop Block.span (stop Block.span 0 l₁) old + b.span) l₂
        omega
      have hsame : h'.block (h.memSizeAligned + 12) = h.block (h.memSizeAligned + 12) := by
        unfold block
        rw [hptr]
        exact heapMem_congr fun i _ _ => hhigh i (by omega)
      rw [hsame]
      exact H.last
  · rcases List.mem_append.mp hb with hb | hb
    · rcases List.mem_append.mp hb with hb | hb
      · exact H.dvd b (List.mem_append_left _ (List.mem_append_left _ hb))
      · exact hdvd b hb
    · exact H.dvd b (List.mem_append_right _ hb)
  · rw [hptr, hsize]
    exact H.bound

/-- The layout is a matter of the memory. -/
theorem Lays.congr (H : h.Lays l) (hptr : h'.heapPtr = h.heapPtr)
    (hsize : h'.memSizeAligned = h.memSizeAligned) (hmem : h'.mem = h.mem) : h'.Lays l := by
  have hblock : ∀ x, h'.block x = h.block x := by
    intro x
    unfold block
    rw [hptr, hmem]
  refine ⟨H.row.imp fun p x b _ hx => (hblock x).trans hx, hsize ▸ H.extent, ?_, H.dvd,
    hptr ▸ H.align, by rw [hptr, hsize]; exact H.bound⟩
  rw [hblock, hsize]
  exact H.last

/-! ### Frames -/

/-- Only headers change, and only the one of `heap_end` besides those of the blocks. -/
def Frame (l : List Block) (h h' : Heap) : Prop :=
  ∀ i, (∀ x b, At Block.span 0 l x b → i < h.heapPtr + x ∨ h.heapPtr + x + 12 ≤ i) →
    (i < h.heapEnd ∨ h.heapEnd + 12 ≤ i) → h'.mem i = h.mem i

theorem Frame.congr {h'' : Heap} (hf : Frame l h h') (hmem : h''.mem = h'.mem) :
    Frame l h h'' := by
  intro i hi hend
  rw [hmem]
  exact hf i hi hend

theorem Frame.refl (l : List Block) (h : Heap) : Frame l h h := fun _ _ _ => rfl

theorem Frame.trans {h'' : Heap} (hf : Frame l h h') (hf' : Frame l h' h'')
    (hptr : h'.heapPtr = h.heapPtr) (hsize : h'.memSizeAligned = h.memSizeAligned) :
    Frame l h h'' := by
  intro i hi hend
  rw [← hf i hi hend]
  refine hf' i ?_ ?_
  · rw [hptr]
    exact hi
  · unfold heapEnd
    rw [hptr, hsize]
    exact hend

/-- Fewer headers are fewer changes. -/
theorem Frame.mono (hf : Frame l₂ h h')
    (hsub : ∀ x b, At Block.span 0 l₂ x b → ∃ b', At Block.span 0 l₁ x b') : Frame l₁ h h' := by
  intro i hi hend
  refine hf i (fun x b hb => ?_) hend
  obtain ⟨b', hb'⟩ := hsub x b hb
  exact hi x b' hb'

/-- The bytes of a block stay. -/
theorem Frame.payload {i : ℕ} (hf : Frame l h h') (hb : At Block.span 0 l x b)
    (hle : x + b.size ≤ h.memSizeAligned) (hi : h.Payload x b i) : h'.mem i = h.mem i := by
  obtain ⟨hlow, hhigh⟩ := hi
  have hspan : b.span = 12 + b.size := rfl
  refine hf i (fun y c hc => ?_) (.inl ?_)
  · have hc12 : c.span = 12 + c.size := rfl
    rcases hb.apart hc with ⟨rfl, -⟩ | hlt | hlt
    · exact .inr hlow
    · exact .inl (by omega)
    · exact .inr (by omega)
  · show i < h.heapPtr + (h.memSizeAligned + 12)
    omega

/-! ### Splitting a block -/

theorem insertMem2_of_apart {ptr2 i : ℕ}
    (h₁ : i < h.heapPtr + ptr ∨ h.heapPtr + ptr + 12 ≤ i)
    (h₂ : i < h.heapPtr + ptr2 ∨ h.heapPtr + ptr2 + 12 ≤ i) :
    insertMem2 ptr ptr2 h i = h.mem i := by
  unfold insertMem2
  rw [setNext_of_apart h₁, setPrev_of_apart h₂, setNext_of_apart h₂, setUsed_of_apart h₂,
    setMagic_of_apart h₂]

/-- The two headers behind the split. -/
theorem heapMem_insertMem2 {ptr2 : ℕ} (hle : ptr + 12 ≤ ptr2) (hlt : ptr2 < 2 ^ 32) :
    heapMem (insertMem2 ptr ptr2 h) (h.heapPtr + ptr) = { h.block ptr with next := ptr2 } ∧
      heapMem (insertMem2 ptr ptr2 h) (h.heapPtr + ptr2) =
        { magic := heapMagic, used := 0, next := (h.block ptr).next, prev := ptr } := by
  have hap : h.heapPtr + ptr + 12 ≤ h.heapPtr + ptr2 := by omega
  let m₁ := setUsed (h.heapPtr + ptr2) 0 (setMagic (h.heapPtr + ptr2) heapMagic h.mem)
  let m₂ := setPrev (h.heapPtr + ptr2) ptr (setNext (h.heapPtr + ptr2) (h.block ptr).next m₁)
  have hm₁ : heapMem m₁ (h.heapPtr + ptr) = h.block ptr :=
    heapMem_congr fun i _ _ => by
      show setUsed _ _ (setMagic _ _ h.mem) i = _
      rw [setUsed_of_apart (by omega), setMagic_of_apart (by omega)]
  have hm : insertMem2 ptr ptr2 h = setNext (h.heapPtr + ptr) ptr2 m₂ := by
    unfold insertMem2
    dsimp only
    rw [hm₁]
  have hm₂ : heapMem m₂ (h.heapPtr + ptr) = h.block ptr := by
    rw [← hm₁]
    refine heapMem_congr fun i _ _ => ?_
    show setPrev _ _ (setNext _ _ m₁) i = _
    rw [setPrev_of_apart (by omega), setNext_of_apart (by omega)]
  have hlt' : ptr2 < 256 ^ 4 := hlt
  have hnext : (h.block ptr).next < 256 ^ 4 := next_lt _ _
  rw [hm]
  constructor
  · rw [heapMem_setNext hlt', hm₂]
  · rw [heapMem_of_apart (fun i hi => setNext_of_apart hi) (.inr hap),
      heapMem_setPrev (by omega), heapMem_setNext hnext, heapMem_setUsed (by decide),
      heapMem_setMagic (by decide)]

/-- Linking reads the memory, and nothing that is counted. -/
theorem linkMem2_congr (hptr : h'.heapPtr = h.heapPtr)
    (hsize : h'.memSizeAligned = h.memSizeAligned) (hmem : h'.mem = h.mem) (ptr2 : ℕ) :
    linkMem2 ptr2 h' = linkMem2 ptr2 h := by
  unfold linkMem2 block
  rw [hptr, hsize, hmem]

/-- Behind `mem2` is linked what was behind the block. -/
theorem linkMem2_of_apart {ptr2 i : ℕ}
    (hi : i < h.heapPtr + (h.block ptr2).next ∨ h.heapPtr + (h.block ptr2).next + 12 ≤ i) :
    linkMem2 ptr2 h i = h.mem i := by
  unfold linkMem2
  split_ifs
  · exact setPrev_of_apart hi
  · rfl

/-- **A block is split.**  `m` is the memory with the two headers. -/
theorem Lays.split {m : Memory} {used : Bool} (H : h.Lays (l₁ ++ [b] ++ l₂)) (hdvd : 4 ∣ size)
    (hle : size + 12 ≤ b.size)
    (hfst : heapMem m (h.heapPtr + stop Block.span 0 l₁) =
      Block.header ⟨size, used⟩ (final Block.span 0 0 l₁) (stop Block.span 0 l₁))
    (hsnd : heapMem m (h.heapPtr + (stop Block.span 0 l₁ + 12 + size)) =
      Block.header ⟨b.size - size - 12, false⟩ (stop Block.span 0 l₁)
        (stop Block.span 0 l₁ + 12 + size))
    (hm : ∀ i, (i < h.heapPtr + stop Block.span 0 l₁ ∨ h.heapPtr + stop Block.span 0 l₁ + 12 ≤ i) →
      (i < h.heapPtr + (stop Block.span 0 l₁ + 12 + size) ∨
        h.heapPtr + (stop Block.span 0 l₁ + 12 + size) + 12 ≤ i) → m i = h.mem i) :
    let h' := { h with mem := linkMem2 (stop Block.span 0 l₁ + 12 + size) { h with mem := m } }
    h'.Lays (l₁ ++ [⟨size, used⟩, ⟨b.size - size - 12, false⟩] ++ l₂) ∧
      Frame (l₁ ++ [⟨size, used⟩, ⟨b.size - size - 12, false⟩] ++ l₂) h h' := by
  intro h'
  obtain ⟨ptr, hptr⟩ : ∃ ptr, ptr = stop Block.span 0 l₁ := ⟨_, rfl⟩
  have hb : At Block.span 0 (l₁ ++ [b] ++ l₂) ptr b :=
    at_append.mpr (.inl (at_append.mpr (.inr (at_cons.mpr (.inl ⟨hptr, rfl⟩)))))
  have hle' := H.le hb
  have hbound := H.bound
  rw [← hptr] at hfst hsnd hm
  have hspan : b.span = 12 + b.size := rfl
  have hspan₁ : (⟨size, used⟩ : Block).span = 12 + size := rfl
  have hspan₂ : (⟨b.size - size - 12, false⟩ : Block).span = 12 + (b.size - size - 12) := rfl
  -- where the block ends
  have hend : stop Block.span ptr [b] = ptr + 12 + b.size := by
    rw [stop_cons, stop_nil, hspan, Nat.add_assoc]
  have hnew : stop Block.span ptr [⟨size, used⟩, ⟨b.size - size - 12, false⟩] =
      stop Block.span ptr [b] := by
    rw [stop_cons, stop_cons, stop_nil, hend, hspan₁, hspan₂]
    omega
  have hnext : (({ h with mem := m } : Heap).block (ptr + 12 + size)).next = ptr + 12 + b.size := by
    show (heapMem m _).next = _
    rw [hsnd]
    show ptr + 12 + size + (12 + (b.size - size - 12)) = _
    omega
  have hmem : ∀ i, (i < h.heapPtr + (ptr + 12 + b.size) ∨
      h.heapPtr + (ptr + 12 + b.size) + 12 ≤ i) → h'.mem i = m i := by
    intro i hi
    show linkMem2 _ _ i = m i
    rw [← hptr]
    refine linkMem2_of_apart ?_
    rw [hnext]
    exact hi
  have hbase : h'.heapPtr = h.heapPtr := rfl
  have hfst' : h'.block ptr = heapMem m (h.heapPtr + ptr) :=
    heapMem_congr fun i _ _ => hmem i (by omega)
  have hsnd' : h'.block (ptr + 12 + size) = heapMem m (h.heapPtr + (ptr + 12 + size)) :=
    heapMem_congr fun i _ _ => hmem i (by omega)
  have hold : heapMem m (h.heapPtr + (ptr + 12 + b.size)) = h.block (ptr + 12 + b.size) :=
    heapMem_congr fun i _ _ => hm i (by omega) (by omega)
  constructor
  · refine Lays.exchange H rfl rfl ?_ ?_ (fun c hc => ?_) (fun i hi => ?_) (fun i hi => ?_)
      (q := if ptr + 12 + b.size ≠ h.memSizeAligned + 12 then ptr + 12 + size
        else (h.block (ptr + 12 + b.size)).prev) ?_ (fun hne => ?_)
    · rw [← hptr, hnew]
    · rw [← hptr]
      refine ⟨?_, ?_, trivial⟩
      · show h'.block ptr = _
        rw [hfst', hfst]
      · show h'.block (ptr + (⟨size, used⟩ : Block).span) = _
        rw [hspan₁, ← Nat.add_assoc, hsnd', hsnd]
    · have hdvd₂ := H.dvd b (List.mem_append_left _ (List.mem_append_right _ List.mem_cons_self))
      rcases List.mem_cons.mp hc with rfl | hc
      · exact hdvd
      · obtain rfl := List.mem_singleton.mp hc
        show 4 ∣ b.size - size - 12
        omega
    · rw [← hptr] at hi
      rw [hmem i (by omega), hm i (by omega) (by omega)]
    · rw [← hptr, hend] at hi
      rw [hmem i (by omega), hm i (by omega) (by omega)]
    · rw [← hptr, hend]
      show heapMem (linkMem2 _ _) _ = _
      rw [← hptr]
      unfold linkMem2
      dsimp only
      rw [hnext]
      split_ifs
      · rw [heapMem_setPrev (by omega), hold]
      · exact hold
    · rw [← hptr]
      have hlt : ptr + 12 + b.size < h.memSizeAligned + 12 := by
        obtain ⟨c, l, rfl⟩ := List.exists_cons_of_ne_nil hne
        have hextent := H.extent
        rw [stop_append, stop_append, ← hptr, hend, stop_cons] at hextent
        have hle₂ := le_stop (w := Block.span) (ptr + 12 + b.size + c.span) l
        have hc12 : c.span = 12 + c.size := rfl
        omega
      rw [if_pos hlt.ne]
      show ptr + 12 + size = ptr + (12 + size)
      rw [Nat.add_assoc]
  · intro i hi hiend
    have hiend' : i < h.heapPtr + (h.memSizeAligned + 12) ∨
      h.heapPtr + (h.memSizeAligned + 12) + 12 ≤ i := hiend
    have h₁ := hi ptr ⟨size, used⟩
      (at_append.mpr (.inl (at_append.mpr (.inr (at_cons.mpr (.inl ⟨hptr, rfl⟩))))))
    have h₂ := hi (ptr + 12 + size) ⟨b.size - size - 12, false⟩
      (at_append.mpr (.inl (at_append.mpr (.inr (at_cons.mpr (.inr
        (at_cons.mpr (.inl ⟨by rw [← hptr, hspan₁, Nat.add_assoc], rfl⟩))))))))
    have h₃ : i < h.heapPtr + (ptr + 12 + b.size) ∨ h.heapPtr + (ptr + 12 + b.size) + 12 ≤ i := by
      rcases l₂ with - | ⟨c, l₂⟩
      · have hextent := H.extent
        rw [List.append_nil, stop_append, ← hptr, hend] at hextent
        rw [hextent]
        exact hiend'
      · refine hi (ptr + 12 + b.size) c (at_append.mpr (.inr (at_cons.mpr (.inl ⟨?_, rfl⟩))))
        rw [stop_append, ← hptr, hnew, hend]
    rw [hmem i h₃, hm i h₁ h₂]

/-! ### Joining two blocks, and marking one -/

/-- **Two blocks become one.** -/
theorem Lays.combine (H : h.Lays (l₁ ++ [b, c] ++ l₂)) (hx : stop Block.span 0 l₁ = x)
    (hy : x + b.span = y) :
    (h.combine (h.heapPtr + x) (h.heapPtr + y)).Lays
        (l₁ ++ [⟨b.size + 12 + c.size, b.used⟩] ++ l₂) ∧
      Frame (l₁ ++ [b, c] ++ l₂) h (h.combine (h.heapPtr + x) (h.heapPtr + y)) := by
  have hb : At Block.span 0 (l₁ ++ [b, c] ++ l₂) x b :=
    at_append.mpr (.inl (at_append.mpr (.inr (at_cons.mpr (.inl ⟨hx.symm, rfl⟩)))))
  have hc : At Block.span 0 (l₁ ++ [b, c] ++ l₂) y c := by
    refine at_append.mpr (.inl (at_append.mpr (.inr (at_cons.mpr (.inr ?_)))))
    rw [hx, hy]
    exact at_cons.mpr (.inl ⟨rfl, rfl⟩)
  have hspanb : b.span = 12 + b.size := rfl
  have hspanc : c.span = 12 + c.size := rfl
  have hle := H.le hc
  have hbound := H.bound
  have hrow := (row_append.mp (row_append.mp H.row).1).2
  rw [hx] at hrow
  have hheader : h.block x = b.header (final Block.span 0 0 l₁) x := hrow.1
  have hnext : (h.block y).next = y + c.span := H.next hc
  obtain ⟨m, hm⟩ : ∃ m, m = setNext (h.heapPtr + x) (y + c.span) h.mem := ⟨_, rfl⟩
  have hnext' : (heapMem m (h.heapPtr + y)).next = y + c.span := by
    rw [← hnext, hm]
    refine congrArg HeapMem.next (heapMem_of_apart (fun i hi => setNext_of_apart hi) ?_)
    omega
  obtain ⟨h', hh'⟩ : ∃ h', h' = h.combine (h.heapPtr + x) (h.heapPtr + y) := ⟨_, rfl⟩
  have hmem' : h'.mem = setPrev (h.heapPtr + (y + c.span)) x m := by
    rw [hh']
    show setPrev (h.heapPtr + (heapMem (setNext _ (heapMem h.mem (h.heapPtr + y)).next _) _).next)
      (h.heapPtr + x - h.heapPtr) _ = _
    rw [show (heapMem h.mem (h.heapPtr + y)).next = y + c.span from hnext, ← hm, hnext',
      Nat.add_sub_cancel_left]
  have hbase : h'.heapPtr = h.heapPtr := by
    rw [hh']
    rfl
  have hsize : h'.memSizeAligned = h.memSizeAligned := by
    rw [hh']
    rfl
  rw [← hh']
  have hapart : ∀ i, (i < h.heapPtr + x ∨ h.heapPtr + x + 12 ≤ i) →
      (i < h.heapPtr + (y + c.span) ∨ h.heapPtr + (y + c.span) + 12 ≤ i) →
      h'.mem i = h.mem i := by
    intro i h₁ h₂
    rw [hmem', setPrev_of_apart h₂, hm, setNext_of_apart h₁]
  have hold : stop Block.span x [b, c] = y + c.span := by
    rw [stop_cons, stop_cons, stop_nil, hy]
  have hspan : (⟨b.size + 12 + c.size, b.used⟩ : Block).span = 12 + (b.size + 12 + c.size) := rfl
  constructor
  · refine Lays.exchange H hbase hsize ?_ ?_ (fun d hd => ?_) (fun i hi => ?_) (fun i hi => ?_)
      (q := x) ?_ (fun _ => ?_)
    · rw [hx, hold, stop_cons, stop_nil, hspan]
      omega
    · rw [hx]
      refine ⟨?_, trivial⟩
      have hfirst : h'.block x = heapMem m (h.heapPtr + x) := by
        unfold block
        rw [hbase, hmem']
        exact heapMem_of_apart (fun i hi => setPrev_of_apart hi) (by omega)
      have hlt : y + c.span < 256 ^ 4 := by omega
      have hsame : heapMem h.mem (h.heapPtr + x) = b.header (final Block.span 0 0 l₁) x := hheader
      show h'.block x = _
      rw [hfirst, hm, heapMem_setNext hlt, hsame]
      unfold Block.header
      dsimp only
      rw [hspan]
      congr 1
      omega
    · obtain rfl := List.mem_singleton.mp hd
      have hdb := H.dvd b hb.mem
      have hdc := H.dvd c hc.mem
      show 4 ∣ b.size + 12 + c.size
      omega
    · rw [hx] at hi
      exact hapart i (by omega) (by omega)
    · rw [hx, hold] at hi
      exact hapart i (by omega) (by omega)
    · rw [hx, hold]
      have hlt : x < 256 ^ 4 := by omega
      unfold block
      rw [hbase, hmem', heapMem_setPrev hlt, hm,
        heapMem_of_apart (fun i hi => setNext_of_apart hi) (by omega)]
    · rw [hx]
      rfl
  · intro i hi hend
    refine hapart i (hi x b hb) ?_
    rcases l₂ with - | ⟨d, l₂⟩
    · have hextent := H.extent
      rw [List.append_nil, stop_append, hx, hold] at hextent
      rw [hextent]
      exact hend
    · refine hi _ d (at_append.mpr (.inr (at_cons.mpr (.inl ⟨?_, rfl⟩))))
      rw [stop_append, hx, hold]

/-- **A block is marked.** -/
theorem Lays.mark (H : h.Lays (l₁ ++ [b] ++ l₂)) (hx : stop Block.span 0 l₁ = x) (used : Bool) :
    let h' := { h with mem := setUsed (h.heapPtr + x) (if used then 1 else 0) h.mem }
    h'.Lays (l₁ ++ [⟨b.size, used⟩] ++ l₂) ∧ Frame (l₁ ++ [b] ++ l₂) h h' := by
  intro h'
  have hb : At Block.span 0 (l₁ ++ [b] ++ l₂) x b :=
    at_append.mpr (.inl (at_append.mpr (.inr (at_cons.mpr (.inl ⟨hx.symm, rfl⟩)))))
  have hbase : h'.heapPtr = h.heapPtr := rfl
  have hspan : b.span = 12 + b.size := rfl
  have hrow := (row_append.mp (row_append.mp H.row).1).2
  rw [hx] at hrow
  have hheader : heapMem h.mem (h.heapPtr + x) = b.header (final Block.span 0 0 l₁) x := hrow.1
  have hflag : (if used then 1 else 0) < 256 ^ 2 := by
    split_ifs
    · decide
    · decide
  have hapart : ∀ i, (i < h.heapPtr + x ∨ h.heapPtr + x + 12 ≤ i) → h'.mem i = h.mem i :=
    fun i hi => setUsed_of_apart hi
  constructor
  · refine Lays.exchange H rfl rfl rfl ?_ (fun d hd => ?_) (fun i hi => ?_) (fun i hi => ?_)
      (q := (h.block (stop Block.span (stop Block.span 0 l₁) [b])).prev) ?_ (fun hne => ?_)
    · rw [hx]
      refine ⟨?_, trivial⟩
      show heapMem (setUsed _ _ _) _ = _
      rw [heapMem_setUsed hflag, hheader]
      rfl
    · obtain rfl := List.mem_singleton.mp hd
      exact H.dvd b hb.mem
    · rw [hx] at hi
      exact hapart i (by omega)
    · rw [hx, stop_cons, stop_nil] at hi
      exact hapart i (by omega)
    · rw [hx, stop_cons, stop_nil]
      exact heapMem_congr fun i _ _ => hapart i (by omega)
    · obtain ⟨d, l, rfl⟩ := List.exists_cons_of_ne_nil hne
      have hrow₂ := (row_append.mp H.row).2
      rw [stop_append, final_append, row_cons] at hrow₂
      rw [hrow₂.1]
      rfl
  · exact fun i hi _ => hapart i (hi x b hb)

end Heap

end DolphinNote
