/-
DolphinNote/HeapCalls.lean

What `rt_malloc`, `rt_free` and `rt_realloc` do to a heap in good order.

`Sound h l` is the order the functions keep: the blocks are laid out, no two
free ones stand side by side, `lfree` is a free block or `heap_end`, and
`used_mem` counts the blocks in use with their headers.  `Lowest` says that
`lfree` is the lowest free block; all functions keep that too, but for a
`rt_realloc` that cuts a block below `lfree`.

What a caller sees are the blocks in use (`usedAt`) and the bytes behind their
headers, which change in no call (`Frame.payload`).
-/
import DolphinNote.HeapLayout

namespace DolphinNote

open Bytes Rows

namespace Heap

/-! ### The order of the heap -/

/-- A block in use. -/
def usedAt (l : List Block) (x n : ℕ) : Prop := At Block.span 0 l x ⟨n, true⟩

/-- A free block. -/
def freeAt (l : List Block) (x n : ℕ) : Prop := At Block.span 0 l x ⟨n, false⟩

/-- No two free blocks side by side. -/
def Merged (l : List Block) : Prop := l.IsChain fun b c => b.used = true ∨ c.used = true

/-- The blocks in use, with their headers. -/
def usedBytes (l : List Block) : ℕ := ((l.filter Block.used).map Block.span).sum

/-- `lfree` is a free block or `heap_end`, and the first block if that is free. -/
structure Pointed (h : Heap) (l : List Block) : Prop where
  valid : ∃ f, h.lfree = h.heapPtr + f ∧ (f = h.memSizeAligned + 12 ∨ ∃ n, freeAt l f n)
  first : ∀ n, freeAt l 0 n → h.lfree = h.heapPtr

/-- It is the lowest free block. -/
def Lowest (h : Heap) (l : List Block) : Prop := ∀ x n, freeAt l x n → h.lfree ≤ h.heapPtr + x

/-- **The invariant.** -/
structure Sound (h : Heap) (l : List Block) : Prop where
  lays : h.Lays l
  merged : Merged l
  pointed : h.Pointed l
  count : h.usedMem = usedBytes l
  peak : h.usedMem ≤ h.maxMem ∧ h.maxMem ≤ h.memSizeAligned + 12
  -- an empty block is never the last one, as its pointer would be `heap_end`
  inside : ∀ x n, usedAt l x n → x < h.memSizeAligned
  large : 12 ≤ h.memSizeAligned

variable {h h' h'' : Heap} {l l' l'' l₁ l₂ : List Block} {b c : Block} {x y n k size f : ℕ}

/-! ### Lists of blocks -/

theorem usedBytes_append (l₁ l₂ : List Block) :
    usedBytes (l₁ ++ l₂) = usedBytes l₁ + usedBytes l₂ := by
  unfold usedBytes
  rw [List.filter_append, List.map_append, List.sum_append]

@[simp] theorem usedBytes_nil : usedBytes [] = 0 := rfl

theorem usedBytes_used (n : ℕ) (l : List Block) :
    usedBytes (⟨n, true⟩ :: l) = 12 + n + usedBytes l := by
  unfold usedBytes
  rw [List.filter_cons_of_pos rfl, List.map_cons, List.sum_cons]
  rfl

theorem usedBytes_free (n : ℕ) (l : List Block) : usedBytes (⟨n, false⟩ :: l) = usedBytes l := by
  unfold usedBytes
  rw [List.filter_cons_of_neg Bool.false_ne_true]

theorem usedBytes_le (s : ℕ) (l : List Block) : s + usedBytes l ≤ stop Block.span s l := by
  unfold usedBytes stop
  exact Nat.add_le_add_left (List.Sublist.sum_le_sum
    (List.filter_sublist.map Block.span) fun _ _ => Nat.zero_le _) s

theorem Lays.usedBytes_le (H : h.Lays l) : usedBytes l ≤ h.memSizeAligned + 12 := by
  have hle := Heap.usedBytes_le 0 l
  rw [H.extent] at hle
  omega

theorem length_le_stop (s : ℕ) (l : List Block) : s + l.length ≤ stop Block.span s l := by
  induction l generalizing s with
  | nil => exact le_rfl
  | cons b l ih =>
      have hle := ih (s + b.span)
      have hspan : b.span = 12 + b.size := rfl
      rw [stop_cons, List.length_cons]
      omega

theorem Lays.length_lt (H : h.Lays l) : l.length < h.fuel := by
  have hle := length_le_stop 0 l
  rw [H.extent] at hle
  show l.length < h.memSizeAligned + 12 + 1
  omega

/-- A block between blocks. -/
theorem at_middle (hx : stop Block.span 0 l₁ = x) :
    At Block.span 0 (l₁ ++ [b] ++ l₂) y c ↔
      At Block.span 0 l₁ y c ∨ (y = x ∧ c = b) ∨ At Block.span (x + b.span) l₂ y c := by
  rw [at_append, at_append, stop_append, hx, at_cons, stop_cons, stop_nil, or_assoc]
  refine or_congr_right (or_congr_left ?_)
  exact or_iff_left not_at_nil

theorem at_middle_self (hx : stop Block.span 0 l₁ = x) :
    At Block.span 0 (l₁ ++ [b] ++ l₂) x b :=
  (at_middle hx).mpr (.inr (.inl ⟨rfl, rfl⟩))

theorem freeAt_fresh (hx : freeAt l x n) (m : ℕ) : ¬ usedAt l x m := by
  intro hx'
  have hn : (⟨n, false⟩ : Block).span = 12 + n := rfl
  have hm : (⟨m, true⟩ : Block).span = 12 + m := rfl
  rcases hx.apart hx' with ⟨-, he⟩ | hlt | hlt
  · exact Bool.noConfusion (Block.mk.inj he).2
  · omega
  · omega

/-- Where a block stands, the row is cut. -/
theorem cut_at (hb : At Block.span 0 l x b) :
    ∃ l₁ l₂, l = l₁ ++ [b] ++ l₂ ∧ stop Block.span 0 l₁ = x := by
  obtain ⟨l₁, l₂, rfl, hx⟩ := hb
  exact ⟨l₁, l₂, by rw [List.append_assoc]; rfl, hx⟩

theorem Merged.left (hm : Merged (l₁ ++ l₂)) : Merged l₁ := hm.left_of_append

theorem Merged.right (hm : Merged (l₁ ++ l₂)) : Merged l₂ := hm.right_of_append

/-- Around a free block stand blocks in use. -/
theorem merged_middle (hm₁ : Merged l₁) (hm₂ : Merged l₂)
    (h₁ : ∀ a ∈ l₁.getLast?, a.used = true ∨ b.used = true)
    (h₂ : ∀ c ∈ l₂.head?, b.used = true ∨ c.used = true) : Merged (l₁ ++ [b] ++ l₂) := by
  refine List.isChain_append.mpr ⟨List.isChain_append.mpr ⟨hm₁, List.isChain_singleton _, ?_⟩, hm₂, ?_⟩
  · intro a ha c hc
    obtain rfl : b = c := by simpa using hc
    exact h₁ a ha
  · intro a ha c hc
    obtain rfl : b = a := by simpa using ha
    exact h₂ c hc

theorem Merged.middle (hm : Merged (l₁ ++ [b] ++ l₂)) :
    Merged l₁ ∧ Merged l₂ ∧ (∀ a ∈ l₁.getLast?, a.used = true ∨ b.used = true) ∧
      ∀ c ∈ l₂.head?, b.used = true ∨ c.used = true := by
  obtain ⟨h₁, hm₂, h₂⟩ := List.isChain_append.mp hm
  obtain ⟨hm₁, -, h₁⟩ := List.isChain_append.mp h₁
  exact ⟨hm₁, hm₂, fun a ha => h₁ a ha b (by simp), fun c hc => h₂ b (by simp) c hc⟩

/-! ### Joining free blocks -/

/-- What joining free blocks leaves as it is. -/
structure Joins (h : Heap) (l : List Block) (h' : Heap) (l' : List Block) : Prop where
  lays : h'.Lays l'
  base : h'.heapPtr = h.heapPtr
  size : h'.memSizeAligned = h.memSizeAligned
  count : h'.usedMem = h.usedMem ∧ h'.maxMem = h.maxMem
  used : ∀ y m, usedAt l' y m ↔ usedAt l y m
  bytes : usedBytes l' = usedBytes l
  frame : Frame l h h'
  pointed : h.Pointed l → h'.Pointed l'
  lowest : h.Lowest l → h'.Lowest l'
  places : ∀ y b, At Block.span 0 l' y b → ∃ b', At Block.span 0 l y b'

theorem Joins.refl (H : h.Lays l) : Joins h l h l :=
  ⟨H, rfl, rfl, ⟨rfl, rfl⟩, fun _ _ => Iff.rfl, rfl, Frame.refl l h, id, id, fun _ b hb => ⟨b, hb⟩⟩

theorem Joins.trans (hj : Joins h l h' l') (hj' : Joins h' l' h'' l'') : Joins h l h'' l'' where
  lays := hj'.lays
  base := hj'.base.trans hj.base
  size := hj'.size.trans hj.size
  count := ⟨hj'.count.1.trans hj.count.1, hj'.count.2.trans hj.count.2⟩
  used y m := (hj'.used y m).trans (hj.used y m)
  bytes := hj'.bytes.trans hj.bytes
  frame := hj.frame.trans (hj'.frame.mono hj.places) hj.base hj.size
  pointed hp := hj'.pointed (hj.pointed hp)
  lowest hl := hj'.lowest (hj.lowest hl)
  places y b hb := by
    obtain ⟨b', hb'⟩ := hj'.places y b hb
    exact hj.places y b' hb'

/-- **Two free blocks.** -/
theorem Lays.joins (H : h.Lays (l₁ ++ [⟨n, false⟩, ⟨k, false⟩] ++ l₂)) (hx : stop Block.span 0 l₁ = x)
    (hy : x + 12 + n = y) :
    Joins h (l₁ ++ [⟨n, false⟩, ⟨k, false⟩] ++ l₂)
      (h.combine (h.heapPtr + x) (h.heapPtr + y)) (l₁ ++ [⟨n + 12 + k, false⟩] ++ l₂) := by
  have hy' : x + (⟨n, false⟩ : Block).span = y := by
    rw [← hy, Nat.add_assoc]
    rfl
  obtain ⟨hlays, hframe⟩ := H.combine hx hy'
  have hlfree : (h.combine (h.heapPtr + x) (h.heapPtr + y)).lfree =
      if h.lfree = h.heapPtr + y then h.heapPtr + x else h.lfree := rfl
  -- the blocks before and after
  have hold : ∀ z b, At Block.span 0 (l₁ ++ [⟨n, false⟩, ⟨k, false⟩] ++ l₂) z b ↔
      At Block.span 0 l₁ z b ∨ (z = x ∧ b = ⟨n, false⟩) ∨ (z = y ∧ b = ⟨k, false⟩) ∨
        At Block.span (y + 12 + k) l₂ z b := by
    intro z b
    have hsplit : l₁ ++ [⟨n, false⟩, ⟨k, false⟩] ++ l₂ =
        l₁ ++ [⟨n, false⟩] ++ ([⟨k, false⟩] ++ l₂) := by simp
    rw [hsplit, at_middle hx, hy', at_append, at_cons, stop_cons, stop_nil, or_iff_left not_at_nil]
    have hspan : y + (⟨k, false⟩ : Block).span = y + 12 + k := (Nat.add_assoc _ _ _).symm
    rw [hspan]
  have hnew : ∀ z b, At Block.span 0 (l₁ ++ [⟨n + 12 + k, false⟩] ++ l₂) z b ↔
      At Block.span 0 l₁ z b ∨ (z = x ∧ b = ⟨n + 12 + k, false⟩) ∨
        At Block.span (y + 12 + k) l₂ z b := by
    intro z b
    have hspan : x + (⟨n + 12 + k, false⟩ : Block).span = y + 12 + k := by
      show x + (12 + (n + 12 + k)) = _
      omega
    rw [at_middle hx, hspan]
  have hyend : y ≠ h.memSizeAligned + 12 := by
    have hle := H.le ((hold y ⟨k, false⟩).mpr (.inr (.inr (.inl ⟨rfl, rfl⟩))))
    omega
  refine ⟨hlays, rfl, rfl, ⟨rfl, rfl⟩, fun z m => ?_, ?_, hframe, fun hp => ⟨?_, fun m hm => ?_⟩,
    fun hl z m hm => ?_, fun z b hb => ?_⟩
  · unfold usedAt
    rw [hold, hnew]
    constructor
    · rintro (hz | ⟨-, hz⟩ | hz)
      · exact .inl hz
      · cases hz
      · exact .inr (.inr (.inr hz))
    · rintro (hz | ⟨-, hz⟩ | ⟨-, hz⟩ | hz)
      · exact .inl hz
      · cases hz
      · cases hz
      · exact .inr (.inr hz)
  · rw [usedBytes_append, usedBytes_append, usedBytes_append, usedBytes_append, usedBytes_free,
      usedBytes_free, usedBytes_free]
  · obtain ⟨f, hf, hvalid⟩ := hp.valid
    rw [hlfree]
    split_ifs with hfy
    · exact ⟨x, rfl, .inr ⟨_, (hnew _ _).mpr (.inr (.inl ⟨rfl, rfl⟩))⟩⟩
    · refine ⟨f, hf, hvalid.imp id ?_⟩
      rintro ⟨m, hm⟩
      rcases (hold _ _).mp hm with hz | ⟨rfl, -⟩ | ⟨rfl, -⟩ | hz
      · exact ⟨m, (hnew _ _).mpr (.inl hz)⟩
      · exact ⟨_, (hnew _ _).mpr (.inr (.inl ⟨rfl, rfl⟩))⟩
      · exact absurd hf hfy
      · exact ⟨m, (hnew _ _).mpr (.inr (.inr hz))⟩
  · have hfirst : h.lfree = h.heapPtr := by
      rcases (hnew _ _).mp hm with hz | ⟨hz, -⟩ | hz
      · exact hp.first m ((hold _ _).mpr (.inl hz))
      · exact hp.first n ((hold _ _).mpr (.inr (.inl ⟨hz, rfl⟩)))
      · exact absurd hz.bounds.1 (by omega)
    rw [hlfree, hfirst, if_neg (by omega)]
    rfl
  · have hle : h.lfree ≤ h.heapPtr + x := hl x n ((hold _ _).mpr (.inr (.inl ⟨rfl, rfl⟩)))
    rw [hlfree, if_neg (by omega)]
    rcases (hnew _ _).mp hm with hz | ⟨rfl, -⟩ | hz
    · exact hl z m ((hold _ _).mpr (.inl hz))
    · exact hle
    · exact hl z m ((hold _ _).mpr (.inr (.inr (.inr hz))))
  · rcases (hnew _ _).mp hb with hz | ⟨rfl, -⟩ | hz
    · exact ⟨b, (hold _ _).mpr (.inl hz)⟩
    · exact ⟨_, (hold _ _).mpr (.inr (.inl ⟨rfl, rfl⟩))⟩
    · exact ⟨b, (hold _ _).mpr (.inr (.inr (.inr hz)))⟩

/-- `lfree` is the free block behind the one at `x`, and that is the only lower one. -/
structure Nearly (h : Heap) (l : List Block) (x : ℕ) : Prop where
  lowest : ∀ z m, freeAt l z m → z ≠ x → h.lfree ≤ h.heapPtr + z
  next : ∃ m k, freeAt l x m ∧ h.lfree = h.heapPtr + (x + 12 + m) ∧ freeAt l (x + 12 + m) k

/-- Then the two become the lowest one. -/
theorem Nearly.combine (hn : h.Nearly (l₁ ++ [⟨n, false⟩, ⟨k, false⟩] ++ l₂) x)
    (hx : stop Block.span 0 l₁ = x) (hy : x + 12 + n = y) :
    (h.combine (h.heapPtr + x) (h.heapPtr + y)).Lowest (l₁ ++ [⟨n + 12 + k, false⟩] ++ l₂) := by
  have hself : freeAt (l₁ ++ [⟨n, false⟩, ⟨k, false⟩] ++ l₂) x n :=
    at_append.mpr (.inl (at_append.mpr (.inr (at_cons.mpr (.inl ⟨hx.symm, rfl⟩)))))
  obtain ⟨m, k', hm, hlfree, -⟩ := hn.next
  obtain rfl : m = n := by
    have hspan : ∀ i : ℕ, (⟨i, false⟩ : Block).span = 12 + i := fun _ => rfl
    rcases hm.apart hself with ⟨-, he⟩ | hlt | hlt
    · exact (Block.mk.inj he).1
    · rw [hspan] at hlt
      omega
    · rw [hspan] at hlt
      omega
  rw [hy] at hlfree
  have hlfree' : (h.combine (h.heapPtr + x) (h.heapPtr + y)).lfree = h.heapPtr + x := if_pos hlfree
  intro z i hz
  rw [hlfree']
  show h.heapPtr + x ≤ h.heapPtr + z
  have hspan : x + (⟨m + 12 + k, false⟩ : Block).span = y + 12 + k := by
    show x + (12 + (m + 12 + k)) = _
    omega
  rcases (at_middle hx).mp hz with hz | ⟨rfl, -⟩ | hz
  · -- below the two nothing is free
    have hbounds := hz.bounds.2
    have hspan : (⟨i, false⟩ : Block).span = 12 + i := rfl
    have hlow := hn.lowest z i (at_append.mpr (.inl (at_append.mpr (.inl hz)))) (by omega)
    omega
  · exact le_rfl
  · have hbounds := hz.bounds.1
    omega

/-- `plug_holes` **joins a free block with the one behind it**, if that is free. -/
theorem Lays.plugForward (H : h.Lays (l₁ ++ [⟨n, false⟩] ++ l₂)) (hx : stop Block.span 0 l₁ = x)
    (hm : Merged l₂) :
    ∃ k l₂', Joins h (l₁ ++ [⟨n, false⟩] ++ l₂) (h.plugForward (h.heapPtr + x))
        (l₁ ++ [⟨k, false⟩] ++ l₂') ∧ Merged l₂' ∧ (∀ c ∈ l₂'.head?, c.used = true) ∧
      (h.Nearly (l₁ ++ [⟨n, false⟩] ++ l₂) x →
        (h.plugForward (h.heapPtr + x)).Lowest (l₁ ++ [⟨k, false⟩] ++ l₂')) := by
  have hself : At Block.span 0 (l₁ ++ [⟨n, false⟩] ++ l₂) x ⟨n, false⟩ := at_middle_self hx
  have hnext : (heapMem h.mem (h.heapPtr + x)).next = x + (12 + n) := H.next hself
  have hstop : stop Block.span (x + (12 + n)) l₂ = h.memSizeAligned + 12 := by
    rw [← H.extent, stop_append, stop_append, hx, stop_cons, stop_nil]
    rfl
  have hend : h.heapEnd = h.heapPtr + (h.memSizeAligned + 12) := rfl
  -- the free block behind it
  have hbehind : h.Nearly (l₁ ++ [⟨n, false⟩] ++ l₂) x →
      ∃ k, freeAt (l₁ ++ [⟨n, false⟩] ++ l₂) (x + (12 + n)) k := by
    rintro ⟨-, m, k, hm, -, hk⟩
    have hspan : ∀ i : ℕ, (⟨i, false⟩ : Block).span = 12 + i := fun _ => rfl
    rcases hm.apart hself with ⟨-, he⟩ | hlt | hlt
    · obtain rfl := (Block.mk.inj he).1
      exact ⟨k, by rw [← Nat.add_assoc]; exact hk⟩
    · rw [hspan] at hlt
      omega
    · rw [hspan] at hlt
      omega
  unfold Heap.plugForward
  dsimp only
  rw [hnext]
  rcases l₂ with - | ⟨c, l₂⟩
  · -- the last block of the heap
    rw [stop_nil] at hstop
    rw [if_neg fun hc => hc.2.2 (by rw [hend, hstop])]
    refine ⟨n, [], Joins.refl H, hm, fun c hc => (nomatch hc), fun hn => ?_⟩
    obtain ⟨k, hk⟩ := hbehind hn
    have hle : x + (12 + n) + k ≤ h.memSizeAligned := H.le hk
    omega
  · have hc : At Block.span 0 (l₁ ++ [⟨n, false⟩] ++ c :: l₂) (x + (12 + n)) c :=
      (at_middle hx).mpr (.inr (.inr (at_cons.mpr (.inl ⟨rfl, rfl⟩))))
    rcases c with ⟨k, used⟩
    have hused := H.used_iff hc
    have hle : x + (12 + n) + k ≤ h.memSizeAligned := H.le hc
    rcases used with - | -
    · rw [if_pos ⟨by omega, hused.mpr rfl, by rw [hend]; omega⟩]
      have hlist : l₁ ++ [⟨n, false⟩] ++ ⟨k, false⟩ :: l₂ =
          l₁ ++ [⟨n, false⟩, ⟨k, false⟩] ++ l₂ := by simp
      rw [hlist] at H ⊢
      refine ⟨n + 12 + k, l₂, H.joins hx (by omega), (List.isChain_cons.mp hm).2, fun d hd => ?_,
        fun hn => hn.combine hx (by omega)⟩
      · rcases l₂ with - | ⟨d', l₂⟩
        · cases hd
        · obtain rfl : d' = d := by simpa using hd
          exact ((List.isChain_cons_cons.mp hm).1).resolve_left Bool.false_ne_true
    · rw [if_neg fun hc => Bool.noConfusion (hused.mp hc.2.1)]
      refine ⟨n, _, Joins.refl H, hm, fun d hd => ?_, fun hn => ?_⟩
      · obtain rfl : (⟨k, true⟩ : Block) = d := by simpa using hd
        rfl
      · obtain ⟨k', hk⟩ := hbehind hn
        rcases hk.apart hc with ⟨-, he⟩ | hlt | hlt
        · exact Bool.noConfusion (Block.mk.inj he).2
        · have hspan : (⟨k', false⟩ : Block).span = 12 + k' := rfl
          omega
        · have hspan : (⟨k, true⟩ : Block).span = 12 + k := rfl
          omega

/-- `plug_holes` **joins a free block with the one in front of it**, if that is free. -/
theorem Lays.plugBackward (H : h.Lays (l₁ ++ [⟨n, false⟩] ++ l₂)) (hx : stop Block.span 0 l₁ = x)
    (hm : Merged l₁) :
    ∃ k l₁', Joins h (l₁ ++ [⟨n, false⟩] ++ l₂) (h.plugBackward (h.heapPtr + x))
        (l₁' ++ [⟨k, false⟩] ++ l₂) ∧ Merged l₁' ∧ ∀ a ∈ l₁'.getLast?, a.used = true := by
  have hrow := (row_append.mp (row_append.mp H.row).1).2
  rw [hx] at hrow
  have hprev : (heapMem h.mem (h.heapPtr + x)).prev = final Block.span 0 0 l₁ :=
    congrArg HeapMem.prev hrow.1
  unfold Heap.plugBackward
  dsimp only
  rw [hprev]
  rcases l₁.eq_nil_or_concat' with rfl | ⟨l, a, rfl⟩
  · -- the first block points to itself
    obtain rfl : 0 = x := hx
    refine ⟨n, [], ?_, hm, fun c hc => nomatch hc⟩
    rw [if_neg fun hc => hc.1 rfl]
    exact Joins.refl H
  · obtain ⟨y, hy⟩ : ∃ y, stop Block.span 0 l = y := ⟨_, rfl⟩
    have hfinal : final Block.span 0 0 (l ++ [a]) = y := by
      rw [final_append, hy]
      rfl
    rw [stop_append, hy, stop_cons, stop_nil] at hx
    have ha : At Block.span 0 (l ++ [a] ++ [⟨n, false⟩] ++ l₂) y a := by
      rw [List.append_assoc]
      exact at_middle_self hy
    rcases a with ⟨k, used⟩
    have hused := H.used_iff ha
    have hspan : (⟨k, used⟩ : Block).span = 12 + k := rfl
    rw [hfinal]
    rcases used with - | -
    · rw [if_pos ⟨by omega, hused.mpr rfl⟩]
      refine ⟨k + 12 + n, l, ?_, hm.left, fun d hd => ?_⟩
      · have hlist : l ++ [⟨k, false⟩] ++ [⟨n, false⟩] ++ l₂ =
            l ++ [⟨k, false⟩, ⟨n, false⟩] ++ l₂ := by simp
        rw [hlist] at H ⊢
        exact H.joins hy (by omega)
      · have hlast := (List.isChain_append.mp hm).2.2 d hd ⟨k, false⟩ (by simp)
        exact hlast.resolve_right Bool.false_ne_true
    · rw [if_neg fun hc => Bool.noConfusion (hused.mp hc.2)]
      refine ⟨n, _, Joins.refl H, hm, fun d hd => ?_⟩
      obtain rfl : (⟨k, true⟩ : Block) = d := by simpa using hd
      rfl

/-- **`plug_holes`.**  A free block is joined with its free neighbours. -/
theorem Lays.plugHoles (H : h.Lays (l₁ ++ [⟨n, false⟩] ++ l₂)) (hx : stop Block.span 0 l₁ = x)
    (hm₁ : Merged l₁) (hm₂ : Merged l₂) :
    ∃ h' l', h.plugHoles (h.heapPtr + x) = some h' ∧ Joins h (l₁ ++ [⟨n, false⟩] ++ l₂) h' l' ∧
      Merged l' ∧ (h.Nearly (l₁ ++ [⟨n, false⟩] ++ l₂) x → h'.Lowest l') := by
  have hself : At Block.span 0 (l₁ ++ [⟨n, false⟩] ++ l₂) x ⟨n, false⟩ := at_middle_self hx
  have hle := H.le hself
  have hend : h.heapEnd = h.heapPtr + (h.memSizeAligned + 12) := rfl
  obtain ⟨k, l₂', hj, hm₂', hhead, hnearly⟩ := H.plugForward hx hm₂
  obtain ⟨k', l₁', hj', hm₁', hlast⟩ := hj.lays.plugBackward hx hm₁
  rw [hj.base] at hj'
  refine ⟨_, _, ?_, hj.trans hj', merged_middle hm₁' hm₂' (fun a ha => .inl (hlast a ha))
    fun c hc => .inr (hhead c hc), fun hn => hj'.lowest (hnearly hn)⟩
  unfold Heap.plugHoles
  rw [if_pos ⟨Nat.le_add_right _ _, by rw [hend]; omega, (H.used_iff hself).mpr rfl⟩]

/-! ### `rt_free` -/

/-- What a call makes of a heap in good order; `l₀` are the blocks whose headers it may
have written. -/
structure Changes (h : Heap) (l₀ : List Block) (h' : Heap) (l' : List Block) : Prop where
  sound : h'.Sound l'
  base : h'.heapPtr = h.heapPtr
  size : h'.memSizeAligned = h.memSizeAligned
  frame : Frame l₀ h h'

theorem setMagic_self {m : Memory} {a v : ℕ} (h : (heapMem m a).magic = v) : setMagic a v m = m :=
  store_self h

/-- **`rt_free`.** -/
theorem Sound.rtFree (S : h.Sound l) (hx : usedAt l x n) :
    ∃ h' l', h.rtFree (h.heapPtr + x + 12) = some h' ∧ Changes h l h' l' ∧
      (∀ y m, usedAt l' y m ↔ usedAt l y m ∧ y ≠ x) ∧ (h.Lowest l → h'.Lowest l') := by
  obtain ⟨l₁, l₂, rfl, hl₁⟩ := cut_at hx
  have hle : x + n ≤ h.memSizeAligned := S.lays.le hx
  have hlt := S.inside x n hx
  have hbound := S.lays.bound
  have halign := S.lays.align
  have hdvd := S.lays.dvd_at hx
  have hend : h.heapEnd = h.heapPtr + (h.memSizeAligned + 12) := rfl
  have hused : (heapMem h.mem (h.heapPtr + x)).used ≠ 0 := fun he =>
    Bool.noConfusion ((S.lays.used_iff hx).mp he)
  have hmagic : (heapMem h.mem (h.heapPtr + x)).magic = heapMagic := S.lays.magic hx
  have hnext : (heapMem h.mem (h.heapPtr + x)).next = x + (12 + n) := S.lays.next hx
  obtain ⟨m, hm⟩ : ∃ m, m = setUsed (h.heapPtr + x) 0 h.mem := ⟨_, rfl⟩
  have hheader : heapMem m (h.heapPtr + x) = { heapMem h.mem (h.heapPtr + x) with used := 0 } := by
    rw [hm]
    exact heapMem_setUsed (by decide)
  have hmagic' : setMagic (h.heapPtr + x) heapMagic m = m := setMagic_self (by rw [hheader]; exact hmagic)
  have hbytes : usedBytes (l₁ ++ [⟨n, true⟩] ++ l₂) =
      usedBytes (l₁ ++ [⟨n, false⟩] ++ l₂) + (12 + n) := by
    rw [usedBytes_append, usedBytes_append, usedBytes_append, usedBytes_append, usedBytes_used,
      usedBytes_free, usedBytes_nil]
    omega
  have hcount := S.count
  have hmax := S.lays.usedBytes_le
  -- the heap with the block marked
  obtain ⟨h₁, hh₁⟩ : ∃ h₁, h₁ = ({ h with
      lfree := if h.heapPtr + x < h.lfree then h.heapPtr + x else h.lfree,
      usedMem := h.usedMem - (12 + n), mem := m } : Heap) := ⟨_, rfl⟩
  have hbase : h₁.heapPtr = h.heapPtr := by rw [hh₁]
  have hsize : h₁.memSizeAligned = h.memSizeAligned := by rw [hh₁]
  have hlfree : h₁.lfree = if h.heapPtr + x < h.lfree then h.heapPtr + x else h.lfree := by rw [hh₁]
  have hcall : h.rtFree (h.heapPtr + x + 12) = h₁.plugHoles (h.heapPtr + x) := by
    unfold Heap.rtFree
    rw [if_neg (by unfold rtNull; omega),
      if_pos ⟨by omega, by omega, by rw [hend]; omega⟩]
    dsimp only
    rw [Nat.add_sub_cancel, if_pos ⟨hused, hmagic⟩, ← hm, hmagic', hheader]
    dsimp only
    rw [hnext, sub32_of_le (Nat.le_add_right _ _) (by omega), Nat.add_sub_cancel_left,
      sub32_of_le (Nat.le_add_right _ _) (by omega), Nat.add_sub_cancel_left,
      sub32_of_le (by omega) (by omega), hh₁]
  obtain ⟨hlays, hframe⟩ := S.lays.mark hl₁ false
  have hlays₁ : h₁.Lays (l₁ ++ [⟨n, false⟩] ++ l₂) :=
    hlays.congr hbase hsize (by rw [hh₁, hm]; rfl)
  have hframe₁ : Frame (l₁ ++ [⟨n, true⟩] ++ l₂) h h₁ := by
    intro i hi hiend
    rw [hh₁, hm]
    exact hframe i hi hiend
  have hold : ∀ z b, At Block.span 0 (l₁ ++ [⟨n, true⟩] ++ l₂) z b ↔ At Block.span 0 l₁ z b ∨
      (z = x ∧ b = ⟨n, true⟩) ∨ At Block.span (x + (12 + n)) l₂ z b := fun z b => at_middle hl₁
  have hnew : ∀ z b, At Block.span 0 (l₁ ++ [⟨n, false⟩] ++ l₂) z b ↔ At Block.span 0 l₁ z b ∨
      (z = x ∧ b = ⟨n, false⟩) ∨ At Block.span (x + (12 + n)) l₂ z b := fun z b => at_middle hl₁
  have hne : ∀ {z b}, At Block.span 0 l₁ z b ∨ At Block.span (x + (12 + n)) l₂ z b → z ≠ x := by
    rintro z b (hz | hz)
    · have hbounds := hz.bounds.2
      have hspan : b.span = 12 + b.size := rfl
      omega
    · have hbounds := hz.bounds.1
      omega
  have hpointed : h₁.Pointed (l₁ ++ [⟨n, false⟩] ++ l₂) := by
    refine ⟨?_, fun m hm => ?_⟩
    · rw [hlfree, hbase, hsize]
      split_ifs with hlt
      · exact ⟨x, rfl, .inr ⟨n, (hnew _ _).mpr (.inr (.inl ⟨rfl, rfl⟩))⟩⟩
      · obtain ⟨f, hf, hvalid⟩ := S.pointed.valid
        refine ⟨f, hf, hvalid.imp id ?_⟩
        rintro ⟨m, hm⟩
        rcases (hold _ _).mp hm with hz | ⟨-, hz⟩ | hz
        · exact ⟨m, (hnew _ _).mpr (.inl hz)⟩
        · cases hz
        · exact ⟨m, (hnew _ _).mpr (.inr (.inr hz))⟩
    · rw [hlfree, hbase]
      have hle₀ : h.lfree = h.heapPtr ∨ x = 0 := by
        rcases (hnew _ _).mp hm with hz | ⟨rfl, -⟩ | hz
        · exact .inl (S.pointed.first m ((hold _ _).mpr (.inl hz)))
        · exact .inr rfl
        · exact absurd hz.bounds.1 (by omega)
      obtain ⟨f, hf, -⟩ := S.pointed.valid
      split_ifs with hlt
      · omega
      · omega
  have hlowest : h.Lowest (l₁ ++ [⟨n, true⟩] ++ l₂) → h₁.Lowest (l₁ ++ [⟨n, false⟩] ++ l₂) := by
    intro hl z m hm
    rw [hlfree, hbase]
    rcases (hnew _ _).mp hm with hz | ⟨rfl, -⟩ | hz
    · have hlz := hl z m ((hold _ _).mpr (.inl hz))
      split_ifs
      · omega
      · exact hlz
    · split_ifs
      · exact le_rfl
      · omega
    · have hlz := hl z m ((hold _ _).mpr (.inr (.inr hz)))
      split_ifs
      · omega
      · exact hlz
  obtain ⟨hm₁, hm₂, -, -⟩ := S.merged.middle
  obtain ⟨h', l', hplug, hj, hmerged, -⟩ := hlays₁.plugHoles hl₁ hm₁ hm₂
  rw [hbase] at hplug
  have hpeak := S.peak
  have hcount₁ : h₁.usedMem = h.usedMem - (12 + n) ∧ h₁.maxMem = h.maxMem := by
    rw [hh₁]
    exact ⟨rfl, rfl⟩
  have hiff : ∀ y m, usedAt l' y m ↔ usedAt (l₁ ++ [⟨n, true⟩] ++ l₂) y m ∧ y ≠ x := by
    intro y m
    rw [hj.used]
    unfold usedAt
    rw [hnew, hold]
    constructor
    · rintro (hz | ⟨-, hz⟩ | hz)
      · exact ⟨.inl hz, hne (.inl hz)⟩
      · cases hz
      · exact ⟨.inr (.inr hz), hne (.inr hz)⟩
    · rintro ⟨hz | ⟨rfl, -⟩ | hz, hyx⟩
      · exact .inl hz
      · exact absurd rfl hyx
      · exact .inr (.inr hz)
  refine ⟨h', l', hcall.trans hplug, ⟨⟨hj.lays, hmerged, hj.pointed hpointed, ?_, ?_, ?_, ?_⟩,
    hj.base.trans hbase, hj.size.trans hsize, ?_⟩, hiff, fun hl => hj.lowest (hlowest hl)⟩
  · rw [hj.count.1, hcount₁.1, hj.bytes]
    omega
  · rw [hj.count.1, hj.count.2, hcount₁.1, hcount₁.2, hj.size, hsize]
    exact ⟨(Nat.sub_le _ _).trans hpeak.1, hpeak.2⟩
  · rw [hj.size, hsize]
    exact fun y m hy => S.inside y m ((hiff y m).mp hy).1
  · rw [hj.size, hsize]
    exact S.large
  · refine hframe₁.trans (hj.frame.mono fun z b hb => ?_) hbase hsize
    rcases (hnew _ _).mp hb with hz | ⟨rfl, -⟩ | hz
    · exact ⟨b, (hold _ _).mpr (.inl hz)⟩
    · exact ⟨_, (hold _ _).mpr (.inr (.inl ⟨rfl, rfl⟩))⟩
    · exact ⟨b, (hold _ _).mpr (.inr (.inr hz))⟩

/-! ### `rt_malloc` -/

/-- How much of a free block is taken. -/
def cutSize (size n : ℕ) : ℕ := if size + 24 ≤ n then size else n

/-- What becomes of it. -/
def cut (size n : ℕ) : List Block :=
  if size + 24 ≤ n then [⟨size, true⟩, ⟨n - size - 12, false⟩] else [⟨n, true⟩]

theorem le_cutSize (h : size ≤ n) : size ≤ cutSize size n := by
  unfold cutSize
  split_ifs
  · exact le_rfl
  · exact h

theorem cutSize_le (size n : ℕ) : cutSize size n ≤ n := by
  unfold cutSize
  split_ifs
  · omega
  · exact le_rfl

theorem stop_cut (size n x : ℕ) : stop Block.span x (cut size n) = x + 12 + n := by
  unfold cut
  split_ifs with h
  · rw [stop_cons, stop_cons, stop_nil]
    show x + (12 + size) + (12 + (n - size - 12)) = _
    omega
  · rw [stop_cons, stop_nil]
    exact (Nat.add_assoc _ _ _).symm

theorem usedBytes_cut (size n : ℕ) : usedBytes (cut size n) = 12 + cutSize size n := by
  unfold cut cutSize
  split_ifs
  · rw [usedBytes_used, usedBytes_free]
    rfl
  · rw [usedBytes_used]
    rfl

theorem at_cut_used {m : ℕ} :
    At Block.span x (cut size n) y ⟨m, true⟩ ↔ y = x ∧ m = cutSize size n := by
  unfold cut cutSize
  split_ifs
  · rw [at_cons, at_cons, or_iff_left]
    · rw [Block.mk.injEq]
      tauto
    · rintro (⟨-, hb⟩ | hb)
      · cases hb
      · exact not_at_nil hb
  · rw [at_cons, or_iff_left not_at_nil, Block.mk.injEq]
    tauto

theorem at_cut_free {m : ℕ} (h : At Block.span x (cut size n) y ⟨m, false⟩) :
    y = x + 12 + size := by
  unfold cut at h
  split_ifs at h
  · rcases at_cons.mp h with ⟨-, hb⟩ | h
    · cases hb
    · rcases at_cons.mp h with ⟨hy, -⟩ | h
      · rw [hy, Nat.add_assoc]
        rfl
      · exact absurd h not_at_nil
  · rcases at_cons.mp h with ⟨-, hb⟩ | h
    · cases hb
    · exact absurd h not_at_nil

/-- The rest of a block that is cut is not beside another free block. -/
theorem merged_cut (hm : Merged (l₁ ++ [⟨n, false⟩] ++ l₂)) (size : ℕ) :
    Merged (l₁ ++ cut size n ++ l₂) := by
  obtain ⟨hm₁, hm₂, -, h₂⟩ := hm.middle
  have hused : ∀ c ∈ l₂.head?, c.used = true := fun c hc =>
    (h₂ c hc).resolve_left Bool.false_ne_true
  unfold cut
  split_ifs
  · have hfst : Merged (l₁ ++ [⟨size, true⟩]) := by
      have hfst := merged_middle (b := ⟨size, true⟩) hm₁ List.isChain_nil (fun _ _ => .inr rfl)
        fun c hc => nomatch hc
      rwa [List.append_nil] at hfst
    have hall := merged_middle (b := ⟨n - size - 12, false⟩) hfst hm₂
      (fun a ha => by
        obtain rfl : (⟨size, true⟩ : Block) = a := by simpa using ha
        exact .inl rfl)
      fun c hc => .inr (hused c hc)
    rw [List.append_assoc l₁] at hall
    exact hall
  · exact merged_middle hm₁ hm₂ (fun _ _ => .inr rfl) fun _ _ => .inl rfl

/-- **A free block is taken.** -/
theorem Lays.take (H : h.Lays (l₁ ++ [⟨n, false⟩] ++ l₂)) (hx : stop Block.span 0 l₁ = x)
    (hdvd : 4 ∣ size) :
    (h.take size x).Lays (l₁ ++ cut size n ++ l₂) ∧
      Frame (l₁ ++ cut size n ++ l₂) h (h.take size x) ∧
      (h.take size x).heapPtr = h.heapPtr ∧ (h.take size x).memSizeAligned = h.memSizeAligned ∧
      (h.take size x).lfree = h.lfree ∧
      (h.take size x).usedMem = (h.usedMem + (12 + cutSize size n)) % 2 ^ 32 ∧
      (h.take size x).maxMem = max h.maxMem (h.take size x).usedMem := by
  have hself : At Block.span 0 (l₁ ++ [⟨n, false⟩] ++ l₂) x ⟨n, false⟩ := at_middle_self hx
  have hle : x + n ≤ h.memSizeAligned := H.le hself
  have hbound := H.bound
  have hnext : (h.block x).next = x + (12 + n) := H.next hself
  have hroom : sub32 (h.block x).next (x + 12) = n := by
    rw [hnext, sub32_of_le (by omega) (by omega)]
    omega
  have hmax : ∀ a b : ℕ, (if a < b then b else a) = max a b := by
    intro a b
    split_ifs with hab
    · exact (max_eq_right hab.le).symm
    · exact (max_eq_left (Nat.le_of_not_lt hab)).symm
  have hrow := (row_append.mp (row_append.mp H.row).1).2
  rw [hx] at hrow
  have hheader : heapMem h.mem (h.heapPtr + x) =
      Block.header ⟨n, false⟩ (final Block.span 0 0 l₁) x := hrow.1
  unfold Heap.take
  dsimp only
  rw [hroom]
  unfold cut cutSize
  by_cases hcut : size + 24 ≤ n
  · rw [if_pos (show size + sizeofStructMem + minSizeAligned ≤ n from hcut), if_pos hcut,
      if_pos hcut]
    -- the memory with the two headers
    obtain ⟨hptr, hptr2⟩ := heapMem_insertMem2 (h := h) (show x + 12 ≤ x + 12 + size by omega)
      (by omega)
    obtain ⟨m, hm⟩ : ∃ m, m = setUsed (h.heapPtr + x) 1 (insertMem2 x (x + 12 + size) h) :=
      ⟨_, rfl⟩
    have hfst : heapMem m (h.heapPtr + stop Block.span 0 l₁) =
        Block.header ⟨size, true⟩ (final Block.span 0 0 l₁) (stop Block.span 0 l₁) := by
      rw [hx, hm, heapMem_setUsed (by decide), hptr]
      show ({ heapMem h.mem (h.heapPtr + x) with used := 1, next := x + 12 + size } : HeapMem) = _
      rw [hheader, Nat.add_assoc]
      rfl
    have hsnd : heapMem m (h.heapPtr + (stop Block.span 0 l₁ + 12 + size)) =
        Block.header ⟨n - size - 12, false⟩ (stop Block.span 0 l₁)
          (stop Block.span 0 l₁ + 12 + size) := by
      rw [hx, hm, heapMem_of_apart (fun i hi => setUsed_of_apart hi) (by omega), hptr2, hnext]
      have hspan : (⟨n - size - 12, false⟩ : Block).span = 12 + (n - size - 12) := rfl
      unfold Block.header
      rw [hspan]
      congr 1
      omega
    obtain ⟨hlays, hframe⟩ := H.split (m := m) hdvd (by omega : size + 12 ≤ n)
      hfst hsnd (fun i h₁ h₂ => by
        rw [hx] at h₁ h₂
        rw [hm, setUsed_of_apart h₁]
        exact insertMem2_of_apart h₁ h₂)
    rw [hx] at hlays hframe
    rw [hm] at hlays hframe
    refine ⟨hlays.congr rfl rfl rfl, hframe, rfl, rfl, rfl, ?_, hmax _ _⟩
    show (h.usedMem + (size + 12)) % 2 ^ 32 = _
    rw [Nat.add_comm size]
  · rw [if_neg (show ¬ size + sizeofStructMem + minSizeAligned ≤ n from hcut), if_neg hcut,
      if_neg hcut]
    obtain ⟨hlays, hframe⟩ := H.mark hx true
    have hnext' : (({ h with mem := setUsed (h.heapPtr + x) 1 h.mem } : Heap).block x).next =
        x + (12 + n) := by
      show (heapMem (setUsed (h.heapPtr + x) 1 h.mem) (h.heapPtr + x)).next = _
      rw [heapMem_setUsed (by decide)]
      exact hnext
    rw [hnext', sub32_of_le (Nat.le_add_right _ _) (by omega), Nat.add_sub_cancel_left]
    refine ⟨hlays.congr rfl rfl rfl, ?_, rfl, rfl, rfl, rfl, hmax _ _⟩
    refine Frame.mono hframe fun z b hb => ?_
    rcases (at_middle hx).mp hb with hz | ⟨rfl, -⟩ | hz
    · exact ⟨b, (at_middle hx).mpr (.inl hz)⟩
    · exact ⟨_, at_middle_self hx⟩
    · exact ⟨b, (at_middle hx).mpr (.inr (.inr hz))⟩

/-- **`lfree` is raised** to the next free block, or to the end. -/
theorem Lays.raise (H : h.Lays (l₁ ++ l₂)) (hf : h.lfree = h.heapPtr + stop Block.span 0 l₁)
    {fuel : ℕ} (hfuel : l₂.length < fuel) :
    ∃ m₁ m₂, l₂ = m₁ ++ m₂ ∧ (∀ b ∈ m₁, b.used = true) ∧ (∀ b ∈ m₂.head?, b.used = false) ∧
      h.raise fuel = some { h with lfree := h.heapPtr + stop Block.span 0 (l₁ ++ m₁) } := by
  have hend : h.heapEnd = h.heapPtr + (h.memSizeAligned + 12) := rfl
  induction l₂ generalizing l₁ fuel h with
  | nil =>
      rcases fuel with - | fuel
      · exact absurd hfuel (Nat.not_lt_zero _)
      refine ⟨[], [], rfl, fun b hb => (nomatch hb), fun b hb => (nomatch hb), ?_⟩
      have hextent := H.extent
      rw [List.append_nil] at hextent ⊢
      unfold Heap.raise
      rw [if_neg fun hc => hc.2 (by rw [hf, hextent, hend]), ← hf]
  | cons b l₂ ih =>
      rcases fuel with - | fuel
      · exact absurd hfuel (Nat.not_lt_zero _)
      have hb : At Block.span 0 (l₁ ++ b :: l₂) (stop Block.span 0 l₁) b :=
        at_append.mpr (.inr (at_cons.mpr (.inl ⟨rfl, rfl⟩)))
      have hused := H.used_iff hb
      have hle := H.le hb
      have hnext : (heapMem h.mem (h.heapPtr + stop Block.span 0 l₁)).next =
          stop Block.span 0 (l₁ ++ [b]) := by
        rw [stop_append, stop_cons, stop_nil]
        exact H.next hb
      unfold Heap.raise
      rw [hf, hnext]
      rcases hbu : b.used with - | -
      · rw [if_neg fun hc => hc.1 (hused.mpr hbu)]
        refine ⟨[], b :: l₂, rfl, fun c hc => (nomatch hc), fun c hc => ?_, ?_⟩
        · obtain rfl : b = c := by simpa using hc
          exact hbu
        · rw [List.append_nil, ← hf]
      · rw [if_pos ⟨fun he => Bool.noConfusion (hbu.symm.trans (hused.mp he)), by rw [hend]; omega⟩]
        have H' : ({ h with lfree := h.heapPtr + stop Block.span 0 (l₁ ++ [b]) } : Heap).Lays
            (l₁ ++ [b] ++ l₂) := by
          rw [List.append_assoc]
          exact H.congr rfl rfl rfl
        obtain ⟨m₁, m₂, rfl, hm₁, hm₂, hraise⟩ := ih H' rfl (Nat.lt_of_succ_lt_succ hfuel) rfl
        refine ⟨b :: m₁, m₂, rfl, fun c hc => ?_, hm₂, ?_⟩
        · rcases List.mem_cons.mp hc with rfl | hc
          · exact hbu
          · exact hm₁ c hc
        · rw [hraise, List.append_assoc]
          rfl

/-- The blocks behind a request. -/
theorem at_cut {b : Block} (hx : stop Block.span 0 l₁ = x) :
    At Block.span 0 (l₁ ++ cut size n ++ l₂) y b ↔
      At Block.span 0 l₁ y b ∨ At Block.span x (cut size n) y b ∨
        At Block.span (x + 12 + n) l₂ y b := by
  rw [at_append, at_append, stop_append, hx, stop_cut, or_assoc]

/-- **`lfree` behind a request.** -/
theorem Pointed.take {h₁ : Heap} (hp : h.Pointed (l₁ ++ [⟨n, false⟩] ++ l₂))
    (hx : stop Block.span 0 l₁ = x) (H₁ : h₁.Lays (l₁ ++ cut size n ++ l₂))
    (hbase : h₁.heapPtr = h.heapPtr) (hend : h₁.memSizeAligned = h.memSizeAligned)
    (hlfree : h₁.lfree = h.lfree) :
    ∃ f, (if h.heapPtr + x = h₁.lfree then h₁.raise h₁.fuel else some h₁) =
        some { h₁ with lfree := f } ∧
      ({ h₁ with lfree := f } : Heap).Pointed (l₁ ++ cut size n ++ l₂) ∧
      (h.Lowest (l₁ ++ [⟨n, false⟩] ++ l₂) →
        ({ h₁ with lfree := f } : Heap).Lowest (l₁ ++ cut size n ++ l₂)) := by
  have hself : At Block.span 0 (l₁ ++ [⟨n, false⟩] ++ l₂) x ⟨n, false⟩ := at_middle_self hx
  have hold : ∀ z b, At Block.span 0 (l₁ ++ [⟨n, false⟩] ++ l₂) z b ↔ At Block.span 0 l₁ z b ∨
      (z = x ∧ b = ⟨n, false⟩) ∨ At Block.span (x + 12 + n) l₂ z b := by
    intro z b
    rw [at_middle hx, Nat.add_assoc x]
    rfl
  -- the first block is free behind the request only where it was free in front of it
  have hfirst : ∀ m, freeAt (l₁ ++ cut size n ++ l₂) 0 m → h.lfree = h.heapPtr ∧ x ≠ 0 := by
    intro m hm
    rcases (at_cut hx).mp hm with hz | hz | hz
    · have hbounds := hz.bounds.2
      rw [hx] at hbounds
      have hspan : (⟨m, false⟩ : Block).span = 12 + m := rfl
      exact ⟨hp.first m ((hold _ _).mpr (.inl hz)), by omega⟩
    · exact absurd (at_cut_free hz) (by omega)
    · exact absurd hz.bounds.1 (by omega)
  split_ifs with hmem
  · have H₁' : h₁.Lays (l₁ ++ (cut size n ++ l₂)) := by
      rwa [← List.append_assoc]
    have hlen : (cut size n ++ l₂).length < h₁.fuel := by
      have hlt := H₁'.length_lt
      rw [List.length_append] at hlt
      omega
    obtain ⟨m₁, m₂, hcut, hm₁, hm₂, hraise⟩ :=
      H₁'.raise (by rw [← hmem, hbase, hx]) hlen
    have hlist : l₁ ++ cut size n ++ l₂ = l₁ ++ m₁ ++ m₂ := by
      rw [List.append_assoc, hcut, List.append_assoc]
    refine ⟨_, hraise, ⟨⟨_, rfl, ?_⟩, fun m hm => ?_⟩, fun hl z m hm => ?_⟩
    · rcases m₂ with - | ⟨b, m₂⟩
      · left
        have hextent := H₁.extent
        rw [hlist, List.append_nil] at hextent
        exact hextent
      · refine .inr ⟨b.size, ?_⟩
        have hb : b = ⟨b.size, false⟩ := by
          rw [← hm₂ b (by simp)]
        rw [hlist]
        exact at_append.mpr (.inr (at_cons.mpr (.inl ⟨rfl, hb.symm⟩)))
    · obtain ⟨hf, hne⟩ := hfirst m hm
      rw [← hlfree, ← hmem] at hf
      omega
    · show h₁.heapPtr + stop Block.span 0 (l₁ ++ m₁) ≤ h₁.heapPtr + z
      rw [hlist] at hm
      rcases at_append.mp hm with hz | hz
      · rcases at_append.mp hz with hz | hz
        · -- below the block nothing was free
          have hlz := hl z m ((hold _ _).mpr (.inl hz))
          have hbounds := hz.bounds.2
          rw [hx] at hbounds
          have hspan : (⟨m, false⟩ : Block).span = 12 + m := rfl
          rw [← hlfree, ← hmem] at hlz
          omega
        · exact absurd (hm₁ _ hz.mem) Bool.false_ne_true
      · exact Nat.add_le_add_left hz.bounds.1 _
  · refine ⟨h₁.lfree, rfl, ⟨?_, fun m hm => ?_⟩, fun hl z m hm => ?_⟩
    · obtain ⟨f, hf, hvalid⟩ := hp.valid
      refine ⟨f, by rw [hlfree, hbase]; exact hf, hvalid.imp (fun he => by rw [hend]; exact he) ?_⟩
      rintro ⟨m, hm⟩
      rcases (hold _ _).mp hm with hz | ⟨rfl, -⟩ | hz
      · exact ⟨m, (at_cut hx).mpr (.inl hz)⟩
      · exact absurd (hlfree.trans hf).symm hmem
      · exact ⟨m, (at_cut hx).mpr (.inr (.inr hz))⟩
    · rw [hlfree, hbase]
      exact (hfirst m hm).1
    · show h₁.lfree ≤ h₁.heapPtr + z
      rw [hlfree, hbase]
      rcases (at_cut hx).mp hm with hz | hz | hz
      · exact hl z m ((hold _ _).mpr (.inl hz))
      · have hlx := hl x n hself
        rw [at_cut_free hz]
        omega
      · exact hl z m ((hold _ _).mpr (.inr (.inr hz)))

/-- **A block is found.** -/
theorem Sound.rtMallocTake (S : h.Sound (l₁ ++ [⟨n, false⟩] ++ l₂))
    (hx : stop Block.span 0 l₁ = x) (hdvd : 4 ∣ size) (hpos : 0 < size) (hsize : size ≤ n) :
    ∃ h' l', h.rtMallocTake size x = some (h.heapPtr + x + 12, h') ∧ Changes h l' h' l' ∧
      (∀ y m, usedAt l' y m ↔
        usedAt (l₁ ++ [⟨n, false⟩] ++ l₂) y m ∨ (y = x ∧ m = cutSize size n)) ∧
      (h.Lowest (l₁ ++ [⟨n, false⟩] ++ l₂) → h'.Lowest l') := by
  have hself : At Block.span 0 (l₁ ++ [⟨n, false⟩] ++ l₂) x ⟨n, false⟩ := at_middle_self hx
  have hle : x + n ≤ h.memSizeAligned := S.lays.le hself
  have hbound := S.lays.bound
  have halign := S.lays.align
  have hdvdx := S.lays.dvd_at hself
  obtain ⟨hlays, hframe, hbase, hend, hlfree, hused, hmax⟩ := S.lays.take hx hdvd
  obtain ⟨h₁, hh₁⟩ : ∃ h₁, h₁ = h.take size x := ⟨_, rfl⟩
  rw [← hh₁] at hlays hframe hbase hend hlfree hused hmax
  obtain ⟨f, hif, hpointed, hlowest⟩ := S.pointed.take hx hlays hbase hend hlfree
  have hiff : ∀ y m, usedAt (l₁ ++ cut size n ++ l₂) y m ↔
      usedAt (l₁ ++ [⟨n, false⟩] ++ l₂) y m ∨ (y = x ∧ m = cutSize size n) := by
    intro y m
    have hspan : x + (⟨n, false⟩ : Block).span = x + 12 + n := (Nat.add_assoc _ _ _).symm
    unfold usedAt
    rw [at_cut hx, at_middle hx, at_cut_used, hspan, Block.mk.injEq]
    have hff : ¬ (true = false) := Bool.noConfusion
    tauto
  have hmagic : (heapMem h₁.mem (h.heapPtr + x)).magic = heapMagic := by
    have hm := hlays.magic ((hiff x _).mpr (.inr ⟨rfl, rfl⟩))
    unfold block at hm
    rwa [hbase] at hm
  have hself₁ : ({ h₁ with mem := setMagic (h.heapPtr + x) heapMagic h₁.mem } : Heap) = h₁ := by
    rw [setMagic_self hmagic]
  have hcall : ∀ g : Heap,
      g = { h.take size x with mem := setMagic (h.heapPtr + x) heapMagic (h.take size x).mem } →
      h.rtMallocTake size x =
        (if h.heapPtr + x = g.lfree then g.raise g.fuel else some g).bind fun g =>
          if h.heapPtr + x + 12 + size ≤ g.heapEnd ∧ (h.heapPtr + x + 12) % 4 = 0 ∧
              (h.heapPtr + x) % 4 = 0 then
            some (h.heapPtr + x + 12, g)
          else none := by
    rintro g rfl
    rfl
  have hbytes : usedBytes (l₁ ++ cut size n ++ l₂) =
      usedBytes (l₁ ++ [⟨n, false⟩] ++ l₂) + (12 + cutSize size n) := by
    rw [usedBytes_append, usedBytes_append, usedBytes_append, usedBytes_append, usedBytes_cut,
      usedBytes_free, usedBytes_nil]
    omega
  have hle₁ := hlays.usedBytes_le
  have hcount := S.count
  have hcount₁ : h₁.usedMem = usedBytes (l₁ ++ cut size n ++ l₂) := by
    rw [hused, hbytes, hcount, Nat.mod_eq_of_lt (by omega)]
  have hpeak := S.peak
  refine ⟨{ h₁ with lfree := f }, l₁ ++ cut size n ++ l₂, ?_,
    ⟨⟨hlays.congr rfl rfl rfl, merged_cut S.merged size, hpointed, hcount₁, ?_, fun y m hy => ?_,
      hend ▸ S.large⟩, hbase, hend, hframe⟩, hiff, hlowest⟩
  · rw [hcall h₁ (by rw [← hh₁, hself₁]), hif, Option.bind_some, if_pos]
    refine ⟨?_, by omega, by omega⟩
    show h.heapPtr + x + 12 + size ≤ h₁.heapPtr + (h₁.memSizeAligned + 12)
    omega
  · show h₁.usedMem ≤ h₁.maxMem ∧ h₁.maxMem ≤ h₁.memSizeAligned + 12
    rw [hmax, hend]
    refine ⟨le_max_right _ _, max_le hpeak.2 ?_⟩
    rw [hcount₁]
    omega
  · show y < h₁.memSizeAligned
    rw [hend]
    rcases (hiff y m).mp hy with hy | ⟨rfl, -⟩
    · exact S.inside y m hy
    · omega

/-- **The loop of `rt_malloc`**: the first block that is large enough, and not the last one
where the request would fill it. -/
theorem Sound.rtMallocLoop (S : h.Sound (l₁ ++ l₂)) (hx : stop Block.span 0 l₁ = x)
    (hsize : size ≤ h.memSizeAligned) {fuel : ℕ} (hfuel : l₂.length < fuel) :
    (h.rtMallocLoop size fuel x = some (rtNull, h) ∧
        ∀ y n, At Block.span x l₂ y ⟨n, false⟩ → size ≤ n → h.memSizeAligned ≤ y + size) ∨
      ∃ m₁ m₂ n y, l₂ = m₁ ++ [⟨n, false⟩] ++ m₂ ∧ stop Block.span 0 (l₁ ++ m₁) = y ∧
        size ≤ n ∧ y + size < h.memSizeAligned ∧ h.rtMallocLoop size fuel x = h.rtMallocTake size y := by
  have hbound := S.lays.bound
  have hroom : sub32 h.memSizeAligned size = h.memSizeAligned - size :=
    sub32_of_le hsize (by omega)
  induction l₂ generalizing l₁ x fuel with
  | nil =>
      rcases fuel with - | fuel
      · exact absurd hfuel (Nat.not_lt_zero _)
      left
      have hextent := S.lays.extent
      rw [List.append_nil, hx] at hextent
      unfold Heap.rtMallocLoop
      rw [hroom, if_neg (by omega)]
      exact ⟨rfl, fun y n hy => absurd hy not_at_nil⟩
  | cons b l₂ ih =>
      rcases fuel with - | fuel
      · exact absurd hfuel (Nat.not_lt_zero _)
      have hb : At Block.span 0 (l₁ ++ b :: l₂) x b :=
        at_append.mpr (.inr (at_cons.mpr (.inl ⟨hx.symm, rfl⟩)))
      have hused := S.lays.used_iff hb
      have hle := S.lays.le hb
      have hnext := S.lays.next hb
      have hspan : b.span = 12 + b.size := rfl
      have hsub : sub32 (h.block x).next (x + sizeofStructMem) = b.size := by
        rw [hnext, sub32_of_le (show x + 12 ≤ x + b.span by omega) (by omega)]
        show x + b.span - (x + 12) = b.size
        omega
      unfold Heap.rtMallocLoop
      rw [hroom, hsub, hnext]
      split_ifs with hlt hfits
      · right
        obtain ⟨hfree, hroomy⟩ := hfits
        refine ⟨[], l₂, b.size, x, ?_, by rw [List.append_nil]; exact hx, hroomy, by omega, rfl⟩
        have hbeq : b = ⟨b.size, false⟩ := by
          rw [← hused.mp hfree]
        rw [List.nil_append, ← hbeq]
        rfl
      · have hlist : l₁ ++ b :: l₂ = l₁ ++ [b] ++ l₂ := by rw [List.append_assoc]; rfl
        rw [hlist] at S
        have hx' : stop Block.span 0 (l₁ ++ [b]) = x + b.span := by
          rw [stop_append, stop_cons, stop_nil, hx]
        rcases ih S hx' (Nat.lt_of_succ_lt_succ hfuel) with
          ⟨hnull, hnone⟩ | ⟨m₁, m₂, n, y, rfl, hy, hn, hlast, htake⟩
        · refine .inl ⟨hnull, fun y n hy hn => ?_⟩
          rcases at_cons.mp hy with ⟨rfl, rfl⟩ | hy
          · exact absurd ⟨hused.mpr rfl, hn⟩ hfits
          · exact hnone y n hy hn
        · refine .inr ⟨b :: m₁, m₂, n, y, rfl, ?_, hn, hlast, htake⟩
          rw [← hy, List.append_assoc]
          rfl
      · refine .inl ⟨rfl, fun y n hy _ => ?_⟩
        have hge := hy.bounds.1
        omega

/-- What a request comes to. -/
def roomFor (size : ℕ) : ℕ :=
  if rtAlign size < minSizeAligned then minSizeAligned else rtAlign size

theorem dvd_roomFor (size : ℕ) : 4 ∣ roomFor size := by
  unfold roomFor
  split_ifs
  · decide
  · exact rtAlign_dvd size

theorem le_roomFor (size : ℕ) : 12 ≤ roomFor size ∧ rtAlign size ≤ roomFor size := by
  have h12 : minSizeAligned = 12 := rfl
  unfold roomFor
  split_ifs
  · omega
  · omega

/-- **`rt_malloc`.**  The request is too large, or no free block from `lfree` on will do; or
one of them is taken. -/
theorem Sound.rtMalloc (S : h.Sound l) (size : ℕ) :
    (h.rtMalloc size = some (rtNull, h) ∧
        (size = 0 ∨ h.memSizeAligned < rtAlign size ∨
          ∀ y n, freeAt l y n → h.lfree ≤ h.heapPtr + y → roomFor size ≤ n →
            h.memSizeAligned ≤ y + roomFor size)) ∨
      (size ≠ 0 ∧ rtAlign size ≤ h.memSizeAligned ∧
        ∃ h' l' x n m, h.rtMalloc size = some (h.heapPtr + x + 12, h') ∧ freeAt l x m ∧
          h.lfree ≤ h.heapPtr + x ∧ roomFor size ≤ n ∧ n ≤ m ∧
          x + roomFor size < h.memSizeAligned ∧ Changes h l' h' l' ∧
          (∀ y m, usedAt l' y m ↔ usedAt l y m ∨ (y = x ∧ m = n)) ∧
          (h.Lowest l → h'.Lowest l')) := by
  have hmin := S.large
  have hbound := S.lays.bound
  have h12 : minSizeAligned = 12 := rfl
  by_cases hzero : size = 0
  · left
    unfold Heap.rtMalloc
    rw [if_pos hzero]
    exact ⟨rfl, .inl hzero⟩
  by_cases hlarge : h.memSizeAligned < rtAlign size
  · left
    unfold Heap.rtMalloc
    rw [if_neg hzero]
    dsimp only
    rw [if_pos hlarge]
    exact ⟨rfl, .inr (.inl hlarge)⟩
  have hroom : roomFor size ≤ h.memSizeAligned := by
    unfold roomFor
    split_ifs
    · omega
    · omega
  obtain ⟨f, hf, hvalid⟩ := S.pointed.valid
  -- the blocks from `lfree` on
  obtain ⟨l₁, l₂, rfl, hl₁⟩ : ∃ l₁ l₂, l = l₁ ++ l₂ ∧ stop Block.span 0 l₁ = f := by
    rcases hvalid with rfl | ⟨n, hn⟩
    · exact ⟨l, [], (List.append_nil l).symm, S.lays.extent⟩
    · obtain ⟨l₁, l₂, rfl, hl₁⟩ := hn
      exact ⟨l₁, _, rfl, hl₁⟩
  have hle := le_stop (w := Block.span) f l₂
  have hextent := S.lays.extent
  rw [stop_append, hl₁] at hextent
  have hlen : l₂.length < h.fuel := by
    have hlt := S.lays.length_lt
    rw [List.length_append] at hlt
    omega
  have hcall : h.rtMalloc size = h.rtMallocLoop (roomFor size) h.fuel f := by
    unfold Heap.rtMalloc
    rw [if_neg hzero]
    dsimp only
    rw [if_neg hlarge, hf, sub32_of_le (Nat.le_add_right _ _) (by omega), Nat.add_sub_cancel_left]
    rfl
  rw [hcall]
  rcases S.rtMallocLoop hl₁ hroom hlen with ⟨hnull, hnone⟩ | ⟨m₁, m₂, n, y, rfl, hy, hn, hlast, htake⟩
  · refine .inl ⟨hnull, .inr (.inr fun y n hy hlow hn => ?_)⟩
    rcases at_append.mp hy with hz | hz
    · have hbounds := hz.bounds.2
      have hspan : (⟨n, false⟩ : Block).span = 12 + n := rfl
      omega
    · rw [hl₁] at hz
      exact hnone y n hz hn
  · have hlist : l₁ ++ (m₁ ++ [⟨n, false⟩] ++ m₂) = l₁ ++ m₁ ++ [⟨n, false⟩] ++ m₂ := by
      simp only [List.append_assoc]
    rw [hlist] at S ⊢
    obtain ⟨h', l', htake', hchanges, hused, hlowest⟩ :=
      S.rtMallocTake hy (dvd_roomFor size) (by have := (le_roomFor size).1; omega) hn
    have hfy : f ≤ y := by
      rw [← hy, stop_append, hl₁]
      exact le_stop _ _
    refine .inr ⟨hzero, Nat.le_of_not_lt hlarge, h', l', y, _, n, htake.trans htake',
      at_middle_self hy, by omega, le_cutSize hn, cutSize_le _ _, hlast, hchanges, hused, hlowest⟩

/-! ### What the callers see -/

/-- The bytes of a block are as before. -/
def Untouched (h h' : Heap) (x n : ℕ) : Prop :=
  ∀ i < n, h'.mem (h.heapPtr + x + 12 + i) = h.mem (h.heapPtr + x + 12 + i)

/-- So is the memory beside the heap. -/
def Outside (h h' : Heap) : Prop :=
  ∀ i, i < h.heapPtr ∨ h.heapEnd + 12 ≤ i → h'.mem i = h.mem i

theorem Frame.untouched (hf : Frame l h h') (hx : At Block.span 0 l x b)
    (hle : x + b.size ≤ h.memSizeAligned) : Untouched h h' x b.size := by
  intro i hi
  refine hf.payload hx hle ⟨Nat.le_add_right _ _, ?_⟩
  have hspan : b.span = 12 + b.size := rfl
  omega

theorem Frame.outside (hf : Frame l h h')
    (hle : ∀ x b, At Block.span 0 l x b → x + b.size ≤ h.memSizeAligned) : Outside h h' := by
  intro i hi
  have hend : h.heapEnd = h.heapPtr + (h.memSizeAligned + 12) := rfl
  refine hf i (fun x b hb => ?_) (by omega)
  have hlex := hle x b hb
  omega

/-- A header is read from twelve bytes. -/
theorem Lays.of_mem (H : h.Lays l) {m : Memory}
    (hm : ∀ x b, At Block.span 0 l x b → ∀ i, h.heapPtr + x ≤ i → i < h.heapPtr + x + 12 →
      m i = h.mem i)
    (hend : ∀ i, h.heapEnd ≤ i → i < h.heapEnd + 12 → m i = h.mem i) :
    ({ h with mem := m } : Heap).Lays l := by
  refine ⟨H.row.imp fun p x b hb hx => ?_, H.extent, ?_, H.dvd, H.align, H.bound⟩
  · rw [← hx]
    exact heapMem_congr (hm x b hb)
  · have hlast : heapMem m (h.heapPtr + (h.memSizeAligned + 12)) =
        heapMem h.mem (h.heapPtr + (h.memSizeAligned + 12)) := heapMem_congr hend
    show (heapMem m (h.heapPtr + (h.memSizeAligned + 12))).used ≠ 0
    rw [hlast]
    exact H.last

/-- **What is written into a block in use** leaves the heap in order. -/
theorem Sound.store (S : h.Sound l) (hx : usedAt l x n) {m : Memory}
    (hm : ∀ i, i < h.heapPtr + x + 12 ∨ h.heapPtr + x + 12 + n ≤ i → m i = h.mem i) :
    ({ h with mem := m } : Heap).Sound l := by
  have hle : x + n ≤ h.memSizeAligned := S.lays.le hx
  have hend : h.heapEnd = h.heapPtr + (h.memSizeAligned + 12) := rfl
  have hspan : (⟨n, true⟩ : Block).span = 12 + n := rfl
  refine ⟨S.lays.of_mem (fun y b hb i hi hi' => hm i ?_) fun i hi _ => hm i (by omega), S.merged,
    ⟨S.pointed.valid, S.pointed.first⟩, S.count, S.peak, S.inside, S.large⟩
  have hb12 : b.span = 12 + b.size := rfl
  rcases hx.apart hb with ⟨rfl, -⟩ | hlt | hlt
  · omega
  · omega
  · omega

/-! ### `rt_realloc` -/

/-- The block is cut below `lfree`, and what is cut off does not reach it. -/
def Strands (h : Heap) (rmem newsize : ℕ) : Prop :=
  let ptr := rmem - 12 - h.heapPtr
  let next := (h.block ptr).next
  rtAlign newsize ≤ h.memSizeAligned ∧ ptr + 12 + rtAlign newsize + 24 < next ∧
    h.heapPtr + (ptr + 12 + rtAlign newsize) < h.lfree ∧
      (h.lfree ≠ h.heapPtr + next ∨ next = h.memSizeAligned + 12)

/-- What the callers see of a call that gives them `n` bytes at `x'` for the block at `x`,
with the first `k` bytes of it. -/
structure Gives (h : Heap) (l : List Block) (x : ℕ) (h' : Heap) (l' : List Block) (x' n k : ℕ) :
    Prop where
  sound : h'.Sound l'
  base : h'.heapPtr = h.heapPtr
  size : h'.memSizeAligned = h.memSizeAligned
  used : ∀ y m, usedAt l' y m ↔ (usedAt l y m ∧ y ≠ x) ∨ (y = x' ∧ m = n)
  others : ∀ y m, usedAt l y m → y ≠ x → Untouched h h' y m
  bytes : ∀ i < k, h'.mem (h.heapPtr + x' + 12 + i) = h.mem (h.heapPtr + x + 12 + i)
  outside : Outside h h'
  fresh : x' = x ∨ ∀ m, ¬ usedAt l x' m

/-- **A block is cut**, and what is cut off is joined with what is free behind it. -/
theorem Sound.shrink (S : h.Sound l) (hx : usedAt l x n) (hdvd : 4 ∣ k) (hk : k + 24 < n)
    {h₁ : Heap} (hh₁ : h₁ = { h with
      usedMem := sub32 h.usedMem (n - k), mem := insertMem2 x (x + 12 + k) h }) :
    ∃ h' l', plugHoles (h.heapPtr + (x + 12 + k)) { h₁ with mem := linkMem2 (x + 12 + k) h₁ } =
        some h' ∧ Gives h l x h' l' x k k ∧
      (h.Lowest l → (h.heapPtr + (x + 12 + k) < h.lfree →
        h.lfree = h.heapPtr + (x + 12 + n) ∧ x + 12 + n ≠ h.memSizeAligned + 12) →
        h'.Lowest l') := by
  obtain ⟨l₁, l₂, rfl, hl₁⟩ := cut_at hx
  have hle : x + n ≤ h.memSizeAligned := S.lays.le hx
  have hbound := S.lays.bound
  have hrow := (row_append.mp (row_append.mp S.lays.row).1).2
  rw [hl₁] at hrow
  have hheader : h.block x = Block.header ⟨n, true⟩ (final Block.span 0 0 l₁) x := hrow.1
  have hnext : (h.block x).next = x + (12 + n) := S.lays.next hx
  obtain ⟨hptr, hptr2⟩ := heapMem_insertMem2 (h := h) (show x + 12 ≤ x + 12 + k by omega)
    (by omega)
  have hfst : heapMem (insertMem2 x (x + 12 + k) h) (h.heapPtr + stop Block.span 0 l₁) =
      Block.header ⟨k, true⟩ (final Block.span 0 0 l₁) (stop Block.span 0 l₁) := by
    rw [hl₁, hptr, hheader, Nat.add_assoc]
    rfl
  have hsnd : heapMem (insertMem2 x (x + 12 + k) h)
      (h.heapPtr + (stop Block.span 0 l₁ + 12 + k)) =
        Block.header ⟨n - k - 12, false⟩ (stop Block.span 0 l₁)
          (stop Block.span 0 l₁ + 12 + k) := by
    rw [hl₁, hptr2, hnext]
    have hspan : (⟨n - k - 12, false⟩ : Block).span = 12 + (n - k - 12) := rfl
    unfold Block.header
    rw [hspan]
    congr 1
    omega
  obtain ⟨hlays, hframe⟩ := S.lays.split hdvd (show k + 12 ≤ n by omega) hfst hsnd
    (fun i h₁ h₂ => by
      rw [hl₁] at h₁ h₂
      exact insertMem2_of_apart h₁ h₂)
  rw [hl₁] at hlays hframe
  obtain ⟨lm, hlm⟩ : ∃ lm, lm = l₁ ++ [⟨k, true⟩, ⟨n - k - 12, false⟩] ++ l₂ := ⟨_, rfl⟩
  rw [← hlm] at hlays hframe
  obtain ⟨h₂, hh₂⟩ : ∃ h₂ : Heap, h₂ = { h₁ with mem := linkMem2 (x + 12 + k) h₁ } := ⟨_, rfl⟩
  have hbase : h₂.heapPtr = h.heapPtr := by rw [hh₂, hh₁]
  have hsize : h₂.memSizeAligned = h.memSizeAligned := by rw [hh₂, hh₁]
  have hlfree : h₂.lfree = h.lfree := by rw [hh₂, hh₁]
  have hmem₂ : h₂.mem =
      linkMem2 (x + 12 + k) { h with mem := insertMem2 x (x + 12 + k) h } := by
    rw [hh₂]
    exact linkMem2_congr (by rw [hh₁]) (by rw [hh₁]) (by rw [hh₁]) _
  have hlays₂ : h₂.Lays lm := hlays.congr hbase hsize hmem₂
  have hframe₂ : Frame lm h h₂ := hframe.congr hmem₂
  -- the blocks with the one that is cut
  have hold : ∀ z b, At Block.span 0 (l₁ ++ [⟨n, true⟩] ++ l₂) z b ↔ At Block.span 0 l₁ z b ∨
      (z = x ∧ b = ⟨n, true⟩) ∨ At Block.span (x + 12 + n) l₂ z b := by
    intro z b
    rw [at_middle hl₁, Nat.add_assoc x]
    rfl
  have hmid : ∀ z b, At Block.span 0 lm z b ↔ At Block.span 0 l₁ z b ∨ (z = x ∧ b = ⟨k, true⟩) ∨
      (z = x + 12 + k ∧ b = ⟨n - k - 12, false⟩) ∨ At Block.span (x + 12 + n) l₂ z b := by
    intro z b
    have hsplit : lm = l₁ ++ [⟨k, true⟩] ++ ([⟨n - k - 12, false⟩] ++ l₂) := by
      rw [hlm]
      simp
    have hspan₁ : x + (⟨k, true⟩ : Block).span = x + 12 + k := (Nat.add_assoc _ _ _).symm
    have hspan₂ : x + 12 + k + (⟨n - k - 12, false⟩ : Block).span = x + 12 + n := by
      show x + 12 + k + (12 + (n - k - 12)) = _
      omega
    rw [hsplit, at_middle hl₁, at_append, at_cons, stop_cons, stop_nil, or_iff_left not_at_nil,
      hspan₁, hspan₂]
  have hplug : lm = l₁ ++ [⟨k, true⟩] ++ [⟨n - k - 12, false⟩] ++ l₂ := by
    rw [hlm]
    simp
  have hx₂ : stop Block.span 0 (l₁ ++ [⟨k, true⟩]) = x + 12 + k := by
    rw [stop_append, stop_cons, stop_nil, hl₁]
    exact (Nat.add_assoc _ _ _).symm
  obtain ⟨hm₁, hm₂, -, -⟩ := S.merged.middle
  have hm₁' : Merged (l₁ ++ [⟨k, true⟩]) := by
    have hm := merged_middle (b := ⟨k, true⟩) hm₁ List.isChain_nil (fun _ _ => .inr rfl)
      fun c hc => nomatch hc
    rwa [List.append_nil] at hm
  have hpointed : h₂.Pointed lm := by
    refine ⟨?_, fun m hm => ?_⟩
    · obtain ⟨f, hf, hvalid⟩ := S.pointed.valid
      refine ⟨f, by rw [hlfree, hbase]; exact hf, hvalid.imp (fun he => by rw [hsize]; exact he) ?_⟩
      rintro ⟨m, hm⟩
      rcases (hold _ _).mp hm with hz | ⟨-, hz⟩ | hz
      · exact ⟨m, (hmid _ _).mpr (.inl hz)⟩
      · cases hz
      · exact ⟨m, (hmid _ _).mpr (.inr (.inr (.inr hz)))⟩
    · rw [hlfree, hbase]
      rcases (hmid _ _).mp hm with hz | ⟨-, hz⟩ | ⟨hz, -⟩ | hz
      · exact S.pointed.first m ((hold _ _).mpr (.inl hz))
      · cases hz
      · omega
      · exact absurd hz.bounds.1 (by omega)
  rw [hplug] at hlays₂
  obtain ⟨h', l', hcall, hj, hmerged, hnearly⟩ := hlays₂.plugHoles hx₂ hm₁' hm₂
  rw [← hplug] at hj hnearly
  rw [hbase, hh₂] at hcall
  have hframe' : Frame lm h h' := hframe₂.trans hj.frame hbase hsize
  have hbytes : usedBytes (l₁ ++ [⟨n, true⟩] ++ l₂) = usedBytes lm + (n - k) := by
    rw [hplug, usedBytes_append, usedBytes_append, usedBytes_append, usedBytes_append,
      usedBytes_append, usedBytes_used, usedBytes_used, usedBytes_free, usedBytes_nil]
    omega
  have hcount := S.count
  have hmax := S.lays.usedBytes_le
  have hpeak := S.peak
  have hcount₂ : h₂.usedMem = h.usedMem - (n - k) ∧ h₂.maxMem = h.maxMem := by
    rw [hh₂, hh₁]
    exact ⟨sub32_of_le (by omega) (by omega), rfl⟩
  have hne : ∀ {z b}, At Block.span 0 l₁ z b ∨ At Block.span (x + 12 + n) l₂ z b → z ≠ x := by
    rintro z b (hz | hz)
    · have hbounds := hz.bounds.2
      have hspan : b.span = 12 + b.size := rfl
      omega
    · have hbounds := hz.bounds.1
      omega
  have hiff : ∀ y m, usedAt l' y m ↔
      (usedAt (l₁ ++ [⟨n, true⟩] ++ l₂) y m ∧ y ≠ x) ∨ (y = x ∧ m = k) := by
    intro y m
    rw [hj.used]
    unfold usedAt
    rw [hmid, hold]
    constructor
    · rintro (hz | ⟨hz, hb⟩ | ⟨-, hb⟩ | hz)
      · exact .inl ⟨.inl hz, hne (.inl hz)⟩
      · exact .inr ⟨hz, (Block.mk.inj hb).1⟩
      · cases hb
      · exact .inl ⟨.inr (.inr hz), hne (.inr hz)⟩
    · rintro (⟨hz | ⟨hz, -⟩ | hz, hyx⟩ | ⟨rfl, rfl⟩)
      · exact .inl hz
      · exact absurd hz hyx
      · exact .inr (.inr (.inr hz))
      · exact .inr (.inl ⟨rfl, rfl⟩)
  refine ⟨h', l', hcall, ⟨⟨hj.lays, hmerged, hj.pointed hpointed, ?_, ?_, fun y m hy => ?_, ?_⟩,
    hj.base.trans hbase, hj.size.trans hsize, hiff, fun y m hy hyx => ?_, ?_, ?_, .inl rfl⟩,
    fun hl hnot => ?_⟩
  · rw [hj.count.1, hcount₂.1, hj.bytes]
    omega
  · rw [hj.count.1, hj.count.2, hcount₂.1, hcount₂.2, hj.size, hsize]
    exact ⟨(Nat.sub_le _ _).trans hpeak.1, hpeak.2⟩
  · rw [hj.size, hsize]
    rcases (hiff y m).mp hy with ⟨hy, -⟩ | ⟨rfl, -⟩
    · exact S.inside y m hy
    · omega
  · rw [hj.size, hsize]
    exact S.large
  · have hym : At Block.span 0 lm y ⟨m, true⟩ := by
      rcases (hold _ _).mp hy with hz | ⟨hz, -⟩ | hz
      · exact (hmid _ _).mpr (.inl hz)
      · exact absurd hz hyx
      · exact (hmid _ _).mpr (.inr (.inr (.inr hz)))
    exact hframe'.untouched hym (S.lays.le hy)
  · exact hframe'.untouched ((hmid x ⟨k, true⟩).mpr (.inr (.inl ⟨rfl, rfl⟩)))
      (show x + k ≤ h.memSizeAligned by omega)
  · refine hframe'.outside fun z b hb => ?_
    rcases (hmid _ _).mp hb with hz | ⟨rfl, rfl⟩ | ⟨rfl, rfl⟩ | hz
    · exact S.lays.le ((hold _ _).mpr (.inl hz))
    · show z + k ≤ _
      omega
    · show x + 12 + k + (n - k - 12) ≤ _
      omega
    · exact S.lays.le ((hold _ _).mpr (.inr (.inr hz)))
  · -- the lowest free block
    have hothers : ∀ z m, freeAt lm z m → z ≠ x + 12 + k → h₂.lfree ≤ h₂.heapPtr + z := by
      intro z m hm hzx
      rw [hlfree, hbase]
      rcases (hmid _ _).mp hm with hz | ⟨-, hz⟩ | ⟨hz, -⟩ | hz
      · exact hl z m ((hold _ _).mpr (.inl hz))
      · cases hz
      · exact absurd hz hzx
      · exact hl z m ((hold _ _).mpr (.inr (.inr hz)))
    rcases Nat.lt_or_ge (h.heapPtr + (x + 12 + k)) h.lfree with hlt | hge
    · obtain ⟨hbehind, hend⟩ := hnot hlt
      refine hnearly ⟨hothers, n - k - 12, ?_⟩
      obtain ⟨f, hf, hvalid⟩ := S.pointed.valid
      obtain rfl : f = x + 12 + n := by omega
      obtain ⟨j, hj⟩ := hvalid.resolve_left hend
      have hnn : x + 12 + k + 12 + (n - k - 12) = x + 12 + n := by omega
      refine ⟨j, (hmid _ _).mpr (.inr (.inr (.inl ⟨rfl, rfl⟩))), ?_, ?_⟩
      · rw [hlfree, hbase, hnn]
        exact hbehind
      · rw [hnn]
        rcases (hold _ _).mp hj with hz | ⟨hz, -⟩ | hz
        · exact (hmid _ _).mpr (.inl hz)
        · omega
        · exact (hmid _ _).mpr (.inr (.inr (.inr hz)))
    · refine hj.lowest fun z m hm => ?_
      by_cases hzx : z = x + 12 + k
      · rw [hlfree, hbase, hzx]
        exact hge
      · exact hothers z m hm hzx

/-- **A block is moved.** -/
theorem Sound.move (S : h.Sound l) (hx : usedAt l x n)
    {h₁ : Heap} {l₁ : List Block} {m : ℕ} (hch : Changes h l₁ h₁ l₁)
    (hused : ∀ z j, usedAt l₁ z j ↔ usedAt l z j ∨ (z = y ∧ j = m)) (hm : k ≤ m)
    (hfresh : ∀ j, ¬ usedAt l y j) :
    ∃ h' l', Heap.rtFree (h.heapPtr + x + 12) { h₁ with
        mem := rtMemcpy (h.heapPtr + y + 12) (h.heapPtr + x + 12) (min n k) h₁.mem } = some h' ∧
      Gives h l x h' l' y m (min n k) ∧ (h₁.Lowest l₁ → h'.Lowest l') := by
  have hy : usedAt l₁ y m := (hused y m).mpr (.inr ⟨rfl, rfl⟩)
  have hx₁ : usedAt l₁ x n := (hused x n).mpr (.inl hx)
  have hyx : y ≠ x := fun he => hfresh n (he ▸ hx)
  have hlex : x + n ≤ h.memSizeAligned := S.lays.le hx
  have hley : y + m ≤ h.memSizeAligned := hch.size ▸ hch.sound.lays.le hy
  have hspanx : (⟨n, true⟩ : Block).span = 12 + n := rfl
  have hspany : (⟨m, true⟩ : Block).span = 12 + m := rfl
  have hapart : x + 12 + n ≤ y ∨ y + 12 + m ≤ x := by
    rcases hx₁.apart hy with ⟨he, -⟩ | hlt | hlt
    · exact absurd he.symm hyx
    · exact .inl (by omega)
    · exact .inr (by omega)
  obtain ⟨mem, hmem⟩ : ∃ mem, mem = rtMemcpy (h.heapPtr + y + 12) (h.heapPtr + x + 12) (min n k)
    h₁.mem := ⟨_, rfl⟩
  have hcopy : mem = copy (h.heapPtr + y + 12) (h.heapPtr + x + 12) (min n k) h₁.mem := by
    rw [hmem, rtMemcpy_eq_copyUp]
    exact copyUp_eq_copy (by omega)
  have hbase₁ := hch.base
  have S₂ : ({ h₁ with mem := mem } : Heap).Sound l₁ := hch.sound.store hy fun i hi => by
    rw [hcopy]
    rw [hbase₁] at hi
    exact copy_of_apart (by omega)
  obtain ⟨h', l', hcall, hch', hused', hlow'⟩ := S₂.rtFree hx₁
  have hcall' : Heap.rtFree (h.heapPtr + x + 12) { h₁ with mem := mem } = some h' := by
    rw [← hbase₁]
    exact hcall
  have hbase' : h'.heapPtr = h.heapPtr := hch'.base.trans hbase₁
  have hsize' : h'.memSizeAligned = h.memSizeAligned := hch'.size.trans hch.size
  have hle₁ : ∀ z b, At Block.span 0 l₁ z b → z + b.size ≤ h.memSizeAligned := fun z b hb =>
    hch.size ▸ hch.sound.lays.le hb
  -- a block in use besides the one that is freed
  have hkeep : ∀ z j, usedAt l₁ z j → ∀ i < j,
      h'.mem (h.heapPtr + z + 12 + i) = mem (h.heapPtr + z + 12 + i) := by
    intro z j hz i hi
    have hunt := hch'.frame.untouched hz (S₂.lays.le hz) i hi
    have hbase₂ : ({ h₁ with mem := mem } : Heap).heapPtr = h.heapPtr := hbase₁
    rw [hbase₂] at hunt
    exact hunt
  rw [hmem] at hcall'
  refine ⟨h', l', hcall', ⟨hch'.sound, hbase', hsize', fun z j => ?_, fun z j hz hzx i hi => ?_,
    fun i hi => ?_, fun i hi => ?_, .inr hfresh⟩, fun hl => hlow' hl⟩
  · rw [hused', hused]
    constructor
    · rintro ⟨hz | hz, hzx⟩
      · exact .inl ⟨hz, hzx⟩
      · exact .inr hz
    · rintro (⟨hz, hzx⟩ | ⟨rfl, rfl⟩)
      · exact ⟨.inl hz, hzx⟩
      · exact ⟨.inr ⟨rfl, rfl⟩, hyx⟩
  · have hz₁ : usedAt l₁ z j := (hused z j).mpr (.inl hz)
    have hspanz : (⟨j, true⟩ : Block).span = 12 + j := rfl
    have hzy : z ≠ y := fun he => hfresh j (he ▸ hz)
    rw [hkeep z j hz₁ i hi, hcopy, copy_of_apart]
    · exact hch.frame.untouched hz₁ (hle₁ _ _ hz₁) i hi
    · rcases hz₁.apart hy with ⟨he, -⟩ | hlt | hlt
      · exact absurd he hzy
      · omega
      · omega
  · rw [hkeep y m hy i (by omega), hcopy]
    have hin : h.heapPtr + y + 12 ≤ h.heapPtr + y + 12 + i ∧
        h.heapPtr + y + 12 + i < h.heapPtr + y + 12 + min n k := by omega
    show (if _ then _ else _) = _
    rw [if_pos hin, Nat.add_sub_cancel_left]
    exact hch.frame.untouched hx₁ (hle₁ _ _ hx₁) i (show i < n by omega)
  · have hend : h.heapEnd = h.heapPtr + (h.memSizeAligned + 12) := rfl
    have hend₂ : ({ h₁ with mem := mem } : Heap).heapEnd = h.heapEnd := by
      show h₁.heapPtr + (h₁.memSizeAligned + 12) = _
      rw [hbase₁, hch.size]
      rfl
    have hout := hch'.frame.outside (fun z b hb => S₂.lays.le hb) i (by rw [hend₂]; exact hbase₁ ▸ hi)
    rw [hout]
    show mem i = _
    rw [hcopy, copy_of_apart (by omega)]
    exact hch.frame.outside hle₁ i hi

/-- What `rt_realloc` does with a block in use. -/
theorem Sound.rtRealloc_eq (S : h.Sound l) (hx : usedAt l x n) {newsize : ℕ}
    (hk : k = rtAlign newsize) :
    h.rtRealloc (h.heapPtr + x + 12) newsize =
      if h.memSizeAligned < k then some (rtNull, h)
      else if n = k then some (h.heapPtr + x + 12, h)
      else if k + sizeofStructMem + minSizeAligned < n then
        (plugHoles (h.heapPtr + (x + sizeofStructMem + k))
          { h with usedMem := sub32 h.usedMem (n - k),
                   mem := linkMem2 (x + sizeofStructMem + k) { h with
                     usedMem := sub32 h.usedMem (n - k),
                     mem := insertMem2 x (x + sizeofStructMem + k) h } }).map
          fun h' => (h.heapPtr + x + 12, h')
      else
        (h.rtMalloc k).bind fun r =>
          if r.1 = rtNull then some r
          else (Heap.rtFree (h.heapPtr + x + 12) { r.2 with
            mem := rtMemcpy r.1 (h.heapPtr + x + 12) (if n < k then n else k) r.2.mem }).map
              fun h' => (r.1, h') := by
  have hle : x + n ≤ h.memSizeAligned := S.lays.le hx
  have hlt := S.inside x n hx
  have hbound := S.lays.bound
  have hend : h.heapEnd = h.heapPtr + (h.memSizeAligned + 12) := rfl
  have hnext : (h.block x).next = x + (12 + n) := S.lays.next hx
  have hnull : rtNull = 0 := rfl
  have h12 : sizeofStructMem = 12 := rfl
  have hptr : sub32 (h.heapPtr + x) h.heapPtr = x := by
    rw [sub32_of_le (Nat.le_add_right _ _) (by omega), Nat.add_sub_cancel_left]
  have hroom : sub32 (sub32 (h.block x).next x) sizeofStructMem = n := by
    rw [hnext, sub32_of_le (Nat.le_add_right _ _) (by omega), Nat.add_sub_cancel_left,
      sub32_of_le (by omega) (by omega), h12, Nat.add_sub_cancel_left]
  unfold Heap.rtRealloc
  dsimp only
  rw [← hk]
  refine if_congr Iff.rfl rfl ?_
  rw [if_neg (by omega), if_neg (by omega),
    show h.heapPtr + x + 12 - sizeofStructMem = h.heapPtr + x from Nat.add_sub_cancel _ _, hptr,
    show heapMem h.mem (h.heapPtr + x) = h.block x from rfl, hroom]

/-- **`rt_realloc`.** -/
theorem Sound.rtRealloc (S : h.Sound l) (hx : usedAt l x n) (newsize : ℕ) :
    h.rtRealloc (h.heapPtr + x + 12) newsize = some (rtNull, h) ∨
      ∃ h' l' y m, h.rtRealloc (h.heapPtr + x + 12) newsize = some (h.heapPtr + y + 12, h') ∧
        rtAlign newsize ≤ m ∧ Gives h l x h' l' y m (min n (rtAlign newsize)) ∧
        (h.Lowest l → ¬ h.Strands (h.heapPtr + x + 12) newsize → h'.Lowest l') := by
  have hle : x + n ≤ h.memSizeAligned := S.lays.le hx
  have hbound := S.lays.bound
  have hnext : (h.block x).next = x + (12 + n) := S.lays.next hx
  have hnull : rtNull = 0 := rfl
  obtain ⟨k, hk⟩ : ∃ k, k = rtAlign newsize := ⟨_, rfl⟩
  have hdvd : 4 ∣ k := hk ▸ rtAlign_dvd newsize
  rw [← hk, S.rtRealloc_eq hx hk]
  by_cases hlarge : h.memSizeAligned < k
  · exact .inl (if_pos hlarge)
  rw [if_neg hlarge]
  by_cases hsame : n = k
  · right
    rw [if_pos hsame]
    refine ⟨h, l, x, n, rfl, hsame.ge, ⟨S, rfl, rfl, fun y m => ⟨fun hy => ?_, ?_⟩,
      fun _ _ _ _ _ _ => rfl, fun _ _ => rfl, fun _ _ => rfl, .inl rfl⟩, fun hl _ => hl⟩
    · have hspan : ∀ i, (⟨i, true⟩ : Block).span = 12 + i := fun _ => rfl
      rcases hy.apart hx with ⟨rfl, he⟩ | hap | hap
      · exact .inr ⟨rfl, (Block.mk.inj he).1⟩
      · rw [hspan] at hap
        exact .inl ⟨hy, by omega⟩
      · rw [hspan] at hap
        exact .inl ⟨hy, by omega⟩
    · rintro (⟨hy, -⟩ | ⟨rfl, rfl⟩)
      · exact hy
      · exact hx
  rw [if_neg hsame]
  by_cases hcut : k + 24 < n
  · right
    rw [if_pos (show k + sizeofStructMem + minSizeAligned < n from hcut)]
    obtain ⟨h', l', hplug, hgives, hlow⟩ := S.shrink hx hdvd hcut rfl
    refine ⟨h', l', x, k, ?_, le_rfl, ?_, fun hl hnot => hlow hl fun hbelow => ?_⟩
    · rw [hplug]
      rfl
    · rw [min_eq_right (by omega : k ≤ n)]
      exact hgives
    · have hptr' : h.heapPtr + x + 12 - 12 - h.heapPtr = x := by omega
      unfold Strands at hnot
      dsimp only at hnot
      rw [hptr', hnext, ← hk] at hnot
      by_contra hne
      refine hnot ⟨Nat.le_of_not_lt hlarge, by omega, hbelow, ?_⟩
      by_contra hboth
      rw [not_or, not_not] at hboth
      exact hne ⟨by omega, by omega⟩
  · rw [if_neg (show ¬ k + sizeofStructMem + minSizeAligned < n from hcut)]
    have hkk : rtAlign k = k := by
      unfold rtAlign
      omega
    have hminnk : (if n < k then n else k) = min n k := by
      split_ifs
      · omega
      · omega
    rcases S.rtMalloc k with ⟨hnone, -⟩ |
      ⟨-, -, h₁, l₁, y, m, j, hsome, hfree, -, hroomy, -, -, hch, hused, hlow⟩
    · left
      rw [hnone, Option.bind_some, if_pos rfl]
    · right
      have hkm : k ≤ m := by
        have hle' := (le_roomFor k).2
        omega
      obtain ⟨h', l', hfreed, hgives, hlow'⟩ :=
        S.move hx hch hused hkm (freeAt_fresh hfree)
      refine ⟨h', l', y, m, ?_, hkm, hgives, fun hl _ => hlow' (hlow hl)⟩
      rw [hsome, Option.bind_some]
      dsimp only
      rw [if_neg (by omega), hminnk, hfreed]
      rfl

/-! ### Blocks that are stranded -/

/-- Where a block ends in front of `heap_end`, another one begins. -/
theorem Lays.behind (H : h.Lays l) {u : Bool} (hx : At Block.span 0 l x ⟨k, u⟩)
    (hlt : x + 12 + k < h.memSizeAligned + 12) : ∃ b, At Block.span 0 l (x + 12 + k) b := by
  obtain ⟨y, b, hb, hle, hlt'⟩ := exists_at_of_lt (Nat.zero_le _) (hlt.trans_eq H.extent.symm)
  have hspan : (⟨k, u⟩ : Block).span = 12 + k := rfl
  have hspan' : b.span = 12 + b.size := rfl
  rcases hx.apart hb with ⟨rfl, rfl⟩ | hap | hap
  · omega
  · obtain rfl : y = x + 12 + k := by omega
    exact ⟨b, hb⟩
  · omega

/-- **The heap at the beginning** is one free block. -/
theorem sound_init {beginAddr endAddr : ℕ} {m : Memory}
    (hi : rtSystemHeapInit beginAddr endAddr m = some h) (haddr : endAddr < 2 ^ 32)
    (hlarge : 12 ≤ h.memSizeAligned) :
    h.Sound [⟨h.memSizeAligned, false⟩] ∧ h.Lowest [⟨h.memSizeAligned, false⟩] := by
  unfold rtSystemHeapInit at hi
  dsimp only at hi
  have h24 : 2 * sizeofStructMem = 24 := rfl
  have h12 : sizeofStructMem = 12 := rfl
  split_ifs at hi with hfit
  obtain ⟨a, ha⟩ : ∃ a, a = rtAlign beginAddr := ⟨_, rfl⟩
  obtain ⟨n, hn⟩ : ∃ n, n = rtAlignDown endAddr - a - 2 * sizeofStructMem := ⟨_, rfl⟩
  rw [← ha] at hi hfit
  rw [← hn, h12] at hi
  have hdown : rtAlignDown endAddr ≤ endAddr ∧ 4 ∣ rtAlignDown endAddr :=
    ⟨Nat.div_mul_le_self endAddr 4, Nat.dvd_mul_left 4 _⟩
  have hdvd : 4 ∣ a := ha ▸ rtAlign_dvd beginAddr
  obtain ⟨m₁, hm₁⟩ : ∃ m₁, m₁ = setUsed a 0 (setPrev a 0 (setNext a (n + 12)
    (setMagic a heapMagic m))) := ⟨_, rfl⟩
  obtain ⟨m₂, hm₂⟩ : ∃ m₂, m₂ = setPrev (a + (n + 12)) (n + 12) (setNext (a + (n + 12)) (n + 12)
    (setUsed (a + (n + 12)) 1 (setMagic (a + (n + 12)) heapMagic m₁))) := ⟨_, rfl⟩
  rw [← hm₁, ← hm₂] at hi
  obtain rfl := Option.some.inj hi
  have hn' : 12 ≤ n := hlarge
  have hlt : n + 12 < 256 ^ 4 := by omega
  have hfirst : heapMem m₂ a = Block.header ⟨n, false⟩ 0 0 := by
    have hsame : heapMem m₂ a = heapMem m₁ a := heapMem_congr fun i _ _ => by
      rw [hm₂, setPrev_of_apart (by omega), setNext_of_apart (by omega),
        setUsed_of_apart (by omega), setMagic_of_apart (by omega)]
    rw [hsame, hm₁, heapMem_setUsed (by decide), heapMem_setPrev (by decide), heapMem_setNext hlt,
      heapMem_setMagic (by decide), Nat.add_comm n]
    unfold Block.header
    rw [Nat.zero_add]
    rfl
  have hlast : (heapMem m₂ (a + (n + 12))).used = 1 := by
    rw [hm₂, heapMem_setPrev hlt, heapMem_setNext hlt, heapMem_setUsed (by decide)]
  have hspan : (⟨n, false⟩ : Block).span = 12 + n := rfl
  have hat : ∀ {x k u}, At Block.span 0 [(⟨n, false⟩ : Block)] x ⟨k, u⟩ → x = 0 ∧ u = false := by
    intro x k u hx
    rcases at_cons.mp hx with ⟨hx, hb⟩ | hx
    · exact ⟨hx, (Block.mk.inj hb).2⟩
    · exact absurd hx not_at_nil
  refine ⟨⟨⟨⟨hfirst, trivial⟩, ?_, ?_, fun b hb => ?_, hdvd, ?_⟩, List.isChain_singleton _,
    ⟨⟨0, rfl, .inr ⟨n, at_cons.mpr (.inl ⟨rfl, rfl⟩)⟩⟩, fun _ _ => rfl⟩, rfl,
    ⟨le_rfl, Nat.zero_le _⟩, fun x k hx => Bool.noConfusion (hat hx).2, hn'⟩, fun x k hx => ?_⟩
  · rw [stop_cons, stop_nil, hspan]
    show 0 + (12 + n) = n + 12
    omega
  · show (heapMem m₂ (a + (n + 12))).used ≠ 0
    rw [hlast]
    exact Nat.one_ne_zero
  · obtain rfl := List.mem_singleton.mp hb
    show 4 ∣ n
    omega
  · show a + n + 24 ≤ 2 ^ 32
    omega
  · exact Nat.le_add_right _ _

end Heap

end DolphinNote
