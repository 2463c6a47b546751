/-
DolphinNote/HeapRuns.lean

Runs of the heap: threads ask for memory, write what they hold, and give it back.

* `heapStep` is a call, or a byte that is written; `Allowed` is what is asked of
  the callers: they give back and write only what they hold, and ask for less
  than 2^32 - 3 bytes.
* `heap_progress`: no allowed call fails an assertion or hangs.
* `heap_simulated`: the runs are runs of an allocator (`Arena`).
* `heap_in_order`, `heap_empty`: what the headers and the counters say.
* `malloc_null_iff`: when a request fails.

A call is one step.  `rt_malloc` and `rt_free` hold `heap_sem` while they work on the blocks;
`rt_realloc` gives it back before it allocates a larger block, copies and frees the old one,
and `rt_calloc` before it fills what it has got.  There other calls can come in between on
the board, which the runs leave out.
-/
import DolphinNote.Arena
import DolphinNote.HeapCalls
import DolphinNote.History

namespace DolphinNote

open Bytes Rows Transition

/-! ### Calls -/

/-- What a thread does with the heap. -/
inductive HeapCall
  | malloc (size : ℕ)
  | calloc (count size : ℕ)
  | realloc (rmem newsize : ℕ)
  | free (rmem : ℕ)
  | write (rmem i : ℕ) (c : UInt8)

/-- The heap, what the threads hold (how much they have asked for, by the pointers), and
what the last call has returned. -/
structure HeapUse where
  heap : Heap
  held : ℕ → Option ℕ
  ret : ℕ

namespace Heap

/-- `size` bytes at `p` are held, unless that is `RT_NULL`. -/
def gain (p size : ℕ) (held : ℕ → Option ℕ) : ℕ → Option ℕ :=
  if p = rtNull then held else Function.update held p (some size)

/-- What was held at `rmem` is held at `p`, unless that is `RT_NULL`. -/
def exchange (rmem p size : ℕ) (held : ℕ → Option ℕ) : ℕ → Option ℕ :=
  if p = rtNull then held else Function.update (Function.update held rmem none) p (some size)

/-- One call, or one byte. -/
def heapStep (s : HeapUse) : HeapCall → Option HeapUse
  | .malloc size => (s.heap.rtMalloc size).map fun (p, h) => ⟨h, gain p size s.held, p⟩
  | .calloc count size =>
      (s.heap.rtCalloc count size).map fun (p, h) => ⟨h, gain p (count * size) s.held, p⟩
  | .realloc rmem newsize =>
      (s.heap.rtRealloc rmem newsize).map fun (p, h) => ⟨h, exchange rmem p newsize s.held, p⟩
  | .free rmem =>
      (s.heap.rtFree rmem).map fun h => ⟨h, Function.update s.held rmem none, rtNull⟩
  | .write rmem i c =>
      some { s with heap := { s.heap with mem := Function.update s.heap.mem (rmem + i) c } }

/-- What the callers keep to. -/
def Allowed (s : HeapUse) : HeapCall → Prop
  | .malloc size => size ≤ 2 ^ 32 - 4
  | .calloc count size => count * size ≤ 2 ^ 32 - 4
  | .realloc rmem newsize => newsize ≤ 2 ^ 32 - 4 ∧ (rmem = rtNull ∨ (s.held rmem).isSome)
  | .free rmem => rmem = rtNull ∨ (s.held rmem).isSome
  | .write rmem i _ => i < (s.held rmem).getD 0

instance (s : HeapUse) : ∀ e, Decidable (Allowed s e)
  | .malloc size => inferInstanceAs (Decidable (size ≤ 2 ^ 32 - 4))
  | .calloc count size => inferInstanceAs (Decidable (count * size ≤ 2 ^ 32 - 4))
  | .realloc rmem newsize =>
      inferInstanceAs (Decidable (newsize ≤ 2 ^ 32 - 4 ∧ (rmem = rtNull ∨ (s.held rmem).isSome)))
  | .free rmem => inferInstanceAs (Decidable (rmem = rtNull ∨ (s.held rmem).isSome))
  | .write rmem i _ => inferInstanceAs (Decidable (i < (s.held rmem).getD 0))

/-- The call strands the block it cuts off. -/
def Stranding (s : HeapUse) : HeapCall → Prop
  | .realloc rmem newsize => rmem ≠ rtNull ∧ s.heap.Strands rmem newsize
  | _ => False

instance (h : Heap) (rmem newsize : ℕ) : Decidable (Strands h rmem newsize) :=
  inferInstanceAs (Decidable (_ ∧ _ ∧ _ ∧ (_ ∨ _)))

instance (s : HeapUse) : ∀ e, Decidable (Stranding s e)
  | .realloc rmem newsize =>
      inferInstanceAs (Decidable (rmem ≠ rtNull ∧ s.heap.Strands rmem newsize))
  | .malloc _ => .isFalse id
  | .calloc _ _ => .isFalse id
  | .free _ => .isFalse id
  | .write _ _ _ => .isFalse id

/-- The heap in front of the first call. -/
def fresh (h : Heap) : HeapUse := ⟨h, fun _ => none, rtNull⟩

/-! ### Objects -/

/-- What the threads hold, with its bytes. -/
def view (s : HeapUse) : Arena.Objects UInt8 :=
  fun p => (s.held p).map fun size => read size s.heap.mem p

/-- What a call does to it. -/
def effects (e : HeapCall) (s' : HeapUse) : List (Arena.Effect UInt8) :=
  match e with
  | .malloc size => if s'.ret = rtNull then [] else [.take s'.ret (read size s'.heap.mem s'.ret)]
  | .calloc count size =>
      if s'.ret = rtNull then [] else [.take s'.ret (List.replicate (count * size) 0)]
  | .realloc rmem newsize =>
      if s'.ret = rtNull then []
      else if rmem = rtNull then [.take s'.ret (read newsize s'.heap.mem s'.ret)]
      else [.change rmem s'.ret (read newsize s'.heap.mem s'.ret)]
  | .free rmem => if rmem = rtNull then [] else [.drop rmem]
  | .write rmem i c => [.set rmem i c]

/-- An allocator in the region of the heap. -/
noncomputable def arena (h : Heap) : Arena.Objects UInt8 → Arena.Effect UInt8 →
    Option (Arena.Objects UInt8) :=
  Arena.step (h.heapPtr + 12) h.heapEnd 4

/-! ### Blocks and holders -/

/-- Each block in use is held, for no more than it has room for. -/
structure Holding (base : ℕ) (used : ℕ → ℕ → Prop) (held : ℕ → Option ℕ) : Prop where
  block : ∀ p k, held p = some k → ∃ x n, p = base + x + 12 ∧ used x n ∧ k ≤ n
  owner : ∀ x n, used x n → (held (base + x + 12)).isSome

variable {base x n k p : ℕ} {used used' : ℕ → ℕ → Prop} {held : ℕ → Option ℕ}

theorem Holding.congr (H : Holding base used held) (h : ∀ y m, used' y m ↔ used y m) :
    Holding base used' held where
  block p k hp := by
    obtain ⟨x, n, hx, hused, hk⟩ := H.block p k hp
    exact ⟨x, n, hx, (h x n).mpr hused, hk⟩
  owner x n hx := H.owner x n ((h x n).mp hx)

theorem Holding.drop (H : Holding base used held) (x : ℕ) :
    Holding base (fun y m => used y m ∧ y ≠ x) (Function.update held (base + x + 12) none) where
  block p k hp := by
    rcases eq_or_ne p (base + x + 12) with rfl | hne
    · rw [Function.update_self] at hp
      exact absurd hp.symm (Option.some_ne_none k)
    · rw [Function.update_of_ne hne] at hp
      obtain ⟨y, m, rfl, hused, hk⟩ := H.block p k hp
      exact ⟨y, m, rfl, ⟨hused, fun he => hne (he ▸ rfl)⟩, hk⟩
  owner y m hy := by
    rw [Function.update_of_ne (by have := hy.2; omega)]
    exact H.owner y m hy.1

theorem Holding.add (H : Holding base used held) (hk : k ≤ n) (hx : ∀ m, ¬ used x m) :
    Holding base (fun y m => used y m ∨ (y = x ∧ m = n))
      (Function.update held (base + x + 12) (some k)) where
  block p j hp := by
    rcases eq_or_ne p (base + x + 12) with rfl | hne
    · rw [Function.update_self] at hp
      obtain rfl := Option.some.inj hp
      exact ⟨x, n, rfl, .inr ⟨rfl, rfl⟩, hk⟩
    · rw [Function.update_of_ne hne] at hp
      obtain ⟨y, m, hy, hused, hj⟩ := H.block p j hp
      exact ⟨y, m, hy, .inl hused, hj⟩
  owner y m hy := by
    rcases eq_or_ne y x with rfl | hne
    · rw [Function.update_self]
      rfl
    · rw [Function.update_of_ne (by omega)]
      exact H.owner y m (hy.resolve_right fun h => hne h.1)

/-- What holds between two calls; `h` is the heap in front of the first one. -/
structure Holds (h : Heap) (s : HeapUse) (l : List Block) : Prop where
  sound : s.heap.Sound l
  base : s.heap.heapPtr = h.heapPtr
  size : s.heap.memSizeAligned = h.memSizeAligned
  holding : Holding h.heapPtr (usedAt l) s.held

variable {h h' : Heap} {s s' : HeapUse} {l l' : List Block} {y m j q : ℕ}

theorem gain_of_ne (hp : p ≠ rtNull) : gain p k held = Function.update held p (some k) := if_neg hp

theorem exchange_of_ne {rmem : ℕ} (hp : p ≠ rtNull) :
    exchange rmem p k held = Function.update (Function.update held rmem none) p (some k) :=
  if_neg hp

/-- What is held lies within the heap. -/
theorem Holds.inside (H : Holds h s l) (hp : s.held p = some k) :
    h.heapPtr + 12 ≤ p ∧ p + k ≤ h.heapEnd ∧ 4 ∣ p := by
  obtain ⟨x, n, rfl, hx, hk⟩ := H.holding.block p k hp
  have hle : x + n ≤ s.heap.memSizeAligned := H.sound.lays.le hx
  have hdvd := H.sound.lays.dvd_at hx
  have halign := H.sound.lays.align
  have hsize := H.size
  have hend : h.heapEnd = h.heapPtr + (h.memSizeAligned + 12) := rfl
  rw [H.base] at halign
  exact ⟨by omega, by omega, by omega⟩

/-- No byte is held twice. -/
theorem Holds.apart (H : Holds h s l) (hp : s.held p = some k) (hq : s.held q = some j)
    (hne : p ≠ q) : p + k ≤ q ∨ q + j ≤ p := by
  obtain ⟨x, n, rfl, hx, hk⟩ := H.holding.block p k hp
  obtain ⟨y, m, rfl, hy, hj⟩ := H.holding.block q j hq
  have hn : (⟨n, true⟩ : Block).span = 12 + n := rfl
  have hm : (⟨m, true⟩ : Block).span = 12 + m := rfl
  rcases hx.apart hy with ⟨he, -⟩ | hlt | hlt
  · exact absurd (he ▸ rfl) hne
  · exact .inl (by omega)
  · exact .inr (by omega)

/-! ### Effects of calls -/

theorem view_eq_some {bs : List UInt8} :
    view s p = some bs ↔ ∃ k, s.held p = some k ∧ read k s.heap.mem p = bs :=
  Option.map_eq_some_iff

/-- Where something is held afterwards, an object may come to live. -/
theorem Holds.free (H : Holds h s l) (hp : s.held p = some k) {live : Arena.Objects UInt8}
    (hfresh : live p = none) (hlive : ∀ q bs, live q = some bs → s.held q = some bs.length) :
    Arena.Free (h.heapPtr + 12) h.heapEnd 4 live p k := by
  obtain ⟨hlow, hhigh, halign⟩ := H.inside hp
  refine ⟨hfresh, hlow, hhigh, halign, fun q bs hq => ?_⟩
  refine H.apart hp (hlive q bs hq) ?_
  rintro rfl
  exact absurd (hfresh.symm.trans hq).symm (Option.some_ne_none bs)

/-- The view of what one pointer more, or another one, leads to. -/
theorem view_update (hheld : s'.held = Function.update held p (some k))
    (hsame : ∀ q j, q ≠ p → held q = some j → read j s'.heap.mem q = read j s.heap.mem q) :
    view s' = Arena.with_ p (read k s'.heap.mem p)
      fun q => (held q).map fun j => read j s.heap.mem q := by
  funext q
  unfold view Arena.with_
  rw [hheld]
  rcases eq_or_ne q p with rfl | hne
  · rw [Function.update_self, Function.update_self]
    rfl
  · rw [Function.update_of_ne hne, Function.update_of_ne hne]
    rcases hq : held q with - | j
    · rfl
    · exact congrArg some (hsame q j hne hq)

theorem view_without (s : HeapUse) (p : ℕ) :
    (fun q => (Function.update s.held p none q).map fun j => read j s.heap.mem q) =
      Arena.without p (view s) := by
  funext q
  unfold view Arena.without
  rcases eq_or_ne q p with rfl | hne
  · rw [Function.update_self, Function.update_self]
    rfl
  · rw [Function.update_of_ne hne, Function.update_of_ne hne]

theorem arena_take (H : Holds h s' l') (hp : s.held p = none)
    (hheld : s'.held = Function.update s.held p (some k))
    (hsame : ∀ q j, s.held q = some j → read j s'.heap.mem q = read j s.heap.mem q) :
    arena h (view s) (.take p (read k s'.heap.mem p)) = some (view s') := by
  rw [view_update hheld fun q j _ hq => hsame q j hq]
  refine Arena.step_take ?_
  rw [length_read]
  refine H.free (by rw [hheld, Function.update_self]) (by rw [view, hp]; rfl) fun q bs hq => ?_
  obtain ⟨j, hj, rfl⟩ := view_eq_some.mp hq
  have hne : q ≠ p := fun he => absurd ((he ▸ hj).symm.trans hp) (Option.some_ne_none j)
  rw [hheld, Function.update_of_ne hne, hj, length_read]

theorem arena_change (H : Holds h s' l') (hp : s.held p = some j)
    (hq : Function.update s.held p none q = none)
    (hheld : s'.held = Function.update (Function.update s.held p none) q (some k))
    (hsame : ∀ r i, r ≠ p → s.held r = some i → read i s'.heap.mem r = read i s.heap.mem r)
    (hkept : read (min j k) s'.heap.mem q = read (min j k) s.heap.mem p) :
    arena h (view s) (.change p q (read k s'.heap.mem q)) = some (view s') := by
  have hview := view_update (s := s) hheld fun r i _ hr => by
    rcases eq_or_ne r p with rfl | hne
    · rw [Function.update_self] at hr
      exact absurd hr.symm (Option.some_ne_none i)
    · rw [Function.update_of_ne hne] at hr
      exact hsame r i hne hr
  rw [view_without] at hview
  rw [hview]
  refine Arena.step_change (view_eq_some.mpr ⟨j, hp, rfl⟩) ?_ ?_
  · rw [length_read]
    refine H.free (by rw [hheld, Function.update_self]) ?_ fun r bs hr => ?_
    · rw [← view_without]
      exact congrArg (Option.map _) hq
    · rw [← view_without] at hr
      obtain ⟨i, hi, rfl⟩ := Option.map_eq_some_iff.mp hr
      have hne : r ≠ q := fun he => absurd ((he ▸ hi).symm.trans hq) (Option.some_ne_none i)
      rw [hheld, Function.update_of_ne hne, hi, length_read]
  · rw [length_read, length_read]
    rcases Nat.le_total j k with hle | hle
    · rw [Nat.min_eq_left hle] at hkept
      rw [take_read hle, hkept, List.take_of_length_le (length_read.trans_le hle)]
    · rw [Nat.min_eq_right hle] at hkept
      rw [take_read hle, hkept, List.take_of_length_le (by rw [length_read]; exact hle)]

/-! ### What the calls do -/

/-- What the callers see of a call that gives them `n` bytes at `x`. -/
structure Grants (h : Heap) (l : List Block) (h' : Heap) (l' : List Block) (x n : ℕ) : Prop where
  sound : h'.Sound l'
  base : h'.heapPtr = h.heapPtr
  size : h'.memSizeAligned = h.memSizeAligned
  used : ∀ y m, usedAt l' y m ↔ usedAt l y m ∨ (y = x ∧ m = n)
  others : ∀ y m, usedAt l y m → Untouched h h' y m
  fresh : ∀ m, ¬ usedAt l x m

theorem le_rtAlign (h : n ≤ 2 ^ 32 - 4) : n ≤ rtAlign n := by
  unfold rtAlign
  omega

/-- `rt_malloc` fails, or it grants what is asked for. -/
theorem Sound.grants (S : h.Sound l) (hsize : k ≤ 2 ^ 32 - 4) :
    h.rtMalloc k = some (rtNull, h) ∨
      ∃ h' l' x n, h.rtMalloc k = some (h.heapPtr + x + 12, h') ∧ k ≤ n ∧ Grants h l h' l' x n ∧
        (h.Lowest l → h'.Lowest l') := by
  rcases S.rtMalloc k with ⟨hnull, -⟩ |
    ⟨-, -, h', l', x, n, m, hcall, hfree, -, hroom, -, -, hch, hused, hlow⟩
  · exact .inl hnull
  · have hle := (le_roomFor k).2
    have hk := le_rtAlign hsize
    refine .inr ⟨h', l', x, n, hcall, by omega, ⟨hch.sound, hch.base, hch.size, hused,
      fun y j hy => ?_, freeAt_fresh hfree⟩, hlow⟩
    exact hch.frame.untouched ((hused y j).mpr (.inl hy)) (S.lays.le hy)

/-- What is written into the new block. -/
theorem Grants.write (G : Grants h l h' l' x n) {m : Memory}
    (hm : ∀ i, i < h'.heapPtr + x + 12 ∨ h'.heapPtr + x + 12 + n ≤ i → m i = h'.mem i) :
    Grants h l { h' with mem := m } l' x n := by
  have hx : usedAt l' x n := (G.used x n).mpr (.inr ⟨rfl, rfl⟩)
  refine ⟨G.sound.store hx hm, G.base, G.size, G.used, fun y j hy i hi => ?_, G.fresh⟩
  have hspan : (⟨j, true⟩ : Block).span = 12 + j := rfl
  have hspan' : (⟨n, true⟩ : Block).span = 12 + n := rfl
  have hbase := G.base
  rw [← G.others y j hy i hi]
  refine hm _ ?_
  rcases ((G.used y j).mpr (.inl hy)).apart hx with ⟨rfl, -⟩ | hlt | hlt
  · exact absurd hy (G.fresh j)
  · omega
  · omega

theorem Untouched.read {base : ℕ} (hu : Untouched h h' x n) (hk : k ≤ n) (hbase : h.heapPtr = base) :
    read k h'.mem (base + x + 12) = read k h.mem (base + x + 12) := by
  refine read_congr fun i hlow hhigh => ?_
  have hi := hu (i - (base + x + 12)) (by omega)
  rw [hbase, Nat.add_sub_cancel' hlow] at hi
  exact hi

/-- What is held keeps its bytes where the blocks do. -/
theorem Holds.read_same (H : Holds h s l) (hheap : s'.heap = h')
    (hothers : ∀ y m, usedAt l y m → h.heapPtr + y + 12 ≠ p → Untouched s.heap h' y m)
    (hq : s.held q = some j) (hne : q ≠ p) : read j s'.heap.mem q = read j s.heap.mem q := by
  obtain ⟨y, m, rfl, hy, hj⟩ := H.holding.block q j hq
  rw [hheap]
  exact (hothers y m hy hne).read hj H.base

/-- **A new block is a new object.** -/
theorem Holds.granted (H : Holds h s l) (G : Grants s.heap l h' l' x n) (hk : k ≤ n)
    (hs' : s' = ⟨h', gain (h.heapPtr + x + 12) k s.held, h.heapPtr + x + 12⟩) :
    Holds h s' l' ∧ s'.ret ≠ rtNull ∧
      arena h (view s) (.take s'.ret (read k s'.heap.mem s'.ret)) = some (view s') := by
  have hnull : rtNull = 0 := rfl
  have hgain : s'.held = Function.update s.held (h.heapPtr + x + 12) (some k) := by
    rw [hs', gain_of_ne (Nat.succ_ne_zero _)]
  have hret : s'.ret = h.heapPtr + x + 12 := by rw [hs']
  have hheap : s'.heap = h' := by rw [hs']
  have H' : Holds h s' l' := by
    refine ⟨hheap ▸ G.sound, ?_, ?_, ?_⟩
    · rw [hheap, G.base, H.base]
    · rw [hheap, G.size, H.size]
    · rw [hgain]
      exact (H.holding.add hk G.fresh).congr G.used
  have hfresh : s.held (h.heapPtr + x + 12) = none := by
    rcases hp : s.held (h.heapPtr + x + 12) with - | i
    · rfl
    · obtain ⟨y, m, hy, hused, -⟩ := H.holding.block _ i hp
      obtain rfl : x = y := by omega
      exact absurd hused (G.fresh m)
  rw [hret]
  refine ⟨H', by omega, arena_take H' hfresh hgain fun q j hq => ?_⟩
  refine H.read_same hheap (fun y m hy _ => G.others y m hy) hq (p := 0) ?_
  rintro rfl
  have hlow := (H.inside hq).1
  omega

/-- **A block that is given for another one** is the same object. -/
theorem Holds.given (H : Holds h s l) (hp : s.held (h.heapPtr + x + 12) = some j)
    (G : Gives s.heap l x h' l' y m q) (hk : k ≤ m) (hq : min j k ≤ q)
    (hs' : s' = ⟨h', exchange (h.heapPtr + x + 12) (h.heapPtr + y + 12) k s.held,
      h.heapPtr + y + 12⟩) :
    Holds h s' l' ∧ s'.ret ≠ rtNull ∧
      arena h (view s) (.change (h.heapPtr + x + 12) s'.ret (read k s'.heap.mem s'.ret)) =
        some (view s') := by
  have hnull : rtNull = 0 := rfl
  have hheld : s'.held = Function.update (Function.update s.held (h.heapPtr + x + 12) none)
      (h.heapPtr + y + 12) (some k) := by
    rw [hs', exchange_of_ne (Nat.succ_ne_zero _)]
  have hret : s'.ret = h.heapPtr + y + 12 := by rw [hs']
  have hheap : s'.heap = h' := by rw [hs']
  have hfresh : ∀ i, ¬ (usedAt l y i ∧ y ≠ x) := fun i hi =>
    G.fresh.elim (fun he => hi.2 he) fun hn => hn i hi.1
  have H' : Holds h s' l' := by
    refine ⟨hheap ▸ G.sound, ?_, ?_, ?_⟩
    · rw [hheap, G.base, H.base]
    · rw [hheap, G.size, H.size]
    · rw [hheld]
      exact ((H.holding.drop x).add hk hfresh).congr G.used
  have hnone : Function.update s.held (h.heapPtr + x + 12) none (h.heapPtr + y + 12) = none := by
    rcases hi : Function.update s.held (h.heapPtr + x + 12) none (h.heapPtr + y + 12) with - | i
    · rfl
    · obtain ⟨z, r, hz, hused, -⟩ := (H.holding.drop x).block _ i hi
      obtain rfl : y = z := by omega
      exact absurd hused (hfresh r)
  rw [hret]
  refine ⟨H', by omega, arena_change H' hp hnone hheld (fun r i hne hr => ?_) ?_⟩
  · exact H.read_same hheap (fun z r hz hne => G.others z r hz fun he => hne (he ▸ rfl)) hr hne
  · rw [hheap]
    refine List.map_congr_left fun i hi => ?_
    have hlt := List.mem_range.mp hi
    have hbytes := G.bytes i (by omega)
    rw [H.base] at hbytes
    exact hbytes

/-! ### One step -/

/-- What a step leaves behind. -/
structure Stepped (h : Heap) (s : HeapUse) (l : List Block) (e : HeapCall) (s' : HeapUse)
    (l' : List Block) : Prop where
  call : heapStep s e = some s'
  holds : Holds h s' l'
  effects : exec (arena h) (view s) (effects e s') = some (view s')
  lowest : s.heap.Lowest l → ¬ Stranding s e → s'.heap.Lowest l'

theorem exec_one {e : Arena.Effect UInt8} {u u' : Arena.Objects UInt8}
    (hu : arena h u e = some u') : exec (arena h) u [e] = some u' :=
  (exec_cons [] hu).trans rfl

theorem Holds.null_free (H : Holds h s l) : s.held rtNull = none := by
  rcases hp : s.held rtNull with - | k
  · rfl
  · have hlow := (H.inside hp).1
    have hnull : rtNull = 0 := rfl
    omega

theorem Holds.step_malloc (H : Holds h s l) (hal : Allowed s (.malloc k)) :
    ∃ s' l', Stepped h s l (.malloc k) s' l' := by
  rcases H.sound.grants (k := k) hal with hcall | ⟨h', l', x, n, hcall, hk, G, hlow⟩
  · exact ⟨⟨s.heap, s.held, rtNull⟩, l, congrArg (Option.map _) hcall,
      ⟨H.sound, H.base, H.size, H.holding⟩, rfl, fun hl _ => hl⟩
  · rw [H.base] at hcall
    obtain ⟨H', hne, htake⟩ := H.granted G hk rfl
    refine ⟨_, l', congrArg (Option.map _) hcall, H', ?_, fun hl _ => hlow hl⟩
    unfold Heap.effects
    dsimp only
    rw [if_neg hne]
    exact exec_one htake

theorem Holds.step_calloc {count size : ℕ} (H : Holds h s l) (hal : Allowed s (.calloc count size)) :
    ∃ s' l', Stepped h s l (.calloc count size) s' l' := by
  have hsize : count * size ≤ 2 ^ 32 - 4 := hal
  obtain ⟨k, hk⟩ : ∃ k, k = count * size := ⟨_, rfl⟩
  have hmod : count * size % 2 ^ 32 = k := by
    rw [hk]
    exact Nat.mod_eq_of_lt (by omega)
  rw [← hk] at hsize
  have hcall : ∀ r, s.heap.rtMalloc k = some r → s.heap.rtCalloc count size =
      some (if r.1 = rtNull then r else (r.1, { r.2 with mem := rtMemset r.1 0 k r.2.mem })) := by
    intro r hr
    unfold Heap.rtCalloc
    dsimp only
    rw [hmod, hr]
    rfl
  rcases H.sound.grants hsize with hnull | ⟨h', l', x, n, hsome, hkn, G, hlow⟩
  · refine ⟨⟨s.heap, s.held, rtNull⟩, l, congrArg (Option.map _) (hcall _ hnull),
      ⟨H.sound, H.base, H.size, H.holding⟩, rfl, fun hl _ => hl⟩
  · rw [H.base] at hsome
    have hne : h.heapPtr + x + 12 ≠ rtNull := Nat.succ_ne_zero _
    have hfill : rtMemset (h.heapPtr + x + 12) 0 k h'.mem = fill (h.heapPtr + x + 12) k 0 h'.mem := by
      rw [rtMemset_eq_setBytes, setBytes_eq_fill]
      rfl
    have hbase : h'.heapPtr = h.heapPtr := G.base.trans H.base
    have G' := G.write (m := rtMemset (h.heapPtr + x + 12) 0 k h'.mem) fun i hi => by
      rw [hfill, fill_of_apart (by omega)]
    obtain ⟨H', hret, htake⟩ := H.granted G' hkn rfl
    have hstep := hcall _ hsome
    rw [if_neg hne] at hstep
    refine ⟨_, l', (congrArg (Option.map _) hstep).trans (by rw [hk]; rfl), H', ?_,
      fun hl _ => hlow hl⟩
    unfold Heap.effects
    dsimp only
    rw [if_neg hret, ← hk]
    refine exec_one ?_
    rw [← htake]
    exact congrArg (fun bytes => arena h (view s) (.take (h.heapPtr + x + 12) bytes))
      ((congrArg (fun m => read k m (h.heapPtr + x + 12)) hfill).trans (read_fill ..)).symm

/-- `rt_realloc` without a block is `rt_malloc`, of the rounded size. -/
theorem Sound.rtRealloc_null (S : h.Sound l) (hsize : k ≤ 2 ^ 32 - 4) :
    h.rtRealloc rtNull k = some (rtNull, h) ∨
      ∃ h' l' x n, h.rtRealloc rtNull k = some (h.heapPtr + x + 12, h') ∧ k ≤ n ∧
        Grants h l h' l' x n ∧ (h.Lowest l → h'.Lowest l') := by
  have hround : rtAlign k ≤ 2 ^ 32 - 4 := by
    unfold rtAlign
    omega
  by_cases hlarge : h.memSizeAligned < rtAlign k
  · left
    unfold Heap.rtRealloc
    dsimp only
    rw [if_pos hlarge]
  · have hcall : h.rtRealloc rtNull k = h.rtMalloc (rtAlign k) := by
      unfold Heap.rtRealloc
      dsimp only
      rw [if_neg hlarge, if_pos rfl]
    rw [hcall]
    rcases S.grants hround with hnull | ⟨h', l', x, n, hsome, hk, G, hlow⟩
    · exact .inl hnull
    · exact .inr ⟨h', l', x, n, hsome, (le_rtAlign hsize).trans hk, G, hlow⟩

theorem Holds.step_realloc {rmem newsize : ℕ} (H : Holds h s l)
    (hal : Allowed s (.realloc rmem newsize)) :
    ∃ s' l', Stepped h s l (.realloc rmem newsize) s' l' := by
  obtain ⟨hsize, hheld⟩ := hal
  have hfail : ∀ {rmem}, s.heap.rtRealloc rmem newsize = some (rtNull, s.heap) →
      ∃ s' l', Stepped h s l (.realloc rmem newsize) s' l' := fun hnull =>
    ⟨⟨s.heap, s.held, rtNull⟩, l, congrArg (Option.map _) hnull,
      ⟨H.sound, H.base, H.size, H.holding⟩, rfl, fun hl _ => hl⟩
  by_cases hnull : rmem = rtNull
  · subst hnull
    rcases H.sound.rtRealloc_null hsize with hcall | ⟨h', l', x, n, hcall, hk, G, hlow⟩
    · exact hfail hcall
    · rw [H.base] at hcall
      obtain ⟨H', hne, htake⟩ := H.granted G hk rfl
      have hsame : exchange rtNull (h.heapPtr + x + 12) newsize s.held =
          gain (h.heapPtr + x + 12) newsize s.held := by
        rw [gain_of_ne hne, exchange_of_ne hne]
        exact congrArg (fun f => Function.update f _ _)
          (Function.update_eq_self_iff.mpr H.null_free.symm)
      refine ⟨_, l', (congrArg (Option.map _) hcall).trans ?_, H', ?_, fun hl _ => hlow hl⟩
      · exact congrArg (fun f => some (HeapUse.mk h' f (h.heapPtr + x + 12))) hsame
      · unfold Heap.effects
        dsimp only
        rw [if_neg hne, if_pos rfl]
        exact exec_one htake
  · obtain ⟨j, hj⟩ := Option.isSome_iff_exists.mp (hheld.resolve_left hnull)
    obtain ⟨x, n, rfl, hx, hjn⟩ := H.holding.block rmem j hj
    rcases H.sound.rtRealloc hx newsize with hcall | ⟨h', l', y, m, hcall, hm, G, hlow⟩
    · rw [H.base] at hcall
      exact hfail hcall
    · rw [H.base] at hcall
      have hk := le_rtAlign hsize
      obtain ⟨H', hne, hchange⟩ := H.given hj G (hk.trans hm) (min_le_min hjn hk) rfl
      refine ⟨_, l', congrArg (Option.map _) hcall, H', ?_, fun hl hnot => hlow hl fun hs => ?_⟩
      · unfold Heap.effects
        dsimp only
        rw [if_neg hne, if_neg hnull]
        exact exec_one hchange
      · rw [H.base] at hs
        exact hnot ⟨hnull, hs⟩

theorem Holds.step_free {rmem : ℕ} (H : Holds h s l) (hal : Allowed s (.free rmem)) :
    ∃ s' l', Stepped h s l (.free rmem) s' l' := by
  by_cases hnull : rmem = rtNull
  · have hcall : s.heap.rtFree rmem = some s.heap := if_pos hnull
    have hsame : Function.update s.held rmem none = s.held :=
      Function.update_eq_self_iff.mpr (hnull ▸ H.null_free.symm)
    refine ⟨⟨s.heap, s.held, rtNull⟩, l, (congrArg (Option.map _) hcall).trans ?_,
      ⟨H.sound, H.base, H.size, H.holding⟩, ?_, fun hl _ => hl⟩
    · exact congrArg (fun f => some (HeapUse.mk s.heap f rtNull)) hsame
    · unfold Heap.effects
      dsimp only
      rw [if_pos hnull]
      rfl
  · obtain ⟨j, hj⟩ := Option.isSome_iff_exists.mp (hal.resolve_left hnull)
    obtain ⟨x, n, rfl, hx, hjn⟩ := H.holding.block rmem j hj
    obtain ⟨h', l', hcall, hch, hused, hlow⟩ := H.sound.rtFree hx
    rw [H.base] at hcall
    refine ⟨_, l', congrArg (Option.map _) hcall, ⟨hch.sound, hch.base.trans H.base,
      hch.size.trans H.size, (H.holding.drop x).congr hused⟩, ?_, fun hl _ => hlow hl⟩
    unfold Heap.effects
    dsimp only
    rw [if_neg hnull]
    refine exec_one ((Arena.step_drop (view_eq_some.mpr ⟨j, hj, rfl⟩)).trans (congrArg some ?_))
    rw [← view_without]
    funext q
    unfold view
    dsimp only
    rcases eq_or_ne q (h.heapPtr + x + 12) with rfl | hne
    · rw [Function.update_self]
      rfl
    · rw [Function.update_of_ne hne]
      rcases hq : s.held q with - | i
      · rfl
      · obtain ⟨y, m, rfl, hy, hi⟩ := H.holding.block q i hq
        have hu : Untouched s.heap h' y m := hch.frame.untouched hy (H.sound.lays.le hy)
        exact congrArg some (hu.read hi H.base).symm

theorem Holds.step_write {rmem i : ℕ} {c : UInt8} (H : Holds h s l)
    (hal : Allowed s (.write rmem i c)) : ∃ s' l', Stepped h s l (.write rmem i c) s' l' := by
  have hlt : i < (s.held rmem).getD 0 := hal
  rcases hj : s.held rmem with - | j
  · rw [hj] at hlt
    exact absurd hlt (Nat.not_lt_zero i)
  rw [hj] at hlt
  have hij : i < j := hlt
  obtain ⟨x, n, hrmem, hx, hjn⟩ := H.holding.block rmem j hj
  have hbase := H.base
  have hsound := H.sound.store hx (m := Function.update s.heap.mem (rmem + i) c) fun a ha =>
    Function.update_of_ne (by omega) _ _
  refine ⟨_, l, rfl, ⟨hsound, H.base, H.size, H.holding⟩, ?_, fun hl _ => hl⟩
  refine exec_one ((Arena.step_set (view_eq_some.mpr ⟨j, hj, rfl⟩) (length_read.symm ▸ hij)).trans
    (congrArg some ?_))
  funext q
  unfold Arena.with_ view
  dsimp only
  rcases eq_or_ne q rmem with rfl | hne
  · rw [Function.update_self, hj]
    exact congrArg some (read_update i c).symm
  · rw [Function.update_of_ne hne]
    rcases hq : s.held q with - | k
    · rfl
    · have hap := H.apart hj hq hne.symm
      exact congrArg some (read_congr fun a _ _ => Function.update_of_ne (by omega) _ _).symm

/-- **One step.** -/
theorem Holds.step (H : Holds h s l) {e : HeapCall} (hal : Allowed s e) :
    ∃ s' l', Stepped h s l e s' l' := by
  cases e with
  | malloc size => exact H.step_malloc hal
  | calloc count size => exact H.step_calloc hal
  | realloc rmem newsize => exact H.step_realloc hal
  | free rmem => exact H.step_free hal
  | write rmem i c => exact H.step_write hal

/-! ### The headers -/

/-- The blocks from `ptr` on, as their headers link them. -/
def walk : ℕ → ℕ → Heap → List (ℕ × Block)
  | 0, _, _ => []
  | n + 1, ptr, h =>
      if ptr < h.memSizeAligned + sizeofStructMem then
        (ptr, ⟨(h.block ptr).next - (ptr + sizeofStructMem), decide ((h.block ptr).used ≠ 0)⟩) ::
          walk n (h.block ptr).next h
      else []

/-- All blocks, with their places. -/
def blocks (h : Heap) : List (ℕ × Block) := walk h.fuel 0 h

/-- **The headers and the counters say what the threads hold.** -/
structure InOrder (s : HeapUse) : Prop where
  /-- The blocks fill the heap. -/
  filled : ((blocks s.heap).map fun b => b.2.span).sum = s.heap.memSizeAligned + sizeofStructMem
  /-- Each one ends where the next one begins, which points back to it. -/
  linked : (blocks s.heap).IsChain fun a b =>
    b.1 = a.1 + a.2.span ∧ (s.heap.block b.1).prev = a.1
  /-- No two free ones stand side by side. -/
  merged : (blocks s.heap).IsChain fun a b => a.2.used = true ∨ b.2.used = true
  magic : ∀ b ∈ blocks s.heap, (s.heap.block b.1).magic = heapMagic
  /-- The threads hold the blocks in use. -/
  held : ∀ p, (s.held p).isSome ↔
    ∃ b ∈ blocks s.heap, b.2.used = true ∧ p = s.heap.heapPtr + b.1 + sizeofStructMem
  /-- The counters are right. -/
  count : s.heap.usedMem = (((blocks s.heap).filter (·.2.used)).map fun b => b.2.span).sum
  peak : s.heap.usedMem ≤ s.heap.maxMem ∧
    s.heap.maxMem ≤ s.heap.memSizeAligned + sizeofStructMem

/-- The walk finds the blocks that are laid out. -/
theorem walk_eq {ptr : ℕ}
    (hrow : Row Block.span (fun prev ptr b => h.block ptr = b.header prev ptr) p ptr l)
    (hstop : stop Block.span ptr l = h.memSizeAligned + sizeofStructMem) (hn : l.length < n) :
    walk n ptr h = places Block.span ptr l := by
  induction l generalizing p ptr n with
  | nil =>
      obtain ⟨n, rfl⟩ := Nat.exists_eq_add_of_lt hn
      rw [stop_nil] at hstop
      exact if_neg (by omega)
  | cons b l ih =>
      obtain ⟨n, rfl⟩ : ∃ k, n = k + 1 := ⟨n - 1, by rw [List.length_cons] at hn; omega⟩
      rw [stop_cons] at hstop
      have hle := le_stop (w := Block.span) (ptr + b.span) l
      have hspan : b.span = 12 + b.size := rfl
      have h12 : sizeofStructMem = 12 := rfl
      have hnext : (h.block ptr).next = ptr + b.span := by
        rw [hrow.1]
        rfl
      have hused : decide ((h.block ptr).used ≠ 0) = b.used := by
        rw [hrow.1]
        unfold Block.header
        rcases b.used with - | -
        · rfl
        · rfl
      have hsize : ptr + b.span - (ptr + sizeofStructMem) = b.size := by omega
      unfold walk
      rw [if_pos (by omega), hnext, hused, hsize, places,
        ih hrow.2 hstop (by rw [List.length_cons] at hn; omega)]

theorem Lays.blocks (H : h.Lays l) : blocks h = places Block.span 0 l :=
  walk_eq H.row H.extent H.length_lt

theorem Lays.mem_blocks (H : h.Lays l) {b : Block} :
    (x, b) ∈ Heap.blocks h ↔ At Block.span 0 l x b := by
  rw [H.blocks, mem_places]

theorem Holds.inOrder (H : Holds h s l) : InOrder s := by
  have hlays := H.sound.lays
  have hblocks := hlays.blocks
  have hspans : ∀ p : ℕ × Block → Bool, ((((Heap.blocks s.heap).filter p)).map fun b => b.2.span) =
      (((places Block.span 0 l).filter p).map Prod.snd).map Block.span := by
    intro p
    rw [hblocks, List.map_map]
    rfl
  have hall : ((Heap.blocks s.heap).map fun b => b.2.span) = l.map Block.span := by
    rw [hblocks, ← places_map_snd (w := Block.span) 0 l, List.map_map, places_map_snd]
    rfl
  have hused : ((places Block.span 0 l).filter (·.2.used)).map Prod.snd = l.filter Block.used := by
    conv_rhs => rw [← places_map_snd (w := Block.span) 0 l]
    rw [List.filter_map]
    rfl
  refine ⟨?_, ?_, ?_, ?_, fun p => ?_, ?_, H.sound.peak⟩
  · rw [hall]
    exact (Nat.zero_add _).symm.trans hlays.extent
  · rw [hblocks]
    refine hlays.row.isChain.imp fun a b hab => ⟨hab.1, ?_⟩
    rw [hab.2]
    rfl
  · rw [hblocks, ← List.isChain_map (R := fun b c : Block => b.used = true ∨ c.used = true)
      Prod.snd, places_map_snd]
    exact H.sound.merged
  · rintro ⟨x, b⟩ hb
    exact hlays.magic (hlays.mem_blocks.mp hb)
  · constructor
    · intro hp
      obtain ⟨k, hk⟩ := Option.isSome_iff_exists.mp hp
      obtain ⟨x, n, rfl, hx, -⟩ := H.holding.block p k hk
      exact ⟨(x, ⟨n, true⟩), hlays.mem_blocks.mpr hx, rfl, by rw [H.base]⟩
    · rintro ⟨⟨x, n, u⟩, hb, rfl, rfl⟩
      rw [H.base]
      exact H.holding.owner x n (hlays.mem_blocks.mp hb)
  · rw [hspans, hused]
    exact H.sound.count

/-! ### Runs -/

section Runs

variable {beginAddr endAddr : ℕ} {m₀ : Memory} {es : List HeapCall}

/-- Calls in order. -/
def AllowedRun (h : Heap) (es : List HeapCall) : Prop :=
  Along heapStep (fun s e _ => Allowed s e) (fresh h) es

/-- And none that strands a block. -/
def TidyRun (h : Heap) (es : List HeapCall) : Prop :=
  Along heapStep (fun s e _ => Allowed s e ∧ ¬ Stranding s e) (fresh h) es

instance (h : Heap) (es : List HeapCall) : Decidable (AllowedRun h es) :=
  inferInstanceAs (Decidable (Along _ _ _ _))

instance (h : Heap) (es : List HeapCall) : Decidable (TidyRun h es) :=
  inferInstanceAs (Decidable (Along _ _ _ _))

theorem holds_init (hi : rtSystemHeapInit beginAddr endAddr m₀ = some h)
    (haddr : endAddr < 2 ^ 32) (hlarge : minSizeAligned ≤ h.memSizeAligned) :
    Holds h (fresh h) [⟨h.memSizeAligned, false⟩] ∧ h.Lowest [⟨h.memSizeAligned, false⟩] := by
  obtain ⟨S, hlow⟩ := sound_init hi haddr hlarge
  refine ⟨⟨S, rfl, rfl, fun p k hp => absurd hp.symm (Option.some_ne_none k), fun x n hx => ?_⟩, hlow⟩
  rcases at_cons.mp hx with ⟨-, he⟩ | hx
  · exact Bool.noConfusion (Block.mk.inj he).2
  · exact absurd hx not_at_nil

theorem Holds.after (H : Holds h s l) {e : HeapCall} (hal : Allowed s e)
    (hs : heapStep s e = some s') : ∃ l', Stepped h s l e s' l' := by
  obtain ⟨s'', l', hstep⟩ := H.step hal
  obtain rfl := Option.some.inj (hstep.call.symm.trans hs)
  exact ⟨l', hstep⟩

theorem holds_run (hi : rtSystemHeapInit beginAddr endAddr m₀ = some h) (haddr : endAddr < 2 ^ 32)
    (hlarge : minSizeAligned ≤ h.memSizeAligned) (hal : AllowedRun h es)
    (hr : exec heapStep (fresh h) es = some s) : ∃ l, Holds h s l := by
  refine Along.invariant (I := fun s => ∃ l, Holds h s l) hal ⟨_, (holds_init hi haddr hlarge).1⟩ ?_ hr
  rintro s e s' ⟨l, H⟩ hc hs
  obtain ⟨l', hstep⟩ := H.after hc hs
  exact ⟨l', hstep.holds⟩

theorem lowest_run (hi : rtSystemHeapInit beginAddr endAddr m₀ = some h) (haddr : endAddr < 2 ^ 32)
    (hlarge : minSizeAligned ≤ h.memSizeAligned) (hal : TidyRun h es)
    (hr : exec heapStep (fresh h) es = some s) : ∃ l, Holds h s l ∧ s.heap.Lowest l := by
  refine Along.invariant (I := fun s => ∃ l, Holds h s l ∧ s.heap.Lowest l) hal
    ⟨_, holds_init hi haddr hlarge⟩ ?_ hr
  rintro s e s' ⟨l, H, hlow⟩ hc hs
  obtain ⟨l', hstep⟩ := H.after hc.1 hs
  exact ⟨l', hstep.holds, hstep.lowest hlow hc.2⟩

/-- A run that is computed. -/
theorem exists_run {β : Type*} (P : Heap → List HeapCall → Prop) [∀ h es, Decidable (P h es)]
    (m₀ : Memory) (endAddr : ℕ) (es : List HeapCall) (f : HeapUse → β) (v : β)
    (hrun : ((rtSystemHeapInit 1000 endAddr m₀).bind fun h =>
      if minSizeAligned ≤ h.memSizeAligned ∧ P h es then (exec heapStep (fresh h) es).map f
      else none) = some v) :
    ∃ h s, rtSystemHeapInit 1000 endAddr m₀ = some h ∧ minSizeAligned ≤ h.memSizeAligned ∧
      P h es ∧ exec heapStep (fresh h) es = some s ∧ f s = v := by
  obtain ⟨h, hi, hrun⟩ := Option.bind_eq_some_iff.mp hrun
  split_ifs at hrun with hP
  obtain ⟨s, hs, hv⟩ := Option.map_eq_some_iff.mp hrun
  exact ⟨h, s, hi, hP.1, hP.2, hs, hv⟩

/-- **Progress.**  Whatever the calls have been, the next one returns: no assertion of mem.c
fails, and no walk along the blocks goes on for ever. -/
theorem heap_progress (hi : rtSystemHeapInit beginAddr endAddr m₀ = some h)
    (haddr : endAddr < 2 ^ 32) (hlarge : minSizeAligned ≤ h.memSizeAligned) (hal : AllowedRun h es)
    (hr : exec heapStep (fresh h) es = some s) {e : HeapCall} (he : Allowed s e) :
    ∃ s', heapStep s e = some s' := by
  obtain ⟨l, H⟩ := holds_run hi haddr hlarge hal hr
  obtain ⟨s', l', hstep⟩ := H.step he
  exact ⟨s', hstep.call⟩

/-- The second of two blocks is given back. -/
theorem heap_progress_two :
    ∃ h s s', rtSystemHeapInit 1000 1112 (fun _ => 0) = some h ∧
      exec heapStep (fresh h) [.malloc 12, .calloc 2 3] = some s ∧
      heapStep s (.free 1036) = some s' := by
  obtain ⟨h, s, hi, hlarge, hal, hr, hfree⟩ := exists_run AllowedRun (fun _ => 0) 1112
    [.malloc 12, .calloc 2 3] (fun s => decide (Allowed s (.free 1036))) true (by decide +kernel)
  obtain ⟨s', hs'⟩ := heap_progress hi (by decide) hlarge hal hr (of_decide_eq_true hfree)
  exact ⟨h, s, s', hi, hr, hs'⟩

/-- **Refinement.**  The calls have the effects of an allocator: a request yields an object
that is aligned and clear of all others, `rt_calloc` one of zeros, `rt_realloc` keeps what
the two sizes have in common, and nobody else's bytes change. -/
theorem heap_simulated (hi : rtSystemHeapInit beginAddr endAddr m₀ = some h)
    (haddr : endAddr < 2 ^ 32) (hlarge : minSizeAligned ≤ h.memSizeAligned) (hal : AllowedRun h es)
    (hr : exec heapStep (fresh h) es = some s) :
    exec (arena h) (fun _ => none) (outputs heapStep (fun _ e s' => effects e s') (fresh h) es) =
        some (view s) ∧
      Arena.Tidy (h.heapPtr + sizeofStructMem) h.heapEnd 4 (view s) := by
  have hstep : ∀ s e s' u, (u = view s ∧ ∃ l, Holds h s l) → Allowed s e → heapStep s e = some s' →
      ∃ u', exec (arena h) u (effects e s') = some u' ∧
        Along (arena h) (fun _ _ _ => True) u (effects e s') ∧ u' = view s' ∧ ∃ l, Holds h s' l := by
    rintro s e s' u ⟨rfl, l, H⟩ hc hs
    obtain ⟨l', hstep⟩ := H.after hc hs
    exact ⟨view s', hstep.effects, .of_forall (fun _ _ _ _ => trivial) _ _, rfl, l', hstep.holds⟩
  obtain ⟨u, hu, -, rfl, -⟩ := exec_outputs (R := fun s u => u = view s ∧ ∃ l, Holds h s l)
    (f := fun _ e s' => effects e s') hal ⟨rfl, _, (holds_init hi haddr hlarge).1⟩ hstep hr
  exact ⟨hu, Arena.tidy_empty.exec hu⟩

/-- A byte is written, and its block is moved. -/
theorem heap_simulated_four :
    ∃ h s, rtSystemHeapInit 1000 1112 (fun _ => 0) = some h ∧
      exec heapStep (fresh h) [.malloc 12, .calloc 2 3, .write 1012 0 7, .realloc 1012 16] = some s ∧
      view s 1012 = none ∧ view s 1036 = some (List.replicate 6 0) ∧ (view s 1060).isSome ∧
      exec (arena h) (fun _ => none) (outputs heapStep (fun _ e s' => effects e s') (fresh h)
        [.malloc 12, .calloc 2 3, .write 1012 0 7, .realloc 1012 16]) = some (view s) ∧
      Arena.Tidy (h.heapPtr + sizeofStructMem) h.heapEnd 4 (view s) := by
  obtain ⟨h, s, hi, hlarge, hal, hr, hv⟩ := exists_run AllowedRun (fun _ => 0) 1112
    [.malloc 12, .calloc 2 3, .write 1012 0 7, .realloc 1012 16]
    (fun s => (view s 1012, view s 1036, (view s 1060).isSome))
    (none, some (List.replicate 6 0), true) (by decide +kernel)
  obtain ⟨h₁, hv⟩ := Prod.mk.inj hv
  obtain ⟨h₂, h₃⟩ := Prod.mk.inj hv
  exact ⟨h, s, hi, hr, h₁, h₂, h₃, heap_simulated hi (by decide) hlarge hal hr⟩

/-- **Order.**  The headers and the counters say what the threads hold. -/
theorem heap_in_order (hi : rtSystemHeapInit beginAddr endAddr m₀ = some h)
    (haddr : endAddr < 2 ^ 32) (hlarge : minSizeAligned ≤ h.memSizeAligned) (hal : AllowedRun h es)
    (hr : exec heapStep (fresh h) es = some s) : InOrder s := by
  obtain ⟨l, H⟩ := holds_run hi haddr hlarge hal hr
  exact H.inOrder

theorem heap_in_order_four :
    ∃ h s, rtSystemHeapInit 1000 1112 (fun _ => 0) = some h ∧
      exec heapStep (fresh h) [.malloc 12, .calloc 2 3, .write 1012 0 7, .realloc 1012 16] = some s ∧
      blocks s.heap = [(0, ⟨12, false⟩), (24, ⟨12, true⟩), (48, ⟨16, true⟩), (76, ⟨12, false⟩)] ∧
      InOrder s := by
  obtain ⟨h, s, hi, hlarge, hal, hr, hblocks⟩ := exists_run AllowedRun (fun _ => 0) 1112
    [.malloc 12, .calloc 2 3, .write 1012 0 7, .realloc 1012 16] (fun s => blocks s.heap)
    [(0, ⟨12, false⟩), (24, ⟨12, true⟩), (48, ⟨16, true⟩), (76, ⟨12, false⟩)] (by decide +kernel)
  exact ⟨h, s, hi, hr, hblocks, heap_in_order hi (by decide) hlarge hal hr⟩

/-- A heap of one free block. -/
theorem Sound.rtMalloc_single (S : h.Sound [⟨h.memSizeAligned, false⟩]) (size : ℕ) :
    (h.rtMalloc size).map Prod.fst =
      some (if size = 0 ∨ h.memSizeAligned < rtAlign size ∨ h.memSizeAligned ≤ roomFor size
        then rtNull else h.heapPtr + sizeofStructMem) := by
  have hat : freeAt [⟨h.memSizeAligned, false⟩] 0 h.memSizeAligned := at_cons.mpr (.inl ⟨rfl, rfl⟩)
  have hlfree := S.pointed.first _ hat
  rcases S.rtMalloc size with ⟨hcall, hwhy⟩ |
    ⟨hne, hle, h', l', x, n, m, hcall, hfree, -, hn, -, hlast, -⟩
  · rw [hcall, if_pos]
    · rfl
    · refine hwhy.imp id (Or.imp id fun hnone => ?_)
      by_contra hlt
      have hle := hnone 0 _ hat (by omega) (by omega)
      omega
  · obtain rfl : x = 0 := by
      rcases at_cons.mp hfree with ⟨hx, -⟩ | hx
      · exact hx
      · exact absurd hx not_at_nil
    rw [hcall, if_neg (by omega)]
    rfl

/-- **No leak.**  When everything has been given back, the heap is one free block again, and
the next request is answered as the first one would have been. -/
theorem heap_empty (hi : rtSystemHeapInit beginAddr endAddr m₀ = some h)
    (haddr : endAddr < 2 ^ 32) (hlarge : minSizeAligned ≤ h.memSizeAligned) (hal : AllowedRun h es)
    (hr : exec heapStep (fresh h) es = some s) (hheld : ∀ p, s.held p = none) :
    blocks s.heap = [(0, ⟨h.memSizeAligned, false⟩)] ∧ s.heap.usedMem = 0 ∧
      s.heap.lfree = h.heapPtr ∧
        ∀ size, (s.heap.rtMalloc size).map Prod.fst = (h.rtMalloc size).map Prod.fst := by
  obtain ⟨l, H⟩ := holds_run hi haddr hlarge hal hr
  have hfree : ∀ b ∈ l, b.used = false := by
    rintro ⟨n, u⟩ hb
    obtain ⟨x, hx⟩ := exists_at_of_mem (w := Block.span) 0 hb
    rcases u with - | -
    · rfl
    · have hsome := H.holding.owner x n hx
      rw [hheld] at hsome
      exact hsome.symm
  have hextent := H.sound.lays.extent
  obtain rfl : l = [⟨s.heap.memSizeAligned, false⟩] := by
    rcases l with - | ⟨b, - | ⟨c, l⟩⟩
    · rw [stop_nil] at hextent
      omega
    · obtain ⟨n, u⟩ := b
      have hu : u = false := hfree _ List.mem_cons_self
      have hspan : (⟨n, u⟩ : Block).span = 12 + n := rfl
      rw [stop_cons, stop_nil, hspan] at hextent
      rw [hu]
      congr 2
      omega
    · rcases H.sound.merged.rel with hb | hc
      · exact absurd ((hfree b (by simp)).symm.trans hb) Bool.noConfusion
      · exact absurd ((hfree c (by simp)).symm.trans hc) Bool.noConfusion
  have hfirst := H.sound.pointed.first _ (at_cons.mpr (.inl ⟨rfl, rfl⟩))
  refine ⟨?_, H.sound.count, hfirst.trans H.base, fun size => ?_⟩
  · rw [H.sound.lays.blocks, ← H.size]
    rfl
  · have S : h.Sound [⟨h.memSizeAligned, false⟩] := (sound_init hi haddr hlarge).1
    rw [H.sound.rtMalloc_single, S.rtMalloc_single, H.base, H.size]

/-- Two blocks, the first one given back first. -/
theorem heap_empty_four :
    ∃ h s, rtSystemHeapInit 1000 1112 (fun _ => 0) = some h ∧
      exec heapStep (fresh h) [.malloc 12, .calloc 2 3, .free 1012, .free 1036] = some s ∧
      blocks s.heap = [(0, ⟨h.memSizeAligned, false⟩)] ∧ s.heap.usedMem = 0 ∧
        s.heap.lfree = h.heapPtr ∧
          ∀ size, (s.heap.rtMalloc size).map Prod.fst = (h.rtMalloc size).map Prod.fst := by
  obtain ⟨h, s, hi, hlarge, hal, hr, hblocks⟩ := exists_run AllowedRun (fun _ => 0) 1112
    [.malloc 12, .calloc 2 3, .free 1012, .free 1036] (fun s => blocks s.heap) [(0, ⟨88, false⟩)]
    (by decide +kernel)
  obtain ⟨l, H⟩ := holds_run hi (by decide) hlarge hal hr
  refine ⟨h, s, hi, hr, heap_empty hi (by decide) hlarge hal hr fun p => ?_⟩
  rcases hp : s.held p with - | k
  · rfl
  · obtain ⟨b, hb, hused, -⟩ := (H.inOrder.held p).mp (by rw [hp]; rfl)
    rw [hblocks] at hb
    obtain rfl := List.mem_singleton.mp hb
    exact Bool.noConfusion hused

/-- **When a request fails**, as long as no call has stranded a block: it is empty, or larger
than the heap, or no free block has room for it, but for the last one where it fills that. -/
theorem malloc_null_iff (hi : rtSystemHeapInit beginAddr endAddr m₀ = some h)
    (haddr : endAddr < 2 ^ 32) (hlarge : minSizeAligned ≤ h.memSizeAligned) (hal : TidyRun h es)
    (hr : exec heapStep (fresh h) es = some s) (size : ℕ) :
    (s.heap.rtMalloc size).map Prod.fst = some rtNull ↔
      size = 0 ∨ s.heap.memSizeAligned < rtAlign size ∨
        ∀ b ∈ blocks s.heap, b.2.used = false → roomFor size ≤ b.2.size →
          b.2.size = roomFor size ∧ b.1 + b.2.size = s.heap.memSizeAligned := by
  obtain ⟨l, H, hlow⟩ := lowest_run hi haddr hlarge hal hr
  have hnull : rtNull = 0 := rfl
  have hlays := H.sound.lays
  rcases H.sound.rtMalloc size with ⟨hcall, hwhy⟩ |
    ⟨hne, hle, h', l', x, n, m, hcall, hfree, -, hn, hnm, hlast, -⟩
  · refine iff_of_true (by rw [hcall]; rfl) (hwhy.imp id (Or.imp id fun hnone => ?_))
    rintro ⟨x, n, u⟩ hb (rfl : u = false) (hroom : roomFor size ≤ n)
    have hat := hlays.mem_blocks.mp hb
    have hend := hnone x n hat (hlow x n hat) hroom
    have hxn : x + n ≤ s.heap.memSizeAligned := hlays.le hat
    exact ⟨show n = roomFor size by omega, show x + n = s.heap.memSizeAligned by omega⟩
  · refine iff_of_false (fun hret => ?_) ?_
    · rw [hcall] at hret
      have hret : s.heap.heapPtr + x + 12 = rtNull := Option.some.inj hret
      omega
    · rintro (hzero | hbig | hall)
      · exact hne hzero
      · omega
      · obtain ⟨he, hx⟩ : m = roomFor size ∧ x + m = s.heap.memSizeAligned :=
          hall (x, ⟨m, false⟩) (hlays.mem_blocks.mpr hfree) rfl (hn.trans hnm)
        omega

/-- The last block has just the room for 64 bytes. -/
theorem malloc_null_iff_one :
    ∃ h s, rtSystemHeapInit 1000 1112 (fun _ => 0) = some h ∧
      exec heapStep (fresh h) [.malloc 12] = some s ∧
      blocks s.heap = [(0, ⟨12, true⟩), (24, ⟨64, false⟩)] ∧
      ((s.heap.rtMalloc 64).map Prod.fst = some rtNull ↔
        64 = 0 ∨ s.heap.memSizeAligned < rtAlign 64 ∨
          ∀ b ∈ blocks s.heap, b.2.used = false → roomFor 64 ≤ b.2.size →
            b.2.size = roomFor 64 ∧ b.1 + b.2.size = s.heap.memSizeAligned) := by
  obtain ⟨h, s, hi, hlarge, hal, hr, hblocks⟩ := exists_run TidyRun (fun _ => 0) 1112
    [.malloc 12] (fun s => blocks s.heap) [(0, ⟨12, true⟩), (24, ⟨64, false⟩)] (by decide +kernel)
  exact ⟨h, s, hi, hr, hblocks, malloc_null_iff hi (by decide) hlarge hal hr 64⟩

end Runs

end Heap

end DolphinNote
