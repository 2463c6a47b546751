/-
DolphinNote/NorFlash.lean

Serial NOR flash.  The device has `size` bytes, in pages and sectors, and takes
addresses modulo `size`.  A page program stays inside the page of its address,
where it wraps, and can only clear bits; an erase sets a whole sector to `FF`;
a read goes on from address to address.

* `programs_agree`, `programs_zero`: a cell after any number of programs, when
  they agree about it and when one of them clears it.
* `pieces`: an address range cut at the page boundaries, as a driver has to do
  before it programs more than a page.
-/
import Mathlib.Tactic
import Mathlib.Data.UInt

namespace NorFlash

/-- The cells of a device. -/
abbrev Cells := ℕ → UInt8

/-- An erased device. -/
def blank : Cells := fun _ => 0xFF

/-- The geometry: the bytes of a page, of a sector and of the device. -/
structure Geometry where
  page : ℕ
  sector : ℕ
  size : ℕ
  page_pos : 0 < page

variable {g : Geometry} {m : Cells} {c : ℕ} {x : UInt8}

/-! ### Commands -/

/-- A page program: its address, and the bytes sent. -/
structure Program where
  addr : ℕ
  data : ℕ → UInt8
  len : ℕ

namespace Program

/-- The cell for the byte `i`. -/
def cell (g : Geometry) (w : Program) (i : ℕ) : ℕ :=
  w.addr % g.size / g.page * g.page + (w.addr % g.size + i) % g.page

/-- The cells after the first `n` bytes. -/
def runTo (g : Geometry) (w : Program) (m : Cells) : ℕ → Cells
  | 0 => m
  | n + 1 =>
      let m' := w.runTo g m n
      Function.update m' (w.cell g n) (m' (w.cell g n) &&& w.data n)

/-- The cells after the program. -/
def run (g : Geometry) (m : Cells) (w : Program) : Cells := w.runTo g m w.len

/-- The program sends `x` to the cell. -/
def Puts (g : Geometry) (w : Program) (c : ℕ) (x : UInt8) : Prop :=
  ∃ i < w.len, w.cell g i = c ∧ w.data i = x

end Program

/-- The cells after an erase of the sector of `a`. -/
def erase (g : Geometry) (m : Cells) (a : ℕ) : Cells :=
  fun c => if c / g.sector = a % g.size / g.sector then 0xFF else m c

/-- The `n` bytes read from `a` on. -/
def read (g : Geometry) (m : Cells) (a n : ℕ) : List UInt8 :=
  (List.range n).map fun i => m ((a + i) % g.size)

/-! ### A cell after programs -/

/-- A cell is left alone, or takes the byte that all agree on. -/
theorem Program.runTo_agree (w : Program) (m : Cells) {n : ℕ}
    (h : ∀ i < n, w.cell g i = c → w.data i = x) :
    ((∀ i < n, w.cell g i ≠ c) ∧ w.runTo g m n c = m c) ∨
      ((∃ i < n, w.cell g i = c) ∧ w.runTo g m n c = m c &&& x) := by
  induction n with
  | zero => exact .inl ⟨fun i hi => absurd hi i.not_lt_zero, rfl⟩
  | succ n ih =>
      have hprev := ih fun i hi => h i (hi.trans n.lt_succ_self)
      simp only [runTo]
      by_cases hc : w.cell g n = c
      · refine .inr ⟨⟨n, n.lt_succ_self, hc⟩, ?_⟩
        rw [← hc, Function.update_self, hc, h n n.lt_succ_self hc]
        rcases hprev with ⟨-, heq⟩ | ⟨-, heq⟩
        · rw [heq]
        · rw [heq, UInt8.and_assoc, UInt8.and_self]
      · rw [Function.update_of_ne (Ne.symm hc)]
        rcases hprev with ⟨hall, heq⟩ | ⟨⟨i, hi, hic⟩, heq⟩
        · refine .inl ⟨fun i hi => ?_, heq⟩
          rcases Nat.lt_succ_iff_lt_or_eq.mp hi with hlt | rfl
          · exact hall i hlt
          · exact hc
        · exact .inr ⟨⟨i, hi.trans n.lt_succ_self, hic⟩, heq⟩

theorem Program.run_agree {w : Program} (m : Cells) (h : ∀ y, w.Puts g c y → y = x) :
    ((∀ y, ¬ w.Puts g c y) ∧ w.run g m c = m c) ∨ w.run g m c = m c &&& x := by
  rcases w.runTo_agree m fun i hi hic => h _ ⟨i, hi, hic, rfl⟩ with ⟨hall, heq⟩ | ⟨-, heq⟩
  · refine .inl ⟨?_, heq⟩
    rintro y ⟨i, hi, hic, -⟩
    exact hall i hi hic
  · exact .inr heq

/-- **Agreement.**  If all that is sent to a cell is `x`, it is left alone or
takes it. -/
theorem programs_agree {ws : List Program} (h : ∀ w ∈ ws, ∀ y, w.Puts g c y → y = x) :
    ((∀ w ∈ ws, ∀ y, ¬ w.Puts g c y) ∧ ws.foldl (Program.run g) m c = m c) ∨
      ws.foldl (Program.run g) m c = m c &&& x := by
  induction ws generalizing m with
  | nil => exact .inl ⟨fun w hw => absurd hw List.not_mem_nil, rfl⟩
  | cons w ws ih =>
      have hfirst := Program.run_agree m (h w List.mem_cons_self)
      have hrest := ih (m := w.run g m) fun v hv => h v (List.mem_cons_of_mem w hv)
      rw [List.foldl_cons]
      rcases hfirst with ⟨hno, hfirst⟩ | hfirst
      · rcases hrest with ⟨hall, hrest⟩ | hrest
        · exact .inl ⟨List.forall_mem_cons.mpr ⟨hno, hall⟩, hrest.trans hfirst⟩
        · exact .inr (by rw [hrest, hfirst])
      · rcases hrest with ⟨-, hrest⟩ | hrest
        · exact .inr (hrest.trans hfirst)
        · exact .inr (by rw [hrest, hfirst, UInt8.and_assoc, UInt8.and_self])

/-- A cell of a blank device to which only `x` is sent. -/
theorem programs_blank {ws : List Program} {w : Program} (hw : w ∈ ws) (hx : w.Puts g c x)
    (h : ∀ w ∈ ws, ∀ y, w.Puts g c y → y = x) : ws.foldl (Program.run g) blank c = x := by
  rcases programs_agree (m := blank) h with ⟨hno, -⟩ | heq
  · exact absurd hx (hno w hw x)
  · rw [heq]
    exact UInt8.neg_one_and

/-- Without a zero bit sent to it, a cell of a blank device stays blank. -/
theorem programs_ones {ws : List Program} (h : ∀ w ∈ ws, ∀ y, w.Puts g c y → y = 0xFF) :
    ws.foldl (Program.run g) blank c = 0xFF := by
  rcases programs_agree (m := blank) h with ⟨-, heq⟩ | heq
  · exact heq
  · rw [heq]
    exact UInt8.neg_one_and

/-- A cleared cell stays so. -/
theorem Program.runTo_succ_zero {w : Program} {n : ℕ} (h : w.runTo g m n c = 0) :
    w.runTo g m (n + 1) c = 0 := by
  simp only [runTo]
  by_cases hc : c = w.cell g n
  · rw [← hc, Function.update_self, h, UInt8.zero_and]
  · rw [Function.update_of_ne hc, h]

theorem Program.run_cleared (w : Program) (h : m c = 0) : w.run g m c = 0 := by
  unfold run
  induction w.len with
  | zero => exact h
  | succ n ih => exact runTo_succ_zero ih

theorem Program.run_zero {w : Program} (m : Cells) (h : w.Puts g c 0) : w.run g m c = 0 := by
  obtain ⟨i, hi, hic, h0⟩ := h
  unfold run
  -- from the byte `i` on
  induction w.len, Nat.succ_le_of_lt hi using Nat.le_induction with
  | base =>
      simp only [runTo]
      rw [← hic, Function.update_self, h0, UInt8.and_zero]
  | succ n hn ih => exact runTo_succ_zero ih

/-- **Clearing.**  A zero sent to a cell is found there. -/
theorem programs_zero {ws : List Program} {w : Program} (hw : w ∈ ws) (h : w.Puts g c 0) :
    ws.foldl (Program.run g) m c = 0 := by
  have hcleared : ∀ (vs : List Program) (m : Cells), m c = 0 → vs.foldl (Program.run g) m c = 0 := by
    intro vs
    induction vs with
    | nil => exact fun _ h => h
    | cons v vs ih => exact fun m h => ih (v.run g m) (v.run_cleared h)
  obtain ⟨vs, us, rfl⟩ := List.append_of_mem hw
  rw [List.foldl_append, List.foldl_cons]
  exact hcleared us _ (Program.run_zero _ h)

/-! ### Page boundaries -/

/-- The range of `n` bytes from `a` on, cut at the page boundaries: the start
and the length of each piece. -/
def pieces (g : Geometry) (a n : ℕ) : List (ℕ × ℕ) :=
  if n = 0 then []
  else
    let k := min (g.page - a % g.page) n
    (a, k) :: pieces g (a + k) (n - k)
termination_by n
decreasing_by
  have := Nat.mod_lt a g.page_pos
  omega

@[simp] theorem pieces_zero (a : ℕ) : pieces g a 0 = [] := by
  rw [pieces, if_pos rfl]

/-- The first page boundary behind `a`. -/
theorem dvd_boundary (g : Geometry) (a : ℕ) : g.page ∣ a + (g.page - a % g.page) := by
  have hlt := Nat.mod_lt a g.page_pos
  have hmod := Nat.mod_add_div a g.page
  refine ⟨a / g.page + 1, ?_⟩
  rw [Nat.mul_add, Nat.mul_one]
  omega

theorem boundary_le {a s : ℕ} (has : a < s) (hs : g.page ∣ s) : a + (g.page - a % g.page) ≤ s := by
  have hlt := Nat.mod_lt a g.page_pos
  have hmod := Nat.mod_add_div a g.page
  obtain ⟨q, rfl⟩ := hs
  have hq : a / g.page < q := (Nat.div_lt_iff_lt_mul g.page_pos).mpr (by rwa [Nat.mul_comm])
  have hmul : g.page * (a / g.page + 1) ≤ g.page * q := Nat.mul_le_mul_left _ hq
  rw [Nat.mul_add, Nat.mul_one] at hmul
  omega

/-- Up to the first page boundary there is one piece. -/
theorem pieces_single {a n : ℕ} (hpos : 0 < n) (hn : n ≤ g.page - a % g.page) :
    pieces g a n = [(a, n)] := by
  rw [pieces, if_neg hpos.ne']
  dsimp only
  rw [Nat.min_eq_right hn, Nat.sub_self, pieces_zero]

/-- Beyond it the first piece ends there. -/
theorem pieces_cons {a n : ℕ} (hn : g.page - a % g.page ≤ n) :
    pieces g a n = (a, g.page - a % g.page) ::
      pieces g (a + (g.page - a % g.page)) (n - (g.page - a % g.page)) := by
  have hlt := Nat.mod_lt a g.page_pos
  rw [pieces, if_neg (by omega)]
  dsimp only
  rw [Nat.min_eq_left hn]

/-- A range that is cut at a page boundary anyway. -/
theorem pieces_add {a k l : ℕ} (hk : g.page ∣ a + k) :
    pieces g a (k + l) = pieces g a k ++ pieces g (a + k) l := by
  induction k using Nat.strongRecOn generalizing a with
  | ind k ih =>
      rcases Nat.eq_zero_or_pos k with rfl | hpos
      · simp
      · have hlt := Nat.mod_lt a g.page_pos
        have hle := boundary_le (Nat.lt_add_of_pos_right hpos) hk
        have hsum : a + (g.page - a % g.page) + (k - (g.page - a % g.page)) = a + k := by omega
        have hrest := ih (k - (g.page - a % g.page)) (by omega) (by rwa [hsum])
        rw [pieces_cons (by omega), pieces_cons (n := k) (by omega), Nat.sub_add_comm (by omega),
          hrest, hsum, List.cons_append]

/-- **The pieces.**  They start at `a` and at the page boundaries behind it, and
reach up to the next boundary or the end of the range. -/
theorem mem_pieces_iff {a n s k : ℕ} :
    (s, k) ∈ pieces g a n ↔
      (a ≤ s ∧ s < a + n ∧ (s = a ∨ g.page ∣ s)) ∧ k = min (g.page - s % g.page) (a + n - s) := by
  induction n using Nat.strongRecOn generalizing a with
  | ind n ih =>
      have hlt := Nat.mod_lt a g.page_pos
      rcases Nat.eq_zero_or_pos n with rfl | hpos
      · rw [pieces_zero]
        exact iff_of_false List.not_mem_nil (by omega)
      · by_cases hn : n ≤ g.page - a % g.page
        · rw [pieces_single hpos hn, List.mem_singleton, Prod.mk.injEq]
          constructor
          · rintro ⟨rfl, rfl⟩
            exact ⟨⟨le_rfl, by omega, .inl rfl⟩, by omega⟩
          · rintro ⟨⟨has, hs, hstart⟩, rfl⟩
            rcases Nat.eq_or_lt_of_le has with rfl | hgt
            · exact ⟨rfl, by omega⟩
            · have hle := boundary_le hgt (hstart.resolve_left hgt.ne')
              omega
        · have hdvd := dvd_boundary g a
          rw [pieces_cons (by omega), List.mem_cons, ih _ (by omega), Prod.mk.injEq]
          constructor
          · rintro (⟨rfl, rfl⟩ | ⟨⟨has, hs, hstart⟩, rfl⟩)
            · exact ⟨⟨le_rfl, by omega, .inl rfl⟩, by omega⟩
            · refine ⟨⟨by omega, by omega, .inr ?_⟩, by omega⟩
              exact hstart.elim (fun h => h ▸ hdvd) id
          · rintro ⟨⟨has, hs, hstart⟩, rfl⟩
            rcases Nat.eq_or_lt_of_le has with rfl | hgt
            · exact .inl ⟨rfl, by omega⟩
            · have hs' := hstart.resolve_left hgt.ne'
              have hle := boundary_le hgt hs'
              exact .inr ⟨⟨hle, by omega, .inr hs'⟩, by omega⟩

/-- The ranges lie one behind the other from `a` to `b`, without gap or overlap, and
none is empty. -/
def Tiles : ℕ → List (ℕ × ℕ) → ℕ → Prop
  | a, [], b => a = b
  | a, r :: rs, b => r.1 = a ∧ 0 < r.2 ∧ Tiles (a + r.2) rs b

theorem tiles_pieces (a n : ℕ) : Tiles a (pieces g a n) (a + n) := by
  induction n using Nat.strongRecOn generalizing a with
  | ind n ih =>
      have hlt := Nat.mod_lt a g.page_pos
      rcases Nat.eq_zero_or_pos n with rfl | hpos
      · rw [pieces_zero]
        exact (Nat.add_zero a).symm
      · by_cases hn : n ≤ g.page - a % g.page
        · rw [pieces_single hpos hn]
          exact ⟨rfl, hpos, rfl⟩
        · have hrest := ih (n - (g.page - a % g.page)) (by omega) (a + (g.page - a % g.page))
          rw [Nat.add_assoc, Nat.add_sub_cancel' (by omega)] at hrest
          rw [pieces_cons (by omega)]
          exact ⟨rfl, by omega, hrest⟩

end NorFlash
