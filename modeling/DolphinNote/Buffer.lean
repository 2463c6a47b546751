/-
DolphinNote/Buffer.lean

Fixed-size byte arrays as a C program uses them.  The size is part of the
type; `wr` takes the bound of the offset it writes as a proof, so a store
beyond the array cannot be written down, and a store at a computed offset has
to test the bound first.  `rd` is total, as only offsets inside the
array are ever read by the programs modelled over it.

`bytes v k` is the list of the first `k` bytes: the view in which a buffer that
is filled from the left is just a growing list (`bytes_succ_wr`).
-/
import Mathlib.Tactic
import Mathlib.Data.UInt

/-- An array of `n` bytes. -/
abbrev Buffer (n : ℕ) := Vector UInt8 n

namespace Buffer

variable {n : ℕ}

/-- The all-zero array: static storage at power-on. -/
def zero (n : ℕ) : Buffer n := Vector.replicate n 0

/-- The byte at an offset. -/
def rd (v : Buffer n) (i : ℕ) : UInt8 := v[i]?.getD 0

/-- Overwrite the byte at an offset inside the array. -/
def wr (v : Buffer n) (i : ℕ) (x : UInt8) (h : i < n := by omega) : Buffer n := v.set i x h

/-- The first `k` bytes. -/
def bytes (v : Buffer n) (k : ℕ) : List UInt8 := (List.range k).map v.rd

/-- The array whose byte at each offset is given by `f`. -/
def tabulate (n : ℕ) (f : ℕ → UInt8) : Buffer n := Vector.ofFn fun i => f i

/-! ### Reading -/

theorem rd_wr (v : Buffer n) (i : ℕ) (x : UInt8) (h : i < n) (j : ℕ) :
    (v.wr i x h).rd j = if i = j then x else v.rd j := by
  unfold rd wr
  by_cases hj : j < n
  · simp [hj, Vector.getElem_set]
  · have hne : i ≠ j := by omega
    simp [hj, hne]

@[simp] theorem rd_wr_self (v : Buffer n) (i : ℕ) (x : UInt8) (h : i < n) :
    (v.wr i x h).rd i = x := by
  simp [rd_wr]

theorem rd_wr_of_ne {v : Buffer n} {i j : ℕ} {x : UInt8} (h : i < n) (hij : i ≠ j) :
    (v.wr i x h).rd j = v.rd j := by
  simp [rd_wr, hij]

theorem wr_eq_self_iff {v : Buffer n} {i : ℕ} {x : UInt8} (h : i < n) :
    v.wr i x h = v ↔ v.rd i = x := by
  constructor
  · intro hv
    rw [← hv, rd_wr_self]
  · rintro rfl
    simp [wr, rd, h]

theorem rd_tabulate (f : ℕ → UInt8) {i : ℕ} (h : i < n) : (tabulate n f).rd i = f i := by
  simp [rd, tabulate, h]

/-- Arrays that read alike are equal. -/
theorem ext_rd {v w : Buffer n} (h : ∀ i < n, v.rd i = w.rd i) : v = w := by
  refine Vector.ext fun i hi => ?_
  simpa [rd, hi] using h i hi

/-! ### The first bytes -/

@[simp] theorem length_bytes (v : Buffer n) (k : ℕ) : (v.bytes k).length = k := by
  simp [bytes]

theorem bytes_succ (v : Buffer n) (k : ℕ) : v.bytes (k + 1) = v.bytes k ++ [v.rd k] := by
  simp [bytes, List.range_succ]

theorem getD_bytes (v : Buffer n) {k i : ℕ} (h : i < k) : (v.bytes k).getD i 0 = v.rd i := by
  simp [bytes, h]

theorem take_bytes (v : Buffer n) {j k : ℕ} (h : j ≤ k) : (v.bytes k).take j = v.bytes j := by
  rw [bytes, ← List.map_take, List.take_range, Nat.min_eq_left h, bytes]

theorem drop_bytes (v : Buffer n) {i k : ℕ} (h : i < k) :
    (v.bytes k).drop i = v.rd i :: (v.bytes k).drop (i + 1) := by
  rw [List.drop_eq_getElem_cons (by simpa using h)]
  simp [bytes]

theorem bytes_congr {m : ℕ} {v : Buffer n} {w : Buffer m} {k : ℕ}
    (h : ∀ i < k, v.rd i = w.rd i) : v.bytes k = w.bytes k :=
  List.map_congr_left fun i hi => h i (List.mem_range.mp hi)

/-- A write at or beyond `k` leaves the first `k` bytes alone. -/
theorem bytes_wr_of_le (v : Buffer n) {i k : ℕ} (x : UInt8) (h : i < n) (hk : k ≤ i) :
    (v.wr i x h).bytes k = v.bytes k :=
  bytes_congr fun j hj => rd_wr_of_ne h (by omega)

/-- Writing the next byte appends it to the first ones. -/
theorem bytes_succ_wr (v : Buffer n) {k : ℕ} (x : UInt8) (h : k < n) :
    (v.wr k x h).bytes (k + 1) = v.bytes k ++ [x] := by
  rw [bytes_succ, bytes_wr_of_le v x h le_rfl, rd_wr_self]

/-! ### Sums -/

/-- The running 8-bit sum of the first `k` bytes, as a C loop computes it. -/
def sumTo (v : Buffer n) (k : ℕ) : UInt8 := (List.range k).foldl (fun s i => s + v.rd i) 0

@[simp] theorem sumTo_zero (v : Buffer n) : v.sumTo 0 = 0 := rfl

theorem sumTo_succ (v : Buffer n) (k : ℕ) : v.sumTo (k + 1) = v.sumTo k + v.rd k := by
  simp [sumTo, List.range_succ]

theorem sumTo_eq_sum (v : Buffer n) (k : ℕ) : v.sumTo k = (v.bytes k).sum := by
  induction k with
  | zero => simp [bytes]
  | succ k ih => rw [sumTo_succ, bytes_succ, List.sum_append, ih]; simp

theorem sumTo_congr {m : ℕ} {v : Buffer n} {w : Buffer m} {k : ℕ}
    (h : ∀ i < k, v.rd i = w.rd i) : v.sumTo k = w.sumTo k := by
  rw [sumTo_eq_sum, sumTo_eq_sum, bytes_congr h]

/-- A checksum stored behind the summed bytes, and a byte behind it, leave the
sum as it was. -/
theorem rd_eq_sumTo_of_sealed {v : Buffer n} {k m : ℕ} (x : UInt8) (hk : k < n) (hk' : k + 1 < n)
    (hm : v.sumTo m = v.sumTo k) :
    ((v.wr k (v.sumTo m) hk).wr (k + 1) x hk').rd k
      = ((v.wr k (v.sumTo m) hk).wr (k + 1) x hk').sumTo k := by
  rw [rd_wr_of_ne hk' (by omega), rd_wr_self, hm]
  refine (sumTo_congr fun i hi => ?_).symm
  rw [rd_wr_of_ne hk' (by omega), rd_wr_of_ne hk (by omega)]

end Buffer
