/-
DolphinNote/Bytes.lean

Memory as bytes, with numbers of several bytes in it, the lowest byte first.

* A number that is stored is loaded again (`load_store`), and one that lies
  apart from it is not changed (`load_store_of_apart`).
* `copyUp` and `copyDown` move one byte after the other.  They agree with
  `copy`, which moves them at once, unless they run into bytes of the source
  they have already overwritten (`copyUp_eq_copy`, `copyDown_eq_copy`).
* A word that is loaded and stored is the bytes of it copied
  (`store_load`).
-/
import Mathlib.Tactic

namespace Bytes

/-- A byte at every address. -/
abbrev Memory := ℕ → UInt8

/-- The number in `n` bytes. -/
def load : ℕ → Memory → ℕ → ℕ
  | 0, _, _ => 0
  | n + 1, m, a => (m a).toNat + 256 * load n m (a + 1)

/-- The `n` lowest bytes of a number. -/
def store : ℕ → ℕ → ℕ → Memory → Memory
  | 0, _, _, m => m
  | n + 1, a, v, m => store n (a + 1) (v / 256) (Function.update m a (UInt8.ofNat v))

/-- `n` bytes from `a` on. -/
def read (n : ℕ) (m : Memory) (a : ℕ) : List UInt8 := (List.range n).map fun i => m (a + i)

/-- `n` bytes are set to one value. -/
def fill (a n : ℕ) (b : UInt8) (m : Memory) : Memory :=
  fun i => if a ≤ i ∧ i < a + n then b else m i

/-- `n` bytes are moved at once. -/
def copy (d s n : ℕ) (m : Memory) : Memory :=
  fun i => if d ≤ i ∧ i < d + n then m (s + (i - d)) else m i

/-- They are moved one after the other, the first one first. -/
def copyUp : ℕ → ℕ → ℕ → Memory → Memory
  | 0, _, _, m => m
  | n + 1, d, s, m => copyUp n (d + 1) (s + 1) (Function.update m d (m s))

/-- The last one first. -/
def copyDown : ℕ → ℕ → ℕ → Memory → Memory
  | 0, _, _, m => m
  | n + 1, d, s, m => copyDown n d s (Function.update m (d + n) (m (s + n)))

variable {n k a b d s v i : ℕ} {m m' : Memory} {c : UInt8}

/-! ### Loading and storing -/

theorem store_apply (n a v : ℕ) (m : Memory) (i : ℕ) :
    store n a v m i = if a ≤ i ∧ i < a + n then UInt8.ofNat (v / 256 ^ (i - a)) else m i := by
  induction n generalizing a v m with
  | zero =>
      rw [if_neg (by omega)]
      rfl
  | succ n ih =>
      show store n (a + 1) (v / 256) (Function.update m a (UInt8.ofNat v)) i = _
      rw [ih]
      rcases lt_trichotomy i a with hlt | rfl | hgt
      · rw [if_neg (by omega), if_neg (by omega), Function.update_of_ne hlt.ne]
      · rw [if_neg (by omega), if_pos (by omega), Function.update_self, Nat.sub_self, pow_zero,
          Nat.div_one]
      · have hsub : i - a = i - (a + 1) + 1 := by omega
        by_cases hin : i < a + (n + 1)
        · rw [if_pos (by omega), if_pos (by omega), hsub, pow_succ', Nat.div_div_eq_div_mul]
        · rw [if_neg (by omega), if_neg (by omega), Function.update_of_ne hgt.ne']

theorem store_of_apart (h : i < a ∨ a + n ≤ i) : store n a v m i = m i := by
  rw [store_apply, if_neg (by omega)]

theorem load_congr (h : ∀ i, a ≤ i → i < a + n → m' i = m i) : load n m' a = load n m a := by
  induction n generalizing a with
  | zero => rfl
  | succ n ih =>
      show (m' a).toNat + 256 * load n m' (a + 1) = (m a).toNat + 256 * load n m (a + 1)
      rw [h a le_rfl (by omega), ih fun i hi hi' => h i (by omega) (by omega)]

/-- **Elsewhere nothing changes**: what is stored beside the bytes is not loaded. -/
theorem load_store_of_apart (h : b + k ≤ a ∨ a + n ≤ b) :
    load k (store n a v m) b = load k m b :=
  load_congr fun _ _ _ => store_of_apart (by omega)

/-- The bytes of a number. -/
theorem load_of_digits (h : ∀ i < n, m (a + i) = UInt8.ofNat (v / 256 ^ i)) :
    load n m a = v % 256 ^ n := by
  induction n generalizing a v with
  | zero => exact (Nat.mod_one v).symm
  | succ n ih =>
      have hbyte : (m a).toNat = v % 256 := by
        have h0 := h 0 (Nat.succ_pos n)
        rw [Nat.add_zero, pow_zero, Nat.div_one] at h0
        rw [h0]
        exact UInt8.toNat_ofNat'
      have hrest : load n m (a + 1) = v / 256 % 256 ^ n := ih fun i hi => by
        have hi' := h (i + 1) (by omega)
        rw [Nat.add_assoc, Nat.add_comm 1 i, hi', pow_succ', Nat.div_div_eq_div_mul]
      show (m a).toNat + 256 * load n m (a + 1) = _
      rw [hbyte, hrest, pow_succ', Nat.mod_mul]

/-- **What has been stored is loaded again**, as far as the bytes hold it. -/
theorem load_store (n a v : ℕ) (m : Memory) : load n (store n a v m) a = v % 256 ^ n :=
  load_of_digits fun i hi => by
    rw [store_apply, if_pos (by omega), Nat.add_sub_cancel_left]

theorem load_lt (n : ℕ) (m : Memory) (a : ℕ) : load n m a < 256 ^ n := by
  induction n generalizing a with
  | zero => exact Nat.one_pos
  | succ n ih =>
      have hbyte := (m a).toNat_lt
      have hrest := ih (a + 1)
      show (m a).toNat + 256 * load n m (a + 1) < _
      rw [pow_succ']
      omega

/-- The bytes of what is loaded are those of the memory. -/
theorem digit_load (h : i < n) : UInt8.ofNat (load n m a / 256 ^ i) = m (a + i) := by
  induction n generalizing a i with
  | zero => exact absurd h (Nat.not_lt_zero i)
  | succ n ih =>
      have hbyte := (m a).toNat_lt
      show UInt8.ofNat (((m a).toNat + 256 * load n m (a + 1)) / 256 ^ i) = _
      rcases i with - | i
      · rw [pow_zero, Nat.div_one, Nat.add_zero, ← UInt8.toNat_inj, UInt8.toNat_ofNat',
          Nat.add_mul_mod_self_left]
        exact Nat.mod_eq_of_lt hbyte
      · have hdiv : ((m a).toNat + 256 * load n m (a + 1)) / 256 = load n m (a + 1) := by omega
        rw [pow_succ', ← Nat.div_div_eq_div_mul, hdiv, ih (Nat.lt_of_succ_lt_succ h), Nat.add_assoc,
          Nat.add_comm 1 i]

/-- **A word is its bytes.** -/
theorem store_load (n d s : ℕ) (m : Memory) : store n d (load n m s) m = copy d s n m := by
  funext i
  rw [store_apply]
  unfold copy
  refine if_ctx_congr Iff.rfl (fun h => ?_) fun _ => rfl
  exact digit_load (by omega)

/-- What is there is stored again. -/
theorem store_self (h : load n m a = v) : store n a v m = m := by
  rw [← h, store_load]
  funext i
  unfold copy
  split_ifs with hi
  · congr 1
    omega
  · rfl

/-! ### Reading -/

@[simp] theorem length_read : (read n m a).length = n := by
  unfold read
  rw [List.length_map, List.length_range]

theorem read_congr (h : ∀ i, a ≤ i → i < a + n → m' i = m i) : read n m' a = read n m a := by
  refine List.map_congr_left fun i hi => h _ (Nat.le_add_right _ _) ?_
  exact Nat.add_lt_add_left (List.mem_range.mp hi) a

theorem take_read (h : k ≤ n) : (read n m a).take k = read k m a := by
  unfold read
  rw [← List.map_take, List.take_range, Nat.min_eq_left h]

theorem read_fill (a n : ℕ) (c : UInt8) (m : Memory) :
    read n (fill a n c m) a = List.replicate n c := by
  refine List.eq_replicate_iff.mpr ⟨length_read, fun b hb => ?_⟩
  obtain ⟨i, hi, rfl⟩ := List.mem_map.mp hb
  have hlt := List.mem_range.mp hi
  exact if_pos (by omega)

theorem read_update (i : ℕ) (c : UInt8) :
    read n (Function.update m (a + i) c) a = (read n m a).set i c := by
  refine List.ext_getElem (by simp) fun j hj hj' => ?_
  have hget : ∀ (m : Memory) (hj : j < (read n m a).length), (read n m a)[j] = m (a + j) := by
    intro m hj
    simp [read]
  rw [List.getElem_set, hget, hget]
  rcases eq_or_ne i j with rfl | hne
  · rw [if_pos rfl, Function.update_self]
  · rw [if_neg hne, Function.update_of_ne (by omega)]

/-! ### Moving -/

theorem copy_of_apart (h : i < d ∨ d + n ≤ i) : copy d s n m i = m i := if_neg (by omega)

theorem fill_of_apart (h : i < a ∨ a + n ≤ i) : fill a n c m i = m i := if_neg (by omega)

theorem fill_fill (a n k : ℕ) (c : UInt8) (m : Memory) :
    fill (a + n) k c (fill a n c m) = fill a (n + k) c m := by
  funext i
  unfold fill
  split_ifs <;> first | rfl | omega

theorem copyUp_add (n k d s : ℕ) (m : Memory) :
    copyUp (n + k) d s m = copyUp k (d + n) (s + n) (copyUp n d s m) := by
  induction n generalizing d s m with
  | zero => rw [Nat.zero_add]; rfl
  | succ n ih =>
      rw [Nat.succ_add]
      show copyUp (n + k) (d + 1) (s + 1) _ = _
      rw [ih, Nat.add_right_comm d, Nat.add_right_comm s]
      rfl

/-- **Upwards**, towards lower addresses or past the whole source. -/
theorem copyUp_eq_copy (h : d ≤ s ∨ s + n ≤ d) : copyUp n d s m = copy d s n m := by
  induction n generalizing d s m with
  | zero =>
      funext i
      exact (if_neg (by omega)).symm
  | succ n ih =>
      show copyUp n (d + 1) (s + 1) (Function.update m d (m s)) = _
      rw [ih (by omega)]
      funext i
      unfold copy
      rcases eq_or_ne i d with rfl | hne
      · rw [if_neg (by omega), if_pos (by omega), Function.update_self, Nat.sub_self]
        rfl
      · by_cases hin : d + 1 ≤ i ∧ i < d + 1 + n
        · rw [if_pos hin, if_pos (by omega), Function.update_of_ne (by omega)]
          congr 1
          omega
        · rw [if_neg hin, if_neg (by omega), Function.update_of_ne hne]

/-- **Downwards**, towards higher addresses. -/
theorem copyDown_eq_copy (h : s ≤ d) : copyDown n d s m = copy d s n m := by
  induction n generalizing m with
  | zero =>
      funext i
      exact (if_neg (by omega)).symm
  | succ n ih =>
      show copyDown n d s (Function.update m (d + n) (m (s + n))) = _
      rw [ih]
      funext i
      unfold copy
      rcases eq_or_ne i (d + n) with rfl | hne
      · rw [if_neg (by omega), if_pos (by omega), Function.update_self, Nat.add_sub_cancel_left]
      · by_cases hin : d ≤ i ∧ i < d + n
        · rw [if_pos hin, if_pos (by omega), Function.update_of_ne (by omega)]
        · rw [if_neg hin, if_neg (by omega), Function.update_of_ne hne]

/-- Two words that do not cut each other. -/
theorem copyUp_word (hd : n ∣ d) (hs : n ∣ s) :
    copyUp n d s m = store n d (load n m s) m := by
  rw [store_load]
  refine copyUp_eq_copy ?_
  obtain ⟨x, rfl⟩ := hd
  obtain ⟨y, rfl⟩ := hs
  rcases le_or_gt x y with hle | hgt
  · exact .inl (Nat.mul_le_mul_left n hle)
  · right
    calc n * y + n = n * (y + 1) := by ring
      _ ≤ n * x := Nat.mul_le_mul_left n hgt

end Bytes
