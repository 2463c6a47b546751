/-
DolphinNote/Circular.lean

A circular buffer as a window onto a log.  The log lists everything that has
ever been written, from the beginning of time; the `n` cells hold its entries
from the `a`-th on, each at its index modulo `n`.  Counters that wrap are the
two ends of the window modulo `n`.

The window stays right as long as it is not longer than the buffer
(`Holds.append`).
-/
import Mathlib.Tactic

namespace Circular

variable {β : Type*} {n a k : ℕ} {cell cell' : ℕ → β} {log xs : List β}

/-- The cells hold the entries of the log from the `a`-th on. -/
structure Holds (n : ℕ) (cell : ℕ → β) (log : List β) (a : ℕ) : Prop where
  le : a ≤ log.length
  fits : log.length ≤ a + n
  entry : ∀ i (h : i < log.length), a ≤ i → cell (i % n) = log[i]

/-- Indices less than a lap apart have cells of their own. -/
theorem mod_ne_mod {i j : ℕ} (hij : i < j) (hlap : j < i + n) : i % n ≠ j % n := by
  intro h
  have hzero : (j - i) % n = 0 := Nat.sub_mod_eq_zero_of_mod_eq h.symm
  rw [Nat.mod_eq_of_lt (by omega)] at hzero
  omega

/-- The empty window. -/
theorem Holds.empty (cell : ℕ → β) (log : List β) : Holds n cell log log.length where
  le := le_rfl
  fits := Nat.le_add_right _ _
  entry _ h ha := absurd h (Nat.not_lt.mpr ha)

/-- **Writing.**  Entries written behind the window extend it, if they fit. -/
theorem Holds.append (h : Holds n cell log a) (hfit : log.length + xs.length ≤ a + n)
    (hnew : ∀ j (hj : j < xs.length), cell' ((log.length + j) % n) = xs[j])
    (hold : ∀ c, (∀ j < xs.length, c ≠ (log.length + j) % n) → cell' c = cell c) :
    Holds n cell' (log ++ xs) a where
  le := by
    rw [List.length_append]
    exact h.le.trans (Nat.le_add_right _ _)
  fits := by rwa [List.length_append]
  entry i hi ha := by
    rw [List.length_append] at hi
    by_cases hlt : i < log.length
    · rw [List.getElem_append_left hlt, ← h.entry i hlt ha]
      exact hold _ fun j hj => mod_ne_mod (by omega) (by omega)
    · rw [List.getElem_append_right (Nat.not_lt.mp hlt), ← hnew (i - log.length) (by omega),
        Nat.add_sub_cancel' (Nat.not_lt.mp hlt)]

/-- One entry. -/
theorem Holds.push {x : β} (h : Holds n cell log a) (hfit : log.length < a + n)
    (hnew : cell' (log.length % n) = x) (hold : ∀ c, c ≠ log.length % n → cell' c = cell c) :
    Holds n cell' (log ++ [x]) a := by
  refine h.append hfit (fun j hj => ?_) fun c hc => hold c (hc 0 Nat.zero_lt_one)
  obtain rfl : j = 0 := Nat.lt_one_iff.mp hj
  exact hnew

/-- The window behind what has been read. -/
theorem Holds.advance (h : Holds n cell log a) (hk : a + k ≤ log.length) :
    Holds n cell log (a + k) where
  le := hk
  fits := h.fits.trans (by omega)
  entry i hi ha := h.entry i hi (by omega)

end Circular
