/-
DolphinNote/Rows.lean

Cells in a row, each as long as `w` says.

`At w s l x b` says that the cell `b` of the row `l`, which starts at `s`, stands
at `x`.  Two cells of a row are the same, or one ends in front of the other
(`At.apart`).

`Row w H p s l` says that `H` holds of every cell, of the place where it stands
and of the place of the one in front of it (`p` for the first).  A row is taken
apart at any place (`at_append`, `row_append`), and each cell ends where the
next one stands (`Row.isChain`).
-/
import Mathlib.Tactic

namespace Rows

variable {α : Type*} {w : α → ℕ} {H H' : ℕ → ℕ → α → Prop}

/-- Where a row ends. -/
def stop (w : α → ℕ) (s : ℕ) (l : List α) : ℕ := s + (l.map w).sum

/-- Where its last cell stands. -/
def final (w : α → ℕ) : ℕ → ℕ → List α → ℕ
  | p, _, [] => p
  | _, s, b :: l => final w s (s + w b) l

/-- A cell of the row. -/
def At (w : α → ℕ) (s : ℕ) (l : List α) (x : ℕ) (b : α) : Prop :=
  ∃ l₁ l₂, l = l₁ ++ b :: l₂ ∧ stop w s l₁ = x

/-- The cells with their places. -/
def places (w : α → ℕ) : ℕ → List α → List (ℕ × α)
  | _, [] => []
  | s, b :: l => (s, b) :: places w (s + w b) l

/-- What holds of every cell. -/
def Row (w : α → ℕ) (H : ℕ → ℕ → α → Prop) : ℕ → ℕ → List α → Prop
  | _, _, [] => True
  | p, s, b :: l => H p s b ∧ Row w H s (s + w b) l

variable {p s x x' : ℕ} {b b' : α} {l l₁ l₂ : List α}

/-! ### Places -/

@[simp] theorem stop_nil (s : ℕ) : stop w s [] = s := Nat.add_zero s

@[simp] theorem stop_cons (s : ℕ) (b : α) (l : List α) : stop w s (b :: l) = stop w (s + w b) l := by
  unfold stop
  rw [List.map_cons, List.sum_cons, Nat.add_assoc]

theorem stop_append (s : ℕ) (l₁ l₂ : List α) : stop w s (l₁ ++ l₂) = stop w (stop w s l₁) l₂ := by
  unfold stop
  rw [List.map_append, List.sum_append, Nat.add_assoc]

theorem le_stop (s : ℕ) (l : List α) : s ≤ stop w s l := Nat.le_add_right _ _

theorem final_append (p s : ℕ) (l₁ l₂ : List α) :
    final w p s (l₁ ++ l₂) = final w (final w p s l₁) (stop w s l₁) l₂ := by
  induction l₁ generalizing p s with
  | nil => rfl
  | cons b l₁ ih =>
      show final w s (s + w b) (l₁ ++ l₂) = _
      rw [ih, stop_cons]
      rfl

/-! ### Cells -/

@[simp] theorem not_at_nil : ¬ At w s [] x b := by
  rintro ⟨l₁, l₂, he, -⟩
  exact List.append_ne_nil_of_right_ne_nil l₁ (List.cons_ne_nil b l₂) he.symm

theorem at_append : At w s (l₁ ++ l₂) x b ↔ At w s l₁ x b ∨ At w (stop w s l₁) l₂ x b := by
  constructor
  · rintro ⟨m₁, m₂, he, rfl⟩
    rcases List.append_eq_append_iff.mp he with ⟨c, rfl, rfl⟩ | ⟨c, hc, hl₂⟩
    · exact .inr ⟨c, m₂, rfl, (stop_append s l₁ c).symm⟩
    · rcases c with - | ⟨b', c⟩
      · obtain rfl := hl₂
        rw [List.append_nil] at hc
        exact .inr ⟨[], m₂, rfl, by rw [hc]; rfl⟩
      · obtain ⟨rfl, -⟩ := List.cons.inj hl₂
        exact .inl ⟨m₁, c, hc, rfl⟩
  · rintro (⟨m₁, m₂, rfl, rfl⟩ | ⟨m₁, m₂, rfl, rfl⟩)
    · exact ⟨m₁, m₂ ++ l₂, by rw [List.append_assoc]; rfl, rfl⟩
    · exact ⟨l₁ ++ m₁, m₂, (List.append_assoc _ _ _).symm, stop_append s l₁ m₁⟩

theorem at_cons {c : α} : At w s (c :: l) x b ↔ (x = s ∧ b = c) ∨ At w (s + w c) l x b := by
  constructor
  · rintro ⟨l₁, l₂, he, rfl⟩
    rcases l₁ with - | ⟨c', l₁⟩
    · exact .inl ⟨rfl, (List.cons.inj he).1.symm⟩
    · obtain ⟨rfl, rfl⟩ := List.cons.inj he
      exact .inr ⟨l₁, l₂, rfl, (stop_cons s c l₁).symm⟩
  · rintro (⟨rfl, rfl⟩ | ⟨l₁, l₂, rfl, rfl⟩)
    · exact ⟨[], l, rfl, rfl⟩
    · exact ⟨c :: l₁, l₂, rfl, stop_cons s c l₁⟩

theorem At.mem (h : At w s l x b) : b ∈ l := by
  obtain ⟨l₁, l₂, rfl, -⟩ := h
  exact List.mem_append_right _ List.mem_cons_self

theorem exists_at_of_mem (s : ℕ) (h : b ∈ l) : ∃ x, At w s l x b := by
  obtain ⟨l₁, l₂, rfl⟩ := List.append_of_mem h
  exact ⟨_, l₁, l₂, rfl, rfl⟩

theorem mem_places : (x, b) ∈ places w s l ↔ At w s l x b := by
  induction l generalizing s with
  | nil => exact iff_of_false List.not_mem_nil not_at_nil
  | cons c l ih => rw [places, List.mem_cons, at_cons, ih, Prod.mk.injEq]

theorem places_map_snd (s : ℕ) (l : List α) : (places w s l).map Prod.snd = l := by
  induction l generalizing s with
  | nil => rfl
  | cons b l ih => exact congrArg (b :: ·) (ih (s + w b))

/-- A cell lies between the ends of its row. -/
theorem At.bounds (h : At w s l x b) : s ≤ x ∧ x + w b ≤ stop w s l := by
  obtain ⟨l₁, l₂, rfl, rfl⟩ := h
  refine ⟨le_stop s l₁, ?_⟩
  rw [stop_append, stop_cons]
  exact le_stop _ _

/-- **Two cells of a row** are the same, or one ends in front of the other. -/
theorem At.apart (h : At w s l x b) (h' : At w s l x' b') :
    (x = x' ∧ b = b') ∨ x + w b ≤ x' ∨ x' + w b' ≤ x := by
  induction l generalizing s with
  | nil => exact absurd h not_at_nil
  | cons c l ih =>
      rcases at_cons.mp h with ⟨rfl, rfl⟩ | h
      · rcases at_cons.mp h' with ⟨rfl, rfl⟩ | h'
        · exact .inl ⟨rfl, rfl⟩
        · exact .inr (.inl h'.bounds.1)
      · rcases at_cons.mp h' with ⟨rfl, rfl⟩ | h'
        · exact .inr (.inr h.bounds.1)
        · exact ih h h'

/-- Every place of a row lies in one of its cells. -/
theorem exists_at_of_lt {i : ℕ} (hs : s ≤ i) (hi : i < stop w s l) :
    ∃ x b, At w s l x b ∧ x ≤ i ∧ i < x + w b := by
  induction l generalizing s with
  | nil => exact absurd hi (by rw [stop_nil]; omega)
  | cons c l ih =>
      rcases Nat.lt_or_ge i (s + w c) with hlt | hge
      · exact ⟨s, c, at_cons.mpr (.inl ⟨rfl, rfl⟩), hs, hlt⟩
      · rw [stop_cons] at hi
        obtain ⟨x, b, hb, hx⟩ := ih hge hi
        exact ⟨x, b, at_cons.mpr (.inr hb), hx⟩

/-! ### Rows -/

@[simp] theorem row_nil (p s : ℕ) : Row w H p s [] := trivial

theorem row_cons : Row w H p s (b :: l) ↔ H p s b ∧ Row w H s (s + w b) l := Iff.rfl

theorem row_append :
    Row w H p s (l₁ ++ l₂) ↔ Row w H p s l₁ ∧ Row w H (final w p s l₁) (stop w s l₁) l₂ := by
  induction l₁ generalizing p s with
  | nil => exact (and_iff_right trivial).symm
  | cons b l₁ ih =>
      show H p s b ∧ Row w H s (s + w b) (l₁ ++ l₂) ↔
        (H p s b ∧ Row w H s (s + w b) l₁) ∧ _
      rw [ih, and_assoc, stop_cons]
      exact Iff.rfl

/-- What holds of one cell. -/
theorem Row.cell (h : Row w H p s (l₁ ++ b :: l₂)) : H (final w p s l₁) (stop w s l₁) b :=
  (row_append.mp h).2.1

theorem Row.at (h : Row w H p s l) (hb : At w s l x b) : ∃ p, H p x b := by
  obtain ⟨l₁, l₂, rfl, rfl⟩ := hb
  exact ⟨_, h.cell⟩

/-- Each cell ends where the next one stands. -/
theorem Row.isChain (h : Row w H p s l) :
    (places w s l).IsChain fun a b => b.1 = a.1 + w a.2 ∧ H a.1 b.1 b.2 := by
  induction l generalizing p s with
  | nil => exact .nil
  | cons b l ih =>
      cases l with
      | nil => exact .singleton _
      | cons c l => exact .cons_cons ⟨rfl, h.2.1⟩ (ih h.2)

theorem Row.imp (h : Row w H p s l) (himp : ∀ p x b, At w s l x b → H p x b → H' p x b) :
    Row w H' p s l := by
  induction l generalizing p s with
  | nil => trivial
  | cons b l ih =>
      exact ⟨himp p s b (at_cons.mpr (.inl ⟨rfl, rfl⟩)) h.1,
        ih h.2 fun p x b hb => himp p x b (at_cons.mpr (.inr hb))⟩

end Rows
