/-
DolphinNote/History.lean

What a run leaves behind.

* `recorded step` is the system whose states also carry the steps taken so far,
  the last one first.  Laws that look back ("a request has been processed since
  the link was lost") are properties of its steps; `Since` and `countSince` are
  the two past-time operators they need.
* `outputs step f` lists what the steps of a run put out.  `outputs_conserved`
  is the law of a queue: if in every step what is held, with what comes in, is
  what goes out, with what is held then, so it is over the whole run.
-/
import DolphinNote.Transition

namespace Transition

variable {σ α β : Type*}

/-! ### Recorded runs -/

/-- A step that has been taken. -/
structure Taken (σ α : Type*) where
  before : σ
  label : α
  after : σ

/-- One step, which is recorded. -/
def recorded (step : σ → α → Option σ) (r : σ × List (Taken σ α)) (a : α) :
    Option (σ × List (Taken σ α)) :=
  (step r.1 a).map fun s' => (s', ⟨r.1, a, s'⟩ :: r.2)

/-- Every step of the run `as` from `s` satisfies `P`, which may look at the
steps taken before. -/
def AlongPast (step : σ → α → Option σ) (P : List (Taken σ α) → σ → α → σ → Prop) (s : σ)
    (as : List α) : Prop :=
  Along (recorded step) (fun r a r' => P r.2 r.1 a r'.1) (s, []) as

variable {step : σ → α → Option σ} {P : List (Taken σ α) → σ → α → σ → Prop}
  {C : σ → α → σ → Prop} {s t : σ} {h : List (Taken σ α)} {as : List α}

instance [∀ h s a s', Decidable (P h s a s')] : Decidable (AlongPast step P s as) :=
  inferInstanceAs (Decidable (Along (recorded step) (fun r a r' => P r.2 r.1 a r'.1) (s, []) as))

theorem recorded_eq_some {r' : σ × List (Taken σ α)} {a : α} :
    recorded step (s, h) a = some r' ↔ ∃ s', step s a = some s' ∧ r' = (s', ⟨s, a, s'⟩ :: h) := by
  unfold recorded
  rw [Option.map_eq_some_iff]
  exact exists_congr fun s' => and_congr_right fun _ => eq_comm

/-- What holds of the steps of a run holds of its recorded steps. -/
theorem Along.recorded (hal : Along step C s as) (h : List (Taken σ α)) :
    Along (Transition.recorded step) (fun r a r' => C r.1 a r'.1) (s, h) as := by
  induction as generalizing s h with
  | nil => trivial
  | cons a as ih =>
      intro r' hs
      obtain ⟨s', hs', rfl⟩ := recorded_eq_some.mp hs
      exact ⟨(hal s' hs').1, ih (hal s' hs').2 _⟩

theorem along_recorded (h : List (Taken σ α)) :
    Along (Transition.recorded step) (fun r a r' => C r.1 a r'.1) (s, h) as ↔ Along step C s as := by
  refine ⟨fun hal => ?_, fun hal => hal.recorded h⟩
  induction as generalizing s h with
  | nil => trivial
  | cons a as ih =>
      intro s' hs
      obtain ⟨hc, hal'⟩ := hal _ (recorded_eq_some.mpr ⟨s', hs, rfl⟩)
      exact ⟨hc, ih _ hal'⟩

/-- **Invariants of the past.**  A relation between the past and the present
that every step meeting `C` keeps, and under which such a step satisfies `P`,
proves `P` along every run of such steps. -/
theorem Along.past {J : List (Taken σ α) → σ → Prop} (hal : Along step C s as) (h0 : J [] s)
    (hstep : ∀ h s a s', J h s → C s a s' → step s a = some s' →
      J (⟨s, a, s'⟩ :: h) s' ∧ P h s a s') : AlongPast step P s as := by
  refine (hal.recorded []).mono (I := fun r => J r.2 r.1) h0 ?_
  rintro ⟨s, h⟩ a r' hi hc hs
  obtain ⟨s', hs', rfl⟩ := recorded_eq_some.mp hs
  exact hstep h s a s' hi hc hs'

/-! ### Past-time operators -/

/-- A step with `p` has been taken, and since then only steps with `q`. -/
def Since (p q : Taken σ α → Prop) : List (Taken σ α) → Prop
  | [] => False
  | t :: h => p t ∨ (q t ∧ Since p q h)

instance Since.decidable (p q : Taken σ α → Prop) [DecidablePred p] [DecidablePred q] :
    DecidablePred (Since p q)
  | [] => inferInstanceAs (Decidable False)
  | t :: h =>
      have := Since.decidable p q h
      inferInstanceAs (Decidable (p t ∨ (q t ∧ Since p q h)))

/-- The number of steps with `p` that have been taken since the last step with
`r`. -/
def countSince (p r : Taken σ α → Prop) [DecidablePred p] [DecidablePred r] :
    List (Taken σ α) → ℕ
  | [] => 0
  | t :: h => if r t then 0 else countSince p r h + if p t then 1 else 0

section Operators

variable {p q r : Taken σ α → Prop} {x : Taken σ α}

theorem Since.here (hp : p x) : Since p q (x :: h) := .inl hp

theorem Since.later (hq : q x) (hs : Since p q h) : Since p q (x :: h) := .inr ⟨hq, hs⟩

variable [DecidablePred p] [DecidablePred r]

theorem countSince_reset (hr : r x) : countSince p r (x :: h) = 0 := by
  rw [countSince, if_pos hr]

theorem countSince_tick (hr : ¬ r x) (hp : p x) :
    countSince p r (x :: h) = countSince p r h + 1 := by
  rw [countSince, if_neg hr, if_pos hp]

theorem countSince_other (hr : ¬ r x) (hp : ¬ p x) : countSince p r (x :: h) = countSince p r h := by
  rw [countSince, if_neg hr, if_neg hp, Nat.add_zero]

end Operators

/-! ### Outputs -/

/-- What the steps of a run put out, in order. -/
def outputs (step : σ → α → Option σ) (f : σ → α → σ → List β) : σ → List α → List β
  | _, [] => []
  | s, a :: as =>
      match step s a with
      | none => []
      | some s' => f s a s' ++ outputs step f s' as

variable {f g : σ → α → σ → List β}

theorem outputs_cons {s' : σ} {a : α} (as : List α) (hs : step s a = some s') :
    outputs step f s (a :: as) = f s a s' ++ outputs step f s' as := by
  simp only [outputs, hs]

/-- **Conservation.**  What was held at the start, followed by what came in
(`f`) during the run, is what went out (`g`), followed by what is held at its
end. -/
theorem outputs_conserved {R : σ → List β → Prop} {l : List β} (hal : Along step C s as)
    (h0 : R s l)
    (hstep : ∀ s a s' l, R s l → C s a s' → step s a = some s' →
      ∃ l', R s' l' ∧ l ++ f s a s' = g s a s' ++ l')
    (ht : exec step s as = some t) :
    ∃ l', R t l' ∧ l ++ outputs step f s as = outputs step g s as ++ l' := by
  induction as generalizing s l with
  | nil =>
      obtain rfl := Option.some.inj ht
      exact ⟨l, h0, by simp [outputs]⟩
  | cons a as ih =>
      obtain ⟨s', hs, hrest⟩ := exec_cons_eq_some.mp ht
      obtain ⟨l₁, h1, heq₁⟩ := hstep s a s' l h0 (hal s' hs).1 hs
      obtain ⟨l₂, h2, heq₂⟩ := ih (hal s' hs).2 h1 hrest
      refine ⟨l₂, h2, ?_⟩
      rw [outputs_cons as hs, outputs_cons as hs]
      calc l ++ (f s a s' ++ outputs step f s' as)
          = (l ++ f s a s') ++ outputs step f s' as := (List.append_assoc ..).symm
        _ = g s a s' ++ (l₁ ++ outputs step f s' as) := by rw [heq₁, List.append_assoc]
        _ = g s a s' ++ outputs step g s' as ++ l₂ := by rw [heq₂, List.append_assoc]

/-- **Simulation, label by label.**  If each step is a run of another system, with the
labels `f` gives it and the property `Q`, so is a whole run. -/
theorem exec_outputs {τ : Type*} {step' : τ → β → Option τ} {R : σ → τ → Prop}
    {Q : τ → β → τ → Prop} {u : τ} (hal : Along step C s as) (h0 : R s u)
    (hstep : ∀ s a s' u, R s u → C s a s' → step s a = some s' →
      ∃ u', exec step' u (f s a s') = some u' ∧ Along step' Q u (f s a s') ∧ R s' u')
    (ht : exec step s as = some t) :
    ∃ u', exec step' u (outputs step f s as) = some u' ∧
      Along step' Q u (outputs step f s as) ∧ R t u' := by
  induction as generalizing s u with
  | nil =>
      obtain rfl := Option.some.inj ht
      exact ⟨u, rfl, trivial, h0⟩
  | cons a as ih =>
      obtain ⟨s', hs, hrest⟩ := exec_cons_eq_some.mp ht
      obtain ⟨hc, hal'⟩ := hal s' hs
      obtain ⟨u₁, hu₁, hq₁, h1⟩ := hstep s a s' u h0 hc hs
      obtain ⟨u₂, hu₂, hq₂, h2⟩ := ih hal' h1 hrest
      rw [outputs_cons as hs]
      refine ⟨u₂, exec_append.mpr ⟨u₁, hu₁, hu₂⟩, hq₁.append fun m hm => ?_, h2⟩
      obtain rfl := Option.some.inj (hu₁.symm.trans hm)
      exact hq₂

end Transition
