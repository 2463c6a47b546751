/-
DolphinNote/Transition.lean

Runs of a labelled transition system that is given by a partial step
function `step : σ → α → Option σ`: `none` says that the label cannot occur
in that state.  A run is a list of labels.

* `exec step s as` is the state the run reaches.
* `Along step P s as` says that every step of the run satisfies `P`, a
  relation between the state before the step, the label and the state after.

The laws are the two a safety argument needs: an invariant carried under a
condition on the steps (`Along.invariant`), and the exchange of one step
property for another under an invariant (`Along.congr`), which turns an
equivalence about single steps into one about whole runs.
-/
import Mathlib.Tactic

namespace Transition

variable {σ α : Type*}

/-- The state the run `as` reaches from `s`, if each of its steps can occur. -/
def exec (step : σ → α → Option σ) : σ → List α → Option σ
  | s, [] => some s
  | s, a :: as => (step s a).bind fun s' => exec step s' as

/-- Every step of the run `as` from `s` satisfies `P`. -/
def Along (step : σ → α → Option σ) (P : σ → α → σ → Prop) : σ → List α → Prop
  | _, [] => True
  | s, a :: as => ∀ s', step s a = some s' → P s a s' ∧ Along step P s' as

variable {step : σ → α → Option σ} {P Q C : σ → α → σ → Prop} {I : σ → Prop}

/-! ### Reached states -/

@[simp] theorem exec_nil (s : σ) : exec step s [] = some s := rfl

theorem exec_cons {s s' : σ} {a : α} (as : List α) (h : step s a = some s') :
    exec step s (a :: as) = exec step s' as := by
  simp [exec, h]

theorem exec_cons_eq_some {s t : σ} {a : α} {as : List α} :
    exec step s (a :: as) = some t ↔ ∃ s', step s a = some s' ∧ exec step s' as = some t := by
  simp [exec, Option.bind_eq_some_iff]

theorem exec_append {s t : σ} {as bs : List α} :
    exec step s (as ++ bs) = some t ↔ ∃ m, exec step s as = some m ∧ exec step m bs = some t := by
  induction as generalizing s with
  | nil => simp
  | cons a as ih =>
      rw [List.cons_append, exec_cons_eq_some]
      constructor
      · rintro ⟨s', hs, h⟩
        obtain ⟨m, hm, hb⟩ := ih.mp h
        exact ⟨m, exec_cons_eq_some.mpr ⟨s', hs, hm⟩, hb⟩
      · rintro ⟨m, hm, hb⟩
        obtain ⟨s', hs, h⟩ := exec_cons_eq_some.mp hm
        exact ⟨s', hs, ih.mpr ⟨m, h, hb⟩⟩

/-! ### Properties of every step -/

theorem along_cons {s s' : σ} {a : α} {as : List α} (h : step s a = some s') :
    Along step P s (a :: as) ↔ P s a s' ∧ Along step P s' as := by
  constructor
  · exact fun hal => hal s' h
  · intro hp t ht
    rw [h] at ht
    obtain rfl := Option.some.inj ht
    exact hp

instance Along.decidable [∀ s a s', Decidable (P s a s')] :
    ∀ (s : σ) (as : List α), Decidable (Along step P s as)
  | _, [] => .isTrue trivial
  | s, a :: as =>
      match h : step s a with
      | none => .isTrue fun _ hs => nomatch h.symm.trans hs
      | some s' =>
          have := Along.decidable s' as
          decidable_of_iff (P s a s' ∧ Along step P s' as) (along_cons h).symm

theorem Along.and {s : σ} {as : List α} (hp : Along step P s as) (hq : Along step Q s as) :
    Along step (fun s a s' => P s a s' ∧ Q s a s') s as := by
  induction as generalizing s with
  | nil => trivial
  | cons a as ih =>
      intro s' hs
      exact ⟨⟨(hp s' hs).1, (hq s' hs).1⟩, ih (hp s' hs).2 (hq s' hs).2⟩

theorem Along.append_left {s : σ} {as bs : List α} (h : Along step P s (as ++ bs)) :
    Along step P s as := by
  induction as generalizing s with
  | nil => trivial
  | cons a as ih => exact fun s' hs => ⟨(h s' hs).1, ih (h s' hs).2⟩

theorem Along.append_right {s m : σ} {as bs : List α} (h : Along step P s (as ++ bs))
    (hm : exec step s as = some m) : Along step P m bs := by
  induction as generalizing s with
  | nil =>
      obtain rfl := Option.some.inj hm
      exact h
  | cons a as ih =>
      obtain ⟨s', hs, hm'⟩ := exec_cons_eq_some.mp hm
      exact ih (h s' hs).2 hm'

theorem Along.append {s : σ} {as bs : List α} (ha : Along step P s as)
    (hb : ∀ m, exec step s as = some m → Along step P m bs) : Along step P s (as ++ bs) := by
  induction as generalizing s with
  | nil => exact hb s rfl
  | cons a as ih =>
      exact fun s' hs => ⟨(ha s' hs).1, ih (ha s' hs).2 fun m hm => hb m ((exec_cons as hs).trans hm)⟩

/-- What holds of the step behind every prefix of the run holds along it. -/
theorem Along.of_at {s : σ} {as : List α}
    (h : ∀ as₁ a as₂ m t, as = as₁ ++ a :: as₂ → exec step s as₁ = some m → step m a = some t →
      P m a t) : Along step P s as := by
  induction as generalizing s with
  | nil => trivial
  | cons a as ih =>
      intro s' hs
      refine ⟨h [] a as s s' rfl rfl hs, ih fun as₁ b as₂ m t has hm ht => ?_⟩
      exact h (a :: as₁) b as₂ m t (by rw [has]; rfl) ((exec_cons as₁ hs).trans hm) ht

/-- **Invariants under a condition.**  What holds at the start, and is kept by
every step that meets `C`, holds wherever a run of such steps leads. -/
theorem Along.invariant {s t : σ} {as : List α} (hal : Along step C s as) (h0 : I s)
    (hstep : ∀ s a s', I s → C s a s' → step s a = some s' → I s')
    (ht : exec step s as = some t) : I t := by
  induction as generalizing s with
  | nil =>
      obtain rfl := Option.some.inj ht
      exact h0
  | cons a as ih =>
      obtain ⟨s', hs, hrest⟩ := exec_cons_eq_some.mp ht
      obtain ⟨hc, hal'⟩ := hal s' hs
      exact ih hal' (hstep s a s' h0 hc hs) hrest

/-- What no step of the run changes is the same at its end. -/
theorem Along.const {β : Type*} {f : σ → β} {s t : σ} {as : List α} (hal : Along step C s as)
    (hstep : ∀ s a s', C s a s' → step s a = some s' → f s' = f s) (ht : exec step s as = some t) :
    f t = f s :=
  hal.invariant (I := fun u => f u = f s) rfl
    (fun u a u' hu hc hs => (hstep u a u' hc hs).trans hu) ht

/-- Under an invariant that `C` keeps, steps that meet `C` have every property
that follows from `C` and the invariant. -/
theorem Along.mono {s : σ} {as : List α} (hal : Along step C s as) (h0 : I s)
    (hstep : ∀ s a s', I s → C s a s' → step s a = some s' → I s' ∧ P s a s') :
    Along step P s as := by
  induction as generalizing s with
  | nil => trivial
  | cons a as ih =>
      intro s' hs
      obtain ⟨hc, hal'⟩ := hal s' hs
      obtain ⟨hi, hp⟩ := hstep s a s' h0 hc hs
      exact ⟨hp, ih hal' hi⟩

/-- Two step properties that agree wherever the invariant holds, and of which
either one keeps it, hold along the same runs. -/
theorem Along.congr {s : σ} (as : List α) (h0 : I s)
    (hstep : ∀ s a s', I s → C s a s' → step s a = some s' → I s')
    (hiff : ∀ s a s', I s → step s a = some s' → (P s a s' ↔ C s a s')) :
    Along step P s as ↔ Along step C s as := by
  constructor
  · intro h
    refine h.mono h0 fun s a s' hi hp hs => ?_
    have hc := (hiff s a s' hi hs).mp hp
    exact ⟨hstep s a s' hi hc hs, hc⟩
  · intro h
    exact h.mono h0 fun s a s' hi hc hs =>
      ⟨hstep s a s' hi hc hs, (hiff s a s' hi hs).mpr hc⟩

theorem Along.of_mem {s : σ} {as : List α} (h : ∀ a ∈ as, ∀ s s', P s a s') : Along step P s as :=
  .of_at fun as₁ a as₂ m t has _ _ => h a (by simp [has]) m t

theorem Along.of_forall (h : ∀ s a s', step s a = some s' → P s a s') (s : σ) (as : List α) :
    Along step P s as := by
  induction as generalizing s with
  | nil => trivial
  | cons a as ih => exact fun s' hs => ⟨h s a s' hs, ih s'⟩

/-- Equivalent step properties hold along the same runs. -/
theorem Along.congr_right (h : ∀ s a s', P s a s' ↔ Q s a s') (s : σ) (as : List α) :
    Along step P s as ↔ Along step Q s as := by
  induction as generalizing s with
  | nil => exact Iff.rfl
  | cons a as ih =>
      exact forall_congr' fun s' => imp_congr_right fun _ => and_congr (h s a s') (ih s')

/-! ### Reachable states -/

/-- The states that some run leads to. -/
def Reachable (step : σ → α → Option σ) (s t : σ) : Prop := ∃ as, exec step s as = some t

theorem Reachable.invariant {s t : σ} (h : Reachable step s t) (h0 : I s)
    (hstep : ∀ s a s', I s → step s a = some s' → I s') : I t := by
  obtain ⟨as, hr⟩ := h
  have hal : Along step (fun _ _ _ => True) s as := Along.of_forall (fun _ _ _ _ => trivial) s as
  exact hal.invariant h0 (fun s a s' hi _ hs => hstep s a s' hi hs) hr

/-! ### Simulation -/

/-- **Forward simulation.**  If each step of a system, seen through `f`, is a
run of another one, so is each of its runs, from where the invariant holds. -/
theorem exec_simulated {τ β : Type*} {step' : τ → β → Option τ} {f : τ → σ} {J : τ → Prop}
    (hstep : ∀ t b t', J t → step' t b = some t' → J t' ∧ ∃ as, exec step (f t) as = some (f t'))
    {t t' : τ} {bs : List β} (h0 : J t) (hr : exec step' t bs = some t') :
    ∃ as, exec step (f t) as = some (f t') := by
  induction bs generalizing t with
  | nil =>
      obtain rfl := Option.some.inj hr
      exact ⟨[], rfl⟩
  | cons b bs ih =>
      obtain ⟨u, hu, hrest⟩ := exec_cons_eq_some.mp hr
      obtain ⟨hJ, as, has⟩ := hstep t b u h0 hu
      obtain ⟨as', has'⟩ := ih hJ hrest
      exact ⟨as ++ as', exec_append.mpr ⟨f u, has, has'⟩⟩

end Transition
