/-
DolphinNote/Traced.lean

Computations that may fail and that record events as they go: a value of
`Traced ε ι α` is either a failure in `ε` or a result in `α` together with
the list of the events (in `ι`) made on the way.

`Ensures m A Q` is the total-correctness judgement of such a computation: it
returns, every event it makes satisfies `A`, and its result satisfies `Q`.
The rules below are the introduction rule of each construct: `pure`, `bind`, a
bounded loop over a list.  `Only m A` says of the events alone that they satisfy
`A`, if the computation returns.
-/
import Mathlib.Tactic
import Mathlib.Data.UInt

/-- A computation that fails with an `ε`, or returns an `α` and the list of
events it made. -/
def Traced (ε ι α : Type) := Except ε (α × List ι)

namespace Traced

variable {ε ι α β : Type}

instance : Monad (Traced ε ι) where
  pure a := Except.ok (a, [])
  bind m f :=
    match m with
    | .error e => .error e
    | .ok (a, l) =>
        match f a with
        | .error e => .error e
        | .ok (b, l') => .ok (b, l ++ l')

instance : LawfulMonad (Traced ε ι) := by
  refine LawfulMonad.mk' (Traced ε ι) ?_ ?_ ?_
  · rintro α (e | ⟨a, l⟩)
    · rfl
    · exact congrArg (fun k => Except.ok (a, k)) (List.append_nil l)
  · intro α β a f
    show (match f a with
      | .error e => Except.error e
      | .ok (b, l') => Except.ok (b, [] ++ l')) = f a
    rcases f a with e | ⟨b, l⟩ <;> rfl
  · rintro α β γ (e | ⟨a, l⟩) f g
    · rfl
    · simp only [Bind.bind]
      rcases f a with e | ⟨b, l₂⟩
      · rfl
      · dsimp only
        rcases g b with e | ⟨c, l₃⟩
        · rfl
        · exact congrArg (fun k => Except.ok (c, k)) (List.append_assoc l l₂ l₃)

instance [DecidableEq ε] [DecidableEq ι] [DecidableEq α] : DecidableEq (Traced ε ι α) :=
  inferInstanceAs (DecidableEq (Except ε (α × List ι)))

/-- Fail with a fault. -/
def fail (e : ε) : Traced ε ι α := Except.error e

/-- Return `a`, having made one event. -/
def emit (x : ι) (a : α) : Traced ε ι α := Except.ok (a, [x])

/-- The result, if the computation returns. -/
def result? (m : Traced ε ι α) : Option α :=
  match m with
  | .error _ => none
  | .ok (a, _) => some a

/-- The events, if the computation returns. -/
def events (m : Traced ε ι α) : List ι :=
  match m with
  | .error _ => []
  | .ok (_, l) => l

/-! ### Computing with returned values -/

@[simp] theorem pure_eq (a : α) : (pure a : Traced ε ι α) = Except.ok (a, []) := rfl

theorem bind_ok {m : Traced ε ι α} {a : α} {l : List ι} (h : m = Except.ok (a, l))
    (f : α → Traced ε ι β) :
    (m >>= f) = match f a with
      | .error e => Except.error e
      | .ok (b, l') => Except.ok (b, l ++ l') := by
  subst h; rfl

theorem bind_error {m : Traced ε ι α} {e : ε} (h : m = Except.error e) (f : α → Traced ε ι β) :
    (m >>= f) = Except.error e := by
  subst h; rfl

theorem bind_eq_ok {m : Traced ε ι α} {f : α → Traced ε ι β} {b : β} {l : List ι} :
    (m >>= f) = Except.ok (b, l) ↔
      ∃ a l₁ l₂, m = Except.ok (a, l₁) ∧ f a = Except.ok (b, l₂) ∧ l = l₁ ++ l₂ := by
  rcases hm : m with e | ⟨a, l₁⟩
  · rw [bind_error rfl]
    constructor
    · intro h
      cases h
    · rintro ⟨_, _, _, h, -⟩
      cases h
  · rw [bind_ok rfl]
    rcases hf : f a with e | ⟨b', l₂⟩
    · constructor
      · intro h
        cases h
      · rintro ⟨_, _, _, h, h', -⟩
        cases h
        rw [hf] at h'
        cases h'
    · constructor
      · intro h
        cases h
        exact ⟨a, l₁, l₂, rfl, hf, rfl⟩
      · rintro ⟨_, _, _, h, h', rfl⟩
        cases h
        rw [hf] at h'
        cases h'
        rfl

theorem result?_eq_some {m : Traced ε ι α} {a : α} :
    m.result? = some a ↔ ∃ l, m = Except.ok (a, l) := by
  rcases m with e | ⟨b, l⟩
  · constructor
    · intro h
      cases h
    · rintro ⟨_, h⟩
      cases h
  · constructor
    · intro h
      cases h
      exact ⟨l, rfl⟩
    · rintro ⟨_, h⟩
      cases h
      rfl

/-! ### The judgement -/

/-- The computation returns, each event it makes satisfies `A`, and its result
satisfies `Q`. -/
def Ensures (m : Traced ε ι α) (A : ι → Prop) (Q : α → Prop) : Prop :=
  ∃ a l, m = Except.ok (a, l) ∧ (∀ x ∈ l, A x) ∧ Q a

variable {m : Traced ε ι α} {f : α → Traced ε ι β} {A A' : ι → Prop} {Q Q' : α → Prop}
  {R : β → Prop}

theorem Ensures.pure {a : α} (h : Q a) : Ensures (Pure.pure a : Traced ε ι α) A Q :=
  ⟨a, [], rfl, by simp, h⟩

theorem Ensures.bind (hm : Ensures m A Q) (hf : ∀ a, Q a → Ensures (f a) A R) :
    Ensures (m >>= f) A R := by
  obtain ⟨a, l, rfl, hl, hq⟩ := hm
  obtain ⟨b, l', hb, hl', hr⟩ := hf a hq
  refine ⟨b, l ++ l', bind_eq_ok.mpr ⟨a, l, l', rfl, hb, rfl⟩, ?_, hr⟩
  intro x hx
  rcases List.mem_append.mp hx with h | h
  · exact hl x h
  · exact hl' x h

theorem Ensures.mono (hm : Ensures m A Q) (hA : ∀ x, A x → A' x) (hQ : ∀ a, Q a → Q' a) :
    Ensures m A' Q' := by
  obtain ⟨a, l, he, hl, hq⟩ := hm
  exact ⟨a, l, he, fun x hx => hA x (hl x hx), hQ a hq⟩

/-- **Bounded loops.**  A loop over the indices `0, …, n-1` keeps an invariant
that may speak about the index. -/
theorem Ensures.forLoop {n : ℕ} {body : α → ℕ → Traced ε ι α} {I : ℕ → α → Prop} {a : α}
    (h0 : I 0 a)
    (hbody : ∀ i b, i < n → I i b → Ensures (body b i) A (I (i + 1))) :
    Ensures ((List.range n).foldlM body a) A (I n) := by
  induction n with
  | zero => exact .pure h0
  | succ n ih =>
      rw [List.range_succ, List.foldlM_append]
      refine (ih fun i b hi hb => hbody i b (by omega) hb).bind fun b hb => ?_
      have h := hbody n b (by omega) hb
      simpa only [List.foldlM_cons, List.foldlM_nil] using h.bind fun c hc => .pure hc

/-- What an ensured computation returned satisfies the postcondition. -/
theorem Ensures.post (hm : Ensures m A Q) {a : α} {l : List ι} (h : m = Except.ok (a, l)) :
    (∀ x ∈ l, A x) ∧ Q a := by
  obtain ⟨b, l', he, hl, hq⟩ := hm
  rw [he] at h
  cases h
  exact ⟨hl, hq⟩

/-! ### Events of what returns -/

/-- If the computation returns, each event it made satisfies `A`. -/
def Only (m : Traced ε ι α) (A : ι → Prop) : Prop :=
  ∀ a l, m = Except.ok (a, l) → ∀ x ∈ l, A x

theorem Only.pure {a : α} : Only (Pure.pure a : Traced ε ι α) A := by
  intro b l h
  cases h
  simp

theorem Only.emit {x : ι} {a : α} (hx : A x) : Only (Traced.emit x a : Traced ε ι α) A := by
  intro b l h
  cases h
  simpa using hx

theorem Only.fail {e : ε} : Only (Traced.fail e : Traced ε ι α) A := by
  intro b l h
  cases h

theorem Only.bind (hm : Only m A) (hf : ∀ a, Only (f a) A) : Only (m >>= f) A := by
  intro b l h
  obtain ⟨a, l₁, l₂, ha, hb, rfl⟩ := bind_eq_ok.mp h
  intro x hx
  rcases List.mem_append.mp hx with h₁ | h₂
  · exact hm a l₁ ha x h₁
  · exact hf a b l₂ hb x h₂

theorem Only.foldlM {γ : Type} {body : α → γ → Traced ε ι α} (h : ∀ a c, Only (body a c) A)
    (xs : List γ) (a : α) : Only (xs.foldlM body a) A := by
  induction xs generalizing a with
  | nil => exact .pure
  | cons c xs ih =>
      rw [List.foldlM_cons]
      exact (h a c).bind ih

end Traced
