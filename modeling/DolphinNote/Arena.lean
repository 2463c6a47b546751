/-
DolphinNote/Arena.lean

What an allocator is for: objects with contents, at addresses of their own.

`step lo hi al` says which effects an allocator may have on the objects in the
region from `lo` to `hi`:

* `take`   — a new object, aligned and clear of all others;
* `drop`   — an object is gone;
* `change` — an object has another length, and maybe another address; what the
  two lengths have in common is kept;
* `set`    — one element of an object is another one.

All other objects are as before.  So in every run the objects are aligned,
within the region and apart (`Tidy.exec`).
-/
import DolphinNote.Transition

namespace Arena

open Transition

variable {β : Type*}

/-- The objects, by their addresses. -/
abbrev Objects (β : Type*) := ℕ → Option (List β)

/-- What happens to them. -/
inductive Effect (β : Type*)
  | take (p : ℕ) (bytes : List β)
  | drop (p : ℕ)
  | change (p q : ℕ) (bytes : List β)
  | set (p i : ℕ) (c : β)

/-- An object of length `n` may live at `p`. -/
structure Free (lo hi al : ℕ) (live : Objects β) (p n : ℕ) : Prop where
  fresh : live p = none
  low : lo ≤ p
  high : p + n ≤ hi
  align : al ∣ p
  clear : ∀ q bs, live q = some bs → p + n ≤ q ∨ q + bs.length ≤ p

/-- The objects without the one at `p`. -/
def without (p : ℕ) (live : Objects β) : Objects β := Function.update live p none

/-- The objects and one more. -/
def with_ (p : ℕ) (bytes : List β) (live : Objects β) : Objects β :=
  Function.update live p (some bytes)

open Classical in
/-- **The effects an allocator may have.** -/
noncomputable def step (lo hi al : ℕ) (live : Objects β) : Effect β → Option (Objects β)
  | .take p bytes => if Free lo hi al live p bytes.length then some (with_ p bytes live) else none
  | .drop p => (live p).map fun _ => without p live
  | .change p q bytes =>
      (live p).bind fun old =>
        if Free lo hi al (without p live) q bytes.length ∧
            bytes.take old.length = old.take bytes.length then
          some (with_ q bytes (without p live))
        else none
  | .set p i c =>
      (live p).bind fun old => if i < old.length then some (with_ p (old.set i c) live) else none

variable {lo hi al p q i n : ℕ} {live live' : Objects β} {bytes old bs : List β} {c : β}

/-! ### Effects that are possible -/

theorem step_take (h : Free lo hi al live p bytes.length) :
    step lo hi al live (.take p bytes) = some (with_ p bytes live) := if_pos h

theorem step_drop (h : live p = some old) :
    step lo hi al live (.drop p) = some (without p live) := congrArg (Option.map _) h

theorem step_change (h : live p = some old)
    (hfree : Free lo hi al (without p live) q bytes.length)
    (hkept : bytes.take old.length = old.take bytes.length) :
    step lo hi al live (.change p q bytes) = some (with_ q bytes (without p live)) := by
  show (live p).bind _ = _
  rw [h, Option.bind_some, if_pos ⟨hfree, hkept⟩]

theorem step_set (h : live p = some old) (hi' : i < old.length) :
    step lo hi al live (.set p i c) = some (with_ p (old.set i c) live) := by
  show (live p).bind _ = _
  rw [h, Option.bind_some, if_pos hi']

/-! ### Tidy objects -/

/-- Objects are aligned, within the region and apart. -/
structure Tidy (lo hi al : ℕ) (live : Objects β) : Prop where
  inside : ∀ p bs, live p = some bs → lo ≤ p ∧ p + bs.length ≤ hi ∧ al ∣ p
  apart : ∀ p q bs cs, live p = some bs → live q = some cs → p ≠ q →
    p + bs.length ≤ q ∨ q + cs.length ≤ p

theorem tidy_empty : Tidy lo hi al (fun _ => none : Objects β) where
  inside _ bs h := absurd h.symm (Option.some_ne_none bs)
  apart _ _ bs _ h := absurd h.symm (Option.some_ne_none bs)

theorem without_eq_some : without p live q = some bs ↔ q ≠ p ∧ live q = some bs := by
  unfold without
  rcases eq_or_ne q p with rfl | hne
  · rw [Function.update_self]
    exact iff_of_false (Option.some_ne_none bs).symm fun h => h.1 rfl
  · rw [Function.update_of_ne hne]
    exact ⟨fun h => ⟨hne, h⟩, And.right⟩

theorem with_eq_some : with_ p bytes live q = some bs ↔
    (q = p ∧ bs = bytes) ∨ (q ≠ p ∧ live q = some bs) := by
  unfold with_
  rcases eq_or_ne q p with rfl | hne
  · rw [Function.update_self]
    exact ⟨fun h => .inl ⟨rfl, (Option.some.inj h).symm⟩, fun h =>
      h.elim (fun h => congrArg some h.2.symm) fun h => absurd rfl h.1⟩
  · rw [Function.update_of_ne hne]
    exact ⟨fun h => .inr ⟨hne, h⟩, fun h => h.elim (fun h => absurd h.1 hne) And.right⟩

theorem Tidy.without (h : Tidy lo hi al live) (p : ℕ) : Tidy lo hi al (without p live) where
  inside q bs hq := h.inside q bs (without_eq_some.mp hq).2
  apart q r bs cs hq hr := h.apart q r bs cs (without_eq_some.mp hq).2 (without_eq_some.mp hr).2

theorem Tidy.with_ (h : Tidy lo hi al live) (hfree : Free lo hi al live p bytes.length) :
    Tidy lo hi al (with_ p bytes live) := by
  refine ⟨fun q bs hq => ?_, fun q r bs cs hq hr hqr => ?_⟩
  · rcases with_eq_some.mp hq with ⟨rfl, rfl⟩ | ⟨-, hq⟩
    · exact ⟨hfree.low, hfree.high, hfree.align⟩
    · exact h.inside q bs hq
  · rcases with_eq_some.mp hq with ⟨rfl, rfl⟩ | ⟨-, hold⟩
    · rcases with_eq_some.mp hr with ⟨rfl, -⟩ | ⟨-, hold⟩
      · exact absurd rfl hqr
      · exact hfree.clear r cs hold
    · rcases with_eq_some.mp hr with ⟨rfl, rfl⟩ | ⟨-, hold'⟩
      · exact (hfree.clear q bs hold).symm
      · exact h.apart q r bs cs hold hold' hqr

/-- An object is exchanged for another one of its length. -/
theorem Tidy.set (h : Tidy lo hi al live) (hp : live p = some old)
    (hlen : bytes.length = old.length) : Tidy lo hi al (Arena.with_ p bytes live) := by
  have heq : Arena.with_ p bytes live = Arena.with_ p bytes (Arena.without p live) :=
    (Function.update_idem _ _ _).symm
  obtain ⟨hlow, hhigh, halign⟩ := h.inside p old hp
  rw [heq]
  refine (h.without p).with_ ⟨Function.update_self .., hlow, hlen ▸ hhigh, halign,
    fun q bs hq => ?_⟩
  obtain ⟨hne, hq⟩ := without_eq_some.mp hq
  rw [hlen]
  exact h.apart p q old bs hp hq hne.symm

/-- **Every effect keeps the objects tidy.** -/
theorem Tidy.step (h : Tidy lo hi al live) (e : Effect β)
    (hs : Arena.step lo hi al live e = some live') : Tidy lo hi al live' := by
  cases e with
  | take p bytes =>
      by_cases hfree : Free lo hi al live p bytes.length
      · obtain rfl := Option.some.inj ((step_take hfree).symm.trans hs)
        exact h.with_ hfree
      · exact absurd ((if_neg hfree).symm.trans hs).symm (Option.some_ne_none live')
  | drop p =>
      obtain ⟨old, -, rfl⟩ := Option.map_eq_some_iff.mp hs
      exact h.without p
  | change p q bytes =>
      obtain ⟨old, -, hs⟩ := Option.bind_eq_some_iff.mp hs
      split_ifs at hs with hcond
      obtain rfl := Option.some.inj hs
      exact (h.without p).with_ hcond.1
  | set p i c =>
      obtain ⟨old, hp, hs⟩ := Option.bind_eq_some_iff.mp hs
      split_ifs at hs with hlt
      obtain rfl := Option.some.inj hs
      exact h.set hp List.length_set

/-- **Runs keep the objects tidy.** -/
theorem Tidy.exec {es : List (Effect β)} (h : Tidy lo hi al live)
    (hr : exec (Arena.step lo hi al) live es = some live') : Tidy lo hi al live' :=
  Reachable.invariant ⟨es, hr⟩ h fun _ e _ ht hs => ht.step e hs

end Arena
