/-
DolphinNote/Nesting.lean

Nested activations of interrupt handlers that maintain a nesting counter.

A handler is a program of operations: `enter` and `leave` move an 8-bit
counter, `work` transforms memory.  An activation may be preempted between any
two operations by a handler that is not active; the active ones form a stack.

A handler is *balanced* if its whole program enters as often as it leaves.
The law (`balanced_iff`): a run is balanced (every return finds the counter as
its activation found it, thread code always finds 0, and no increment or
decrement wraps) exactly if no activation of an unbalanced handler returns in
it.
-/
import DolphinNote.Transition
import Mathlib.Data.UInt
import Mathlib.Data.Fintype.Card

namespace Nesting

open Transition

/-! ### Handlers -/

/-- An operation of a handler. -/
inductive Op (ω : Type)
  | enter | leave | work (w : ω)

/-- The effect of an operation on the depth. -/
def Op.delta {ω : Type} : Op ω → ℤ
  | .enter => 1
  | .leave => -1
  | .work _ => 0

/-- The depth an activation has added after its first operations. -/
def depth {ω : Type} (p : List (Op ω)) : ℤ := (p.map Op.delta).sum

/-- An operation on the counter itself. -/
def Op.count {ω : Type} : Op ω → UInt8 → UInt8
  | .enter, n => n + 1
  | .leave, n => n - 1
  | .work _, n => n

variable {η X M : Type}

/-- An operation on memory. -/
def Op.run : Op (X → M → M) → X → M → M
  | .work w, x, m => w x m
  | _, _, m => m

/-- An activation: the handler, how far it has come, what it found in the
hardware, and the counter at its entry. -/
structure Frame (η X : Type) where
  irq : η
  pc : ℕ
  arg : X
  entry : UInt8

/-- The counter, memory, and the active handlers, the innermost first. -/
structure State (η X M : Type) where
  nest : UInt8
  mem : M
  stack : List (Frame η X)

/-- What can happen: an interrupt is taken; the innermost handler executes its
next operation, or returns; thread code changes memory. -/
inductive Act (η X M : Type)
  | irq (h : η) (x : X)
  | exec
  | ret
  | thread (m : M)

section Machine

variable (program : η → List (Op (X → M → M)))

/-- One step.  A handler does not preempt itself, and thread code runs only
while no handler is active. -/
def step [DecidableEq η] (s : State η X M) : Act η X M → Option (State η X M)
  | .irq h x =>
      if h ∈ s.stack.map Frame.irq then none
      else some { s with stack := ⟨h, 0, x, s.nest⟩ :: s.stack }
  | .exec =>
      match s.stack with
      | [] => none
      | f :: below =>
          match (program f.irq)[f.pc]? with
          | none => none
          | some op =>
              some { nest := op.count s.nest, mem := op.run f.arg s.mem,
                     stack := { f with pc := f.pc + 1 } :: below }
  | .ret =>
      match s.stack with
      | [] => none
      | f :: below => if f.pc = (program f.irq).length then some { s with stack := below } else none
  | .thread m =>
      if s.stack.isEmpty then some { s with mem := m } else none

/-- The steps, one by one. -/
inductive Stepped : State η X M → Act η X M → State η X M → Prop
  | irq {n : UInt8} {m : M} {l : List (Frame η X)} {h : η} {x : X} :
      h ∉ l.map Frame.irq → Stepped ⟨n, m, l⟩ (.irq h x) ⟨n, m, ⟨h, 0, x, n⟩ :: l⟩
  | exec {n : UInt8} {m : M} {f : Frame η X} {below : List (Frame η X)} {op : Op (X → M → M)} :
      (program f.irq)[f.pc]? = some op →
      Stepped ⟨n, m, f :: below⟩ .exec
        ⟨op.count n, op.run f.arg m, { f with pc := f.pc + 1 } :: below⟩
  | ret {n : UInt8} {m : M} {f : Frame η X} {below : List (Frame η X)} :
      f.pc = (program f.irq).length → Stepped ⟨n, m, f :: below⟩ .ret ⟨n, m, below⟩
  | thread {n : UInt8} {m m' : M} : Stepped ⟨n, m, []⟩ (.thread m') ⟨n, m', []⟩

variable {program} in
theorem stepped_of_step [DecidableEq η] {s s' : State η X M} {a : Act η X M} (hs : step program s a = some s') :
    Stepped program s a s' := by
  obtain ⟨n, m, l⟩ := s
  cases a with
  | irq h x =>
      simp only [step] at hs
      split_ifs at hs with hmem
      obtain rfl := Option.some.inj hs
      exact .irq hmem
  | exec =>
      rcases l with - | ⟨f, below⟩
      · simp [step] at hs
      · rcases hop : (program f.irq)[f.pc]? with - | op
        · simp [step, hop] at hs
        · simp only [step, hop] at hs
          obtain rfl := Option.some.inj hs
          exact .exec hop
  | ret =>
      rcases l with - | ⟨f, below⟩
      · simp [step] at hs
      · simp only [step] at hs
        split_ifs at hs with hpc
        obtain rfl := Option.some.inj hs
        exact .ret hpc
  | thread m' =>
      rcases l with - | ⟨f, below⟩
      · obtain rfl := Option.some.inj hs
        exact .thread
      · simp [step] at hs

/-! ### The law -/

/-- What nesting balance asks of one step: a return finds the counter as the
activation found it, the counter is 0 where thread code runs, and it moves by
one without wrapping. -/
structure Balanced (s : State η X M) (a : Act η X M) (s' : State η X M) : Prop where
  ret : a = .ret → ∀ f below, s.stack = f :: below → s.nest = f.entry
  thread : s'.stack = [] → s'.nest = 0
  wrap : s'.nest.toNat = s.nest.toNat ∨ s'.nest.toNat = s.nest.toNat + 1 ∨
    s'.nest.toNat + 1 = s.nest.toNat

/-- The step is not the return of an unbalanced handler. -/
def NoUnbalancedReturn (s : State η X M) (a : Act η X M) (_s' : State η X M) : Prop :=
  match a, s.stack with
  | .ret, f :: _ => depth (program f.irq) = 0
  | _, _ => True

/-- The depth an activation currently accounts for. -/
def held (f : Frame η X) : ℤ := depth ((program f.irq).take f.pc)

/-- The depth a stack of activations accounts for. -/
def total (l : List (Frame η X)) : ℤ := (l.map (held program)).sum

/-- Every activation found the counter at the depth of those below it. -/
def Entered : List (Frame η X) → Prop
  | [] => True
  | f :: below => (f.entry.toNat : ℤ) = total program below ∧ Entered below

/-- The counter is the depth of the stack, and no handler is active twice. -/
structure Inv (s : State η X M) : Prop where
  nest : (s.nest.toNat : ℤ) = total program s.stack
  entered : Entered program s.stack
  nodup : (s.stack.map Frame.irq).Nodup

variable {program}

theorem depth_take_succ {p : List (Op (X → M → M))} {i : ℕ} {op : Op (X → M → M)}
    (h : p[i]? = some op) : depth (p.take (i + 1)) = depth (p.take i) + op.delta := by
  simp [depth, List.take_add_one, h]

theorem total_cons (f : Frame η X) (below : List (Frame η X)) :
    total program (f :: below) = held program f + total program below := by
  simp [total]

/-- An operation of the innermost activation adds its effect to the depth. -/
theorem total_exec {f : Frame η X} {op : Op (X → M → M)} (below : List (Frame η X))
    (h : (program f.irq)[f.pc]? = some op) :
    total program ({ f with pc := f.pc + 1 } :: below) = total program (f :: below) + op.delta := by
  have hheld : held program { f with pc := f.pc + 1 } = held program f + op.delta :=
    depth_take_succ h
  rw [total_cons, total_cons, hheld]
  ring

/-- An activation that is about to return accounts for its whole program. -/
theorem held_of_done {f : Frame η X} (h : f.pc = (program f.irq).length) :
    held program f = depth (program f.irq) := by
  rw [held, h, List.take_length]

section Law

variable [Fintype η] {d : ℕ}

/-- Between an upper and a lower bound on what each handler holds, the counter
never wraps. -/
theorem total_bounds (hd : ∀ h i, 0 ≤ depth ((program h).take i) ∧ depth ((program h).take i) ≤ d)
    {l : List (Frame η X)} (hl : (l.map Frame.irq).Nodup) :
    0 ≤ total program l ∧ total program l ≤ Fintype.card η * d := by
  constructor
  · refine List.sum_nonneg fun x hx => ?_
    obtain ⟨f, -, rfl⟩ := List.mem_map.mp hx
    exact (hd f.irq f.pc).1
  · have hle : total program l ≤ (l.map (held program)).length • (d : ℤ) := by
      refine List.sum_le_card_nsmul _ _ fun x hx => ?_
      obtain ⟨f, -, rfl⟩ := List.mem_map.mp hx
      exact (hd f.irq f.pc).2
    have hlen : (l.map (held program)).length ≤ Fintype.card η := by
      have h := hl.length_le_card
      rwa [List.length_map] at h ⊢
    calc total program l ≤ (l.map (held program)).length • (d : ℤ) := hle
      _ = ((l.map (held program)).length : ℤ) * d := by rw [nsmul_eq_mul]
      _ ≤ Fintype.card η * d := by
        refine mul_le_mul_of_nonneg_right ?_ (by omega)
        exact_mod_cast hlen

/-- The counter follows an operation that keeps its value in range. -/
theorem count_toNat {ω : Type} (op : Op ω) {n : UInt8} (h0 : 0 ≤ (n.toNat : ℤ) + op.delta)
    (h255 : (n.toNat : ℤ) + op.delta ≤ 255) :
    ((op.count n).toNat : ℤ) = n.toNat + op.delta := by
  cases op with
  | enter =>
      simp only [Op.count, Op.delta] at *
      rw [UInt8.toNat_add, UInt8.toNat_one]
      omega
  | leave =>
      simp only [Op.count, Op.delta] at *
      have h1 : (1 : UInt8) ≤ n := UInt8.le_iff_toNat_le.mpr (by rw [UInt8.toNat_one]; omega)
      rw [UInt8.toNat_sub_of_le _ _ h1, UInt8.toNat_one]
      omega
  | work w => simp [Op.count, Op.delta]

/-- **One step** keeps the invariant, unless an unbalanced handler returns. -/
theorem Inv.step (hd : ∀ h i, 0 ≤ depth ((program h).take i) ∧ depth ((program h).take i) ≤ d)
    (hcard : Fintype.card η * d ≤ 255) {s s' : State η X M} {a : Act η X M}
    (hi : Inv program s) (hc : NoUnbalancedReturn program s a s')
    (hs : Stepped program s a s') : Inv program s' := by
  cases hs with
  | @irq n m l h x hmem =>
      refine ⟨?_, ⟨hi.nest, hi.entered⟩, List.nodup_cons.mpr ⟨hmem, hi.nodup⟩⟩
      have h0 : held program (⟨h, 0, x, n⟩ : Frame η X) = 0 := by simp [held, depth]
      rw [total_cons, h0, zero_add]
      exact hi.nest
  | @exec n m f below op hop =>
      have hnodup : (({ f with pc := f.pc + 1 } :: below : List (Frame η X)).map
          Frame.irq).Nodup := hi.nodup
      have htotal : total program ({ f with pc := f.pc + 1 } :: below) = n.toNat + op.delta := by
        rw [total_exec below hop, ← hi.nest]
      obtain ⟨h0, hmax⟩ := total_bounds hd hnodup
      rw [htotal] at h0 hmax
      have h255 : (n.toNat : ℤ) + op.delta ≤ 255 := hmax.trans (by exact_mod_cast hcard)
      refine ⟨?_, hi.entered, hnodup⟩
      rw [htotal]
      exact count_toNat op h0 h255
  | @ret n m f below hpc =>
      refine ⟨?_, hi.entered.2, (List.nodup_cons.mp hi.nodup).2⟩
      have hnest := hi.nest
      rwa [total_cons, (held_of_done hpc).trans hc, zero_add] at hnest
  | thread => exact ⟨hi.nest, hi.entered, hi.nodup⟩

/-- **One step** is balanced exactly if it is not the return of an unbalanced
handler. -/
theorem Inv.balanced_iff
    (hd : ∀ h i, 0 ≤ depth ((program h).take i) ∧ depth ((program h).take i) ≤ d)
    (hcard : Fintype.card η * d ≤ 255) {s s' : State η X M} {a : Act η X M}
    (hi : Inv program s) (hs : Stepped program s a s') :
    Balanced s a s' ↔ NoUnbalancedReturn program s a s' := by
  constructor
  · intro hbal
    cases hs with
    | @ret n m f below hpc =>
        have hnest := hi.nest
        rw [hbal.ret rfl f below rfl, hi.entered.1, total_cons, held_of_done hpc] at hnest
        show depth (program f.irq) = 0
        omega
    | irq | exec | thread => trivial
  · intro hc
    have hi' := hi.step hd hcard hc hs
    have hempty : s'.stack = [] → s'.nest = 0 := fun hempty => by
      have hnest := hi'.nest
      rw [hempty, total, List.map_nil, List.sum_nil] at hnest
      rw [← UInt8.toNat_inj]
      exact_mod_cast hnest
    cases hs with
    | irq => exact ⟨by simp, hempty, .inl rfl⟩
    | thread => exact ⟨by simp, hempty, .inl rfl⟩
    | @ret n m f below hpc =>
        refine ⟨fun _ g l hstack => ?_, hempty, .inl rfl⟩
        obtain ⟨rfl, rfl⟩ := List.cons.inj hstack
        have hnest := hi.nest
        rw [total_cons, (held_of_done hpc).trans hc, zero_add] at hnest
        rw [← UInt8.toNat_inj]
        exact_mod_cast hnest.trans hi.entered.1.symm
    | @exec n m f below op hop =>
        refine ⟨by simp, hempty, ?_⟩
        have hmove : ((op.count n).toNat : ℤ) = n.toNat + op.delta := by
          have hnest := hi.nest
          have hnest' := hi'.nest
          rw [total_exec below hop] at hnest'
          exact hnest'.trans (by rw [hnest])
        dsimp only
        cases op with
        | enter =>
            simp only [Op.delta] at hmove
            omega
        | leave =>
            simp only [Op.delta] at hmove
            omega
        | work w => exact .inl rfl

/-- **Nesting balance.**  A run from thread level is balanced exactly if no
unbalanced handler returns in it. -/
theorem balanced_iff [DecidableEq η] (hd : ∀ h i, 0 ≤ depth ((program h).take i) ∧ depth ((program h).take i) ≤ d)
    (hcard : Fintype.card η * d ≤ 255) (m : M) (as : List (Act η X M)) :
    Along (Nesting.step program) Balanced ⟨0, m, []⟩ as ↔
      Along (Nesting.step program) (NoUnbalancedReturn program) ⟨0, m, []⟩ as :=
  have h0 : Inv program (⟨0, m, []⟩ : State η X M) := ⟨rfl, trivial, List.nodup_nil⟩
  Along.congr as h0 (fun _ _ _ hi hc hs => hi.step hd hcard hc (stepped_of_step hs))
    fun _ _ _ hi hs => hi.balanced_iff hd hcard (stepped_of_step hs)

end Law

end Machine

end Nesting
