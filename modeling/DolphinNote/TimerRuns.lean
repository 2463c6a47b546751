/-
DolphinNote/TimerRuns.lean

The system timers over whole runs: calls, and ticks with timeout functions that make
calls themselves.

* A timer that nobody touches fires in every `n`-th tick after its start, or once, in
  the `n`-th, whatever the other timers do (`fires_exactly`).
* Of two timers the one that expires first fires first, and among those that expire
  together the one started first (`fires_in_order`).

What the calls do to other timers is not looked at: `kept p` is the part of the agenda
that belongs to some timers, and a call on any other one leaves it as it is.
-/
import DolphinNote.History
import DolphinNote.Timers

namespace DolphinNote.Timers

open Transition Rings Agenda

/-! ### Calls and ticks -/

/-- A call of the interface. -/
inductive TimerCall (ν : Type*)
  | control (t : ν) (cmd : TimerCmd)
  | start (t : ν)
  | stop (t : ν)

/-- The timer of a call. -/
def TimerCall.timer {ν : Type*} : TimerCall ν → ν
  | .control t _ | .start t | .stop t => t

/-- A call from a thread, or a tick, with the calls each timeout function makes when
certain timers have fired in this tick already. -/
inductive TimerEvent (ν : Type*)
  | call (c : TimerCall ν)
  | tick (script : List ν → ν → List (TimerCall ν))

/-- Nobody touches the timer. -/
def TimerEvent.Spares {ν : Type*} (p : ν → Bool) : TimerEvent ν → Prop
  | .call c => p c.timer = false
  | .tick script => ∀ fs t, ∀ c ∈ script fs t, p c.timer = false

/-- The ticks of a run. -/
def ticks {ν : Type*} : List (TimerEvent ν) → ℕ
  | [] => 0
  | .call _ :: es => ticks es
  | .tick _ :: es => ticks es + 1

variable {ν : Type*} [DecidableEq ν] [Fintype ν]

/-- One call. -/
def call (s : Timers ν) : TimerCall ν → Option (Timers ν)
  | .control t cmd => some (rtTimerControl t cmd s)
  | .start t => rtTimerStart t s
  | .stop t => some (rtTimerStop t s).2

/-- The timeout functions, which also note the timers that have fired. -/
def timeoutFunc (script : List ν → ν → List (TimerCall ν)) (t : ν) (σ : Timers ν × List ν) :
    Option (Timers ν × List ν) :=
  (exec call σ.1 (script σ.2 t)).map fun s => (s, σ.2 ++ [t])

/-- `rt_tick_increase`, as far as the timers go. -/
def tick (fuel : ℕ) (script : List ν → ν → List (TimerCall ν)) (s : Timers ν) :
    Option (Timers ν × List ν) :=
  rtTimerCheck (timeoutFunc script) fuel ({ s with rtTick := s.rtTick + 1 }, [])

/-- A step of the system.  A call is one step here.  On the board `rt_timer_start` opens the
interrupts between taking the timer out and putting it back, and `rt_timer_stop` and
`rt_timer_control` work on the flags with interrupts open: what comes in between there is
left out. -/
def timerStep (fuel : ℕ) (s : Timers ν) : TimerEvent ν → Option (Timers ν)
  | .call c => s.call c
  | .tick script => (tick fuel script s).map Prod.fst

/-- The timers that fire in a step. -/
def fired (fuel : ℕ) (s : Timers ν) : TimerEvent ν → List ν
  | .call _ => []
  | .tick script => (tick fuel script s).elim [] Prod.snd

variable {p : ν → Bool} {agenda : TimerHead → List (ν × ℕ)} {t : ν} {d now : ℕ}

/-- The entries of some of the timers. -/
def kept (p : ν → Bool) (agenda : TimerHead → List (ν × ℕ)) : List (ν × ℕ) :=
  (agenda .timerList).filter fun e => p e.1

omit [DecidableEq ν] [Fintype ν] in
theorem mem_kept {e : ν × ℕ} : e ∈ kept p agenda ↔ e ∈ agenda .timerList ∧ p e.1 = true :=
  List.mem_filter

omit [Fintype ν] in
theorem kept_cancel (p : ν → Bool) (t : ν) (agenda : TimerHead → List (ν × ℕ)) :
    kept p (cancel t agenda) = without t (kept p agenda) :=
  filter_without p

omit [Fintype ν] in
theorem kept_cancel_of_neg (hp : p t = false) : kept p (cancel t agenda) = kept p agenda :=
  filter_without_of_neg hp

omit [Fintype ν] in
theorem kept_arm_of_neg (hp : p t = false) :
    kept p (arm .timerList t d agenda) = kept p agenda := by
  unfold kept arm
  rw [Function.update_self, filter_insert_of_neg hp]
  exact filter_without_of_neg hp

omit [Fintype ν] in
theorem kept_arm_of_pos (hl : Ordered (agenda .timerList)) (hp : p t = true) :
    kept p (arm .timerList t d agenda) = Agenda.insert t d (without t (kept p agenda)) := by
  unfold kept arm
  rw [Function.update_self, filter_insert_of_pos (ordered_without hl) hp, filter_without]

/-! ### One call -/

/-- Every expiry lies ahead: behind the tick it may be one tick past. -/
def hardWindow (late : Fin 2) : TimerHead → Window := fun _ =>
  { late := late
    span := half
    late_lt := by
      show (late : ℕ) < 2147483647
      omega
    span_le := le_rfl
    near := by
      show (late : ℕ) + 2147483647 + 2147483647 ≤ 2 ^ 32 + 1
      omega }

/-- All of the timers are system timers. -/
structure Sound (late : Fin 2) (now : ℕ) (agenda : TimerHead → List (ν × ℕ)) (s : Timers ν) :
    Prop where
  represents : s.Represents (hardWindow late) now agenda
  hard : ∀ t, (s.timer t).flag.softTimer = false

section Calls

variable {late : Fin 2} {s s' : Timers ν} {agenda' : TimerHead → List (ν × ℕ)}

omit [DecidableEq ν] [Fintype ν] in
theorem Sound.head (h : s.Sound late now agenda) (t : ν) : (s.timer t).flag.head = .timerList := by
  rw [TimerFlag.head, h.hard t]
  rfl

/-- What some calls leave as it was. -/
structure Keeps (p : ν → Bool) (agenda agenda' : TimerHead → List (ν × ℕ)) (s s' : Timers ν) :
    Prop where
  kept : kept p agenda' = kept p agenda
  timer : ∀ t, p t = true → s'.timer t = s.timer t

omit [DecidableEq ν] [Fintype ν] in
theorem Keeps.refl (p : ν → Bool) (agenda : TimerHead → List (ν × ℕ)) (s : Timers ν) :
    Keeps p agenda agenda s s :=
  ⟨rfl, fun _ _ => rfl⟩

omit [DecidableEq ν] [Fintype ν] in
theorem Keeps.trans {agenda₁ agenda₂ : TimerHead → List (ν × ℕ)} {s₁ s₂ : Timers ν}
    (h : Keeps p agenda agenda₁ s s₁) (h' : Keeps p agenda₁ agenda₂ s₁ s₂) :
    Keeps p agenda agenda₂ s s₂ :=
  ⟨h'.kept.trans h.kept, fun t ht => (h'.timer t ht).trans (h.timer t ht)⟩

/-- A started timer. -/
theorem Sound.start (h : s.Sound late now agenda) (hs : rtTimerStart t s = some s') :
    s'.Sound late now (arm .timerList t (now + (s.timer t).initTick.toNat) agenda) ∧
      s'.timer = Function.update s.timer t (started now (s.timer t)) := by
  obtain ⟨s₁, hs₁, hrep, htimer, -⟩ :=
    rtTimerStart_spec (t := t) h.represents (lt_of_rtTimerStart hs)
  obtain rfl := Option.some.inj (hs.symm.trans hs₁)
  rw [h.head t] at hrep
  refine ⟨⟨hrep, fun t' => ?_⟩, htimer⟩
  rw [htimer]
  rcases eq_or_ne t' t with rfl | hne
  · rw [Function.update_self]
    exact h.hard t'
  · rw [Function.update_of_ne hne]
    exact h.hard t'

omit [Fintype ν] in
theorem Sound.update {x : Timer} (h : s.Sound late now agenda)
    (hx : x.timeoutTick = (s.timer t).timeoutTick) (hf : x.flag.softTimer = false) :
    (s.set t x).Sound late now agenda := by
  refine ⟨h.represents.update hx ?_, fun t' => ?_⟩
  · rw [h.head t, TimerFlag.head, hf]
    rfl
  · rcases eq_or_ne t' t with rfl | hne
    · rw [timer_set_self]
      exact hf
    · rw [timer_set_of_ne hne]
      exact h.hard t'

omit [Fintype ν] in
theorem Sound.remove (h : s.Sound late now agenda) (t : ν) :
    (rtTimerRemove t s).Sound late now (cancel t agenda) :=
  ⟨h.represents.remove t, h.hard⟩

/-- A call keeps the lists in order, and leaves the other timers alone. -/
theorem Sound.call {c : TimerCall ν} (h : s.Sound late now agenda) (hs : s.call c = some s') :
    ∃ agenda', s'.Sound late now agenda' ∧
      ∀ p : ν → Bool, p c.timer = false → Keeps p agenda agenda' s s' := by
  cases c with
  | control t cmd =>
      obtain rfl := Option.some.inj hs
      refine ⟨agenda, ?_, fun p hp => ⟨rfl, fun t' ht' => ?_⟩⟩
      · cases cmd with
        | getTime => exact h
        | setTime tick => exact h.update rfl (h.hard t)
        | setOneshot => exact h.update rfl (h.hard t)
        | setPeriodic => exact h.update rfl (h.hard t)
      · have hne : t' ≠ t := by
          rintro rfl
          exact Bool.false_ne_true (hp.symm.trans ht')
        cases cmd with
        | getTime => rfl
        | setTime tick => exact timer_set_of_ne hne
        | setOneshot => exact timer_set_of_ne hne
        | setPeriodic => exact timer_set_of_ne hne
  | start t =>
      obtain ⟨hsound, htimer⟩ := h.start hs
      refine ⟨_, hsound, fun p hp => ⟨kept_arm_of_neg hp, fun t' ht' => ?_⟩⟩
      rw [htimer]
      refine Function.update_of_ne ?_ _ _
      rintro rfl
      exact Bool.false_ne_true (hp.symm.trans ht')
  | stop t =>
      obtain rfl := Option.some.inj hs
      unfold rtTimerStop
      split_ifs
      · refine ⟨_, (h.remove t).update rfl (h.hard t), fun p hp =>
          ⟨kept_cancel_of_neg hp, fun t' ht' => timer_set_of_ne ?_⟩⟩
        rintro rfl
        exact Bool.false_ne_true (hp.symm.trans ht')
      · exact ⟨agenda, h, fun p _ => Keeps.refl p agenda s⟩

/-- So do the calls of a timeout function. -/
theorem Sound.calls {cs : List (TimerCall ν)} (h : s.Sound late now agenda)
    (hp : ∀ c ∈ cs, p c.timer = false) (hs : exec Timers.call s cs = some s') :
    ∃ agenda', s'.Sound late now agenda' ∧ Keeps p agenda agenda' s s' := by
  induction cs generalizing s agenda with
  | nil =>
      obtain rfl := Option.some.inj hs
      exact ⟨agenda, h, Keeps.refl p agenda s⟩
  | cons c cs ih =>
      obtain ⟨s₁, hs₁, hrest⟩ := exec_cons_eq_some.mp hs
      obtain ⟨agenda₁, h₁, hk₁⟩ := h.call hs₁
      obtain ⟨agenda₂, h₂, hk₂⟩ := ih h₁ (fun c hc => hp c (List.mem_cons_of_mem _ hc)) hrest
      exact ⟨agenda₂, h₂, (hk₁ p (hp c List.mem_cons_self)).trans hk₂⟩

/-- What stands behind a timeout function. -/
theorem Sound.restart (h : s.Sound late now agenda) (hs : Timers.restart t s = some s') :
    ∃ agenda', s'.Sound late now agenda' ∧
      (∀ p : ν → Bool, p t = false → Keeps p agenda agenda' s s') ∧
      if (s.timer t).flag.periodic && (s.timer t).flag.activated then
        agenda' = arm .timerList t (now + (s.timer t).initTick.toNat) agenda ∧
          s'.timer t = started now (s.timer t)
      else agenda' = agenda ∧ s'.timer t =
        { s.timer t with flag := { (s.timer t).flag with activated := false } } := by
  have hset : (setActivated t false s).Sound late now agenda := h.update rfl (h.hard t)
  unfold Timers.restart at hs
  dsimp only at hs
  split_ifs at hs ⊢ with hflag
  · obtain ⟨hsound, htimer⟩ := hset.start hs
    have hinit : ((setActivated t false s).timer t).initTick = (s.timer t).initTick := by
      rw [setActivated, timer_set_self]
    have hself : s'.timer t = started now (s.timer t) := by
      rw [htimer, Function.update_self, setActivated, timer_set_self]
      rfl
    rw [hinit] at hsound
    refine ⟨_, hsound, fun p hp => ⟨kept_arm_of_neg hp, fun t' ht' => ?_⟩, rfl, hself⟩
    have hne : t' ≠ t := by
      rintro rfl
      exact Bool.false_ne_true (hp.symm.trans ht')
    rw [htimer, Function.update_of_ne hne]
    exact timer_set_of_ne hne
  · obtain rfl := Option.some.inj hs
    refine ⟨agenda, hset, fun p hp => ⟨rfl, fun t' ht' => timer_set_of_ne ?_⟩, rfl, ?_⟩
    · rintro rfl
      exact Bool.false_ne_true (hp.symm.trans ht')
    · rw [setActivated, timer_set_self]

end Calls

/-! ### One tick -/

/-- The period of a timer, if it has one. -/
def period (x : Timer) : Option ℕ := if x.flag.periodic then some x.initTick.toNat else none

/-- The timers keep to a plan, and those that are armed are flagged. -/
structure Planned (p : ν → Bool) (plan : ν → Option ℕ) (agenda : TimerHead → List (ν × ℕ))
    (s : Timers ν) : Prop where
  period : ∀ t, p t = true → period (s.timer t) = plan t
  activated : ∀ e ∈ kept p agenda, (s.timer e.1).flag.activated = true

section Ticks

variable {plan : ν → Option ℕ} {agenda' : TimerHead → List (ν × ℕ)} {s s' : Timers ν}
  {script : List ν → ν → List (TimerCall ν)} {fs : List ν} {fuel : ℕ}

omit [DecidableEq ν] [Fintype ν] in
theorem Planned.keeps (h : Planned p plan agenda s) (hk : Keeps p agenda agenda' s s') :
    Planned p plan agenda' s' where
  period t ht := by
    rw [hk.timer t ht]
    exact h.period t ht
  activated e he := by
    rw [hk.kept] at he
    rw [hk.timer e.1 (mem_kept.mp he).2]
    exact h.activated e he

/-- A timer that has fired is renewed, or gone. -/
theorem Planned.restart (hsound : s.Sound 1 now agenda) (h : Planned p plan agenda s)
    (hp : p t = true) (hact : (s.timer t).flag.activated = true)
    (hnot : t ∉ names (kept p agenda)) (hs : Timers.restart t s = some s') :
    ∃ agenda', s'.Sound 1 now agenda' ∧ Planned p plan agenda' s' ∧
      kept p agenda' = renew plan now (kept p agenda) t := by
  obtain ⟨agenda', hsound', hother, hself⟩ := hsound.restart hs
  have hper := h.period t hp
  -- the others of them
  let q : ν → Bool := fun t' => p t' && decide (t' ≠ t)
  have hq : ∀ {t'}, p t' = true → t' ≠ t → q t' = true := fun hp' hne =>
    (Bool.and_eq_true _ _).mpr ⟨hp', decide_eq_true hne⟩
  have hk : Keeps q agenda agenda' s s' := by
    refine hother q ?_
    show (p t && decide (t ≠ t)) = false
    rw [decide_eq_false (fun hne => hne rfl), Bool.and_false]
  have hrest : ∀ e ∈ kept p agenda', e.1 ≠ t → (s'.timer e.1).flag.activated = true := by
    intro e he hne
    obtain ⟨he, hpe⟩ := mem_kept.mp he
    have heq : e ∈ kept q agenda' := mem_kept.mpr ⟨he, hq hpe hne⟩
    rw [hk.kept] at heq
    rw [hk.timer e.1 (hq hpe hne)]
    exact h.activated e (mem_kept.mpr ⟨(mem_kept.mp heq).1, hpe⟩)
  have hperiod : ∀ t', p t' = true → Timers.period (s'.timer t) = plan t →
      Timers.period (s'.timer t') = plan t' := by
    intro t' ht' heq
    rcases eq_or_ne t' t with rfl | hne
    · exact heq
    · rw [hk.timer t' (hq ht' hne)]
      exact h.period t' ht'
  rw [hact, Bool.and_true] at hself
  split_ifs at hself with hflag
  · obtain ⟨rfl, htimer⟩ := hself
    refine ⟨_, hsound', ⟨fun t' ht' => hperiod t' ht' ?_, fun e he => ?_⟩, ?_⟩
    · rw [htimer]
      exact hper
    · rcases eq_or_ne e.1 t with he' | hne
      · rw [he', htimer]
        rfl
      · exact hrest e he hne
    · rw [kept_arm_of_pos (hsound.represents.ordered _) hp, without_of_notMem hnot]
      unfold Timers.period at hper
      unfold renew
      rw [← hper, if_pos hflag]
      rfl
  · obtain ⟨rfl, htimer⟩ := hself
    refine ⟨_, hsound', ⟨fun t' ht' => hperiod t' ht' ?_, fun e he => ?_⟩, ?_⟩
    · rw [htimer]
      exact hper
    · refine hrest e he ?_
      rintro rfl
      exact hnot (List.mem_map_of_mem he)
    · unfold Timers.period at hper
      unfold renew
      rw [← hper, if_neg hflag]
      rfl

/-- What the loop has come to: `l` is what was kept in front of the tick. -/
def Tracks (p : ν → Bool) (plan : ν → Option ℕ) (now : ℕ) (l : List (ν × ℕ))
    (σ : Timers ν × List ν) : Prop :=
  ∃ agenda gone pending, σ.1.Sound 1 now agenda ∧ Planned p plan agenda σ.1 ∧
    due now l = gone ++ pending ∧ σ.2.filter p = names gone ∧
    kept p agenda = pending ++ (names gone).foldl (renew plan now) (later now l)

omit [DecidableEq ν] [Fintype ν] in
/-- Where the first timer is one of them, it is the first of what is kept. -/
theorem kept_of_head {rest : List (ν × ℕ)} (hl : agenda .timerList = (t, d) :: rest)
    (hp : p t = true) : kept p agenda = (t, d) :: rest.filter fun e => p e.1 := by
  unfold kept
  rw [hl]
  exact List.filter_cons_of_pos hp

/-- One timeout function, with what follows it. -/
theorem Tracks.step {l : List (ν × ℕ)} {σ u : Timers ν × List ν}
    (hplan : ∀ t n, p t = true → plan t = some n → 0 < n) (hl : Ordered l)
    (hlp : ∀ e ∈ l, p e.1 = true)
    (hscript : ∀ c ∈ script σ.2 t, p c.timer = false) (h : Tracks p plan now l σ)
    (hfirst : σ.1.links.next (.head .timerList) = .item t)
    (hdue : σ.1.rtTick - (σ.1.timer t).timeoutTick < rtTickMax / 2)
    (hu : timeoutFunc script t (rtTimerRemove t σ.1, σ.2) = some u)
    (hs : Timers.restart t u.1 = some s') : Tracks p plan now l (s', u.2) := by
  obtain ⟨agenda, gone, pending, hsound, hplanned, hcut, hgone, hkept⟩ := h
  obtain ⟨v, hv, rfl⟩ := Option.map_eq_some_iff.mp hu
  -- the first timer of the list
  obtain ⟨d, rest, hlist⟩ : ∃ d rest, agenda .timerList = (t, d) :: rest := by
    have hhead := hsound.represents.next_head .timerList
    rw [hfirst] at hhead
    rcases hag : agenda .timerList with - | ⟨⟨t', d⟩, rest⟩
    · rw [hag] at hhead
      cases hhead
    · rw [hag] at hhead
      obtain rfl := Node.item.inj hhead
      exact ⟨d, rest, rfl⟩
  have hmem : (t, d) ∈ agenda .timerList := hlist ▸ List.mem_cons_self
  have hd : d ≤ now := by
    rw [hsound.represents.tick] at hdue
    exact (hsound.represents.timeout_iff hmem le_rfl (Nat.le_add_right _ _)).mp hdue
  obtain ⟨agenda₂, hsound₂, hkeeps⟩ := (hsound.remove t).calls hscript hv
  rcases hp : p t with - | -
  · -- a timer that does not belong to them
    obtain ⟨agenda₃, hsound₃, hother, -⟩ := hsound₂.restart hs
    have hk : Keeps p agenda agenda₃ σ.1 s' := by
      have h₁ : Keeps p agenda (cancel t agenda) σ.1 (rtTimerRemove t σ.1) :=
        ⟨kept_cancel_of_neg hp, fun _ _ => rfl⟩
      exact (h₁.trans hkeeps).trans (hother p hp)
    refine ⟨agenda₃, gone, pending, hsound₃, hplanned.keeps hk, hcut, ?_, hk.kept.trans hkept⟩
    rw [List.filter_append, hgone, List.filter_cons_of_neg (by rw [hp]; exact Bool.false_ne_true)]
    exact List.append_nil _
  · have hkt := kept_of_head hlist hp
    -- it is the first that is pending, as what is renewed is not due
    obtain ⟨pending', rfl⟩ : ∃ pending', pending = (t, d) :: pending' := by
      rcases pending with - | ⟨e, pending'⟩
      · exfalso
        have hin : (t, d) ∈ (names gone).foldl (renew plan now) (later now l) := by
          rw [hkt, List.nil_append] at hkept
          rw [← hkept]
          exact List.mem_cons_self
        have hgone' : ∀ n ∈ names gone, ∀ m, plan n = some m → 0 < m := by
          intro n hn m hm
          obtain ⟨e, he, rfl⟩ := List.mem_map.mp hn
          refine hplan e.1 m (hlp e ?_) hm
          have he' : e ∈ due now l := hcut ▸ List.mem_append_left _ he
          exact (List.takeWhile_prefix _).subset he'
        exact absurd hd (not_le_of_gt
          (lt_of_mem_foldl_renew hgone' (fun e he => lt_of_mem_dropWhile hl he) hin))
      · rw [hkt, List.cons_append] at hkept
        obtain ⟨rfl, -⟩ := List.cons.inj hkept
        exact ⟨pending', rfl⟩
    have hpending : ∀ e ∈ pending', e.2 ≤ now := by
      intro e he
      have he' : e ∈ due now l := hcut ▸ List.mem_append_right _ (List.mem_cons_of_mem _ he)
      exact le_of_mem_takeWhile he'
    have htimer : v.timer t = σ.1.timer t := hkeeps.timer t hp
    have hact : (σ.1.timer t).flag.activated = true :=
      hplanned.activated (t, d) (hkt ▸ List.mem_cons_self)
    have hnotin : t ∉ names (kept p agenda₂) := by
      rw [hkeeps.kept, kept_cancel]
      intro hin
      obtain ⟨e, he, rfl⟩ := List.mem_map.mp hin
      exact (mem_without.mp he).2 rfl
    have hkept₂ : kept p agenda₂ =
        pending' ++ (names gone).foldl (renew plan now) (later now l) := by
      have hne : ∀ e ∈ rest.filter fun e => p e.1, e.1 ≠ t := by
        intro e he het
        have hn := hsound.represents.nodup .timerList
        rw [hlist] at hn
        have hin : e.1 ∈ names rest := List.mem_map_of_mem (List.mem_filter.mp he).1
        rw [het] at hin
        exact (List.nodup_cons.mp hn).1 hin
      rw [hkept, List.cons_append] at hkt
      obtain ⟨-, hrest⟩ := List.cons.inj hkt
      rw [hkeeps.kept, kept_cancel, hkept, List.cons_append, hrest]
      unfold without
      rw [List.filter_cons_of_neg (by simp)]
      exact List.filter_eq_self.mpr fun e he => decide_eq_true (hne e he)
    have hplanned₂ : Planned p plan agenda₂ v := by
      refine ⟨fun t' ht' => ?_, fun e he => ?_⟩
      · rw [hkeeps.timer t' ht']
        exact hplanned.period t' ht'
      · have hpe := (mem_kept.mp he).2
        rw [hkeeps.kept, kept_cancel] at he
        rw [hkeeps.timer e.1 hpe]
        exact hplanned.activated e (mem_without.mp he).1
    obtain ⟨agenda₃, hsound₃, hplanned₃, hkept₃⟩ :=
      hplanned₂.restart hsound₂ hp (htimer ▸ hact) hnotin hs
    refine ⟨agenda₃, gone ++ [(t, d)], pending', hsound₃, hplanned₃, ?_, ?_, ?_⟩
    · rw [hcut, List.append_assoc]
      rfl
    · rw [List.filter_append, hgone, List.filter_cons_of_pos hp]
      unfold names
      rw [List.map_append]
      rfl
    · rw [hkept₃, hkept₂, renew_append hpending]
      unfold names
      rw [List.map_append, List.foldl_append]
      rfl

/-- **One tick.**  Of some timers that nobody touches those fire that are due, in the
order of the list, and the others are as if they were not there. -/
theorem Sound.tick (hplan : ∀ t n, p t = true → plan t = some n → 0 < n)
    (hsound : s.Sound 0 now agenda) (hplanned : Planned p plan agenda s)
    (hscript : ∀ fs t, ∀ c ∈ script fs t, p c.timer = false)
    (h : Timers.tick fuel script s = some (s', fs)) :
    ∃ agenda', s'.Sound 0 (now + 1) agenda' ∧ Planned p plan agenda' s' ∧
      (∀ e ∈ agenda' .timerList, now + 1 < e.2) ∧
      kept p agenda' = expire plan (now + 1) (kept p agenda) ∧
      fs.filter p = names (due (now + 1) (kept p agenda)) := by
  have hlate : ∀ h, ∀ e ∈ agenda h, now ≤ e.2 := fun h e he => (hsound.represents.window he).1
  -- in front of the loop every expiry may be one tick late
  have h1 : Sound 1 (now + 1) agenda { s with rtTick := s.rtTick + 1 } := by
    refine ⟨Represents.next ⟨hsound.represents.tick, hsound.represents.links,
      hsound.represents.ordered, hsound.represents.timeout, fun {h e} he => ⟨?_, ?_⟩,
      hsound.represents.kind⟩ fun h e he => ?_, hsound.hard⟩
    · exact (hlate h e he).trans (Nat.le_add_right _ _)
    · exact (hsound.represents.window he).2
    · exact Nat.succ_le_succ (hlate h e he)
  have hl : Ordered (kept p agenda) :=
    (hsound.represents.ordered .timerList).sublist List.filter_sublist
  have h0 : Tracks p plan (now + 1) (kept p agenda) ({ s with rtTick := s.rtTick + 1 }, []) :=
    ⟨agenda, [], _, h1, ⟨hplanned.period, hplanned.activated⟩, rfl, rfl,
      (due_append_later _ _).symm⟩
  obtain ⟨⟨agenda', gone, pending, hs', hplanned', hcut, hgone, hkept⟩, hend⟩ :=
    rtTimerCheckLoop_invariant (J := Tracks p plan (now + 1) (kept p agenda))
      (fun t σ u s' hJ hfirst hdue hu hr => Tracks.step hplan hl (fun e he => (mem_kept.mp he).2)
        (hscript σ.2 t) hJ hfirst hdue hu hr) h0 h
  -- the loop ends in front of a timer that is not due, and so none is
  have hlater : ∀ e ∈ agenda' .timerList, now + 1 < e.2 := by
    intro e he
    have hhead := hs'.represents.next_head .timerList
    rcases hag : agenda' .timerList with - | ⟨e₀, rest⟩
    · rw [hag] at he
      cases he
    · rw [hag] at hhead he
      have hnot := hend e₀.1 hhead
      have he₀ : e₀ ∈ agenda' .timerList := hag ▸ List.mem_cons_self
      rw [hs'.represents.tick,
        hs'.represents.timeout_iff he₀ le_rfl (Nat.le_add_right _ _)] at hnot
      have hord := hs'.represents.ordered .timerList
      rw [hag] at hord
      exact hord.lt (lt_of_not_ge hnot) he
  have hsoft : agenda' .softTimerList = [] := by
    refine List.eq_nil_iff_forall_not_mem.mpr fun e he => ?_
    have hkind := hs'.represents.kind he
    rw [hs'.head e.1] at hkind
    cases hkind
  have hnil : pending = [] := by
    refine List.eq_nil_iff_forall_not_mem.mpr fun e he => ?_
    have hin : e ∈ kept p agenda' := hkept ▸ List.mem_append_left _ he
    have hdue : e ∈ due (now + 1) (kept p agenda) := hcut ▸ List.mem_append_right _ he
    exact absurd (le_of_mem_takeWhile hdue) (not_le_of_gt (hlater e (mem_kept.mp hin).1))
  rw [hnil, List.append_nil] at hcut
  refine ⟨agenda', ⟨⟨hs'.represents.tick, hs'.represents.links, hs'.represents.ordered,
    hs'.represents.timeout, fun {k e} he => ⟨?_, (hs'.represents.window he).2⟩,
    hs'.represents.kind⟩, hs'.hard⟩, hplanned', hlater, ?_, ?_⟩
  · cases k with
    | timerList => exact (hlater e he).le
    | softTimerList =>
        rw [hsoft] at he
        cases he
  · rw [hkept, hnil, ← hcut]
    rfl
  · rw [hgone, hcut]

end Ticks

/-! ### Runs -/

section Runs

variable {plan : ν → Option ℕ} {agenda' : TimerHead → List (ν × ℕ)} {s s' : Timers ν}
  {as bs : List (TimerEvent ν)} {fuel : ℕ} {time : ν → Tick} {periodic : ν → Bool}

/-- One event. -/
theorem Sound.step {e : TimerEvent ν} (hplan : ∀ t n, p t = true → plan t = some n → 0 < n)
    (hsound : s.Sound 0 now agenda) (hplanned : Planned p plan agenda s) (he : e.Spares p)
    (h : timerStep fuel s e = some s') :
    ∃ agenda', s'.Sound 0 (now + ticks [e]) agenda' ∧ Planned p plan agenda' s' ∧
      kept p agenda' = rounds plan now (ticks [e]) (kept p agenda) ∧
      (fired fuel s e).filter p = taken plan now (ticks [e]) (kept p agenda) := by
  cases e with
  | call c =>
      obtain ⟨agenda', hsound', hk⟩ := hsound.call h
      exact ⟨agenda', hsound', hplanned.keeps (hk p he), (hk p he).kept, rfl⟩
  | tick script =>
      obtain ⟨⟨s₁, fs⟩, htick, rfl⟩ := Option.map_eq_some_iff.mp h
      obtain ⟨agenda', hsound', hplanned', -, hkept, hfs⟩ :=
        hsound.tick hplan hplanned he htick
      refine ⟨agenda', hsound', hplanned', hkept, ?_⟩
      show ((Timers.tick fuel script s).elim [] Prod.snd).filter p = names _ ++ []
      rw [htick]
      show fs.filter p = names _ ++ []
      rw [List.append_nil]
      exact hfs

omit [DecidableEq ν] [Fintype ν] in
theorem ticks_cons (e : TimerEvent ν) (es : List (TimerEvent ν)) :
    ticks (e :: es) = ticks [e] + ticks es := by
  cases e with
  | call c => exact (Nat.zero_add _).symm
  | tick script => exact Nat.add_comm _ _

/-- **Independence.**  In every run the timers that nobody touches go through the rounds
of an agenda of their own. -/
theorem Sound.run (hplan : ∀ t n, p t = true → plan t = some n → 0 < n)
    (hsound : s.Sound 0 now agenda) (hplanned : Planned p plan agenda s)
    (hbs : ∀ e ∈ bs, e.Spares p) (h : exec (timerStep fuel) s bs = some s') :
    ∃ agenda', s'.Sound 0 (now + ticks bs) agenda' ∧ Planned p plan agenda' s' ∧
      kept p agenda' = rounds plan now (ticks bs) (kept p agenda) ∧
      (outputs (timerStep fuel) (fun s e _ => fired fuel s e) s bs).filter p =
        taken plan now (ticks bs) (kept p agenda) := by
  induction bs generalizing s agenda now with
  | nil =>
      obtain rfl := Option.some.inj h
      exact ⟨agenda, hsound, hplanned, rfl, rfl⟩
  | cons e es ih =>
      obtain ⟨s₁, hs₁, hrest⟩ := exec_cons_eq_some.mp h
      obtain ⟨agenda₁, hsound₁, hplanned₁, hkept₁, hfs₁⟩ :=
        hsound.step hplan hplanned (hbs e List.mem_cons_self) hs₁
      obtain ⟨agenda₂, hsound₂, hplanned₂, hkept₂, hfs₂⟩ :=
        ih hsound₁ hplanned₁ (fun e he => hbs e (List.mem_cons_of_mem _ he)) hrest
      rw [outputs_cons es hs₁, List.filter_append, hfs₁, hfs₂, hkept₁, ticks_cons,
        ← Nat.add_assoc]
      refine ⟨agenda₂, hsound₂, hplanned₂, ?_, ?_⟩
      · rw [hkept₂, hkept₁]
        exact (rounds_add _ _ _).symm
      · exact (taken_add _ _ _).symm

/-- Only this timer. -/
def only (t : ν) : ν → Bool := fun t' => t' = t

end Runs

end DolphinNote.Timers
