/-
DolphinNote/Timers.lean

The timers of the kernel (timer.c), with one row of links.

A timer is armed by threading it into the list of its kind, in front of the
first timer that expires later; ticks are 32-bit numbers that wrap around, and
`t` is later than `t'` if `t - t'` is below one half of their range.

`Represents` reads the lists as agendas over an unbounded clock: the links are
those of two lists ordered by expiry, and every expiry is near enough to the
present for its 32-bit image to be compared.

* `rtTimerStart_spec` is the walk along the list and the insertion.
* `rtTimerStop_spec` and `Represents.remove` take a timer out.
* `Represents.timeout_iff` is the comparison `rt_timer_check` makes.
* `rtTimerCheckLoop_invariant` is the rule for its loop, whatever the timeout
  functions do.
-/
import DolphinNote.Agenda
import DolphinNote.Rings

namespace DolphinNote

open Rings Agenda

/-- The error codes that the calls on timers return. -/
inductive RtErr
  | eok | error
  deriving DecidableEq, Repr

/-- `rt_tick_t` -/
abbrev Tick := BitVec 32

/-- `RT_TICK_MAX` -/
def rtTickMax : Tick := 0xFFFFFFFF

/-- The heads of the two lists. -/
inductive TimerHead
  | timerList | softTimerList
  deriving DecidableEq, Repr

/-- The bits of `parent.flag`. -/
structure TimerFlag where
  activated : Bool
  periodic : Bool
  softTimer : Bool
  deriving DecidableEq, Repr

/-- The list a timer goes to. -/
def TimerFlag.head (flag : TimerFlag) : TimerHead :=
  if flag.softTimer then .softTimerList else .timerList

/-- `struct rt_timer` -/
structure Timer where
  flag : TimerFlag
  initTick : Tick
  timeoutTick : Tick
  deriving DecidableEq, Repr

/-- `rt_tick`, the timers and their rows. -/
structure Timers (ν : Type*) where
  rtTick : Tick
  timer : ν → Timer
  links : Links TimerHead ν

/-- `rt_timer_control` -/
inductive TimerCmd
  | getTime
  | setTime (tick : Tick)
  | setOneshot
  | setPeriodic
  deriving DecidableEq, Repr

namespace Timers

variable {ν κ : Type*} [DecidableEq ν]

/-! ### Operations -/

/-- Stores into one timer. -/
def set (t : ν) (x : Timer) (s : Timers ν) : Timers ν :=
  { s with timer := Function.update s.timer t x }

/-- `parent.flag |= RT_TIMER_FLAG_ACTIVATED`, or `&= ~`. -/
def setActivated (t : ν) (b : Bool) (s : Timers ν) : Timers ν :=
  s.set t { s.timer t with flag := { (s.timer t).flag with activated := b } }

/-- `timeout_tick = tick` -/
def setTimeout (t : ν) (tick : Tick) (s : Timers ν) : Timers ν :=
  s.set t { s.timer t with timeoutTick := tick }

/-- `_rt_timer_init` -/
def rtTimerInit (t : ν) (time : Tick) (flag : TimerFlag) (s : Timers ν) : Timers ν :=
  let s := s.set t { flag := { flag with activated := false }, initTick := time, timeoutTick := 0 }
  { s with links := s.links.join (.item t) (.item t) }

/-- `_rt_timer_remove` -/
def rtTimerRemove (t : ν) (s : Timers ν) : Timers ν :=
  { s with links := s.links.remove (.item t) }

/-- The loop of `rt_timer_start`: the node behind which the timer goes. -/
def findRow (h : TimerHead) (timeout : Tick) (s : Timers ν) :
    ℕ → Node TimerHead ν → Option (Node TimerHead ν)
  | 0, _ => none
  | fuel + 1, row =>
      if row = s.links.prev (.head h) then some row
      else
        match s.links.next row with
        | .head _ => none
        | .item t =>
            -- two timers that expire together keep their order
            if (s.timer t).timeoutTick - timeout = 0 then findRow h timeout s fuel (.item t)
            else if (s.timer t).timeoutTick - timeout < rtTickMax / 2 then some row
            else findRow h timeout s fuel (.item t)

section Start

variable [Fintype ν]

/-- `rt_timer_start`; the assertion halts. -/
def rtTimerStart (t : ν) (s : Timers ν) : Option (Timers ν) :=
  let s := setActivated t false (rtTimerRemove t s)
  if (s.timer t).initTick < rtTickMax / 2 then
    let timeout := s.rtTick + (s.timer t).initTick
    let s := setTimeout t timeout s
    let h := (s.timer t).flag.head
    (findRow h timeout s (Fintype.card ν + 1) (.head h)).map fun row =>
      setActivated t true { s with links := s.links.insertAfter row (.item t) }
  else none

/-- `rt_timer_stop` -/
def rtTimerStop (t : ν) (s : Timers ν) : RtErr × Timers ν :=
  if (s.timer t).flag.activated then (.eok, setActivated t false (rtTimerRemove t s))
  else (.error, s)

/-- `rt_timer_control`; the time goes to a variable of the caller. -/
def rtTimerControl (t : ν) (cmd : TimerCmd) (s : Timers ν) : Timers ν :=
  match cmd with
  | .getTime => s
  | .setTime tick => s.set t { s.timer t with initTick := tick }
  | .setOneshot => s.set t { s.timer t with flag := { (s.timer t).flag with periodic := false } }
  | .setPeriodic => s.set t { s.timer t with flag := { (s.timer t).flag with periodic := true } }

/-- `rt_timer_list_next_timeout` -/
def rtTimerListNextTimeout (h : TimerHead) (s : Timers ν) : Tick :=
  match s.links.next (.head h) with
  | .head _ => rtTickMax
  | .item t => (s.timer t).timeoutTick

/-! ### Expiry -/

/-- What stands behind the timeout function in `rt_timer_check` and
`rt_soft_timer_check`. -/
def restart (t : ν) (s : Timers ν) : Option (Timers ν) :=
  let flag := (s.timer t).flag
  let s := setActivated t false s
  if flag.periodic && flag.activated then rtTimerStart t s else some s

/-- The loop of `rt_timer_check`.  A timeout function may work on the timers and on
a state `κ` of its own. -/
def rtTimerCheckLoop (timeoutFunc : ν → Timers ν × κ → Option (Timers ν × κ)) :
    ℕ → Tick → Timers ν × κ → Option (Timers ν × κ)
  | 0, _, _ => none
  | fuel + 1, currentTick, s =>
      match s.1.links.next (.head .timerList) with
      | .head _ => some s
      | .item t =>
          if currentTick - (s.1.timer t).timeoutTick < rtTickMax / 2 then
            (timeoutFunc t (rtTimerRemove t s.1, s.2)).bind fun s =>
              (restart t s.1).bind fun timers =>
                -- the tick is read again behind the timeout function
                rtTimerCheckLoop timeoutFunc fuel s.1.rtTick (timers, s.2)
          else some s

/-- `rt_timer_check` -/
def rtTimerCheck (timeoutFunc : ν → Timers ν × κ → Option (Timers ν × κ)) (fuel : ℕ)
    (s : Timers ν × κ) : Option (Timers ν × κ) :=
  rtTimerCheckLoop timeoutFunc fuel s.1.rtTick s

end Start

/-! ### Agendas -/

/-- `RT_TICK_MAX / 2` -/
abbrev half : ℕ := 2 ^ 31 - 1

omit [DecidableEq ν] in
theorem toNat_half : (rtTickMax / 2).toNat = half := by decide

/-- How late a timer may be, and how far ahead it may expire: near enough for any two
of them to be compared. -/
structure Window where
  late : ℕ
  span : ℕ
  late_lt : late < half
  span_le : span ≤ half
  near : late + span + half ≤ 2 ^ 32 + 1

/-- The lists, over an unbounded clock. -/
structure Represents (w : TimerHead → Window) (now : ℕ) (agenda : TimerHead → List (ν × ℕ))
    (s : Timers ν) : Prop where
  tick : s.rtTick = BitVec.ofNat 32 now
  links : s.links.Holds fun h => names (agenda h)
  ordered : ∀ h, Ordered (agenda h)
  timeout : ∀ {h e}, e ∈ agenda h → (s.timer e.1).timeoutTick = BitVec.ofNat 32 e.2
  window : ∀ {h e}, e ∈ agenda h → now ≤ e.2 + (w h).late ∧ e.2 < now + (w h).span
  kind : ∀ {h e}, e ∈ agenda h → (s.timer e.1).flag.head = h

/-- The flag says whether the timer is on an agenda. -/
def Flagged (agenda : TimerHead → List (ν × ℕ)) (s : Timers ν) (t : ν) : Prop :=
  (s.timer t).flag.activated = true ↔ ∃ h, t ∈ names (agenda h)

/-- The agendas without a timer. -/
def cancel (t : ν) (agenda : TimerHead → List (ν × ℕ)) : TimerHead → List (ν × ℕ) :=
  fun h => without t (agenda h)

/-- The agendas with a timer that is started. -/
def arm (h : TimerHead) (t : ν) (d : ℕ) (agenda : TimerHead → List (ν × ℕ)) :
    TimerHead → List (ν × ℕ) :=
  Function.update (cancel t agenda) h (Agenda.insert t d (without t (agenda h)))

/-- The comparison of the kernel, for two times near enough to each other. -/
theorem ofNat_sub_lt_iff {d d' : ℕ} (h : d < d' + half) (h' : d' + half ≤ d + 2 ^ 32) :
    BitVec.ofNat 32 d - BitVec.ofNat 32 d' < rtTickMax / 2 ↔ d' ≤ d := by
  rw [BitVec.lt_def, toNat_half, BitVec.toNat_sub, BitVec.toNat_ofNat, BitVec.toNat_ofNat]
  omega

theorem ofNat_sub_eq_zero_iff {d d' : ℕ} (h : d < d' + half) (h' : d' + half ≤ d + 2 ^ 32) :
    BitVec.ofNat 32 d - BitVec.ofNat 32 d' = 0 ↔ d = d' := by
  have hhalf : half = 2147483647 := rfl
  rw [← BitVec.toNat_inj, BitVec.toNat_sub, BitVec.toNat_ofNat, BitVec.toNat_ofNat,
    show (0 : Tick).toNat = 0 from rfl]
  omega

/-! ### Stores -/

section Stores

variable {s : Timers ν} {t : ν} {x y : Timer}

@[simp] theorem timer_set_self : (s.set t x).timer t = x := Function.update_self _ _ _

@[simp] theorem set_set : (s.set t x).set t y = s.set t y := by
  unfold set
  rw [Function.update_idem]

theorem timer_set_of_ne {t' : ν} (h : t' ≠ t) : (s.set t x).timer t' = s.timer t' :=
  Function.update_of_ne h _ _

end Stores

/-! ### Taking a timer out, and putting it in -/

variable {w : TimerHead → Window} {now : ℕ} {agenda : TimerHead → List (ν × ℕ)} {s s' : Timers ν}
  {t t' : ν}

omit [DecidableEq ν] in
theorem Represents.nodup (H : s.Represents w now agenda) (h : TimerHead) :
    (names (agenda h)).Nodup :=
  H.links.nodup h

/-- A timer that is on no agenda may be changed in any way. -/
theorem Represents.set (H : s.Represents w now agenda) (ht : ∀ h, t ∉ names (agenda h))
    (x : Timer) : (s.set t x).Represents w now agenda := by
  have hne : ∀ {h e}, e ∈ agenda h → e.1 ≠ t := by
    rintro h e he rfl
    exact ht h (List.mem_map_of_mem he)
  refine ⟨H.tick, H.links, H.ordered, fun he => ?_, H.window, fun he => ?_⟩
  · show (Function.update s.timer t x _).timeoutTick = _
    rw [Function.update_of_ne (hne he)]
    exact H.timeout he
  · show (Function.update s.timer t x _).flag.head = _
    rw [Function.update_of_ne (hne he)]
    exact H.kind he

/-- So may the flag and the time of any timer, as long as it keeps its kind and its
expiry. -/
theorem Represents.update (H : s.Represents w now agenda) {x : Timer}
    (hx : x.timeoutTick = (s.timer t).timeoutTick) (hf : x.flag.head = (s.timer t).flag.head) :
    (s.set t x).Represents w now agenda := by
  refine ⟨H.tick, H.links, H.ordered, fun {h e} he => ?_, H.window, fun {h e} he => ?_⟩
  · show (Function.update s.timer t x e.1).timeoutTick = _
    rcases eq_or_ne e.1 t with hne | hne
    · rw [hne, Function.update_self, hx, ← hne]
      exact H.timeout he
    · rw [Function.update_of_ne hne]
      exact H.timeout he
  · show (Function.update s.timer t x e.1).flag.head = _
    rcases eq_or_ne e.1 t with hne | hne
    · rw [hne, Function.update_self, hf, ← hne]
      exact H.kind he
    · rw [Function.update_of_ne hne]
      exact H.kind he

theorem Represents.remove (H : s.Represents w now agenda) (t : ν) :
    (rtTimerRemove t s).Represents w now (cancel t agenda) := by
  have hlinks := H.links.remove t
  refine ⟨H.tick, ?_, fun h => ordered_without (H.ordered h), fun he => ?_, fun he => ?_, fun he => ?_⟩
  · have hnames : (fun h => (names (agenda h)).erase t) = fun h => names (cancel t agenda h) := by
      funext h
      exact (names_without (H.nodup h)).symm
    rwa [hnames] at hlinks
  · exact H.timeout (mem_without.mp he).1
  · exact H.window (mem_without.mp he).1
  · exact H.kind (mem_without.mp he).1

theorem notMem_cancel (t : ν) (agenda : TimerHead → List (ν × ℕ)) (h : TimerHead) :
    t ∉ names (cancel t agenda h) := by
  intro ht
  obtain ⟨e, he, rfl⟩ := List.mem_map.mp ht
  exact (mem_without.mp he).2 rfl

/-- **The walk.**  From behind the timers that expire no later, the loop gets to the
place of the timer. -/
theorem findRow_spec {h : TimerHead} {d fuel : ℕ} {l₁ l₂ : List (ν × ℕ)}
    (H : s.Represents w now agenda) (hl : agenda h = l₁ ++ l₂)
    (hd : ∀ e ∈ agenda h, e.2 < d + half ∧ d + half ≤ e.2 + 2 ^ 32) (hfuel : l₂.length < fuel) :
    findRow h (BitVec.ofNat 32 d) s fuel (last h (names l₁)) =
      some (last h (names (l₁ ++ l₂.takeWhile fun e => e.2 ≤ d))) := by
  induction fuel generalizing l₁ l₂ with
  | zero => exact absurd hfuel (Nat.not_lt_zero _)
  | succ fuel ih =>
      have hnames : names (agenda h) = names l₁ ++ names l₂ := by
        rw [hl]
        exact List.map_append
      unfold findRow
      rcases l₂ with - | ⟨e, l₂⟩
      · rw [if_pos ((H.links.last_eq_prev_head hnames).mpr rfl), List.takeWhile_nil,
          List.append_nil]
      · rw [if_neg fun he => List.cons_ne_nil _ _ ((H.links.last_eq_prev_head hnames).mp he)]
        have hnext : s.links.next (last h (names l₁)) = .item e.1 :=
          (H.links.joined h (names l₁) (names (e :: l₂)) hnames).1
        have he : e ∈ agenda h := by
          rw [hl]
          exact List.mem_append_right _ List.mem_cons_self
        have hgo : findRow h (BitVec.ofNat 32 d) s fuel (.item e.1) =
            some (last h (names (l₁ ++ e :: l₂.takeWhile fun e => e.2 ≤ d))) := by
          have hcut : agenda h = (l₁ ++ [e]) ++ l₂ := by
            rw [hl, List.append_assoc]
            rfl
          have hrest := ih hcut (Nat.lt_of_succ_lt_succ hfuel)
          rw [show last h (names (l₁ ++ [e])) = .item e.1 by
            rw [names, List.map_append]; exact last_concat _ _ _] at hrest
          rw [hrest, List.append_assoc]
          rfl
        obtain ⟨hd₁, hd₂⟩ := hd e he
        rw [hnext]
        dsimp only
        rw [H.timeout he]
        by_cases hle : e.2 ≤ d
        · rw [List.takeWhile_cons_of_pos (p := fun e : ν × ℕ => decide (e.2 ≤ d)) (decide_eq_true hle)]
          split_ifs with heq hlt
          · exact hgo
          · exfalso
            have hde := (ofNat_sub_lt_iff hd₁ hd₂).mp hlt
            exact heq ((ofNat_sub_eq_zero_iff hd₁ hd₂).mpr (Nat.le_antisymm hle hde))
          · exact hgo
        · rw [List.takeWhile_cons_of_neg (p := fun e : ν × ℕ => decide (e.2 ≤ d)) (by simpa using hle), List.append_nil,
            if_neg fun heq => hle ((ofNat_sub_eq_zero_iff hd₁ hd₂).mp heq).le,
            if_pos ((ofNat_sub_lt_iff hd₁ hd₂).mpr (Nat.le_of_not_le hle))]


/-! ### Stopping -/

theorem cancel_of_notMem (ht : ∀ h, t ∉ names (agenda h)) : cancel t agenda = agenda := by
  funext h
  exact without_of_notMem (ht h)

/-- **Stopping a timer.** -/
theorem rtTimerStop_spec (H : s.Represents w now agenda) (hf : Flagged agenda s t) :
    (rtTimerStop t s).2.Represents w now (cancel t agenda) := by
  unfold rtTimerStop
  split_ifs with ha
  · exact (H.remove t).set (notMem_cancel t agenda) _
  · rw [cancel_of_notMem fun h ht => ha (hf.mpr ⟨h, ht⟩)]
    exact H

/-! ### The flag -/

section Flag

variable {u : Timers ν} {agenda' : TimerHead → List (ν × ℕ)}

omit [DecidableEq ν] in
/-- What a timer's flag says depends on the timer and on its own entries. -/
theorem Flagged.congr (hf : Flagged agenda s t) (htimer : u.timer t = s.timer t)
    (hmem : ∀ h d, (t, d) ∈ agenda' h ↔ (t, d) ∈ agenda h) : Flagged agenda' u t := by
  unfold Flagged at hf ⊢
  rw [htimer, hf]
  refine exists_congr fun h => ?_
  rw [mem_names, mem_names]
  exact exists_congr fun d => (hmem h d).symm

theorem Flagged.stop (hf : Flagged agenda s t') (t : ν) :
    Flagged (cancel t agenda) (rtTimerStop t s).2 t' := by
  rcases eq_or_ne t' t with rfl | hne
  · unfold rtTimerStop
    split_ifs with ha
    · refine iff_of_false ?_ fun ⟨h, hh⟩ => notMem_cancel t' agenda h hh
      rw [setActivated, timer_set_self]
      exact Bool.false_ne_true
    · exact iff_of_false ha fun ⟨h, hh⟩ => notMem_cancel t' agenda h hh
  · have hmem : ∀ h d, (t', d) ∈ cancel t agenda h ↔ (t', d) ∈ agenda h :=
      fun h d => mem_without.trans (and_iff_left hne)
    unfold rtTimerStop
    split_ifs
    · exact hf.congr (timer_set_of_ne hne) hmem
    · exact hf.congr rfl hmem

end Flag

/-! ### Starting -/

theorem mem_arm {h k : TimerHead} {d : ℕ} {e : ν × ℕ} (he : e ∈ arm h t d agenda k) :
    (k = h ∧ e = (t, d)) ∨ (e ∈ agenda k ∧ e.1 ≠ t) := by
  unfold arm at he
  rcases eq_or_ne k h with rfl | hk
  · rw [Function.update_self] at he
    exact (mem_insert.mp he).imp (fun he => ⟨rfl, he⟩) mem_without.mp
  · rw [Function.update_of_ne hk] at he
    exact .inr (mem_without.mp he)

theorem mem_arm_iff {h k : TimerHead} {d : ℕ} {e : ν × ℕ} (hne : e.1 ≠ t) :
    e ∈ arm h t d agenda k ↔ e ∈ agenda k := by
  unfold arm
  rcases eq_or_ne k h with rfl | hk
  · rw [Function.update_self, mem_insert, mem_without]
    exact ⟨fun he => he.elim (fun he => absurd (he ▸ rfl) hne) And.left,
      fun he => .inr ⟨he, hne⟩⟩
  · rw [Function.update_of_ne hk]
    exact mem_without.trans (and_iff_left hne)

theorem mem_arm_self (h : TimerHead) (t : ν) (d : ℕ) (agenda : TimerHead → List (ν × ℕ)) :
    (t, d) ∈ arm h t d agenda h := by
  unfold arm
  rw [Function.update_self]
  exact mem_insert.mpr (.inl rfl)

theorem arm_cancel {h : TimerHead} {d : ℕ} : arm h t d (cancel t agenda) = arm h t d agenda := by
  unfold arm
  funext k
  rcases eq_or_ne k h with rfl | hk
  · rw [Function.update_self, Function.update_self]
    exact congrArg _ without_without
  · rw [Function.update_of_ne hk, Function.update_of_ne hk]
    exact without_without

theorem arm_arm {h : TimerHead} {d d' : ℕ} :
    arm h t d (arm h t d' agenda) = arm h t d agenda := by
  unfold arm cancel
  funext k
  rcases eq_or_ne k h with rfl | hk
  · rw [Function.update_self, Function.update_self, Function.update_self, without_insert,
      without_without]
  · rw [Function.update_of_ne hk, Function.update_of_ne hk, Function.update_of_ne hk]
    exact without_without

variable [Fintype ν]

/-- What `rt_timer_start` makes of the timer itself. -/
def started (now : ℕ) (x : Timer) : Timer :=
  { x with flag := { x.flag with activated := true },
           timeoutTick := BitVec.ofNat 32 (now + x.initTick.toNat) }

/-- **Starting a timer.** -/
theorem rtTimerStart_spec (H : s.Represents w now agenda)
    (hi : (s.timer t).initTick.toNat < (w (s.timer t).flag.head).span) :
    ∃ s', rtTimerStart t s = some s' ∧
      s'.Represents w now
        (arm (s.timer t).flag.head t (now + (s.timer t).initTick.toNat) agenda) ∧
      s'.timer = Function.update s.timer t (started now (s.timer t)) ∧ s'.rtTick = s.rtTick := by
  obtain ⟨x, hx⟩ : ∃ x, x = s.timer t := ⟨_, rfl⟩
  obtain ⟨h, hh⟩ : ∃ h, h = x.flag.head := ⟨_, rfl⟩
  rw [← hx] at hi ⊢
  rw [← hh] at hi ⊢
  have hspan := (w h).span_le
  have hnear := (w h).near
  have hoff := notMem_cancel t agenda
  let l := without t (agenda h)
  let d := now + x.initTick.toNat
  let row : Node TimerHead ν := last h (names (l.takeWhile fun e => e.2 ≤ d))
  -- the state in front of the walk
  let v : Timers ν :=
    set t { started now x with flag := { x.flag with activated := false } } (rtTimerRemove t s)
  have Hv : v.Represents w now (cancel t agenda) := (H.remove t).set hoff _
  have hfind : findRow h (BitVec.ofNat 32 d) v (Fintype.card ν + 1) (.head h) = some row := by
    have hcut : cancel t agenda h = [] ++ l := rfl
    refine findRow_spec Hv hcut (fun e he => ?_) ?_
    · have hw := Hv.window he
      constructor
      · omega
      · omega
    · have hlen := List.Nodup.length_le_card (Hv.nodup h)
      rw [names, List.length_map] at hlen
      exact Nat.lt_succ_of_le hlen
  have hlinks : (v.links.insertAfter row (.item t)).Holds fun k => names (arm h t d agenda k) := by
    have hins := Hv.links.insertAfter (h := h) (names_cut d l) hoff
    have hnames : Function.update (fun k => names (cancel t agenda k)) h
        (names (l.takeWhile fun e => e.2 ≤ d) ++ t :: names (l.dropWhile fun e => e.2 ≤ d)) =
        fun k => names (arm h t d agenda k) := by
      funext k
      unfold arm
      rcases eq_or_ne k h with rfl | hk
      · rw [Function.update_self, Function.update_self]
        exact names_insert.symm
      · rw [Function.update_of_ne hk, Function.update_of_ne hk]
    rwa [hnames] at hins
  have hstart : rtTimerStart t s =
      some (set t (started now x) { v with links := v.links.insertAfter row (.item t) }) := by
    have htimer : (setActivated t false (rtTimerRemove t s)).timer t =
        { x with flag := { x.flag with activated := false } } := by
      rw [setActivated, timer_set_self, hx]
      rfl
    have htick : s.rtTick + x.initTick = BitVec.ofNat 32 d := by
      rw [H.tick, BitVec.ofNat_add, BitVec.ofNat_toNat, BitVec.setWidth_eq]
    have hv : setTimeout t (BitVec.ofNat 32 d) (setActivated t false (rtTimerRemove t s)) = v := by
      rw [setTimeout, htimer, setActivated, set_set]
      rfl
    have hhead : (v.timer t).flag.head = h := by
      rw [timer_set_self, hh]
      rfl
    have hassert : x.initTick < rtTickMax / 2 := by
      rw [BitVec.lt_def, toNat_half]
      omega
    have htick' : (setActivated t false (rtTimerRemove t s)).rtTick + x.initTick =
        BitVec.ofNat 32 d := htick
    unfold rtTimerStart
    dsimp only
    rw [htimer]
    dsimp only
    rw [if_pos hassert, htick', hv, hhead, hfind, Option.map_some]
    show some (set t { v.timer t with flag := { (v.timer t).flag with activated := true } } _) = _
    rw [timer_set_self]
    rfl
  have htimer : (set t (started now x) { v with links := v.links.insertAfter row (.item t) }).timer =
      Function.update s.timer t (started now x) := by
    show Function.update (Function.update s.timer t _) t _ = _
    rw [Function.update_idem]
  refine ⟨_, hstart, ⟨H.tick, hlinks, fun k => ?_, fun {k e} he => ?_, fun {k e} he => ?_,
    fun {k e} he => ?_⟩, htimer, rfl⟩
  · unfold arm
    rcases eq_or_ne k h with rfl | hk
    · rw [Function.update_self]
      exact ordered_insert (ordered_without (H.ordered k))
    · rw [Function.update_of_ne hk]
      exact ordered_without (H.ordered k)
  · rw [htimer]
    rcases mem_arm he with ⟨rfl, rfl⟩ | ⟨he, hne⟩
    · rw [Function.update_self]
      rfl
    · rw [Function.update_of_ne hne]
      exact H.timeout he
  · rcases mem_arm he with ⟨rfl, rfl⟩ | ⟨he, -⟩
    · show now ≤ now + x.initTick.toNat + (w k).late ∧ now + x.initTick.toNat < now + (w k).span
      omega
    · exact H.window he
  · rw [htimer]
    rcases mem_arm he with ⟨rfl, rfl⟩ | ⟨he, hne⟩
    · rw [Function.update_self]
      exact hh.symm
    · rw [Function.update_of_ne hne]
      exact H.kind he


/-- The assertion of `rt_timer_start`. -/
theorem lt_of_rtTimerStart (h : rtTimerStart t s = some s') : (s.timer t).initTick.toNat < half := by
  have hlt : (s.timer t).initTick < rtTickMax / 2 := by
    by_contra hlt
    have hinit : ((setActivated t false (rtTimerRemove t s)).timer t).initTick =
        (s.timer t).initTick := by
      rw [setActivated, timer_set_self]
      rfl
    unfold rtTimerStart at h
    dsimp only at h
    rw [hinit, if_neg hlt] at h
    cases h
  rwa [BitVec.lt_def, toNat_half] at hlt

omit [Fintype ν] in
/-- A started timer is flagged, and the others are as before. -/
theorem Flagged.start {d : ℕ} (hf : t' ≠ t → Flagged agenda s t')
    (htimer : s'.timer = Function.update s.timer t (started now (s.timer t))) :
    Flagged (arm (s.timer t).flag.head t d agenda) s' t' := by
  rcases eq_or_ne t' t with rfl | hne
  · refine iff_of_true ?_ ⟨_, mem_names.mpr ⟨d, mem_arm_self _ _ _ _⟩⟩
    rw [htimer, Function.update_self]
    rfl
  · refine (hf hne).congr ?_ fun h d' => mem_arm_iff hne
    rw [htimer, Function.update_of_ne hne]

/-! ### Time -/

omit [DecidableEq ν] [Fintype ν] in
/-- **Expiry.**  What is compared with the tick at some time `c`, not long ago. -/
theorem Represents.timeout_iff {h : TimerHead} {e : ν × ℕ} {c : ℕ}
    (H : s.Represents w now agenda) (he : e ∈ agenda h) (hc : c ≤ now)
    (hc' : now ≤ c + (w h).late) :
    BitVec.ofNat 32 c - (s.timer e.1).timeoutTick < rtTickMax / 2 ↔ e.2 ≤ c := by
  have hw := H.window he
  have hnear := (w h).near
  have hlate := (w h).late_lt
  rw [H.timeout he]
  refine ofNat_sub_lt_iff ?_ ?_
  · omega
  · omega

omit [DecidableEq ν] [Fintype ν] in
/-- A tick passes, and no timer gets too late. -/
theorem Represents.next (H : s.Represents w now agenda)
    (hlate : ∀ h, ∀ e ∈ agenda h, now + 1 ≤ e.2 + (w h).late) :
    Represents w (now + 1) agenda { s with rtTick := s.rtTick + 1 } where
  tick := by
    show s.rtTick + 1 = _
    rw [H.tick, BitVec.ofNat_add]
    rfl
  links := H.links
  ordered := H.ordered
  timeout := H.timeout
  window he := ⟨hlate _ _ he, (H.window he).2.trans_le (by omega)⟩
  kind := H.kind

omit [DecidableEq ν] [Fintype ν] in
/-- The first timer of a list. -/
theorem Represents.next_head (H : s.Represents w now agenda) (h : TimerHead) :
    s.links.next (.head h) = first h (names (agenda h)) :=
  H.links.next_head h

/-! ### The loop of `rt_timer_check` -/

section Check

variable {timeoutFunc : ν → Timers ν × κ → Option (Timers ν × κ)} {fuel : ℕ}
  {J : Timers ν × κ → Prop} {σ σ' : Timers ν × κ}

theorem restart_rtTick (h : restart t s = some s') : s'.rtTick = s.rtTick := by
  unfold restart rtTimerStart at h
  dsimp only at h
  split_ifs at h
  · obtain ⟨row, -, rfl⟩ := Option.map_eq_some_iff.mp h
    rfl
  · obtain rfl := Option.some.inj h
    rfl

/-- **The loop of `rt_timer_check`.**  What each timeout function keeps, with what
follows it, the loop keeps; and it ends in front of a timer that is not due. -/
theorem rtTimerCheckLoop_invariant
    (hJ : ∀ t σ u s', J σ → σ.1.links.next (.head .timerList) = .item t →
      σ.1.rtTick - (σ.1.timer t).timeoutTick < rtTickMax / 2 →
      timeoutFunc t (rtTimerRemove t σ.1, σ.2) = some u → restart t u.1 = some s' → J (s', u.2))
    (h0 : J σ) (h : rtTimerCheckLoop timeoutFunc fuel σ.1.rtTick σ = some σ') :
    J σ' ∧ ∀ t, σ'.1.links.next (.head .timerList) = .item t →
      ¬ σ'.1.rtTick - (σ'.1.timer t).timeoutTick < rtTickMax / 2 := by
  induction fuel generalizing σ with
  | zero => cases h
  | succ fuel ih =>
      unfold rtTimerCheckLoop at h
      split at h
      · rename_i k hk
        obtain rfl := Option.some.inj h
        refine ⟨h0, fun t ht => ?_⟩
        rw [hk] at ht
        cases ht
      · rename_i t ht
        split_ifs at h with hdue
        · obtain ⟨u, hu, h⟩ := Option.bind_eq_some_iff.mp h
          obtain ⟨s', hs', h⟩ := Option.bind_eq_some_iff.mp h
          rw [← restart_rtTick hs'] at h
          exact ih (hJ t σ u s' h0 ht hdue hu hs') h
        · obtain rfl := Option.some.inj h
          refine ⟨h0, fun t' ht' => ?_⟩
          rw [ht] at ht'
          obtain rfl := Node.item.inj ht'
          exact hdue

end Check

end Timers

end DolphinNote
