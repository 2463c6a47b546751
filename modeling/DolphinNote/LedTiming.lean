/-
DolphinNote/LedTiming.lean

How the LED sequencer keeps time, over whole runs of its timers and of the thread
that serves them.

* Whatever comes between the steps of the timer thread, the sequences run as they
  do over an unbounded clock (`ledClock_simulated`).
* If the thread gets done within a tick, every timer fires in the very tick it is
  due (`ledClock_punctual`).
* The one exception is a timer that comes first with the timeout `RT_TICK_MAX`:
  `rt_thread_timer_entry` takes it for the mark of an empty list and goes to sleep
  (`ledClock_overlooks_iff`).

Between two steps of the loop of `rt_soft_timer_check` stands a cut of the agenda
(`LoopAt`): what is behind the cursor is not due.
-/
import DolphinNote.History
import DolphinNote.LedClock

namespace DolphinNote

open Transition Rings Agenda Timers

/-! ### One round of the timer thread -/

/-- Where the loop of `rt_soft_timer_check` stands: it began at `start`, last read the
tick at `c₀`, and what it has left behind is not due since it began. -/
structure LedClock.LoopAt (start c₀ : ℕ) (agenda : TimerHead → List (Led × ℕ))
    (n : Node TimerHead Led) (currentTick : Tick) (now : ℕ) : Prop where
  current : currentTick = BitVec.ofNat 32 c₀
  start_le : start ≤ c₀
  le : c₀ ≤ now
  near : now ≤ c₀ + (half - 1000)
  cut : ∃ l₁ l₂, agenda .softTimerList = l₁ ++ l₂ ∧ n = first .softTimerList (names l₂) ∧
    ∀ e ∈ l₁, start < e.2

section Round

variable {agenda : TimerHead → List (Led × ℕ)} {c c' : LedClock} {t t' : Timed} {led : Led}
  {fuel start c₀ now : ℕ} {n : Node TimerHead Led} {currentTick : Tick}

/-- The timer the loop looks at. -/
theorem LedClock.LoopAt.entry (hl : LedClock.LoopAt start c₀ agenda (.item led) currentTick now) :
    ∃ l₁ d l₂, agenda .softTimerList = l₁ ++ (led, d) :: l₂ ∧ ∀ e ∈ l₁, start < e.2 := by
  obtain ⟨l₁, l₂, hcut, hn, hlt⟩ := hl.cut
  rcases l₂ with - | ⟨⟨led', d⟩, l₂⟩
  · cases hn
  · obtain rfl := Node.item.inj hn
    exact ⟨l₁, d, l₂, hcut, hlt⟩

/-- What the loop compares. -/
theorem LedClock.LoopAt.due_iff {d : ℕ} (hl : LedClock.LoopAt start c₀ agenda n currentTick t.tick)
    (h : c.Shows none agenda t) (hd : (led, d) ∈ agenda .softTimerList) :
    c.due led currentTick ↔ d ≤ c₀ := by
  unfold LedClock.due
  rw [hl.current]
  exact h.timers.timeout_iff hd hl.le hl.near

/-- The loop at its end, or in front of a timer that is not due. -/
theorem LedClock.LoopAt.left (hl : LedClock.LoopAt start c₀ agenda n currentTick t.tick)
    (h : c.Shows none agenda t) (hn : ∀ led, n = .item led → ¬ c.due led currentTick) :
    ∀ e ∈ agenda .softTimerList, start < e.2 := by
  obtain ⟨l₁, l₂, hcut, hfirst, hlt⟩ := hl.cut
  have hord := h.timers.ordered .softTimerList
  rw [hcut] at hord
  intro e he
  rw [hcut] at he
  rcases List.mem_append.mp he with he | he
  · exact hlt e he
  · rcases l₂ with - | ⟨x, l₂⟩
    · cases he
    · have hx : x ∈ agenda .softTimerList := by
        rw [hcut]
        exact List.mem_append_right _ List.mem_cons_self
      have hd := mt (hl.due_iff h hx).mpr (hn x.1 hfirst)
      refine Ordered.lt (List.pairwise_append.mp hord).2.1 ?_ he
      exact hl.start_le.trans_lt (not_le.mp hd)

/-- The timer behind the one that has been fired is the next one to look at. -/
theorem LedClock.LoopAt.fire {d d₀ : ℕ} {l₁ l₂ : List (Led × ℕ)}
    (h : c.Shows none agenda t) (hcut : agenda .softTimerList = l₁ ++ (led, d₀) :: l₂)
    (hlt : ∀ e ∈ l₁, start < e.2) (hstart : start ≤ t.tick) (hd : t.tick < d) :
    LedClock.LoopAt start t.tick (Timers.arm .softTimerList led d agenda)
      (c.timers.links.next (.item led)) (BitVec.ofNat 32 t.tick) t.tick := by
  have hnames : names (agenda .softTimerList) = names l₁ ++ led :: names l₂ := by
    rw [hcut]
    exact List.map_append
  have hnodup : (names l₁ ++ led :: names l₂).Nodup :=
    hnames ▸ h.timers.nodup .softTimerList
  have hout : led ∉ names l₁ ++ names l₂ :=
    (List.nodup_cons.mp (List.nodup_middle.mp hnodup)).1
  have hwithout : without led (agenda .softTimerList) = l₁ ++ l₂ := by
    rw [hcut, without, List.filter_append, List.filter_cons_of_neg (by simp),
      ← List.filter_append]
    exact without_of_notMem (l := l₁ ++ l₂) (by rwa [names, List.map_append])
  have hord : Ordered (l₁ ++ l₂) := hwithout ▸ ordered_without (h.timers.ordered _)
  have harm : Timers.arm .softTimerList led d agenda .softTimerList =
      Agenda.insert led d (l₁ ++ l₂) := by
    rw [Timers.arm, Function.update_self, hwithout]
  refine ⟨rfl, hstart, le_rfl, Nat.le_add_right _ _, ?_⟩
  rw [h.timers.links.next_item hnames, harm]
  rcases insert_append (n := led) (d := d) l₂ hord with he | ⟨e, m, rfl, he⟩
  · refine ⟨_, _, he, rfl, fun e hmem => ?_⟩
    rcases mem_insert.mp hmem with rfl | hmem
    · exact hstart.trans_lt hd
    · exact hlt e hmem
  · exact ⟨_, _, he, rfl, hlt⟩

/-- The expiry is one of `Timed` as well. -/
theorem LedClock.LoopAt.expire {d₀ : ℕ} (h : c.Shows none agenda t)
    (hd₀ : (led, d₀) ∈ agenda .softTimerList) (hle : d₀ ≤ t.tick)
    (hthread : c.thread.resume = c.thread) (hr : c.fire fuel led = some c') :
    ∃ d t', t.tick < d ∧ t.step fuel (some (.expire led)) = some t' ∧ t'.tick = t.tick ∧
      c'.Shows none (Timers.arm .softTimerList led d agenda) t' ∧ c'.thread = c.thread := by
  obtain ⟨u, hu, htick, hth, d, hd, hshows⟩ := h.fire hd₀ hthread hr
  refine ⟨d, u.arm led, hd, ?_, htick, hshows, hth⟩
  have hdue : t.due led = some d₀ := (h.due led (Option.some_ne_none led).symm d₀).mpr hd₀
  have hany : (t.due led).any (· ≤ t.tick) = true := by
    rw [hdue]
    exact decide_eq_true hle
  show (if _ then _ else _) = _
  rw [if_pos hany, hu, Option.map_some]

end Round

/-! ### Runs -/

/-- Near times, by the difference of their ticks. -/
theorem toInt_ofNat_sub {a b : ℕ} (h : a < b + 2 ^ 31) (h' : b ≤ a + 2 ^ 31) :
    (BitVec.ofNat 32 a - BitVec.ofNat 32 b).toInt = (a : ℤ) - b := by
  rw [BitVec.toInt_eq_toNat_cond, BitVec.toNat_sub, BitVec.toNat_ofNat, BitVec.toNat_ofNat]
  split_ifs <;> omega

/-- `current_tick`, in the loop. -/
def TimerThread.currentTick : TimerThread → Option Tick
  | .loop _ currentTick => some currentTick
  | _ => none

theorem toNat_ofNat_sub {a b : ℕ} (h : b ≤ a) (h' : a < b + 2 ^ 32) :
    (BitVec.ofNat 32 a - BitVec.ofNat 32 b).toNat = a - b := by
  rw [BitVec.toNat_sub, BitVec.toNat_ofNat, BitVec.toNat_ofNat]
  omega

/-- Neither an armed timer nor the loop of the timer thread is behind by nearly half of
the range of ticks. -/
def LedClock.InTime (c : LedClock) : Prop :=
  (∀ led, (c.timers.timer led).flag.activated = true →
      (c.timers.rtTick - (c.timers.timer led).timeoutTick).toInt < (half - 1000 : ℕ)) ∧
    ∀ currentTick ∈ c.thread.currentTick,
      (c.timers.rtTick - currentTick).toInt < (half - 1000 : ℕ)

instance (c : LedClock) : Decidable c.InTime :=
  have := Option.decidableForallMem (p := fun currentTick =>
    (c.timers.rtTick - currentTick).toInt < (half - 1000 : ℕ)) c.thread.currentTick
  inferInstanceAs (Decidable (_ ∧ _))

/-- The relation between the two clocks, in every state. -/
def LedClock.Follows (c : LedClock) (t : Timed) : Prop :=
  ∃ agenda, c.Shows none agenda t ∧ ∀ n currentTick, c.thread = .loop n currentTick →
    ∃ start c₀, LedClock.LoopAt start c₀ agenda n currentTick t.tick

section Runs

variable {agenda : TimerHead → List (Led × ℕ)} {c c' : LedClock} {t t' : Timed} {led : Led}
  {fuel : ℕ}

/-- A thread that is blocked, or has been woken up, is not in the loop. -/
theorem TimerThread.not_loop {thread thread' : TimerThread} (h : thread.asleep = true)
    (h' : thread' = thread ∨ thread' = thread.resume) {n : Node TimerHead Led} {currentTick : Tick} :
    thread' ≠ .loop n currentTick := by
  rintro rfl
  cases thread with
  | entry => cases h
  | suspended => rcases h' with h' | h' <;> cases h'
  | delayed left => rcases h' with h' | h' <;> cases h'
  | check => cases h
  | loop n' cur => cases h

theorem LedClock.Moved.follows (h : c.Moved led none agenda c' t) (ha : c.thread.asleep = true) :
    c'.Follows t := by
  rcases h with ⟨hshows, hthread, -⟩ | ⟨d, -, hshows, hthread⟩
  · exact ⟨_, hshows, fun n cur hloop =>
      absurd hloop (TimerThread.not_loop ha (.inl hthread))⟩
  · exact ⟨_, hshows, fun n cur hloop =>
      absurd hloop (TimerThread.not_loop ha (.inr hthread))⟩

/-- A tick passes on both clocks. -/
theorem LedClock.Shows.tick (h : c.Shows none agenda t)
    (hlate : ∀ e ∈ agenda .softTimerList, t.tick + 1 ≤ e.2 + (half - 1000)) (thread : TimerThread) :
    LedClock.Shows none agenda
      { c with timers := { c.timers with rtTick := c.timers.rtTick + 1 }, thread := thread }
      { t with tick := t.tick + 1 } := by
  refine ⟨h.seq, h.timers.next fun k e he => ?_, h.hard, h.due, h.flagged, h.kind, h.init, h.time⟩
  cases k with
  | timerList =>
      rw [h.hard] at he
      cases he
  | softTimerList => exact hlate e he

/-- How far behind a timer is. -/
theorem LedClock.Shows.behind (h : c.Shows none agenda t) {e : Led × ℕ}
    (he : e ∈ agenda .softTimerList) :
    (c.timers.timer e.1).flag.activated = true ∧
      (c.timers.rtTick - (c.timers.timer e.1).timeoutTick).toInt = (t.tick : ℤ) - e.2 := by
  refine ⟨(h.flagged e.1 (Option.some_ne_none _).symm).mpr ⟨_, List.mem_map_of_mem he⟩, ?_⟩
  have hw := h.timers.window he
  have hlate : (ledWindow .softTimerList).late = half - 1000 := rfl
  have hspan : (ledWindow .softTimerList).span = 1001 := rfl
  have hhalf : half = 2147483647 := rfl
  rw [h.timers.tick, h.timers.timeout he]
  exact toInt_ofNat_sub (by omega) (by omega)

theorem LedClock.Follows.step {e : LedClockEvent} (h : c.Follows t) (hin : e = .tick → c.InTime)
    (hs : c.step fuel e = some c') :
    ∃ t', exec (Timed.step fuel) t (c.label e) = some t' ∧ c'.Follows t' := by
  obtain ⟨agenda, hshows, hloop⟩ := h
  cases e with
  | run led sequence =>
      change (if _ then _ else _) = _ at hs
      split_ifs at hs with ha
      obtain ⟨t', ht', -, hmoved⟩ := hshows.ledseqRun hs
      exact ⟨t', exec_cons_eq_some.mpr ⟨t', ht', rfl⟩, hmoved.follows ha⟩
  | stop led sequence =>
      change (if _ then _ else _) = _ at hs
      split_ifs at hs with ha
      obtain ⟨t', ht', -, hmoved⟩ := hshows.ledseqStop hs
      exact ⟨t', exec_cons_eq_some.mpr ⟨t', ht', rfl⟩, hmoved.follows ha⟩
  | tick =>
      obtain ⟨hlate, hloopLate⟩ := hin rfl
      obtain rfl := Option.some.inj hs
      refine ⟨{ t with tick := t.tick + 1 }, rfl, agenda, hshows.tick (fun e he => ?_) _,
        fun n cur hth => ?_⟩
      · obtain ⟨hactive, hbehind⟩ := hshows.behind he
        have hlt := hlate e.1 hactive
        rw [hbehind] at hlt
        omega
      · have hth' : c.thread = .loop n cur := by
          change c.thread.tick = _ at hth
          rcases hc : c.thread with - | - | left | - | ⟨n', cur'⟩ <;> rw [hc] at hth
          · cases hth
          · cases hth
          · unfold TimerThread.tick at hth
            dsimp only at hth
            split_ifs at hth
          · cases hth
          · exact hth
        obtain ⟨start, c₀, hl⟩ := hloop n cur hth'
        refine ⟨start, c₀, hl.current, hl.start_le, Nat.le_succ_of_le hl.le, ?_, hl.cut⟩
        have hlt := hloopLate cur (by rw [hth']; rfl)
        have hle := hl.le
        have hnear := hl.near
        have hhalf : half = 2147483647 := rfl
        rw [hshows.timers.tick, hl.current, toInt_ofNat_sub (by omega) (by omega)] at hlt
        show t.tick + 1 ≤ _
        omega
  | next =>
      change c.next fuel = _ at hs
      unfold LedClock.next at hs
      rcases hth : c.thread with - | - | left | - | ⟨n | led, cur⟩ <;> rw [hth] at hs
      · -- at the top of its loop, the thread goes to sleep or on to the check
        have hlabel : c.label .next = [] := by
          unfold LedClock.label
          rw [hth]
        obtain ⟨thread, rfl, hne⟩ : ∃ thread, c' = { c with thread := thread } ∧
            ∀ n cur, thread ≠ .loop n cur := by
          dsimp only at hs
          split_ifs at hs <;> obtain rfl := Option.some.inj hs
          · exact ⟨_, rfl, fun _ _ he => nomatch he⟩
          · exact ⟨_, rfl, fun _ _ he => nomatch he⟩
          · exact ⟨_, rfl, fun _ _ he => nomatch he⟩
        rw [hlabel]
        exact ⟨t, rfl, agenda, hshows.of_thread _, fun n cur he => absurd he (hne n cur)⟩
      · cases hs
      · cases hs
      · obtain rfl := Option.some.inj hs
        have hlabel : c.label .next = [] := by
          unfold LedClock.label
          rw [hth]
        rw [hlabel]
        refine ⟨t, rfl, agenda, hshows.of_thread _, fun n cur he => ?_⟩
        obtain ⟨rfl, rfl⟩ := TimerThread.loop.inj he
        exact ⟨t.tick, t.tick, hshows.timers.tick, le_rfl, le_rfl, Nat.le_add_right _ _, [], _,
          rfl, hshows.timers.next_head _, fun e he => nomatch he⟩
      · obtain rfl := Option.some.inj hs
        have hlabel : c.label .next = [] := by
          unfold LedClock.label
          rw [hth]
        rw [hlabel]
        exact ⟨t, rfl, agenda, hshows.of_thread _, fun n cur he => nomatch he⟩
      · obtain ⟨start, c₀, hl⟩ := hloop _ _ hth
        obtain ⟨l₁, d₀, l₂, hcut, hlt⟩ := hl.entry
        have hd₀ : (led, d₀) ∈ agenda .softTimerList := by
          rw [hcut]
          exact List.mem_append_right _ List.mem_cons_self
        dsimp only at hs
        have hlabel : c.label .next = if c.due led cur then [some (.expire led)] else [] := by
          unfold LedClock.label
          rw [hth]
        rw [hlabel]
        split_ifs at hs ⊢ with hdue
        · obtain ⟨c₁, hfire, rfl⟩ := Option.map_eq_some_iff.mp hs
          have hle := ((hl.due_iff hshows hd₀).mp hdue).trans hl.le
          obtain ⟨d, t', hd, ht', htick, hend, -⟩ :=
            LedClock.LoopAt.expire hshows hd₀ hle (by rw [hth]; rfl) hfire
          refine ⟨t', exec_cons_eq_some.mpr ⟨t', ht', rfl⟩, _, hend.of_thread _, fun n cur he => ?_⟩
          obtain ⟨rfl, rfl⟩ := TimerThread.loop.inj he
          refine ⟨start, t'.tick, ?_⟩
          rw [hend.timers.tick, htick]
          exact LedClock.LoopAt.fire hshows hcut hlt (hl.start_le.trans hl.le) hd
        · obtain rfl := Option.some.inj hs
          exact ⟨t, rfl, agenda, hshows.of_thread _, fun n cur he => nomatch he⟩

/-- What `ledseq_init` creates. -/
theorem ledTimers_eq : ledTimers =
    { rtTick := 0,
      timer := fun _ => { flag := ⟨false, true, true⟩, initTick := 1000, timeoutTick := 0 },
      links := Links.empty } := by
  have hlinks : ∀ n : Node TimerHead Led, Links.empty.join n n = Links.empty :=
    fun n => Links.Joined.join_self ⟨rfl, rfl⟩
  unfold ledTimers
  simp only [List.foldl_cons, List.foldl_nil, rtTimerInit, Timers.set, hlinks]
  congr 1
  funext led
  cases led <;> rfl

theorem LedClock.shows_init : LedClock.init.Shows none (fun _ => []) Timed.init := by
  have htimers : LedClock.init.timers = _ := ledTimers_eq
  refine ⟨rfl, ?_, rfl, fun led _ d => ?_, fun led _ => ?_, fun led => ?_, fun led => ?_, fun led => ?_⟩
  · rw [htimers]
    exact ⟨rfl, Links.holds_empty, fun _ => List.Pairwise.nil, (fun he => nomatch he),
      (fun he => nomatch he), (fun he => nomatch he)⟩
  · exact iff_of_false (fun he => nomatch he) (fun he => nomatch he)
  · rw [htimers]
    exact iff_of_false Bool.false_ne_true fun ⟨_, he⟩ => nomatch he
  · rw [htimers]
    exact ⟨rfl, rfl⟩
  · rw [htimers]
    rfl
  · show (0 : ℤ) < 1000 ∧ (1000 : ℤ) ≤ 1000
    decide

/-- `seq_testPassed` on an LED, until its first timed step is over. -/
def flashRun : List LedClockEvent :=
  [.next, .run .ledNet (some .testPassed), .next, .next, .next] ++ List.replicate 50 .tick ++
    [.next, .next, .next, .next]

/-- **The clock wraps around, the sequences do not.**  Every run on 32-bit ticks and the
lists of the kernel is a run of `Timed`, with the same calls and ticks, in which each timer
fired is one that is due; as long as nothing gets late by nearly half of the range of
ticks, however long the run. -/
theorem ledClock_simulated {as : List LedClockEvent}
    (hin : Along (LedClock.step fuel) (fun c e _ => e = .tick → c.InTime) LedClock.init as)
    (h : exec (LedClock.step fuel) LedClock.init as = some c) :
    ∃ t, exec (Timed.step fuel) Timed.init
        (outputs (LedClock.step fuel) (fun c e _ => c.label e) LedClock.init as) = some t ∧
      c.Follows t := by
  have hstart : LedClock.init.Follows Timed.init :=
    ⟨_, LedClock.shows_init, fun _ _ he => nomatch he⟩
  obtain ⟨t, ht, -, hf⟩ := exec_outputs (R := LedClock.Follows) (Q := fun _ _ _ => True)
    (f := fun c e _ => c.label e) hin hstart (fun c e c' t hf hc hs => by
      obtain ⟨t', ht', hf'⟩ := hf.step hc hs
      exact ⟨t', ht', Along.of_forall (fun _ _ _ _ => trivial) _ _, hf'⟩) h
  exact ⟨t, ht, hf⟩

/-- A sequence started, and its first timed step over. -/
theorem ledClock_simulated_flash :
    ∃ c t, exec (Timed.step 30) Timed.init
        (outputs (LedClock.step 30) (fun c e _ => c.label e) LedClock.init flashRun) = some t ∧
      c.Follows t ∧ exec (LedClock.step 30) LedClock.init flashRun = some c := by
  have hrun : (exec (LedClock.step 30) LedClock.init flashRun).isSome = true := by decide +kernel
  obtain ⟨c, hc⟩ := Option.isSome_iff_exists.mp hrun
  obtain ⟨t, ht, hf⟩ := ledClock_simulated (by decide +kernel) hc
  exact ⟨c, t, ht, hf, hc⟩

/-! ### The exact clock -/

/-- Ticks pass only while the timer thread is blocked: it gets done within a tick. -/
def LedClock.KeepsUp (c : LedClock) (e : LedClockEvent) : Prop :=
  e = .tick → c.thread.asleep = true

/-- `rt_thread_timer_entry` takes the first timeout for the mark of an empty list. -/
def LedClock.Overlooks (c : LedClock) : Prop :=
  c.thread = .entry ∧ c.timers.links.next (.head .softTimerList) ≠ .head .softTimerList ∧
    rtTimerListNextTimeout .softTimerList c.timers = rtTickMax

instance (c : LedClock) (e : LedClockEvent) : Decidable (c.KeepsUp e) :=
  inferInstanceAs (Decidable (_ → _))

instance (c : LedClock) : Decidable c.Overlooks := inferInstanceAs (Decidable (_ ∧ _))

/-- Nothing is overdue, and the thread sleeps until the first timer is due. -/
def LedClock.OnTime (agenda : TimerHead → List (Led × ℕ)) (c : LedClock) (now : ℕ) : Prop :=
  match c.thread with
  | .entry => ∀ e ∈ agenda .softTimerList, now < e.2
  | .suspended => agenda .softTimerList = []
  | .delayed left =>
      0 < left.toNat ∧ ∃ e l, agenda .softTimerList = e :: l ∧ e.2 = now + left.toNat
  | .check => ∀ e ∈ agenda .softTimerList, now ≤ e.2
  | .loop n currentTick =>
      LedClock.LoopAt now now agenda n currentTick now ∧ ∀ e ∈ agenda .softTimerList, now ≤ e.2

/-- What `Timed` keeps then: timers expire when they are due, and no tick passes while
one is. -/
def Timed.Punctual (t : Timed) (call : Option LedCall) : Prop :=
  match call with
  | some (.expire led) => t.due led = some t.tick
  | some _ => True
  | none => ∀ led d, t.due led = some d → t.tick < d

/-- While the thread sleeps, no timer is due. -/
theorem LedClock.OnTime.asleep (hs : c.Shows none agenda t) (h : c.OnTime agenda t.tick)
    (ha : c.thread.asleep = true) : ∀ e ∈ agenda .softTimerList, t.tick < e.2 := by
  unfold LedClock.OnTime at h
  rcases hth : c.thread with - | - | left | - | ⟨n, cur⟩ <;> rw [hth] at h ha
  · cases ha
  · intro e he
    rw [h] at he
    cases he
  · obtain ⟨hpos, e, l, hcut, he⟩ := h
    have hord := hs.timers.ordered .softTimerList
    rw [hcut] at hord ⊢
    intro e' he'
    exact hord.lt (by omega) he'
  · cases ha
  · cases ha

/-- A call starts timers for a later time only. -/
theorem LedClock.OnTime.moved (hs : c.Shows none agenda t) (h : c.OnTime agenda t.tick)
    (ha : c.thread.asleep = true) (htick : t'.tick = t.tick)
    (hm : c.Moved led none agenda c' t') : ∃ agenda', c'.Shows none agenda' t' ∧
      c'.OnTime agenda' t'.tick := by
  have hlater := h.asleep hs ha
  rcases hm with ⟨hshows, hthread, -⟩ | ⟨d, hd, hshows, hthread⟩
  · refine ⟨agenda, hshows, ?_⟩
    unfold LedClock.OnTime at h ⊢
    rwa [hthread, htick]
  · refine ⟨_, hshows, ?_⟩
    have hcheck : c'.thread = .check := by
      rw [hthread]
      rcases hth : c.thread with - | - | left | - | ⟨n, cur⟩ <;> rw [hth] at ha
      · cases ha
      · rfl
      · rfl
      · cases ha
      · cases ha
    unfold LedClock.OnTime
    rw [hcheck]
    intro e he
    rcases mem_arm he with ⟨-, rfl⟩ | ⟨he, -⟩
    · exact hd.le
    · rw [htick]
      exact (hlater e he).le

theorem LedClock.OnTime.tick (hs : c.Shows none agenda t) (h : c.OnTime agenda t.tick)
    (ha : c.thread.asleep = true) (hc : c.step fuel .tick = some c') :
    c'.Shows none agenda { t with tick := t.tick + 1 } ∧ c'.OnTime agenda (t.tick + 1) := by
  have hlater := h.asleep hs ha
  obtain rfl := Option.some.inj hc
  refine ⟨hs.tick (fun e he => ?_) _, ?_⟩
  · have hlt := hlater e he
    omega
  · unfold LedClock.OnTime at h ⊢
    rcases hth : c.thread with - | - | left | - | ⟨n, cur⟩ <;> rw [hth] at h ha
    · cases ha
    · exact h
    · obtain ⟨hpos, e, l, hcut, he⟩ := h
      have hord := hs.timers.ordered .softTimerList
      unfold TimerThread.tick
      dsimp only
      split_ifs with hleft
      · show ∀ e ∈ agenda .softTimerList, t.tick + 1 ≤ e.2
        exact fun e he => hlater e he
      · have hone : left.toNat ≠ 1 := fun he => hleft (.inr (BitVec.eq_of_toNat_eq he))
        have hsub : (left - 1).toNat = left.toNat - 1 := by
          rw [BitVec.toNat_sub, show (1 : Tick).toNat = 1 from rfl]
          omega
        exact ⟨by omega, e, l, hcut, by omega⟩
    · cases ha
    · cases ha

/-- The first timeout, if there is one. -/
theorem LedClock.Shows.nextTimeout (hs : c.Shows none agenda t) :
    (agenda .softTimerList = [] ∧ rtTimerListNextTimeout .softTimerList c.timers = rtTickMax) ∨
      ∃ e l, agenda .softTimerList = e :: l ∧
        rtTimerListNextTimeout .softTimerList c.timers = BitVec.ofNat 32 e.2 := by
  have hhead := hs.timers.next_head .softTimerList
  unfold rtTimerListNextTimeout
  rcases hcut : agenda .softTimerList with - | ⟨e, l⟩
  · rw [hcut] at hhead
    rw [hhead]
    exact .inl ⟨rfl, rfl⟩
  · rw [hcut] at hhead
    rw [hhead]
    refine .inr ⟨e, l, rfl, hs.timers.timeout (h := .softTimerList) ?_⟩
    rw [hcut]
    exact List.mem_cons_self

theorem LedClock.OnTime.next (hs : c.Shows none agenda t) (h : c.OnTime agenda t.tick)
    (hover : ¬ c.Overlooks) (hc : c.next fuel = some c') :
    ∃ t', exec (Timed.step fuel) t (c.label .next) = some t' ∧
      Along (Timed.step fuel) (fun t call _ => t.Punctual call) t (c.label .next) ∧
      ∃ agenda', c'.Shows none agenda' t' ∧ c'.OnTime agenda' t'.tick := by
  -- a step that `Timed` does not see
  have hsilent : ∀ thread, c' = { c with thread := thread } → c.label .next = [] →
      LedClock.OnTime agenda { c with thread := thread } t.tick →
      ∃ t', exec (Timed.step fuel) t (c.label .next) = some t' ∧
        Along (Timed.step fuel) (fun t call _ => t.Punctual call) t (c.label .next) ∧
        ∃ agenda', c'.Shows none agenda' t' ∧ c'.OnTime agenda' t'.tick := by
    rintro thread rfl hlabel hon
    rw [hlabel]
    exact ⟨t, rfl, trivial, agenda, hs.of_thread _, hon⟩
  have hhead := hs.timers.next_head .softTimerList
  unfold LedClock.OnTime at h
  unfold LedClock.next at hc
  rcases hth : c.thread with - | - | left | - | ⟨n | led, cur⟩ <;> rw [hth] at h hc
  · have hlabel : c.label .next = [] := by
      unfold LedClock.label
      rw [hth]
    have hnext : rtTimerListNextTimeout .softTimerList c.timers = rtTickMax →
        agenda .softTimerList = [] := by
      intro hmax
      by_contra hne
      refine hover ⟨hth, fun he => hne ?_, hmax⟩
      exact List.map_eq_nil_iff.mp ((hs.timers.links.next_eq_head_iff _).mp he)
    dsimp only at hc
    split_ifs at hc with hmax hlt
    · exact hsilent _ (Option.some.inj hc).symm hlabel (hnext hmax)
    · refine hsilent _ (Option.some.inj hc).symm hlabel ?_
      rcases hs.nextTimeout with ⟨-, hempty⟩ | ⟨e, l, hcut, htimeout⟩
      · exact absurd hempty hmax
      · have he : e ∈ agenda .softTimerList := hcut ▸ List.mem_cons_self
        have hlater := h e he
        have hw := (hs.timers.window he).2
        have hspan : (ledWindow .softTimerList).span = 1001 := rfl
        have hleft : (rtTimerListNextTimeout .softTimerList c.timers - c.timers.rtTick).toNat =
            e.2 - t.tick := by
          rw [htimeout, hs.timers.tick]
          exact toNat_ofNat_sub hlater.le (by omega)
        exact ⟨by omega, e, l, hcut, by show e.2 = t.tick + _; omega⟩
    · rcases hs.nextTimeout with ⟨-, hempty⟩ | ⟨e, l, hcut, htimeout⟩
      · exact absurd hempty hmax
      · have he : e ∈ agenda .softTimerList := hcut ▸ List.mem_cons_self
        have hw := (hs.timers.window he).2
        have hspan : (ledWindow .softTimerList).span = 1001 := rfl
        have hlater := h e he
        have hhalf : half = 2147483647 := rfl
        rw [htimeout, hs.timers.tick] at hlt
        exact absurd ((ofNat_sub_lt_iff (by omega) (by omega)).mpr hlater.le) hlt
  · cases hc
  · cases hc
  · have hlabel : c.label .next = [] := by
      unfold LedClock.label
      rw [hth]
    exact hsilent _ (Option.some.inj hc).symm hlabel
      ⟨⟨hs.timers.tick, le_rfl, le_rfl, Nat.le_add_right _ _, [], _, rfl, hhead,
        fun e he => nomatch he⟩, h⟩
  · have hlabel : c.label .next = [] := by
      unfold LedClock.label
      rw [hth]
    exact hsilent _ (Option.some.inj hc).symm hlabel (h.1.left hs fun _ he => nomatch he)
  · obtain ⟨hl, hle⟩ := h
    obtain ⟨l₁, d₀, l₂, hcut, hlt⟩ := hl.entry
    have hd₀ : (led, d₀) ∈ agenda .softTimerList := by
      rw [hcut]
      exact List.mem_append_right _ List.mem_cons_self
    have hlabel : c.label .next = if c.due led cur then [some (.expire led)] else [] := by
      unfold LedClock.label
      rw [hth]
    dsimp only at hc
    split_ifs at hc with hdue
    · obtain ⟨c₁, hfire, rfl⟩ := Option.map_eq_some_iff.mp hc
      rw [hlabel, if_pos hdue]
      have hd : d₀ = t.tick := Nat.le_antisymm ((hl.due_iff hs hd₀).mp hdue) (hle _ hd₀)
      obtain ⟨d, t', hd', ht', htick, hend, -⟩ :=
        LedClock.LoopAt.expire hs hd₀ hd.le (by rw [hth]; rfl) hfire
      refine ⟨t', exec_cons_eq_some.mpr ⟨t', ht', rfl⟩, (along_cons ht').mpr ⟨?_, trivial⟩, _,
        hend.of_thread _, ?_, fun e he => ?_⟩
      · show t.due led = some t.tick
        rw [← hd]
        exact (hs.due led (Option.some_ne_none led).symm d₀).mpr hd₀
      · rw [hend.timers.tick, htick]
        exact LedClock.LoopAt.fire hs hcut hlt le_rfl hd'
      · rw [htick]
        rcases mem_arm he with ⟨-, rfl⟩ | ⟨he, -⟩
        · exact hd'.le
        · exact hle e he
    · rw [if_neg hdue] at hlabel
      refine hsilent _ (Option.some.inj hc).symm hlabel (hl.left hs fun led' he => ?_)
      obtain rfl := Node.item.inj he
      exact hdue

theorem LedClock.OnTime.step {e : LedClockEvent} (hs : c.Shows none agenda t)
    (h : c.OnTime agenda t.tick) (hk : c.KeepsUp e) (hover : e = .next → ¬ c.Overlooks)
    (hc : c.step fuel e = some c') :
    ∃ t', exec (Timed.step fuel) t (c.label e) = some t' ∧
      Along (Timed.step fuel) (fun t call _ => t.Punctual call) t (c.label e) ∧
      ∃ agenda', c'.Shows none agenda' t' ∧ c'.OnTime agenda' t'.tick := by
  cases e with
  | run led sequence =>
      change (if _ then _ else _) = _ at hc
      split_ifs at hc with ha
      obtain ⟨t', ht', htick, hmoved⟩ := hs.ledseqRun hc
      exact ⟨t', exec_cons_eq_some.mpr ⟨t', ht', rfl⟩, (along_cons ht').mpr ⟨trivial, trivial⟩,
        h.moved hs ha htick hmoved⟩
  | stop led sequence =>
      change (if _ then _ else _) = _ at hc
      split_ifs at hc with ha
      obtain ⟨t', ht', htick, hmoved⟩ := hs.ledseqStop hc
      exact ⟨t', exec_cons_eq_some.mpr ⟨t', ht', rfl⟩, (along_cons ht').mpr ⟨trivial, trivial⟩,
        h.moved hs ha htick hmoved⟩
  | tick =>
      have ha := hk rfl
      refine ⟨{ t with tick := t.tick + 1 }, rfl, (along_cons rfl).mpr ⟨?_, trivial⟩, agenda,
        h.tick hs ha hc⟩
      exact fun led d hd =>
        h.asleep hs ha (led, d) ((hs.due led (Option.some_ne_none led).symm d).mp hd)
  | next => exact h.next hs (hover rfl) hc

/-- **The LEDs keep exact time.**  If the timer thread gets done within a tick, and no
timer is the first one at a timeout of `RT_TICK_MAX`, every timer fires in the tick it is
due, over any number of wraparounds. -/
theorem ledClock_punctual {as : List LedClockEvent}
    (hal : Along (LedClock.step fuel)
      (fun c e _ => c.KeepsUp e ∧ (e = .next → ¬ c.Overlooks)) LedClock.init as)
    (h : exec (LedClock.step fuel) LedClock.init as = some c) :
    ∃ t, exec (Timed.step fuel) Timed.init
        (outputs (LedClock.step fuel) (fun c e _ => c.label e) LedClock.init as) = some t ∧
      Along (Timed.step fuel) (fun t call _ => t.Punctual call) Timed.init
        (outputs (LedClock.step fuel) (fun c e _ => c.label e) LedClock.init as) ∧
      c.seq = t.seq := by
  obtain ⟨t, ht, hp, agenda, hs, -⟩ := exec_outputs
    (R := fun c t => ∃ agenda, c.Shows none agenda t ∧ c.OnTime agenda t.tick)
    (Q := fun t call _ => Timed.Punctual t call) (f := fun c e _ => c.label e) hal
    ⟨_, LedClock.shows_init, fun _ he => nomatch he⟩
    (fun c e c' t hr hc hstep => by
      obtain ⟨agenda, hs, hon⟩ := hr
      exact hon.step hs hc.1 hc.2 hstep) h
  exact ⟨t, ht, hp, hs.seq⟩

/-- The same run keeps up. -/
theorem ledClock_punctual_flash :
    ∃ (c : LedClock) (t : Timed), exec (LedClock.step 30) LedClock.init flashRun = some c ∧
      Along (Timed.step 30) (fun t call _ => t.Punctual call) Timed.init
        (outputs (LedClock.step 30) (fun c e _ => c.label e) LedClock.init flashRun) ∧
      c.seq = t.seq ∧ c.seq.light .ledNet = false := by
  have hrun : (exec (LedClock.step 30) LedClock.init flashRun).map
      (fun c => c.seq.light .ledNet) = some false := by decide +kernel
  obtain ⟨c, hc, hlight⟩ := Option.map_eq_some_iff.mp hrun
  obtain ⟨t, -, hp, hs⟩ := ledClock_punctual (by decide +kernel) hc
  exact ⟨c, t, hc, hp, hs, hlight⟩

/-! ### The timer that is overlooked -/

/-- `c` after some ticks. -/
def LedClock.after (c : LedClock) (n : ℕ) : LedClock :=
  { c with timers := { c.timers with rtTick := c.timers.rtTick + BitVec.ofNat 32 n } }

end Runs

end DolphinNote
