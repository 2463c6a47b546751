/-
DolphinNote/CleanStart.lean

The phone receiver across mode switches.  Its statics survive the AT mode, so
what it has collected when `socket_start` is cleared is still there when it is
set again, and is taken for the beginning of the next frame.

Over a whole run of the board, mode switches included, the receiver is the phone
framer fed with the bytes of the socket mode (`board_feed`).  So a switch to the
socket mode makes a clean start exactly if nothing was being collected
(`starts_clean_iff`).
-/
import DolphinNote.History
import DolphinNote.Refinement

namespace DolphinNote

open Transition Traced

/-! ### Bytes and frames of a run -/

/-- The byte the step receives in the socket mode. -/
def arrived (b : Board) (e : BoardEvent) (_ : Board) : List UInt8 :=
  match e with
  | .irq .usart2 x => if b.sys.socketStart = 1 then x.rx.toList else []
  | _ => []

/-- The frame the step hands to `wifi_data_deal`. -/
def dispatched (b : Board) (e : BoardEvent) (_ : Board) : List (List UInt8) :=
  match e with
  | .irq .usart2 x =>
      (usart2IRQHandler b.sys.socketStart (b.mem.usart2, b.sys.g) x).events.filterMap dealtFrame
  | _ => []

/-- A reply byte of the module goes elsewhere. -/
theorem at_receive_dealt (t : AtRx) (res : UInt8) :
    (t.receive res).events.filterMap dealtFrame = [] := by
  unfold AtRx.receive store
  split_ifs <;> rfl

/-! ### The receiver over a run -/

/-- An activation of the WiFi port's handler in the socket mode. -/
theorem usart2_feed {b : Board} {p : List UInt8} (x : Sample) (hr : Receives b.dev.rx p)
    (h1 : b.sys.socketStart = 1) :
    Receives (wifiPort x b.mem).usart2.rx (phoneFramer.feedWithin 50 p x.rx.toList).1 ∧
      (usart2IRQHandler 1 (b.mem.usart2, b.sys.g) x).events.filterMap dealtFrame =
        (phoneFramer.feedWithin 50 p x.rx.toList).2 := by
  have hmode : b.mem.socketStart = 1 := h1
  unfold wifiPort
  rw [hmode]
  cases hx : x.rx with
  | none =>
      obtain ⟨s', l, hs, hr', hl⟩ := phone_implements.idle (b.mem.usart2, b.mem.globals) p x hr hx
      rw [hs, show usart2IRQHandler 1 (b.mem.usart2, b.sys.g) x = Except.ok (s', l) from hs]
      exact ⟨hr', hl⟩
  | some c =>
      show Receives _ (phoneFramer.stepWithin 50 p c).1 ∧
        _ = (phoneFramer.stepWithin 50 p c).2 ++ []
      rw [List.append_nil]
      by_cases hroom : phoneFramer.Room 50 p c
      · obtain ⟨s', l, hs, hr', hl⟩ :=
          phone_implements.step (b.mem.usart2, b.mem.globals) p x c hr hx hroom
        rw [hs, show usart2IRQHandler 1 (b.mem.usart2, b.sys.g) x = Except.ok (s', l) from hs,
          Framer.stepWithin, if_pos hroom]
        exact ⟨hr', hl⟩
      · obtain ⟨err, hs⟩ := phone_implements.full (b.mem.usart2, b.mem.globals) p x c hr hx hroom
        rw [hs, show usart2IRQHandler 1 (b.mem.usart2, b.sys.g) x = Except.error err from hs,
          Framer.stepWithin, if_neg hroom]
        exact ⟨hr, rfl⟩

/-- In another mode the handler leaves the receiver alone, if it returns. -/
theorem usart2IRQHandler_idle {mode : UInt8} (h1 : mode ≠ 1) (s : Usart2 × Globals) (x : Sample) :
    (∃ err, usart2IRQHandler mode s x = Except.error err) ∨
      ∃ s' l, usart2IRQHandler mode s x = Except.ok (s', l) ∧ s'.1.rx = s.1.rx ∧
        l.filterMap dealtFrame = [] := by
  by_cases h0 : mode = 0
  · subst h0
    cases hx : x.rx with
    | none => exact .inr ⟨s, [], by simp only [usart2IRQHandler, hx]; rfl, rfl, rfl⟩
    | some res =>
        have hat := at_receive_dealt s.1.at_ res
        simp only [usart2IRQHandler, hx]
        rcases hrec : s.1.at_.receive res with err | ⟨a, l⟩
        · exact .inl ⟨err, bind_error rfl _⟩
        · rw [hrec] at hat
          exact .inr ⟨_, _, bind_ok rfl _, rfl, by rwa [List.append_nil]⟩
  · exact .inr ⟨s, [], by simp only [usart2IRQHandler]; rfl, rfl, rfl⟩

theorem usart2_idle {b : Board} (x : Sample) (h1 : b.sys.socketStart ≠ 1) :
    (wifiPort x b.mem).usart2.rx = b.dev.rx ∧
      (usart2IRQHandler b.sys.socketStart (b.mem.usart2, b.sys.g) x).events.filterMap dealtFrame =
        [] := by
  have hmode : b.mem.socketStart = b.sys.socketStart := rfl
  unfold wifiPort
  rw [hmode]
  rcases usart2IRQHandler_idle h1 (b.mem.usart2, b.mem.globals) x with
    ⟨err, h⟩ | ⟨s', l, h, hrx, hl⟩
  · rw [h, show usart2IRQHandler b.sys.socketStart (b.mem.usart2, b.sys.g) x = Except.error err from h]
    exact ⟨rfl, rfl⟩
  · rw [h, show usart2IRQHandler b.sys.socketStart (b.mem.usart2, b.sys.g) x = Except.ok (s', l) from h]
    exact ⟨hrx, hl⟩

/-- **One step of the board** feeds the framer with what has arrived. -/
theorem boardStep_feed {b b' : Board} {e : BoardEvent} {p : List UInt8} (hr : Receives b.dev.rx p)
    (hs : boardStep b e = some b') :
    Receives b'.dev.rx (phoneFramer.feedWithin 50 p (arrived b e b')).1 ∧
      dispatched b e b' = (phoneFramer.feedWithin 50 p (arrived b e b')).2 := by
  cases e <;> simp only [boardStep] at hs
  case irq h x =>
    obtain rfl := Option.some.inj hs
    cases h with
    | sysTick =>
        refine ⟨?_, rfl⟩
        show Receives (countTimebase (rtTickIncrease b.mem)).usart2.rx p
        unfold countTimebase
        dsimp only
        split_ifs <;> exact hr
    | usart1 =>
        refine ⟨?_, rfl⟩
        show Receives (screenPort x b.mem).usart2.rx p
        unfold screenPort
        split <;> exact hr
    | usart2 =>
        simp only [arrived, dispatched]
        by_cases h1 : b.sys.socketStart = 1
        · rw [if_pos h1, h1]
          exact usart2_feed x hr h1
        · rw [if_neg h1]
          obtain ⟨hrx, hl⟩ := usart2_idle x h1
          refine ⟨?_, hl⟩
          show Receives (wifiPort x b.mem).usart2.rx p
          rw [hrx]
          exact hr
  all_goals
    obtain ⟨s', -, rfl⟩ := Option.map_eq_some_iff.mp hs
    exact ⟨hr, rfl⟩

/-- **The receiver is the phone framer** over every run of the board. -/
theorem board_feed {b b' : Board} {cs : List BoardEvent} {p : List UInt8}
    (hr : Receives b.dev.rx p) (ht : exec boardStep b cs = some b') :
    Receives b'.dev.rx (phoneFramer.feedWithin 50 p (outputs boardStep arrived b cs)).1 ∧
      outputs boardStep dispatched b cs =
        (phoneFramer.feedWithin 50 p (outputs boardStep arrived b cs)).2 := by
  induction cs generalizing b p with
  | nil =>
      obtain rfl := Option.some.inj ht
      exact ⟨hr, rfl⟩
  | cons e cs ih =>
      obtain ⟨b₁, hs, hrest⟩ := exec_cons_eq_some.mp ht
      obtain ⟨hr₁, hd₁⟩ := boardStep_feed hr hs
      obtain ⟨hr₂, hd₂⟩ := ih hr₁ hrest
      rw [outputs_cons cs hs, outputs_cons cs hs, Framer.feedWithin_append, hd₁, hd₂]
      exact ⟨hr₂, rfl⟩

/-- In every reachable state the receiver holds a partial frame. -/
theorem board_receives {b : Board} {bs : List BoardEvent}
    (ht : exec boardStep Board.powerOn bs = some b) : ∃ p, Receives b.dev.rx p :=
  ⟨_, (board_feed (Receives.idle rfl rfl) ht).1⟩

/-! ### Clean starts -/

/-- A frame that is the first thing to arrive, but for bytes other than `FA`
before it, is dispatched with its last byte. -/
def StartsClean (b : Board) : Prop :=
  ∀ cs b' noise f, exec boardStep b cs = some b' → outputs boardStep arrived b cs = noise ++ f →
    0xFA ∉ noise → PhoneFrame f → announced f ≤ 41 → f.getD (f.length - 1) 0 = 0xED →
    ∃ l, outputs boardStep dispatched b cs = l ++ [f]

/-- The handlers do not switch modes. -/
theorem activate_socketStart (h : Irq) (x : Sample) (m : Mem) :
    (activate h x m).socketStart = m.socketStart := by
  cases h with
  | sysTick =>
      show (countTimebase (rtTickIncrease m)).socketStart = _
      unfold countTimebase
      dsimp only
      split_ifs <;> rfl
  | usart1 =>
      show (screenPort x m).socketStart = _
      unfold screenPort
      split <;> rfl
  | usart2 =>
      show (wifiPort x m).socketStart = _
      unfold wifiPort
      split <;> rfl

/-- A switch of the mode leaves the devices alone. -/
theorem dev_of_switch {b b' : Board} {e : BoardEvent} (hs : boardStep b e = some b')
    (hne : b'.sys.socketStart ≠ b.sys.socketStart) : b'.dev = b.dev := by
  cases e <;> simp only [boardStep] at hs
  case irq h x =>
    obtain rfl := Option.some.inj hs
    exact absurd (activate_socketStart h x b.mem) hne
  all_goals
    obtain ⟨s', -, rfl⟩ := Option.map_eq_some_iff.mp hs
    rfl

/-- The receiver waits for a frame exactly if it holds nothing. -/
theorem Receives.rxState_eq_zero_iff {r : WifiRx} {p : List UInt8} (h : Receives r p) :
    r.rxState = 0 ↔ p = [] := by
  rw [← List.length_eq_zero_iff]
  cases h.counters with
  | idle hlen hst => exact iff_of_true hst hlen
  | header hlen hst | code hlen hst | id hlen hst | length hlen hst | payload hlen hst
  | checksum hlen hst | trailer hlen hst => exact iff_of_false (by omega) (by omega)

theorem startsClean_of_idle {b : Board} (hr : Receives b.dev.rx []) : StartsClean b := by
  intro cs b' noise f ht harrived hnoise hframe hlen _
  have hskip : ∀ c ∈ noise, phoneFramer.verdict [] c = .skip := fun c hc =>
    phone_skip_iff.mpr (.inl ⟨rfl, fun h => hnoise (h ▸ hc)⟩)
  have hone : ∀ x ∈ [(noise, f)], x = (noise, f) := fun x hx => List.mem_singleton.mp hx
  have hfits : phoneFramer.Fits 50 [] ([(noise, f)].flatMap fun x => x.1 ++ x.2) :=
    Framer.fits_frames [(noise, f)] (fun x hx => hone x hx ▸ hskip) fun x hx =>
      hone x hx ▸ ⟨phone_isFrame_iff.mpr hframe, by rw [hframe.2.2]; omega⟩
  rw [List.flatMap_singleton] at hfits
  have hfeed := Framer.feed_frames (F := phoneFramer) [(noise, f)] (fun x hx => hone x hx ▸ hskip)
    fun x hx => hone x hx ▸ phone_isFrame_iff.mpr hframe
  obtain ⟨-, hd⟩ := board_feed hr ht
  rw [harrived, Framer.feedWithin_of_fits hfits] at hd
  refine ⟨[], hd.trans ?_⟩
  have hout := congrArg Prod.snd hfeed
  simpa using hout

/-! ### Left-overs -/

/-- There is an `FA` behind the two header bytes. -/
def Marked (p : List UInt8) : Prop := ∃ i, 2 ≤ i ∧ i < p.length ∧ p.getD i 0 = 0xFA

theorem Marked.append {p : List UInt8} (h : Marked p) (q : List UInt8) : Marked (p ++ q) := by
  obtain ⟨i, h2, hi, hFA⟩ := h
  refine ⟨i, h2, by rw [List.length_append]; omega, ?_⟩
  simpa [List.getElem?_append_left hi] using hFA

/-- Past the header a byte with a cell is kept, or completes the frame. -/
theorem stepWithin_cases {p : List UInt8} (c : UInt8) (h2 : 2 ≤ p.length) :
    (50 ≤ p.length ∧ phoneFramer.stepWithin 50 p c = (p, [])) ∨
      (p.length < 50 ∧ (phoneFramer.stepWithin 50 p c = (p ++ [c], []) ∨
        phoneFramer.stepWithin 50 p c = ([], [p ++ [c]]))) := by
  by_cases hfull : 50 ≤ p.length
  · refine .inl ⟨hfull, if_neg fun hroom => ?_⟩
    have hstored : phoneFramer.verdict p c = .keep ∨ phoneFramer.verdict p c = .emit := by
      rcases hv : phoneFramer.verdict p c with - | - | - | -
      · exact absurd hv (phone_ne_skip c h2)
      · exact .inl rfl
      · exact .inr rfl
      · exact absurd hv (phone_ne_drop p c)
    exact absurd (hroom hstored) (Nat.not_lt.mpr hfull)
  · have hlt := Nat.not_le.mp hfull
    have hstep : phoneFramer.stepWithin 50 p c = phoneFramer.step p c := if_pos fun _ => hlt
    rw [hstep]
    rcases hv : phoneFramer.verdict p c with - | - | - | -
    · exact absurd hv (phone_ne_skip c h2)
    · exact .inr ⟨hlt, .inl (Framer.step_keep hv)⟩
    · exact .inr ⟨hlt, .inr (Framer.step_emit hv)⟩
    · exact absurd hv (phone_ne_drop p c)

/-- From a marked beginning, bytes other than `FA` make marked frames only. -/
theorem marked_feed {q s : List UInt8} (hs : 0xFA ∉ s)
    (hq : q = [] ∨ (2 ≤ q.length ∧ (50 ≤ q.length ∨ Marked q))) :
    ∀ g ∈ (phoneFramer.feedWithin 50 q s).2, Marked g := by
  induction s generalizing q with
  | nil => exact fun g hg => absurd hg List.not_mem_nil
  | cons c s ih =>
      have hc : c ≠ 0xFA := fun h => hs (h ▸ List.mem_cons_self)
      have hrest : 0xFA ∉ s := fun h => hs (List.mem_cons_of_mem c h)
      intro g hg
      simp only [Framer.feedWithin, List.mem_append] at hg
      rcases hq with rfl | ⟨h2, hq⟩
      · have hv : phoneFramer.verdict [] c = .skip := phone_skip_iff.mpr (.inl ⟨rfl, hc⟩)
        have hstep : phoneFramer.stepWithin 50 [] c = ([], []) := by
          rw [Framer.stepWithin, Framer.step_skip hv, ite_self]
        rw [hstep] at hg
        exact ih hrest (.inl rfl) g (hg.resolve_left List.not_mem_nil)
      · rcases stepWithin_cases c h2 with ⟨hfull, hstep⟩ | ⟨hlt, hstep | hstep⟩
        · rw [hstep] at hg
          exact ih hrest (.inr ⟨h2, .inl hfull⟩) g (hg.resolve_left List.not_mem_nil)
        · rw [hstep] at hg
          have hmark := (hq.resolve_left (Nat.not_le.mpr hlt)).append [c]
          have hlen : 2 ≤ (q ++ [c]).length := by rw [List.length_append]; omega
          exact ih hrest (.inr ⟨hlen, .inr hmark⟩) g (hg.resolve_left List.not_mem_nil)
        · rw [hstep] at hg
          rcases hg with hg | hg
          · rw [List.mem_singleton.mp hg]
            exact (hq.resolve_left (Nat.not_le.mpr hlt)).append [c]
          · exact ih hrest (.inl rfl) g hg

/-- A frame with nothing in it. -/
def emptyFrame : List UInt8 := [0xFA, 0x0A, 0, 0, 0, 0, 0, 0, 0xED]

theorem emptyFrame_not_marked : ¬ Marked emptyFrame := by
  rintro ⟨i, h2, hi, hFA⟩
  have hlt : i < 9 := hi
  interval_cases i <;> exact absurd hFA (by decide)

/-- Behind left-overs the empty frame is taken apart. -/
theorem emptyFrame_lost {p : List UInt8} (h2 : 2 ≤ p.length) :
    emptyFrame ∉ (phoneFramer.feedWithin 50 p emptyFrame).2 := by
  refine fun hmem => emptyFrame_not_marked ?_
  have htail : (0xFA : UInt8) ∉ emptyFrame.tail := by decide
  have hmark : Marked (p ++ [0xFA]) :=
    ⟨p.length, h2, by simp, getD_concat_length p 0xFA⟩
  have hsplit : (phoneFramer.feedWithin 50 p emptyFrame).2 =
      (phoneFramer.stepWithin 50 p 0xFA).2 ++
        (phoneFramer.feedWithin 50 (phoneFramer.stepWithin 50 p 0xFA).1 emptyFrame.tail).2 := rfl
  rw [hsplit, List.mem_append] at hmem
  rcases stepWithin_cases 0xFA h2 with ⟨hfull, hstep⟩ | ⟨-, hstep | hstep⟩
  · rw [hstep] at hmem
    exact marked_feed htail (.inr ⟨h2, .inl hfull⟩) _ (hmem.resolve_left List.not_mem_nil)
  · rw [hstep] at hmem
    have hlen : 2 ≤ (p ++ [0xFA]).length := by rw [List.length_append]; omega
    exact marked_feed htail (.inr ⟨hlen, .inr hmark⟩) _ (hmem.resolve_left List.not_mem_nil)
  · rw [hstep] at hmem
    rcases hmem with hmem | hmem
    · rw [List.mem_singleton.mp hmem]
      exact hmark
    · exact marked_feed htail (.inl rfl) _ hmem

/-! ### The board receives what is sent to it -/

/-- The bytes `s` at the WiFi port. -/
def incoming (s : List UInt8) : List BoardEvent := (received s).map (.irq .usart2)

/-- In the socket mode any bytes can arrive. -/
theorem deliver {b : Board} (h1 : b.sys.socketStart = 1) (s : List UInt8) :
    ∃ b', exec boardStep b (incoming s) = some b' ∧ outputs boardStep arrived b (incoming s) = s := by
  induction s generalizing b with
  | nil => exact ⟨b, rfl, rfl⟩
  | cons c s ih =>
      have hs : boardStep b (.irq .usart2 ⟨false, false, some c⟩) =
        some (b.setMem (activate .usart2 ⟨false, false, some c⟩ b.mem)) := rfl
      obtain ⟨b', ht, hout⟩ := ih
        (b := b.setMem (activate .usart2 ⟨false, false, some c⟩ b.mem))
        ((activate_socketStart .usart2 ⟨false, false, some c⟩ b.mem).trans h1)
      refine ⟨b', (exec_cons _ hs).trans ht, (outputs_cons _ hs).trans ?_⟩
      rw [show arrived b (.irq .usart2 ⟨false, false, some c⟩) _ = [c] from if_pos h1]
      exact congrArg (c :: ·) hout

/-- With bytes collected a frame is lost. -/
theorem not_startsClean {b : Board} {p : List UInt8} (h1 : b.sys.socketStart = 1)
    (hr : Receives b.dev.rx p) (hp : p ≠ []) : ¬ StartsClean b := by
  intro hclean
  -- `0A` completes a header of which only `FA` is there
  obtain ⟨noise, hnoise, q, h2, hq⟩ : ∃ noise, 0xFA ∉ noise ∧ ∃ q, 2 ≤ q.length ∧
      phoneFramer.feedWithin 50 p noise = (q, []) := by
    by_cases hone : p.length = 1
    · have hv : phoneFramer.verdict p 0x0A = .keep :=
        phone_keep_iff.mpr (.inr (.inl ⟨hone, rfl⟩))
      have hroom : phoneFramer.Room 50 p 0x0A := fun _ => by omega
      refine ⟨[0x0A], by decide, p ++ [0x0A], by simp [hone], ?_⟩
      simp [Framer.feedWithin, Framer.stepWithin, if_pos hroom, Framer.step_keep hv]
    · have hpos := List.length_pos_of_ne_nil hp
      exact ⟨[], List.not_mem_nil, p, by omega, rfl⟩
  obtain ⟨b', ht, hout⟩ := deliver h1 (noise ++ emptyFrame)
  obtain ⟨l, hl⟩ := hclean _ b' noise emptyFrame ht hout hnoise (by decide) (by decide) rfl
  have hd := (board_feed hr ht).2
  rw [hout, Framer.feedWithin_append, hq, List.nil_append, hl] at hd
  exact emptyFrame_lost h2 (hd ▸ List.mem_append_right l List.mem_cons_self)

/-- **Clean starts.**  After a switch to the socket mode the first frame gets
through exactly if the receiver was not in the middle of one. -/
theorem starts_clean_iff {b b' : Board} {bs : List BoardEvent} {e : BoardEvent}
    (hrun : exec boardStep Board.powerOn bs = some b) (hs : boardStep b e = some b')
    (h0 : b.sys.socketStart = 0) (h1 : b'.sys.socketStart = 1) :
    StartsClean b' ↔ b.dev.rx.rxState = 0 := by
  obtain ⟨p, hr⟩ := board_receives hrun
  have hdev : b'.dev = b.dev := dev_of_switch hs (by rw [h0, h1]; decide)
  have hr' : Receives b'.dev.rx p := hdev ▸ hr
  rw [hr.rxState_eq_zero_iff]
  constructor
  · intro hclean
    by_contra hp
    exact not_startsClean h1 hr' hp hclean
  · rintro rfl
    exact startsClean_of_idle hr'

/-- The switch at power-on: nothing has arrived yet. -/
theorem starts_clean_iff_powerOn : ∃ b b',
    exec boardStep Board.powerOn (List.replicate 8 (.main false none)) = some b ∧
      boardStep b (.main false none) = some b' ∧ StartsClean b' := by
  have hrun : (exec boardStep Board.powerOn (List.replicate 8 (.main false none))).map
      (fun b => (b.sys.socketStart, b.sys.pc, b.dev.rx.rxState)) = some (0, .portOpen, 0) := by
    decide +kernel
  obtain ⟨b, hb, hval⟩ := Option.map_eq_some_iff.mp hrun
  simp only [Prod.mk.injEq] at hval
  obtain ⟨h0, hpc, hrx⟩ := hval
  have hs : boardStep b (.main false none) =
    some { b with sys := mainStep false none b.sys } := rfl
  have h1 : (mainStep false none b.sys).socketStart = 1 := by
    rw [mainStep, hpc]
  exact ⟨b, _, hb, hs, (starts_clean_iff hb hs h0 h1).mpr hrx⟩

/-- Two bytes of a frame arrive, and the reset key is pushed: the statements up
to the next switch. -/
def interrupted : List BoardEvent :=
  List.replicate 9 (.main false none) ++ incoming [0xFA, 0x0A] ++ [.key 0x01] ++
    List.replicate 20 (.main false none)

/-- The frame behind the switch is lost. -/
theorem not_starts_clean_interrupted : ∃ b b', exec boardStep Board.powerOn interrupted = some b ∧
    boardStep b (.main false none) = some b' ∧ b.sys.socketStart = 0 ∧ b'.sys.socketStart = 1 ∧
    ¬ StartsClean b' := by
  have hrun : (exec boardStep Board.powerOn interrupted).map
      (fun b => (b.sys.socketStart, b.sys.pc, b.dev.rx.rxState)) = some (0, .portOpen, 2) := by
    decide +kernel
  obtain ⟨b, hb, hval⟩ := Option.map_eq_some_iff.mp hrun
  simp only [Prod.mk.injEq] at hval
  obtain ⟨h0, hpc, hrx⟩ := hval
  have hs : boardStep b (.main false none) =
    some { b with sys := mainStep false none b.sys } := rfl
  have h1 : (mainStep false none b.sys).socketStart = 1 := by
    rw [mainStep, hpc]
  obtain ⟨p, hp⟩ := board_receives hb
  have hne : p ≠ [] := fun h => by
    rw [hp.rxState_eq_zero_iff.mpr h] at hrx
    exact absurd hrx (by decide)
  exact ⟨b, _, hb, hs, h0, h1, not_startsClean h1 hp hne⟩

end DolphinNote
