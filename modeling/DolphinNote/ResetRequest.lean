/-
DolphinNote/ResetRequest.lean

The reset of the module in state 2, `wifi_reset` at a long press of NET.

The tests for a search and for a phone stand behind the block of the reset, which
has no `break`.  No frame is dispatched any more once the reset has begun, so
what the flag and the address hold at that moment decides how the iteration ends
(`takesEffect_iff`).
-/
import DolphinNote.ModeSwitch

namespace DolphinNote

open Transition

/-! ### The iteration -/

/-- The run is the rest of an iteration of the main loop, up to its end `t`. -/
structure RestOf (s : Sys) (as : List Event) (t : Sys) : Prop where
  run : exec step s as = some t
  inside : Along step (fun u _ _ => u.pc ≠ .delay) s as
  done : t.pc = .delay

/-- A call of `Uart2_Put_Buf`. -/
def HandsOver (s : Sys) : Event → Prop
  | .main _ _ => ∃ p, s.pc = .put p
  | _ => False

/-- How many statements of the main loop the run has. -/
def mainSteps (as : List Event) : ℕ := as.countP fun e => e matches .main _ _

/-- The rest of the iteration ends in state 0, hands nothing over, and the next
iteration calls `cc3200_start`: its first statement is the second one from `t` on. -/
structure TakesEffect (s : Sys) (as : List Event) (t : Sys) : Prop where
  state : t.mainFuctionState = 0
  quiet : Along step (fun u e _ => ¬ HandsOver u e) s as
  atMode : t.socketStart = 0
  provisions : ∀ bs u, exec step t bs = some u → mainSteps bs = 2 → u.pc = .cfg

/-! ### What matters behind the reset -/

/-- The variables that the rest of the iteration looks at. -/
structure View where
  pc : Pc
  state : UInt8
  sock : UInt8
  searching : UInt8
  octet : UInt8

/-- Those variables on the board. -/
def Sys.view (s : Sys) : View where
  pc := s.pc
  state := s.mainFuctionState
  sock := s.socketStart
  searching := s.g.searchingFlag
  octet := s.g.phoneIP.rd 0

/-- In the AT mode only the main loop changes them. -/
theorem view_step {s s' : Sys} {e : Event} (h : step s e = some s') (h0 : s.view.sock = 0) :
    (∃ again staip, e = .main again staip ∧ s' = mainStep again staip s) ∨ s'.view = s.view := by
  cases steps_of_step h with
  | main again staip => exact .inl ⟨again, staip, rfl, rfl⟩
  | led =>
      obtain ⟨flag, cnt, led, hled⟩ := ledStep_frame s
      rw [hled]
      exact .inr rfl
  | phone h1 => exact absurd (h0.symm.trans h1) (by decide)
  | screen _ ha =>
      cases ha <;> exact .inr rfl
  | key | transmit | tick => exact .inr rfl

/-- What holds in the AT mode, and is kept by the main loop, is kept. -/
theorem view_kept {I : View → Prop} {s s' : Sys} {e : Event} (hi : I s.view) (h0 : s.view.sock = 0)
    (hmain : ∀ again staip, e = .main again staip → I (mainStep again staip s).view)
    (h : step s e = some s') : I s'.view := by
  rcases view_step h h0 with ⟨again, staip, rfl, rfl⟩ | hv
  · exact hmain again staip rfl
  · rwa [hv]

/-! ### The three ways an iteration can go on -/

/-- Nothing is waiting: the state stays 0. -/
def View.Clean (v : View) : Prop :=
  v.sock = 0 ∧ v.searching ≠ 1 ∧ v.octet = 0 ∧
    (v.pc = .resetWait ∨ v.pc = .resetState ∨
      (v.pc = .searchTest ∨ v.pc = .phoneTest ∨ v.pc = .delay) ∧ v.state = 0)

/-- A phone has asked for a connection: the iteration ends in state 3. -/
def View.Called (v : View) : Prop :=
  v.sock = 0 ∧ v.octet ≠ 0 ∧
    (v.pc ∈ ([.resetWait, .resetState, .searchTest, .searchClear, .put .search, .phoneTest,
        .toState 3] : List Pc) ∨ v.pc = .delay ∧ v.state = 3)

/-- A search is to be answered. -/
def View.Searched (v : View) : Prop :=
  v.sock = 0 ∧
    (v.searching = 1 ∧ (v.pc = .resetWait ∨ v.pc = .resetState ∨ v.pc = .searchTest) ∨
      v.pc = .searchClear ∨ v.pc = .put .search)

variable {s t : Sys} {as : List Event}

theorem clean_mainStep (again : Bool) (staip : Option (Buffer 4)) (h : s.view.Clean)
    (hpc : s.pc ≠ .delay) : (mainStep again staip s).view.Clean := by
  obtain ⟨hsock, hsearch, hoctet, hplace⟩ := h
  dsimp only [Sys.view] at hsock hsearch hoctet hplace
  -- the wait of `wifi_reset`, the state behind it, and the two tests
  rcases hplace with hp | hp | ⟨hp | hp | hp, hst⟩
  · simp only [mainStep, hp]
    exact ⟨hsock, hsearch, hoctet, .inr (.inl rfl)⟩
  · simp only [mainStep, hp]
    exact ⟨hsock, hsearch, hoctet, .inr (.inr ⟨.inl rfl, rfl⟩)⟩
  · simp only [mainStep, hp, if_neg hsearch]
    exact ⟨hsock, hsearch, hoctet, .inr (.inr ⟨.inr (.inl rfl), hst⟩)⟩
  · simp only [mainStep, hp, if_pos hoctet]
    exact ⟨hsock, hsearch, hoctet, .inr (.inr ⟨.inr (.inr rfl), hst⟩)⟩
  · exact absurd hp hpc

theorem called_mainStep (again : Bool) (staip : Option (Buffer 4)) (h : s.view.Called)
    (hpc : s.pc ≠ .delay) : (mainStep again staip s).view.Called := by
  obtain ⟨hsock, hoctet, hplace⟩ := h
  dsimp only [Sys.view] at hsock hoctet hplace
  rcases hplace with hp | ⟨hp, -⟩
  · simp only [List.mem_cons, List.not_mem_nil, or_false] at hp
    rcases hp with hp | hp | hp | hp | hp | hp | hp
    · simp only [mainStep, hp]
      exact ⟨hsock, hoctet, .inl (by simp [Sys.view, Sys.goto])⟩
    · simp only [mainStep, hp]
      exact ⟨hsock, hoctet, .inl (by simp [Sys.view])⟩
    · simp only [mainStep, hp]
      refine ⟨hsock, hoctet, .inl ?_⟩
      by_cases hs : s.g.searchingFlag = 1 <;> simp [Sys.view, Sys.goto, hs]
    · simp only [mainStep, hp]
      exact ⟨hsock, hoctet, .inl (by simp [Sys.view, Sys.assign])⟩
    · simp only [mainStep, hp]
      exact ⟨hsock, hoctet, .inl (by simp [Sys.view, Put.next])⟩
    · simp only [mainStep, hp, if_neg hoctet]
      exact ⟨hsock, hoctet, .inl (by simp [Sys.view, Sys.goto])⟩
    · simp only [mainStep, hp]
      exact ⟨hsock, hoctet, .inr ⟨rfl, rfl⟩⟩
  · exact absurd hp hpc

theorem searched_mainStep (again : Bool) (staip : Option (Buffer 4)) (h : s.view.Searched)
    (hput : ∀ p, s.pc ≠ .put p) : (mainStep again staip s).view.Searched := by
  obtain ⟨hsock, ⟨hsearch, hp | hp | hp⟩ | hp | hp⟩ := h <;>
    dsimp only [Sys.view] at hsock hp
  · simp only [mainStep, hp]
    exact ⟨hsock, .inl ⟨hsearch, .inr (.inl rfl)⟩⟩
  · simp only [mainStep, hp]
    exact ⟨hsock, .inl ⟨hsearch, .inr (.inr rfl)⟩⟩
  · simp only [mainStep, hp, if_pos (show s.g.searchingFlag = 1 from hsearch)]
    exact ⟨hsock, .inr (.inl rfl)⟩
  · simp only [mainStep, hp]
    exact ⟨hsock, .inr (.inr rfl)⟩
  · exact absurd hp (hput _)

/-! ### Taking effect -/

/-- Two statements from the end of an iteration in state 0, or one, or none. -/
def View.Due (n : ℕ) (v : View) : Prop :=
  v.pc = .delay ∧ v.state = 0 ∧ n = 2 ∨ v.pc = .top ∧ v.state = 0 ∧ n = 1 ∨ v.pc = .cfg ∧ n = 0

/-- Behind state 0, the next iteration calls `cc3200_start`. -/
theorem due_run {n : ℕ} (hdue : s.view.Due n) (ht : exec step s as = some t)
    (hn : mainSteps as = n) : t.pc = .cfg := by
  induction as generalizing s n with
  | nil =>
      obtain rfl := Option.some.inj ht
      obtain rfl : 0 = n := hn
      rcases hdue with ⟨-, -, h⟩ | ⟨-, -, h⟩ | ⟨hp, -⟩
      · exact absurd h (by decide)
      · exact absurd h (by decide)
      · exact hp
  | cons e as ih =>
      obtain ⟨u, hu, hrest⟩ := exec_cons_eq_some.mp ht
      cases e with
      | main again staip =>
          obtain rfl := Option.some.inj hu
          have hcount : mainSteps as + 1 = n := (List.countP_cons_of_pos rfl).symm.trans hn
          unfold View.Due at hdue
          dsimp only [Sys.view] at hdue
          rcases hdue with ⟨hp, hst, rfl⟩ | ⟨hp, hst, rfl⟩ | ⟨-, rfl⟩
          · refine ih (n := 1) (.inr (.inl ⟨?_, ?_, rfl⟩)) hrest (by omega)
            · simp only [mainStep, hp]
              rfl
            · simp only [mainStep, hp]
              exact hst
          · refine ih (n := 0) (.inr (.inr ⟨?_, rfl⟩)) hrest (by omega)
            simp only [mainStep, hp, hst]
            rfl
          · exact absurd hcount (by omega)
      | _ =>
          -- the others leave the control point and the state alone
          rcases (steps_of_step hu).control with ⟨_, _, he, -⟩ | ⟨hp, hst, -⟩
          · cases he
          · refine ih ?_ hrest hn
            unfold View.Due at hdue ⊢
            dsimp only [Sys.view] at hdue ⊢
            rwa [hp, hst]

theorem View.Clean.pc_ne_put {v : View} (h : v.Clean) (p : Put) : v.pc ≠ .put p := by
  obtain ⟨-, -, -, hp | hp | ⟨hp | hp | hp, -⟩⟩ := h <;> rw [hp] <;> exact nofun

/-- An iteration behind which nothing waits. -/
theorem takesEffect_of_clean (hclean : s.view.Clean) (h : RestOf s as t) : TakesEffect s as t := by
  have hstep : ∀ u e u', u.view.Clean → u.pc ≠ .delay → step u e = some u' → u'.view.Clean :=
    fun u e u' hu hpc hs => view_kept hu hu.1 (fun again staip _ => clean_mainStep again staip hu hpc) hs
  have ht : t.view.Clean := h.inside.invariant (I := fun u => u.view.Clean) hclean hstep h.run
  have hstate : t.mainFuctionState = 0 := by
    obtain ⟨-, -, -, hp | hp | ⟨-, hst⟩⟩ := ht
    · exact absurd (h.done.symm.trans hp) nofun
    · exact absurd (h.done.symm.trans hp) nofun
    · exact hst
  refine ⟨hstate, ?_, ht.1, fun bs u hu hn => due_run (.inl ⟨h.done, hstate, rfl⟩) hu hn⟩
  refine h.inside.mono (I := fun u => u.view.Clean) hclean fun u e u' hu hpc hs =>
    ⟨hstep u e u' hu hpc hs, ?_⟩
  cases e with
  | main again staip => exact fun ⟨p, hp⟩ => hu.pc_ne_put p hp
  | _ => exact id

/-- An iteration in which a phone has asked for a connection. -/
theorem state_of_called (hcalled : s.view.Called) (h : RestOf s as t) : t.mainFuctionState = 3 := by
  have ht : t.view.Called := h.inside.invariant (I := fun u => u.view.Called) hcalled
    (fun u e u' hu hpc hs =>
      view_kept hu hu.1 (fun again staip _ => called_mainStep again staip hu hpc) hs) h.run
  obtain ⟨-, -, hp | ⟨-, hst⟩⟩ := ht
  · rw [show t.view.pc = .delay from h.done] at hp
    exact absurd hp (by decide)
  · exact hst

/-- An iteration in which a search is to be answered hands something over. -/
theorem not_quiet_of_searched (hsearched : s.view.Searched) (h : RestOf s as t) :
    ¬ Along step (fun u e _ => ¬ HandsOver u e) s as := by
  intro hquiet
  have ht : t.view.Searched := hquiet.invariant (I := fun u => u.view.Searched) hsearched
    (fun u e u' hu hq hs => by
      refine view_kept hu hu.1 (fun again staip he => ?_) hs
      subst he
      exact searched_mainStep again staip hu fun p hp => hq ⟨p, hp⟩) h.run
  obtain ⟨-, ⟨-, hp⟩ | hp⟩ := ht <;> rw [show t.view.pc = .delay from h.done] at hp <;>
    simp at hp

section Reset

variable {again : Bool} {staip : Option (Buffer 4)}

/-- The first statement of `wifi_reset`. -/
theorem view_reset (hpc : s.pc = .reset) :
    (mainStep again staip s).view = { s.view with pc := .resetWait, sock := 0 } := by
  simp only [mainStep, hpc]
  rfl

/-- What is left of the iteration behind it. -/
theorem RestOf.behind (h : RestOf s (.main again staip :: as) t) :
    RestOf (mainStep again staip s) as t where
  run := (exec_cons as rfl).symm.trans h.run
  inside := (h.inside _ rfl).2
  done := h.done

/-- A reset behind which a phone waits for its connection. -/
theorem state_of_octet (hpc : s.pc = .reset) (h : RestOf s (.main again staip :: as) t)
    (hoctet : s.g.phoneIP.rd 0 ≠ 0) : t.mainFuctionState = 3 := by
  refine state_of_called ?_ h.behind
  rw [view_reset hpc]
  exact ⟨rfl, hoctet, .inl List.mem_cons_self⟩

/-- **A handled reset** takes effect exactly if nothing waits behind it: where
`wifi_reset` leaves the socket mode, no search is to be answered and no phone has
asked for a connection. -/
theorem takesEffect_iff (hpc : s.pc = .reset)
    (h : RestOf s (.main again staip :: as) t) :
    TakesEffect s (.main again staip :: as) t ↔ s.g.searchingFlag ≠ 1 ∧ s.g.phoneIP.rd 0 = 0 := by
  have hs : step s (.main again staip) = some (mainStep again staip s) := rfl
  constructor
  · intro heffect
    refine ⟨fun hsearch => ?_, ?_⟩
    · -- the reply to the search is handed over
      refine not_quiet_of_searched ?_ h.behind (heffect.quiet _ hs).2
      rw [view_reset hpc]
      exact ⟨rfl, .inl ⟨hsearch, .inl rfl⟩⟩
    · -- the connection is taken up, in state 3
      by_contra hoctet
      have hstate := state_of_octet hpc h hoctet
      rw [heffect.state] at hstate
      exact absurd hstate (by decide)
  · rintro ⟨hsearch, hoctet⟩
    have heffect := takesEffect_of_clean
      (by rw [view_reset hpc]; exact ⟨rfl, hsearch, hoctet, .inl rfl⟩) h.behind
    refine ⟨heffect.state, (along_cons hs).mpr ⟨?_, heffect.quiet⟩, heffect.atMode, heffect.provisions⟩
    rintro ⟨p, hp⟩
    rw [hpc] at hp
    cases hp

end Reset

/-- A run that leads to a reset, and the rest of the iteration. -/
theorem exists_reset (pre rest : List Event) (octet : UInt8)
    (hrun : (exec step Sys.powerOn pre).map (fun s => (s.pc, s.g.phoneIP.rd 0,
      decide (Along step (fun u _ _ => u.pc ≠ .delay) s rest), (exec step s rest).map Sys.pc)) =
        some (.reset, octet, true, some .delay)) :
    ∃ s t, Reachable step Sys.powerOn s ∧ s.pc = .reset ∧ s.g.phoneIP.rd 0 = octet ∧
      RestOf s rest t := by
  obtain ⟨s, hs, hval⟩ := Option.map_eq_some_iff.mp hrun
  simp only [Prod.mk.injEq, decide_eq_true_eq] at hval
  obtain ⟨hpc, hoctet, hinside, hend⟩ := hval
  obtain ⟨t, ht, hdone⟩ := Option.map_eq_some_iff.mp hend
  exact ⟨s, t, ⟨pre, hs⟩, hpc, hoctet, ht, hinside, hdone⟩

/-- A long press of NET, and nothing else. -/
theorem takesEffect_iff_press : ∃ s t, Reachable step Sys.powerOn s ∧
    (TakesEffect s (.next :: List.replicate 4 .next) t ↔
      s.g.searchingFlag ≠ 1 ∧ s.g.phoneIP.rd 0 = 0) := by
  obtain ⟨s, t, hs, hpc, -, h⟩ := exists_reset
    (List.replicate 13 .next ++ .key keyNetLongPush :: List.replicate 2 .next)
    (.next :: List.replicate 4 .next) 0 (by decide +kernel)
  exact ⟨s, t, hs, takesEffect_iff hpc h⟩

/-- A phone asks for a connection just before the reset: state 3 overwrites state 0. -/
theorem takesEffect_fails : ∃ s t, Reachable step Sys.powerOn s ∧ s.pc = .reset ∧
    RestOf s (.next :: List.replicate 5 .next) t ∧
      ¬ TakesEffect s (.next :: List.replicate 5 .next) t := by
  obtain ⟨s, t, hs, hpc, hoctet, h⟩ := exists_reset
    (List.replicate 13 .next ++ .key keyNetLongPush :: .phone (request 0x75 1 1) 39 ::
      List.replicate 2 .next)
    (.next :: List.replicate 5 .next) 192 (by decide +kernel)
  refine ⟨s, t, hs, hpc, h, fun heffect => ?_⟩
  have hstate := state_of_octet hpc h (by rw [hoctet]; decide)
  rw [heffect.state] at hstate
  exact absurd hstate (by decide)

end DolphinNote
