/-
DolphinNote/PenFrames.lean

The way of a pen frame from the screen to the transmit ring.  The screen
interrupt encodes it into `wifi_data_to_send` and sets `pen_data_ready`; once
in each iteration the main loop looks at the flag, clears it and hands over
what the buffer holds.

There is one buffer and one flag, and nobody asks whether the last frame has
gone: a frame that comes too early replaces it, and a reply written in between
spoils it.  `pendings` are the frames on the way.  As long as no frame comes
and no reply is written while one of them is still to be read from the buffer,
each is handed over once and in order (`pen_frames_once`).
-/
import DolphinNote.Rounds
import DolphinNote.History
import DolphinNote.Transmission

namespace DolphinNote

open Transition

/-! ### Frames on the way -/

/-- The frame announced by the flag. -/
def Fine.ready (f : Fine) : List (List UInt8) :=
  if f.sys.g.penDataReady ≠ 0 then [Put.pen.block f.sys.g] else []

/-- What a call of `Uart2_Put_Buf` will have copied, if the buffer stays as it
is. -/
def Fine.handing (f : Fine) : List UInt8 :=
  match f.put with
  | .out => Put.pen.block f.sys.g
  | .copy i dataNum => f.copied ++ (f.sys.g.wifiDataToSend.bytes dataNum.toNat).drop i.toNat

/-- The pen frames on the way: the one the main loop has taken on, and the one
announced. -/
def Fine.pendings (f : Fine) : List (List UInt8) :=
  match f.sys.pc with
  | .penClear => [Put.pen.block f.sys.g]
  | .penUp => Put.pen.block f.sys.g :: f.ready
  | .put .pen => f.handing :: f.ready
  | _ => f.ready

/-- The pen frame the step encodes. -/
def encoded (_ : Fine) (e : Event) (f' : Fine) : List (List UInt8) :=
  match e with
  | .screen dataBuf _ => if dataBuf.rd 2 = 0x02 then [Put.pen.block f'.sys.g] else []
  | _ => []

/-- The block whose hand-over the step completes, if it is meant for a pen
frame. -/
def handed (f : Fine) (_ : Event) (f' : Fine) : List (List UInt8) :=
  if f.sys.pc = .put .pen ∧ f'.sys.pc ≠ .put .pen then [f.copied] else []

/-- The session the law is about: connected, with the pen down. -/
def InSession (f : Fine) : Prop :=
  f.sys.mainFuctionState = 5 ∧ f.sys.g.netCompleteFlag = 1 ∧ f.sys.g.upDownFlag = 1

/-- In the run from `f₀` every pen frame is handed over once and in order, but
for those still on the way. -/
def HandedOnce (f₀ : Fine) (as : List Event) : Prop :=
  ∀ f, exec fineStep f₀ as = some f →
    f₀.pendings ++ outputs fineStep encoded f₀ as = outputs fineStep handed f₀ as ++ f.pendings

/-- The frame is answered with a reply. -/
def Answered (g : Globals) (dataBuf : Buffer 50) : Prop :=
  Accepted g dataBuf ∨ (HasCode dataBuf 0x78 ∧ barCodeErr dataBuf = false) ∨
    ∃ code ∈ 0xA9 :: 0xA6 :: 0xA7 :: ackCodes, HasCode dataBuf code

/-- The main loop is in `wifi_ack_send`, and has statements of it left. -/
def Pc.Replying (pc : Pc) : Prop := ∃ r ∈ pc.replies, r.2 < (ackStmts r.1.code 0).length

/-- `Uart2_Put_Buf` has not come to the end of its block. -/
def PutPc.Reading : PutPc → Prop
  | .out => True
  | .copy i dataNum => i < dataNum

/-- A pen frame on the way is still to be read from the buffer. -/
def Fine.Unread (f : Fine) : Prop :=
  f.sys.g.penDataReady ≠ 0 ∨ f.sys.pc = .penClear ∨ f.sys.pc = .penUp ∨
    (f.sys.pc = .put .pen ∧ f.put.Reading)

/-- No pen frame comes, and no reply is written, while one is still to be
read. -/
def PenSafe (f : Fine) : Event → Prop
  | .screen dataBuf _ => dataBuf.rd 2 = 0x02 → ¬ f.Unread
  | .phone dataBuf _ => Answered f.sys.g dataBuf → ¬ f.Unread
  | .main _ _ => f.sys.pc.Replying → ¬ f.Unread
  | _ => True

instance (f₀ : Fine) (as : List Event) : Decidable (HandedOnce f₀ as) :=
  inferInstanceAs <| Decidable (∀ f ∈ exec fineStep f₀ as,
    f₀.pendings ++ outputs fineStep encoded f₀ as = outputs fineStep handed f₀ as ++ f.pendings)

instance (f : Fine) : Decidable (InSession f) := by
  unfold InSession; infer_instance

instance (g : Globals) (dataBuf : Buffer 50) : Decidable (Answered g dataBuf) := by
  unfold Answered; infer_instance

instance (pc : Pc) : Decidable pc.Replying := by
  unfold Pc.Replying; infer_instance

instance : (put : PutPc) → Decidable put.Reading
  | .out => inferInstanceAs (Decidable True)
  | .copy i dataNum => inferInstanceAs (Decidable (i < dataNum))

instance (f : Fine) : Decidable f.Unread := by
  unfold Fine.Unread; infer_instance

instance (f : Fine) : (e : Event) → Decidable (PenSafe f e)
  | .screen dataBuf _ => inferInstanceAs (Decidable (dataBuf.rd 2 = 0x02 → ¬ f.Unread))
  | .phone dataBuf _ => inferInstanceAs (Decidable (Answered f.sys.g dataBuf → ¬ f.Unread))
  | .main .. => inferInstanceAs (Decidable (f.sys.pc.Replying → ¬ f.Unread))
  | .led | .key _ | .transmit | .tick => inferInstanceAs (Decidable True)

/-! ### Steps that leave the frames alone -/

/-- The control points at which the main loop has taken a pen frame on. -/
def Pc.Taken (pc : Pc) : Prop := pc = .penClear ∨ pc = .penUp ∨ pc = .put .pen

theorem pendings_of_not_taken {f : Fine} (h : ¬ f.sys.pc.Taken) : f.pendings = f.ready := by
  unfold Fine.pendings
  split
  case h_1 hpc => exact absurd (.inl hpc) h
  case h_2 hpc => exact absurd (.inr (.inl hpc)) h
  case h_3 hpc => exact absurd (.inr (.inr hpc)) h
  case h_4 => rfl

/-- Once everything has been read, what is on the way no longer depends on the
buffer; a frame that comes then is the last one. -/
theorem pendings_of_not_unread {f : Fine} (g' : Globals) (h : ¬ f.Unread) :
    Fine.pendings { f with sys := { f.sys with g := g' } } =
      f.pendings ++ Fine.ready { f with sys := { f.sys with g := g' } } := by
  simp only [Fine.Unread, not_or, not_not] at h
  obtain ⟨hready, hclear, hup, hput⟩ := h
  have hnone : f.ready = [] := by simp [Fine.ready, hready]
  by_cases hpc : f.sys.pc = .put .pen
  · -- the block has been copied to its end
    obtain ⟨i, dataNum, hcopy, hi⟩ : ∃ i dataNum, f.put = .copy i dataNum ∧ ¬ i < dataNum := by
      cases hp : f.put with
      | out => exact absurd ⟨hpc, by rw [hp]; trivial⟩ hput
      | copy i dataNum => exact ⟨i, dataNum, rfl, fun hi => hput ⟨hpc, by rw [hp]; exact hi⟩⟩
    have hi' : dataNum.toNat ≤ i.toNat := Nat.not_lt.mp hi
    have hdone (b : Buffer 255) : (b.bytes dataNum.toNat).drop i.toNat = [] := by simpa using hi'
    simp only [Fine.pendings, Fine.handing, hpc, hcopy, hdone, hnone]
    rfl
  · have htaken : ¬ f.sys.pc.Taken := by
      rintro (h | h | h)
      exacts [hclear h, hup h, hpc h]
    rw [pendings_of_not_taken htaken, hnone, List.nil_append]
    exact pendings_of_not_taken htaken

/-- Two states with the same pen frame, in the same state of announcement. -/
structure SamePen (g g' : Globals) : Prop where
  buf : g'.wifiDataToSend = g.wifiDataToSend
  len : g'.wifiDataLen = g.wifiDataLen
  ready : g'.penDataReady = g.penDataReady

theorem SamePen.block {g g' : Globals} (h : SamePen g g') : Put.pen.block g' = Put.pen.block g := by
  unfold Put.block Put.num
  rw [h.buf, h.len]

theorem SamePen.readyFrames {f f' : Fine} (h : SamePen f.sys.g f'.sys.g) : f'.ready = f.ready := by
  unfold Fine.ready
  rw [h.ready, h.block]

theorem SamePen.pendings {f f' : Fine} (h : SamePen f.sys.g f'.sys.g) (hpc : f'.sys.pc = f.sys.pc)
    (hput : f'.put = f.put) (hcopied : f'.copied = f.copied) : f'.pendings = f.pendings := by
  unfold Fine.pendings Fine.handing
  rw [hpc, hput, hcopied, h.readyFrames, h.block, h.buf]

theorem answered_or_samePen {g g' : Globals} {dataBuf : Buffer 50} (h : Dealt g dataBuf g') :
    Answered g dataBuf ∨ SamePen g g' := by
  cases h with
  | paired hcode hbar hfirst => exact .inl (.inl ⟨hcode, hbar, .inl hfirst⟩)
  | repeated hcode hbar _ hid => exact .inl (.inl ⟨hcode, hbar, .inr hid⟩)
  | searched hcode hbar => exact .inl (.inr (.inl ⟨hcode, hbar⟩))
  | heartbeat hcode => exact .inl (.inr (.inr ⟨_, by decide, hcode⟩))
  | touchInfo hcode => exact .inl (.inr (.inr ⟨_, by decide, hcode⟩))
  | versionInfo hcode => exact .inl (.inr (.inr ⟨_, by decide, hcode⟩))
  | acked hcode hmem =>
      refine .inl (.inr (.inr ⟨_, ?_, hcode⟩))
      exact List.mem_cons_of_mem _ (List.mem_cons_of_mem _ (List.mem_cons_of_mem _ hmem))
  | ignored | refused | searchRefused | meetingEnd | timeCheck => exact .inr ⟨rfl, rfl, rfl⟩

/-- A phone frame never touches the announcement. -/
theorem penDataReady_dealt {g g' : Globals} {dataBuf : Buffer 50} (h : Dealt g dataBuf g') :
    g'.penDataReady = g.penDataReady := by
  cases h with
  | paired | repeated | searched | heartbeat | touchInfo | versionInfo | acked =>
      simp only [wifiAckSend]
  | ignored | refused | searchRefused | meetingEnd | timeCheck => rfl

/-! ### Statements of the main loop -/

/-- The main loop takes a pen frame on at the test of the flag only. -/
theorem mainStep_taken {again : Bool} {staip : Option (Buffer 4)} {s : Sys}
    (h : (mainStep again staip s).pc.Taken) : s.pc = .penTest ∨ s.pc = .penClear ∨ s.pc = .penUp := by
  cases hpc : s.pc with
  | penTest => exact .inl rfl
  | penClear => exact .inr (.inl rfl)
  | penUp => exact .inr (.inr rfl)
  | put p => cases p <;> simp [mainStep, hpc, Put.next, Pc.Taken] at h
  | ack a i sum =>
      simp only [mainStep, hpc, Sys.goto, Sys.assign] at h
      split at h
      · simp [Pc.Taken] at h
      · cases a <;> simp [Pc.Taken, Ack.put] at h
  | top =>
      simp only [mainStep, hpc, Sys.goto] at h
      split at h <;> simp [Pc.Taken] at h
  | cfgWait | portWait | keyTest | searchTest | phoneTest | ipWait | completeTest | linkTest
  | idleTest | netTest | snpTest | endTest | timeTest | downTest | recTest
  | recWait | ipCopy | endIP | recCopy | recCmp =>
      simp only [mainStep, hpc, Sys.goto, Sys.assign] at h
      split_ifs at h <;> simp [Pc.Taken] at h
  | _ => simp [mainStep, hpc, Sys.goto, Sys.assign, Pc.Taken] at h

/-- Apart from a reply, a statement of the main loop leaves the buffer alone,
and but for `pen_data_ready = 0` also the flag. -/
theorem mainStep_samePen {s : Sys} (again : Bool) (staip : Option (Buffer 4))
    (hclear : s.pc ≠ .penClear) (hreply : ¬ s.pc.Replying) :
    SamePen s.g (mainStep again staip s).g := by
  have hg := mainStep_globals again staip s
  generalize (mainStep again staip s).g = g' at hg
  cases hg with
  | penClear hpc => exact absurd hpc hclear
  | ack hpc hf =>
      exact absurd ⟨_, by rw [hpc]; rfl, (List.getElem?_eq_some_iff.mp hf).1⟩ hreply
  | _ => exact ⟨rfl, rfl, rfl⟩

/-- A reply never touches the announcement. -/
theorem mainStep_penDataReady {s : Sys} (again : Bool) (staip : Option (Buffer 4))
    (hclear : s.pc ≠ .penClear) : (mainStep again staip s).g.penDataReady = s.g.penDataReady := by
  have hg := mainStep_globals again staip s
  generalize (mainStep again staip s).g = g' at hg
  cases hg with
  | penClear hpc => exact absurd hpc hclear
  | @ack a i sum f _ hf =>
      obtain ⟨buf, len, hfg⟩ := ackStmts_frame a.code 0 f (List.mem_of_getElem? hf) (s.g, sum)
      rw [hfg]
  | _ => rfl

/-- **A statement of the main loop** passes the frames on. -/
theorem pendings_mainStep {f : Fine} (again : Bool) (staip : Option (Buffer 4)) (hf : f.Placed)
    (hput : ∀ p, f.sys.pc ≠ .put p) (hup : f.sys.g.upDownFlag = 1)
    (hsafe : f.sys.pc.Replying → ¬ f.Unread) :
    Fine.pendings { f with sys := mainStep again staip f.sys } = f.pendings := by
  have hout := hf hput
  by_cases htest : f.sys.pc = .penTest
  · simp only [mainStep, htest, Sys.goto]
    split_ifs with hready <;> simp [Fine.pendings, Fine.ready, htest, hready]
  by_cases hclear : f.sys.pc = .penClear
  · simp only [mainStep, hclear, Sys.assign]
    simp [Fine.pendings, Fine.ready, hclear]
    rfl
  by_cases hpenUp : f.sys.pc = .penUp
  · simp only [mainStep, hpenUp, Sys.goto, hup]
    simp [Fine.pendings, Fine.handing, hpenUp, hout, Fine.ready]
  -- elsewhere no frame is taken on, before and after
  have hbefore : ¬ f.sys.pc.Taken := by
    rintro (h | h | h)
    · exact hclear h
    · exact hpenUp h
    · exact hput _ h
  have hafter : ¬ (mainStep again staip f.sys).pc.Taken := fun h => by
    rcases mainStep_taken h with h | h | h
    · exact htest h
    · exact hclear h
    · exact hpenUp h
  rw [pendings_of_not_taken hbefore, pendings_of_not_taken hafter]
  by_cases hreply : f.sys.pc.Replying
  · have hready : f.sys.g.penDataReady = 0 := by
      by_contra hne
      exact hsafe hreply (.inl hne)
    simp only [Fine.ready, mainStep_penDataReady again staip hclear, hready]
    rfl
  · exact (mainStep_samePen again staip hclear hreply).readyFrames

/-- The control points of `Uart2_Put_Buf` and behind it. -/
theorem Put.next_not_taken (p : Put) : ¬ p.next.Taken := by
  cases p <;> simp [Put.next, Pc.Taken]

/-! ### Other steps -/

/-- A frame of type `0x02` is announced. -/
theorem ready_of_points {s s' : Sys} {dataBuf : Buffer 255} {num : UInt8}
    (hs : step s (.screen dataBuf num) = some s') (hcode : dataBuf.rd 2 = 0x02) :
    s'.g.penDataReady = 1 := by
  simp only [step] at hs
  split_ifs at hs with hframe
  obtain ⟨g', hg, rfl⟩ := Option.map_eq_some_iff.mp hs
  obtain ⟨l, hl⟩ := Traced.result?_eq_some.mp hg
  exact ((screenDataAnalize_points hframe hcode).post hl).2.1

/-- What is not the main loop passes the frames on, too. -/
theorem pendings_other {f : Fine} {e : Event} {s' : Sys} (hin : InSession { f with sys := s' })
    (hsafe : PenSafe f e) (hmain : ∀ again staip, e ≠ .main again staip)
    (hs : step f.sys e = some s') :
    f.pendings ++ encoded f e { f with sys := s' } =
      handed f e { f with sys := s' } ++ Fine.pendings { f with sys := s' } := by
  have hsteps := steps_of_step hs
  have hpc : s'.pc = f.sys.pc := by
    rcases hsteps.control with ⟨again, staip, he, -⟩ | ⟨hpc, -⟩
    · exact absurd he (hmain again staip)
    · exact hpc
  have hhanded : handed f e { f with sys := s' } = [] := if_neg fun h => h.2 (hpc.trans h.1)
  rw [hhanded, List.nil_append]
  have same (h : SamePen f.sys.g s'.g) (he : encoded f e { f with sys := s' } = []) :
      f.pendings ++ encoded f e { f with sys := s' } = Fine.pendings { f with sys := s' } := by
    have hpendings : Fine.pendings { f with sys := s' } = f.pendings :=
      SamePen.pendings h hpc rfl rfl
    rw [he, List.append_nil, hpendings]
  cases hsteps with
  | main again staip => exact absurd rfl (hmain again staip)
  | led =>
      obtain ⟨flag, cnt, led, hled⟩ := ledStep_frame f.sys
      exact same (by rw [hled]; exact ⟨rfl, rfl, rfl⟩) rfl
  | key | transmit | tick => exact same ⟨rfl, rfl, rfl⟩ rfl
  | @phone dataBuf num g' _ _ hdealt =>
      rcases answered_or_samePen hdealt with hanswer | hsame
      · have hread := hsafe hanswer
        have hready : g'.penDataReady = 0 := by
          rw [penDataReady_dealt hdealt]
          by_contra hne
          exact hread (.inl hne)
        have hnone : Fine.ready { f with sys := { f.sys with g := g' } } = [] := by
          simp [Fine.ready, hready]
        rw [pendings_of_not_unread g' hread, hnone]
        rfl
      · exact same hsame rfl
  | @screen dataBuf num g' hframe ha =>
      by_cases hcode : dataBuf.rd 2 = 0x02
      · have hready : g'.penDataReady = 1 := ready_of_points hs hcode
        have hnew : Fine.ready { f with sys := { f.sys with g := g' } } = [Put.pen.block g'] :=
          if_pos (by rw [hready]; decide)
        rw [pendings_of_not_unread g' (hsafe hcode), hnew]
        exact congrArg (f.pendings ++ ·) (if_pos hcode)
      · cases ha with
        | ignored => exact same ⟨rfl, rfl, rfl⟩ (if_neg hcode)
        | points hpoints => exact absurd hpoints hcode
        | cleared => exact absurd hin.2.2 (show (0 : UInt8) ≠ 1 by decide)

/-! ### Conservation -/

/-- **One step** passes the frames on: what is on the way, with what is encoded,
is what is handed over, with what is on the way then. -/
theorem pendings_step {f f' : Fine} {e : Event} (hf : f.Placed) (hin : InSession f ∧ InSession f')
    (hsafe : PenSafe f e) (hs : fineStep f e = some f') :
    f.pendings ++ encoded f e f' = handed f e f' ++ f'.pendings := by
  have hsteps := fineSteps_of_fineStep hs
  cases hsteps with
  | @call p again staip hpc hput =>
      have hhanded : handed f (.main again staip) { f with put := .copy 0 (p.num f.sys.g), copied := [] } = [] :=
        if_neg fun h => h.2 h.1
      rw [hhanded]
      simp only [encoded, List.append_nil, List.nil_append]
      by_cases hpen : p = .pen
      · subst hpen
        simp [Fine.pendings, Fine.handing, Fine.ready, hpc, hput, Put.block]
      · rw [pendings_of_not_taken, pendings_of_not_taken]
        · rfl
        · simp [Pc.Taken, hpc, hpen]
        · simp [Pc.Taken, hpc, hpen]
  | @round p i dataNum again staip hpc hput hi =>
      let x := f.sys.g.wifiDataToSend.rd i.toNat
      let f' : Fine :=
        { sys := { f.sys with tx := f.sys.tx.push x }, put := .copy (i + 1) dataNum,
          copied := f.copied ++ [x] }
      have hhanded : handed f (.main again staip) f' = [] := if_neg fun h => h.2 h.1
      show f.pendings ++ [] = handed f (.main again staip) f' ++ f'.pendings
      rw [hhanded, List.append_nil, List.nil_append]
      by_cases hpen : p = .pen
      · subst hpen
        have hi' : i.toNat < dataNum.toNat := hi
        have hsucc : (i + 1).toNat = i.toNat + 1 := by
          have := dataNum.toNat_lt
          rw [UInt8.toNat_add, UInt8.toNat_one]
          omega
        have hbytes := Buffer.drop_bytes f.sys.g.wifiDataToSend hi'
        simp [f', x, Fine.pendings, Fine.handing, Fine.ready, hpc, hput, hsucc, hbytes]
      · rw [pendings_of_not_taken, pendings_of_not_taken]
        · rfl
        · simp [f', Pc.Taken, hpc, hpen]
        · simp [Pc.Taken, hpc, hpen]
  | @ret p i dataNum tx again staip hpc hput hi _ =>
      let f' : Fine := { f with sys := { f.sys with tx := tx, pc := p.next }, put := .out }
      have hafter : f'.pendings = f.ready := pendings_of_not_taken p.next_not_taken
      show f.pendings ++ [] = handed f (.main again staip) f' ++ f'.pendings
      rw [hafter, List.append_nil]
      by_cases hpen : p = .pen
      · subst hpen
        have hi' : dataNum.toNat ≤ i.toNat := Nat.not_lt.mp hi
        have hdone : (f.sys.g.wifiDataToSend.bytes dataNum.toNat).drop i.toNat = [] := by
          simpa using hi'
        have hhanded : handed f (.main again staip) f' = [f.copied] :=
          if_pos ⟨hpc, by simp [f', Put.next]⟩
        simp [hhanded, Fine.pendings, Fine.handing, hpc, hput, hdone]
      · have hhanded : handed f (.main again staip) f' = [] :=
          if_neg fun h => hpen (Pc.put.inj (hpc.symm.trans h.1))
        rw [hhanded, pendings_of_not_taken (by simp [Pc.Taken, hpc, hpen])]
        rfl
  | main again staip hput =>
      have hhanded : handed f (.main again staip) { f with sys := mainStep again staip f.sys } = [] :=
        if_neg fun h => hput _ h.1
      rw [hhanded, pendings_mainStep again staip hf hput hin.1.2.2 hsafe]
      exact List.append_nil _
  | @other _ s' hmain hs' =>
      exact pendings_other hin.2 hsafe hmain hs'

/-! ### Runs -/

/-- From the test of the flag the main loop, left alone, hands over what is on
the way. -/
theorem pen_pass {f : Fine} (hf : f.Placed) (hpc : f.sys.pc = .penTest)
    (hup : f.sys.g.upDownFlag = 1) :
    ∃ n f', exec fineStep f (List.replicate n .next) = some f' ∧ f'.sys.pc = .idleTest ∧
      f'.pendings = [] ∧ ∀ x ∈ f.pendings, x = f'.copied := by
  obtain ⟨s, put, copied⟩ := f
  replace hpc : s.pc = .penTest := hpc
  replace hup : s.g.upDownFlag = 1 := hup
  obtain rfl : put = .out := hf fun p h => nomatch hpc.symm.trans h
  by_cases hready : s.g.penDataReady = 0
  · refine ⟨1, ⟨s.goto .idleTest, .out, copied⟩, (exec_cons [] ?_).trans rfl, rfl, ?_, ?_⟩
    · simp [Event.next, fineStep, fineMain, mainStep, hpc, hready]
    · simp [Fine.pendings, Fine.ready, Sys.goto, hready]
    · simp [Fine.pendings, Fine.ready, hpc, hready]
  -- the flag is cleared, and the block handed over
  let s' : Sys := { s with g := { s.g with penDataReady := 0 }, pc := .put .pen }
  have hcall : exec fineStep ⟨s, .out, copied⟩ (List.replicate 3 .next) = some ⟨s', .out, copied⟩ := by
    simp [exec, List.replicate, Event.next, fineStep, fineMain, mainStep, hpc, hready, hup, Sys.goto,
      Sys.assign, s']
  refine ⟨3 + ((Put.pen.num s'.g).toNat + 2), ⟨mainStep false none s', .out, Put.pen.block s'.g⟩,
    ?_, rfl, rfl, ?_⟩
  · rw [List.replicate_add, exec_append]
    exact ⟨_, hcall, exec_put rfl copied⟩
  · intro x hx
    show x = Put.pen.block s.g
    simpa [Fine.pendings, Fine.ready, hpc, hready] using hx

/-- **Pen frames are handed over once and in order** in every session in which
no pen frame comes and no reply is written while one is still to be read from
the buffer; and what is on the way at the test of the flag goes in this pass. -/
theorem pen_frames_once {f₀ : Fine} {as₀ as : List Event}
    (h₀ : exec fineStep Fine.powerOn as₀ = some f₀)
    (hin : Along fineStep (fun f _ f' => InSession f ∧ InSession f') f₀ as)
    (hsafe : Along fineStep (fun f e _ => PenSafe f e) f₀ as) :
    HandedOnce f₀ as ∧
      ∀ f, exec fineStep f₀ as = some f → InSession f → f.sys.pc = .penTest →
        ∃ n f', exec fineStep f (List.replicate n .next) = some f' ∧ f'.sys.pc = .idleTest ∧
          f'.pendings = [] ∧ ∀ x ∈ f.pendings, x = f'.copied := by
  have placed {f f' : Fine} {bs : List Event} (hf : f.Placed) (hr : exec fineStep f bs = some f') :
      f'.Placed :=
    Reachable.invariant ⟨bs, hr⟩ hf fun _ _ _ hi hs => hi.step (fineSteps_of_fineStep hs)
  have hplaced : f₀.Placed := placed (fun _ => rfl) h₀
  constructor
  · intro f hf
    obtain ⟨l, ⟨-, rfl⟩, heq⟩ := outputs_conserved
      (R := fun f l => f.Placed ∧ f.pendings = l) (f := encoded) (g := handed)
      (hin.and hsafe) ⟨hplaced, rfl⟩ (fun f e f' l hR hc hs => by
        obtain ⟨hp, rfl⟩ := hR
        exact ⟨_, ⟨hp.step (fineSteps_of_fineStep hs), rfl⟩, pendings_step hp hc.1 hc.2 hs⟩) hf
    exact heq
  · exact fun f hf hsession hpc => pen_pass (placed hplaced hf) hpc hsession.2.2

/-- A session begins, and the first touch has been sent. -/
def sessionBegins : List Event :=
  List.replicate 9 .next ++ .phone (request 0x75 1 1) 39 :: .screen (touch 1) 14 ::
    List.replicate 74 .next

/-- One more touch is handed over. -/
theorem pen_frames_once_touch :
    ∃ f₀, exec fineStep Fine.powerOn sessionBegins = some f₀ ∧
      HandedOnce f₀ (.screen (touch 2) 14 :: List.replicate 34 .next) := by
  obtain ⟨f₀, h₀, hin, hsafe⟩ : ∃ f₀ ∈ exec fineStep Fine.powerOn sessionBegins,
      Along fineStep (fun f _ f' => InSession f ∧ InSession f') f₀
          (.screen (touch 2) 14 :: List.replicate 34 .next) ∧
        Along fineStep (fun f e _ => PenSafe f e) f₀
          (.screen (touch 2) 14 :: List.replicate 34 .next) := by
    decide +kernel
  exact ⟨f₀, h₀, (pen_frames_once h₀ hin hsafe).1⟩

/-- Of two touches in one iteration the first is lost. -/
theorem pen_frame_lost :
    ∃ f₀ ∈ exec fineStep Fine.powerOn sessionBegins,
      Along fineStep (fun f _ f' => InSession f ∧ InSession f') f₀
          [.screen (touch 2) 14, .screen (touch 3) 14] ∧
        ¬ HandedOnce f₀ [.screen (touch 2) 14, .screen (touch 3) 14] := by
  decide +kernel

end DolphinNote
