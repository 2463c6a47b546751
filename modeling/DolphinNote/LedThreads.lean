/-
DolphinNote/LedThreads.lean

The LED sequencer (ledseq.c) with its calls interleaved.

A context is a thread or the callback of a timer.  What stands between
`rt_sem_take` and `rt_sem_release` is one step, and so is every statement of
`ledseq_run`, `ledseq_stop` and `runLedseq` outside of it.

`runLedseq` reads `activeSeq`, takes the address of the step and moves the
position on before it takes the semaphore.  Another context may stop the
sequence in between, and then the position moved on is `LEDSEQ_STOP`:
`ledseq_race_fails` gives the runs, and `ledseq_race_iff` says which runs are
free of it.  Behind that there is one more state the code passes through
without any other context: on the last step of a sequence the position is moved
behind the end of the table, and put right in the section that follows.
-/
import DolphinNote.Ledseq

namespace DolphinNote

open Transition

/-! ### Contexts -/

/-- Where a context stands: in front of the statement named. -/
inductive SeqPc
  | idle
  -- `ledseq_run`
  | runTake (led : Led) (prio : Prio)
  | runTest (led : Led) (prio : Prio)
  -- `ledseq_stop`
  | stopTake (led : Led) (prio : Prio)
  -- `runLedseq`: `prio = activeSeq[led]`
  | loop (led : Led)
  -- `step = &sequences[prio][state[led][prio]]`
  | step (led : Led) (prio : Prio)
  -- `state[led][prio]++`, with `step = &sequences[prio][i]`
  | advance (led : Led) (prio : Prio) (i : ℤ)
  | take (led : Led) (prio : Prio) (i : ℤ)
  deriving DecidableEq, Repr

/-- The sequencer and its contexts. -/
structure LedSystem (κ : Type*) where
  seq : Sequencer
  pc : κ → SeqPc

/-- Something happens in a context: a call, the expiry of its timer, or its next
statement. -/
inductive LedEvent (κ : Type*)
  | call (k : κ) (c : LedCall)
  | next (k : κ)

/-- After `ledseq_init`. -/
def LedSystem.init (κ : Type*) : LedSystem κ where
  seq := ledseqInit .powerOn
  pc _ := .idle

/-- Where a call begins: `getPrio` looks at constants only. -/
def LedCall.entry : LedCall → SeqPc
  | .run led sequence => (getPrio sequence).elim .idle (.runTake led)
  | .stop led sequence => (getPrio sequence).elim .idle (.stopTake led)
  | .expire led => .loop led

/-- One statement.  Behind an address outside of the table nothing is defined. -/
def seqStep (s : Sequencer) : SeqPc → Option (Sequencer × SeqPc)
  | .idle => none
  | .runTake led prio => some (runSection led prio s, .runTest led prio)
  | .runTest led prio => some (s, if s.activeSeq led = some prio then .loop led else .idle)
  | .stopTake led prio => some (stopSection led prio s, .loop led)
  | .loop led => some (s, (s.activeSeq led).elim .idle (.step led))
  | .step led prio => some (s, .advance led prio (s.state led prio))
  | .advance led prio i => some (advance led prio s, .take led prio i)
  -- from `rt_sem_take` to `rt_sem_release`, on the step whose address was taken
  | .take led prio i =>
      (stepAt prio i).map fun step =>
        ((perform led prio step s).1, if (perform led prio step s).2 then .idle else .loop led)

variable {κ : Type*} [DecidableEq κ]

/-- A step of the system. -/
def threadStep (σ : LedSystem κ) : LedEvent κ → Option (LedSystem κ)
  | .call k c =>
      if σ.pc k = .idle then some { σ with pc := Function.update σ.pc k c.entry } else none
  | .next k =>
      (seqStep σ.seq (σ.pc k)).map fun r => { seq := r.1, pc := Function.update σ.pc k r.2 }

/-! ### A context by itself -/

section Alone

variable {σ : LedSystem κ} {k : κ} {led : Led} {s' : Sequencer}

/-- A statement of the context, and then the others of the run. -/
theorem exec_next (t : Sequencer) (pc : SeqPc) (es : List (LedEvent κ))
    (h : seqStep σ.seq (σ.pc k) = some (t, pc)) :
    exec threadStep σ (.next k :: es) =
      exec threadStep { seq := t, pc := Function.update σ.pc k pc } es := by
  refine exec_cons es ?_
  simp only [threadStep, h, Option.map_some]

/-- The statements of one pass of the loop. -/
theorem exec_pass {leave : Bool} (hpc : σ.pc k = .loop led)
    (h : pass led σ.seq = some (s', leave)) :
    ∃ n, ∀ es, exec threadStep σ (List.replicate n (.next k) ++ es) =
      exec threadStep
        { seq := s', pc := Function.update σ.pc k (if leave then .idle else .loop led) } es := by
  unfold pass at h
  rcases ha : σ.seq.activeSeq led with - | prio
  · rw [ha] at h
    obtain ⟨rfl, rfl⟩ := Prod.mk.inj (Option.some.inj h)
    refine ⟨1, fun es => exec_next _ _ es ?_⟩
    rw [hpc, seqStep, ha]
    rfl
  · rw [ha] at h
    obtain ⟨step, hs, hperform⟩ := Option.map_eq_some_iff.mp h
    refine ⟨4, fun es => ?_⟩
    show exec threadStep σ (.next k :: .next k :: .next k :: .next k :: es) = _
    have hloop : seqStep σ.seq (σ.pc k) = some (σ.seq, .step led prio) := by
      rw [hpc, seqStep, ha]
      rfl
    rw [exec_next _ _ _ hloop,
      exec_next σ.seq (.advance led prio (σ.seq.state led prio)) _
        (by simp only [Function.update_self, seqStep]),
      exec_next (advance led prio σ.seq) (.take led prio (σ.seq.state led prio)) _
        (by simp only [Function.update_self, seqStep]),
      exec_next s' (if leave then .idle else .loop led) _
        (by simp only [Function.update_self, seqStep, hs, Option.map_some, hperform])]
    simp only [Function.update_idem]

/-- `runLedseq` in a context that nothing comes between. -/
theorem exec_runLedseq {fuel : ℕ} (hpc : σ.pc k = .loop led)
    (h : runLedseq led fuel σ.seq = some s') :
    ∃ n, exec threadStep σ (List.replicate n (.next k)) =
      some { seq := s', pc := Function.update σ.pc k .idle } := by
  induction fuel generalizing σ with
  | zero => exact nomatch h
  | succ fuel ih =>
      unfold runLedseq at h
      split at h
      · exact nomatch h
      · rename_i hp
        obtain rfl := Option.some.inj h
        obtain ⟨n, hn⟩ := exec_pass hpc hp
        refine ⟨n, ?_⟩
        have hrun := hn []
        rwa [List.append_nil] at hrun
      · rename_i s₁ hp
        obtain ⟨n, hn⟩ := exec_pass hpc hp
        obtain ⟨m, hm⟩ := @ih { seq := s₁, pc := Function.update σ.pc k (.loop led) }
          (Function.update_self k _ σ.pc) h
        refine ⟨n + m, ?_⟩
        rw [List.replicate_add, hn]
        refine Eq.trans hm ?_
        simp only [Function.update_idem]

theorem exec_call (c : LedCall) (es : List (LedEvent κ)) (hpc : σ.pc k = .idle) :
    exec threadStep σ (.call k c :: es) =
      exec threadStep { σ with pc := Function.update σ.pc k c.entry } es := by
  refine exec_cons es ?_
  simp only [threadStep, hpc, if_true]

/-- The loop behind a section. -/
theorem exec_loop {fuel : ℕ} {s : Sequencer} (hpc : σ.pc k = .idle)
    (h : runLedseq led fuel s = some s') :
    ∃ n, exec threadStep { seq := s, pc := Function.update σ.pc k (.loop led) }
      (List.replicate n (.next k)) = some { σ with seq := s' } := by
  have hback : Function.update σ.pc k .idle = σ.pc := by
    rw [← hpc, Function.update_eq_self]
  obtain ⟨n, hn⟩ := @exec_runLedseq κ _ { seq := s, pc := Function.update σ.pc k (.loop led) }
    k led s' fuel (Function.update_self k _ σ.pc) h
  refine ⟨n, hn.trans ?_⟩
  simp only [Function.update_idem, hback]

/-- The section of `ledseq_run`, the test behind it, and the loop. -/
theorem exec_runTake {fuel : ℕ} {prio : Prio} (hpc : σ.pc k = .idle)
    (h : (if (runSection led prio σ.seq).activeSeq led = some prio then
        runLedseq led fuel (runSection led prio σ.seq) else some (runSection led prio σ.seq)) =
      some s') :
    ∃ n, exec threadStep { σ with pc := Function.update σ.pc k (.runTake led prio) }
      (List.replicate n (.next k)) = some { σ with seq := s' } := by
  by_cases ha : (runSection led prio σ.seq).activeSeq led = some prio
  · rw [if_pos ha] at h
    obtain ⟨n, hn⟩ := exec_loop hpc h
    refine ⟨n + 2, ?_⟩
    rw [List.replicate_succ, List.replicate_succ,
      exec_next (runSection led prio σ.seq) (.runTest led prio) _
        (by simp only [Function.update_self, seqStep]),
      exec_next (runSection led prio σ.seq) (.loop led) _
        (by simp only [Function.update_self, seqStep, ha, if_true])]
    simpa only [Function.update_idem] using hn
  · rw [if_neg ha] at h
    obtain rfl := Option.some.inj h
    have hback : Function.update σ.pc k .idle = σ.pc := by
      rw [← hpc, Function.update_eq_self]
    refine ⟨2, ?_⟩
    rw [List.replicate_succ, List.replicate_succ,
      exec_next (runSection led prio σ.seq) (.runTest led prio) _
        (by simp only [Function.update_self, seqStep]),
      exec_next (runSection led prio σ.seq) .idle _
        (by simp only [Function.update_self, seqStep, ha, if_false])]
    simp only [Function.update_idem, hback, List.replicate_zero, exec_nil]

/-- **A call that nothing comes between** is the call executed to completion. -/
theorem exec_ledCall {fuel : ℕ} {c : LedCall} (hpc : σ.pc k = .idle)
    (h : ledCall fuel σ.seq c = some s') :
    ∃ n, exec threadStep σ (.call k c :: List.replicate n (.next k)) =
      some { σ with seq := s' } := by
  -- a pointer to no sequence of the table
  have hidle : c.entry = .idle → ∃ n, exec threadStep σ (.call k c :: List.replicate n (.next k)) =
      some { σ with seq := σ.seq } := by
    intro he
    refine ⟨0, ?_⟩
    rw [exec_call _ _ hpc, he, ← hpc, Function.update_eq_self]
    rfl
  cases c with
  | run led sequence =>
      rcases hp : getPrio sequence with - | prio
      · simp only [ledCall, ledseqRun, hp] at h
        obtain rfl := Option.some.inj h
        refine hidle ?_
        rw [LedCall.entry, hp]
        rfl
      · simp only [ledCall, ledseqRun, hp] at h
        have hentry : (LedCall.run led sequence).entry = .runTake led prio := by
          rw [LedCall.entry, hp]
          rfl
        obtain ⟨n, hn⟩ := exec_runTake hpc h
        refine ⟨n, ?_⟩
        rw [exec_call _ _ hpc, hentry]
        exact hn
  | stop led sequence =>
      rcases hp : getPrio sequence with - | prio
      · simp only [ledCall, ledseqStop, hp] at h
        obtain rfl := Option.some.inj h
        refine hidle ?_
        rw [LedCall.entry, hp]
        rfl
      · simp only [ledCall, ledseqStop, hp] at h
        have hentry : (LedCall.stop led sequence).entry = .stopTake led prio := by
          rw [LedCall.entry, hp]
          rfl
        obtain ⟨n, hn⟩ := exec_loop hpc h
        refine ⟨n + 1, ?_⟩
        rw [exec_call _ _ hpc, hentry, List.replicate_succ,
          exec_next (stopSection led prio σ.seq) (.loop led) _
            (by simp only [Function.update_self, seqStep])]
        simpa only [Function.update_idem] using hn
  | expire led =>
      obtain ⟨n, hn⟩ := exec_loop hpc h
      exact ⟨n, by rw [exec_call _ _ hpc]; exact hn⟩

end Alone

/-! ### What a statement does -/

/-- The position that the next statement of a context writes. -/
def SeqPc.writes (s : Sequencer) : SeqPc → Option (Led × Prio × ℤ)
  | .runTake led prio => some (led, prio, 0)
  | .stopTake led prio => some (led, prio, seqStop)
  -- not `i + 1`: the position is read again
  | .advance led prio _ => some (led, prio, s.state led prio + 1)
  | .take led prio i =>
      (stepAt prio i).bind fun step =>
        if step.action = seqLoop then some (led, prio, 0)
        else if step.action = seqStop then some (led, prio, seqStop)
        else none
  | _ => none

/-- What a write does to the positions. -/
def written (s : Sequencer) : Option (Led × Prio × ℤ) → Led → Prio → ℤ
  | none => s.state
  | some (led, prio, i) => (setState led prio i s).state

@[simp] theorem written_same (s : Sequencer) (led : Led) (prio : Prio) (i : ℤ) :
    written s (some (led, prio, i)) led prio = i := by
  show Function.update s.state led _ led prio = i
  rw [Function.update_self, Function.update_self]

theorem written_other {s : Sequencer} {led led' : Led} {prio prio' : Prio} (i : ℤ)
    (h : ¬ (led' = led ∧ prio' = prio)) :
    written s (some (led, prio, i)) led' prio' = s.state led' prio' := by
  show Function.update s.state led _ led' prio' = _
  rcases eq_or_ne led' led with rfl | hne
  · rw [Function.update_self, Function.update_of_ne fun hp => h ⟨rfl, hp⟩]
  · rw [Function.update_of_ne hne]

theorem seqStep_state {s s' : Sequencer} {pc pc' : SeqPc} (h : seqStep s pc = some (s', pc')) :
    s'.state = written s (pc.writes s) := by
  cases pc with
  | idle => exact nomatch h
  | runTake | runTest | stopTake | loop | step | advance =>
      obtain ⟨rfl, -⟩ := Prod.mk.inj (Option.some.inj h)
      rfl
  | take led prio i =>
      obtain ⟨step, hs, hr⟩ := Option.map_eq_some_iff.mp h
      obtain ⟨rfl, -⟩ := Prod.mk.inj hr
      simp only [SeqPc.writes, hs, Option.bind_some]
      unfold perform
      split_ifs <;> rfl

/-! ### Properties of a run -/

/-- Every position is `LEDSEQ_STOP` or a step of its sequence. -/
def LedSystem.Inside (σ : LedSystem κ) : Prop := ∀ led, σ.seq.Inside led

/-- An access `sequences[prio][state[led][prio]]` is in bounds. -/
def InBounds (σ : LedSystem κ) : LedEvent κ → Prop
  | .call _ _ => True
  | .next k => ∀ led prio, σ.pc k = .step led prio → InSequence prio (σ.seq.state led prio)

/-- The section of `ledseq_run` for this sequence. -/
def Starts (σ : LedSystem κ) (led : Led) (prio : Prio) : LedEvent κ → Prop
  | .call _ _ => False
  | .next k => σ.pc k = .runTake led prio

/-- A sequence that is stopped stays stopped until it is run. -/
def StaysStopped (σ : LedSystem κ) (e : LedEvent κ) (σ' : LedSystem κ) : Prop :=
  ∀ led prio, σ.seq.state led prio = seqStop → σ'.seq.state led prio ≠ seqStop →
    Starts σ led prio e

/-- A sound step. -/
def Sound (σ : LedSystem κ) (e : LedEvent κ) (σ' : LedSystem κ) : Prop :=
  σ'.Inside ∧ InBounds σ e ∧ StaysStopped σ e σ'

/-- The sequence a context works on has not been stopped since it read
`activeSeq`: not before it takes the address of the step and moves the position
on, nor before it performs a `LOOP`.  And it does not move on from the last step. -/
def SeqPc.Undisturbed (s : Sequencer) : SeqPc → Prop
  | .step led prio => s.state led prio ≠ seqStop
  | .advance led prio _ => s.state led prio ≠ seqStop ∧ InSequence prio (s.state led prio + 1)
  | .take led prio i =>
      (∃ step, stepAt prio i = some step ∧ step.action = seqLoop) → s.state led prio ≠ seqStop
  | _ => True

/-- The condition on a step. -/
def Undisturbed (σ : LedSystem κ) : LedEvent κ → Prop
  | .call _ _ => True
  | .next k => (σ.pc k).Undisturbed σ.seq

omit [DecidableEq κ] in
theorem inside_init : (LedSystem.init κ).Inside := fun _ _ => .inl rfl

/-- A position that is written decides whether all of them are right. -/
theorem inside_written_iff {s s' : Sequencer} {led : Led} {prio : Prio} {i : ℤ}
    (h : ∀ led, s.Inside led) (hs : s'.state = written s (some (led, prio, i))) :
    (∀ led, s'.Inside led) ↔ i = seqStop ∨ InSequence prio i := by
  constructor
  · intro h'
    have hi := h' led prio
    rwa [hs, written_same] at hi
  · intro hi led' prio'
    rw [hs]
    by_cases he : led' = led ∧ prio' = prio
    · obtain ⟨rfl, rfl⟩ := he
      rwa [written_same]
    · rw [written_other i he]
      exact h led' prio'

omit [DecidableEq κ] in
theorem staysStopped_written_iff {σ σ' : LedSystem κ} {e : LedEvent κ} {led : Led} {prio : Prio}
    {i : ℤ} (hs : σ'.seq.state = written σ.seq (some (led, prio, i))) :
    StaysStopped σ e σ' ↔
      (σ.seq.state led prio = seqStop → i ≠ seqStop → Starts σ led prio e) := by
  constructor
  · intro h hstop hi
    refine h led prio hstop ?_
    rwa [hs, written_same]
  · intro h led' prio' hstop hne
    rw [hs] at hne
    by_cases he : led' = led ∧ prio' = prio
    · obtain ⟨rfl, rfl⟩ := he
      rw [written_same] at hne
      exact h hstop hne
    · rw [written_other i he] at hne
      exact absurd hstop hne

omit [DecidableEq κ] in
theorem sound_of_same {σ σ' : LedSystem κ} (h : σ.Inside) (hs : σ'.seq.state = σ.seq.state)
    (e : LedEvent κ) : σ'.Inside ∧ StaysStopped σ e σ' := by
  refine ⟨fun led prio => ?_, fun led prio hstop hne => ?_⟩
  · rw [hs]
    exact h led prio
  · rw [hs] at hne
    exact absurd hstop hne

theorem threadStep_next {σ σ' : LedSystem κ} {k : κ} (h : threadStep σ (.next k) = some σ') :
    ∃ pc, seqStep σ.seq (σ.pc k) = some (σ'.seq, pc) ∧ σ'.pc = Function.update σ.pc k pc := by
  obtain ⟨r, hr, rfl⟩ := Option.map_eq_some_iff.mp h
  exact ⟨r.2, hr, rfl⟩

theorem threadStep_call {σ σ' : LedSystem κ} {k : κ} {c : LedCall}
    (h : threadStep σ (.call k c) = some σ') :
    σ.pc k = .idle ∧ σ'.seq = σ.seq ∧ σ'.pc = Function.update σ.pc k c.entry := by
  by_cases hpc : σ.pc k = .idle
  · simp only [threadStep, if_pos hpc] at h
    obtain rfl := Option.some.inj h
    exact ⟨hpc, rfl, rfl⟩
  · simp only [threadStep, if_neg hpc] at h
    exact nomatch h

section Statement

variable {σ σ' : LedSystem κ} {k : κ} {led : Led} {prio : Prio} {i : ℤ}

omit [DecidableEq κ] in
/-- `state[led][prio]++` is sound if the sequence has not been stopped, and does not
stand on its last step. -/
theorem sound_advance_iff (h : σ.Inside) (hpc : σ.pc k = .advance led prio i)
    (hstate : σ'.seq.state = written σ.seq (some (led, prio, σ.seq.state led prio + 1)))
    (hb : InBounds σ (.next k)) :
    Sound σ (.next k) σ' ↔ (SeqPc.advance led prio i).Undisturbed σ.seq := by
  have hinside := inside_written_iff h hstate
  have hstops : StaysStopped σ (.next k) σ' ↔ _ := staysStopped_written_iff hstate
  have hnext : σ.seq.state led prio + 1 ≠ seqStop := by
    rcases h led prio with hs | hs
    · rw [hs]
      decide
    · have hpos := hs.1
      show _ ≠ (-1 : ℤ)
      omega
  constructor
  · rintro ⟨hin, -, hsound⟩
    refine ⟨fun hstop => ?_, (hinside.mp hin).resolve_left hnext⟩
    have hstart : σ.pc k = .runTake led prio := hstops.mp hsound hstop hnext
    exact nomatch hpc.symm.trans hstart
  · rintro ⟨hne, hin⟩
    exact ⟨hinside.mpr (.inr hin), hb, hstops.mpr fun hstop => absurd hstop hne⟩

omit [DecidableEq κ] in
/-- The section behind it is sound if a `LOOP` finds the sequence not stopped. -/
theorem sound_take_iff {step : LedseqStep} (h : σ.Inside) (hpc : σ.pc k = .take led prio i)
    (hat : stepAt prio i = some step)
    (hstate : σ'.seq.state = written σ.seq ((SeqPc.take led prio i).writes σ.seq))
    (hb : InBounds σ (.next k)) :
    Sound σ (.next k) σ' ↔ (SeqPc.take led prio i).Undisturbed σ.seq := by
  simp only [SeqPc.writes, hat, Option.bind_some] at hstate
  by_cases hloop : step.action = seqLoop
  · rw [if_pos hloop] at hstate
    have hstops : StaysStopped σ (.next k) σ' ↔ _ := staysStopped_written_iff hstate
    constructor
    · rintro ⟨-, -, hsound⟩ - hstop
      have hstart : σ.pc k = .runTake led prio := hstops.mp hsound hstop (by decide)
      exact nomatch hpc.symm.trans hstart
    · intro hund
      exact ⟨(inside_written_iff h hstate).mpr (.inr (inSequence_zero prio)), hb,
        hstops.mpr fun hstop => absurd hstop (hund ⟨step, hat, hloop⟩)⟩
  · rw [if_neg hloop] at hstate
    have hund : (SeqPc.take led prio i).Undisturbed σ.seq := by
      rintro ⟨step', hat', hloop'⟩
      obtain rfl := Option.some.inj (hat.symm.trans hat')
      exact absurd hloop' hloop
    by_cases hstop : step.action = seqStop
    · rw [if_pos hstop] at hstate
      exact iff_of_true ⟨(inside_written_iff h hstate).mpr (.inl rfl), hb,
        (staysStopped_written_iff hstate).mpr fun _ hne => absurd rfl hne⟩ hund
    · rw [if_neg hstop] at hstate
      have hsame := sound_of_same h hstate (.next k)
      exact iff_of_true ⟨hsame.1, hb, hsame.2⟩ hund

end Statement

/-- **One step** is sound exactly under the condition. -/
theorem sound_iff {σ σ' : LedSystem κ} {e : LedEvent κ} (h : σ.Inside)
    (hs : threadStep σ e = some σ') : Sound σ e σ' ↔ Undisturbed σ e := by
  cases e with
  | call k c =>
      have hsame := sound_of_same h (congrArg Sequencer.state (threadStep_call hs).2.1) (.call k c)
      exact iff_of_true ⟨hsame.1, trivial, hsame.2⟩ trivial
  | next k =>
      obtain ⟨pc', hstep, -⟩ := threadStep_next hs
      have hstate := seqStep_state hstep
      -- a statement that accesses no step of a table
      have hbounds : (∀ led prio, σ.pc k ≠ .step led prio) → InBounds σ (.next k) :=
        fun hne led prio hpc => absurd hpc (hne led prio)
      show Sound σ (.next k) σ' ↔ (σ.pc k).Undisturbed σ.seq
      rcases hpc : σ.pc k with - | ⟨led, prio⟩ | ⟨led, prio⟩ | ⟨led, prio⟩ | led | ⟨led, prio⟩ |
        ⟨led, prio, i⟩ | ⟨led, prio, i⟩ <;> rw [hpc] at hstate
      · rw [hpc] at hstep
        exact nomatch hstep
      · refine iff_of_true ⟨(inside_written_iff h hstate).mpr (.inr (inSequence_zero prio)),
          hbounds (by rw [hpc]; nofun), (staysStopped_written_iff hstate).mpr ?_⟩ trivial
        exact fun _ _ => hpc
      · have hsame := sound_of_same h hstate (.next k)
        exact iff_of_true ⟨hsame.1, hbounds (by rw [hpc]; nofun), hsame.2⟩ trivial
      · refine iff_of_true ⟨(inside_written_iff h hstate).mpr (.inl rfl),
          hbounds (by rw [hpc]; nofun), (staysStopped_written_iff hstate).mpr ?_⟩ trivial
        exact fun _ hne => absurd rfl hne
      · have hsame := sound_of_same h hstate (.next k)
        exact iff_of_true ⟨hsame.1, hbounds (by rw [hpc]; nofun), hsame.2⟩ trivial
      · have hsame := sound_of_same h hstate (.next k)
        constructor
        · rintro ⟨-, hin, -⟩ hstop
          exact not_inSequence_stop prio (hstop ▸ hin led prio hpc)
        · intro hne
          refine ⟨hsame.1, fun led' prio' hpc' => ?_, hsame.2⟩
          obtain ⟨rfl, rfl⟩ := SeqPc.step.inj (hpc.symm.trans hpc')
          exact (h led prio).resolve_left hne
      · exact sound_advance_iff h hpc hstate (hbounds (by rw [hpc]; nofun))
      · obtain ⟨step, hat, -⟩ := Option.map_eq_some_iff.mp (hpc ▸ hstep)
        exact sound_take_iff h hpc hat hstate (hbounds (by rw [hpc]; nofun))

/-! ### One context for each sequence -/

/-- The sequence that a context works on, from where it has read `activeSeq` to the
end of the section. -/
def SeqPc.work : SeqPc → Option (Led × Prio)
  | .step led prio => some (led, prio)
  | .advance led prio _ => some (led, prio)
  | .take led prio _ => some (led, prio)
  | _ => none

/-- The sequence that the next statement begins to work on, or stops. -/
def SeqPc.claims (s : Sequencer) : SeqPc → Option (Led × Prio)
  | .stopTake led prio => some (led, prio)
  | .loop led => (s.activeSeq led).map fun prio => (led, prio)
  | _ => none

/-- No other context works on the sequence. -/
def Exclusive (σ : LedSystem κ) : LedEvent κ → Prop
  | .call _ _ => True
  | .next k => ∀ w, (σ.pc k).claims σ.seq = some w → ∀ k', (σ.pc k').work ≠ some w

/-- Every position is `LEDSEQ_STOP` or a step of its sequence, except where a
context stands between `state[led][prio]++` and the section behind it. -/
def LedSystem.AtRest (σ : LedSystem κ) : Prop :=
  ∀ led prio, (∀ k i, σ.pc k ≠ .take led prio i) →
    σ.seq.state led prio = seqStop ∨ InSequence prio (σ.seq.state led prio)

/-- What the position is while a context works on the sequence: `ledseq_run` may set
it back to the first step. -/
def SeqPc.Ok (s : Sequencer) : SeqPc → Prop
  | .step led prio => InSequence prio (s.state led prio)
  | .advance led prio i => InSequence prio i ∧ (s.state led prio = i ∨ s.state led prio = 0)
  | .take led prio i =>
      InSequence prio i ∧
        (s.state led prio = i + 1 ∨ s.state led prio = 0 ∨ s.state led prio = 1)
  | _ => True

/-- The invariant of the runs without a race. -/
structure LedSystem.Guarded (σ : LedSystem κ) : Prop where
  active : ∀ led prio, σ.seq.activeSeq led = some prio → σ.seq.state led prio ≠ seqStop
  alone : ∀ k k' w, (σ.pc k).work = some w → (σ.pc k').work = some w → k = k'
  ok : ∀ k, (σ.pc k).Ok σ.seq
  rest : σ.AtRest

omit [DecidableEq κ] in
theorem guarded_init : (LedSystem.init κ).Guarded where
  active _ _ h := nomatch h
  alone _ _ _ h := nomatch h
  ok _ := trivial
  rest _ _ _ := .inl rfl

theorem inSequence_one (prio : Prio) : InSequence prio 1 := by
  obtain ⟨step, hs, ht⟩ := stepAt_zero prio
  rcases stepAt_cases hs with ⟨-, hn⟩ | hl | hl
  · exact hn
  · exact absurd (hl ▸ ht) (by decide)
  · exact absurd (hl ▸ ht) (by decide)

theorem nonneg_ne_stop {i : ℤ} (h : 0 ≤ i) : i ≠ seqStop := by
  rintro rfl
  exact absurd h (by decide)

/-- A sequence that a context works on is not stopped. -/
theorem SeqPc.Ok.nonneg {s : Sequencer} {pc : SeqPc} {led : Led} {prio : Prio} (h : pc.Ok s)
    (hw : pc.work = some (led, prio)) : 0 ≤ s.state led prio := by
  cases pc with
  | idle | runTake | runTest | stopTake | loop => exact nomatch hw
  | step =>
      obtain ⟨rfl, rfl⟩ := Prod.mk.inj (Option.some.inj hw)
      exact h.1
  | advance =>
      obtain ⟨rfl, rfl⟩ := Prod.mk.inj (Option.some.inj hw)
      rcases h with ⟨hi, hs | hs⟩
      · exact hs ▸ hi.1
      · exact hs.ge
  | take =>
      obtain ⟨rfl, rfl⟩ := Prod.mk.inj (Option.some.inj hw)
      have hpos := h.1.1
      rcases h.2 with hs | hs | hs
      · omega
      · omega
      · omega

/-- What another context writes disturbs a context only if it is on the same
sequence, and not the start of it. -/
theorem SeqPc.Ok.written {s s' : Sequencer} {pc : SeqPc} {w : Option (Led × Prio × ℤ)} (h : pc.Ok s)
    (hs : s'.state = written s w)
    (hw : ∀ led prio i, w = some (led, prio, i) → pc.work = some (led, prio) → i = 0) : pc.Ok s' := by
  have hstate : ∀ led prio, pc.work = some (led, prio) →
      s'.state led prio = s.state led prio ∨ s'.state led prio = 0 := by
    intro led prio hwork
    rw [hs]
    rcases w with - | ⟨led', prio', i⟩
    · exact .inl rfl
    · by_cases he : led = led' ∧ prio = prio'
      · obtain ⟨rfl, rfl⟩ := he
        rw [written_same]
        exact .inr (hw _ _ _ rfl hwork)
      · exact .inl (written_other i he)
  cases pc with
  | idle | runTake | runTest | stopTake | loop => trivial
  | step led prio =>
      show InSequence prio _
      rcases hstate led prio rfl with hsame | hzero
      · rw [hsame]
        exact h
      · rw [hzero]
        exact inSequence_zero prio
  | advance led prio i =>
      refine ⟨h.1, ?_⟩
      rcases hstate led prio rfl with hsame | hzero
      · rw [hsame]
        exact h.2
      · exact .inr hzero
  | take led prio i =>
      refine ⟨h.1, ?_⟩
      rcases hstate led prio rfl with hsame | hzero
      · rw [hsame]
        exact h.2
      · exact .inr (.inl hzero)

section Statement

variable {s s' : Sequencer} {pc pc' : SeqPc} {led : Led} {prio : Prio}

/-- A position is written by the start of the sequence, by its stop, or by a
context that works on it. -/
theorem writes_cases {i : ℤ} (h : pc.writes s = some (led, prio, i)) :
    (pc = .runTake led prio ∧ i = 0) ∨ (pc.claims s = some (led, prio) ∧ i = seqStop) ∨
      pc.work = some (led, prio) := by
  cases pc with
  | idle | runTest | loop | step => exact nomatch h
  | runTake =>
      obtain ⟨rfl, hr⟩ := Prod.mk.inj (Option.some.inj h)
      obtain ⟨rfl, rfl⟩ := Prod.mk.inj hr
      exact .inl ⟨rfl, rfl⟩
  | stopTake =>
      obtain ⟨rfl, hr⟩ := Prod.mk.inj (Option.some.inj h)
      obtain ⟨rfl, rfl⟩ := Prod.mk.inj hr
      exact .inr (.inl ⟨rfl, rfl⟩)
  | advance =>
      obtain ⟨rfl, hr⟩ := Prod.mk.inj (Option.some.inj h)
      obtain ⟨rfl, -⟩ := Prod.mk.inj hr
      exact .inr (.inr rfl)
  | take led' prio' j =>
      obtain ⟨step, -, hw⟩ := Option.bind_eq_some_iff.mp h
      refine .inr (.inr ?_)
      split_ifs at hw
      · obtain ⟨rfl, hr⟩ := Prod.mk.inj (Option.some.inj hw)
        obtain ⟨rfl, -⟩ := Prod.mk.inj hr
        rfl
      · obtain ⟨rfl, hr⟩ := Prod.mk.inj (Option.some.inj hw)
        obtain ⟨rfl, -⟩ := Prod.mk.inj hr
        rfl

/-- A context goes on with the same sequence, begins to work on one, or works on none. -/
theorem seqStep_work (h : seqStep s pc = some (s', pc')) :
    pc'.work = none ∨ pc'.work = pc.work ∨ pc'.work = pc.claims s := by
  cases pc with
  | idle => exact nomatch h
  | runTake | stopTake =>
      obtain ⟨-, rfl⟩ := Prod.mk.inj (Option.some.inj h)
      exact .inl rfl
  | runTest led prio =>
      obtain ⟨-, rfl⟩ := Prod.mk.inj (Option.some.inj h)
      left
      split_ifs <;> rfl
  | loop led =>
      obtain ⟨-, rfl⟩ := Prod.mk.inj (Option.some.inj h)
      right
      right
      rcases ha : s.activeSeq led with - | prio <;> simp only [SeqPc.claims, ha] <;> rfl
  | step | advance =>
      obtain ⟨-, rfl⟩ := Prod.mk.inj (Option.some.inj h)
      exact .inr (.inl rfl)
  | take led prio i =>
      obtain ⟨step, -, hr⟩ := Option.map_eq_some_iff.mp h
      obtain ⟨-, rfl⟩ := Prod.mk.inj hr
      left
      split_ifs <;> rfl

/-- The context itself, if it begins to work on a sequence that is not stopped. -/
theorem seqStep_ok (h : seqStep s pc = some (s', pc')) (hok : pc.Ok s)
    (hclaim : ∀ led prio, pc = .loop led → s.activeSeq led = some prio →
      InSequence prio (s.state led prio)) : pc'.Ok s' := by
  cases pc with
  | idle => exact nomatch h
  | runTake | stopTake =>
      obtain ⟨-, rfl⟩ := Prod.mk.inj (Option.some.inj h)
      trivial
  | runTest led prio =>
      obtain ⟨-, rfl⟩ := Prod.mk.inj (Option.some.inj h)
      split_ifs <;> trivial
  | loop led =>
      obtain ⟨rfl, rfl⟩ := Prod.mk.inj (Option.some.inj h)
      rcases ha : s.activeSeq led with - | prio
      · trivial
      · exact hclaim led prio rfl ha
  | step led prio =>
      obtain ⟨rfl, rfl⟩ := Prod.mk.inj (Option.some.inj h)
      exact ⟨hok, .inl rfl⟩
  | advance led prio i =>
      obtain ⟨rfl, rfl⟩ := Prod.mk.inj (Option.some.inj h)
      have hstate : (advance led prio s).state led prio = s.state led prio + 1 := by
        rw [advance, setState_self, Function.update_self]
      refine ⟨hok.1, ?_⟩
      rw [hstate]
      rcases hok.2 with hs | hs
      · exact .inl (by rw [hs])
      · exact .inr (.inr (by rw [hs]; rfl))
  | take led prio i =>
      obtain ⟨step, -, hr⟩ := Option.map_eq_some_iff.mp h
      obtain ⟨-, rfl⟩ := Prod.mk.inj hr
      split_ifs <;> trivial

/-- `updateActive` after a write. -/
theorem active_updateActive (i : ℤ)
    (ha : ∀ led prio, s.activeSeq led = some prio → s.state led prio ≠ seqStop) (led' : Led)
    (prio' : Prio) (h : (updateActive led (setState led prio i s)).activeSeq led' = some prio') :
    (updateActive led (setState led prio i s)).state led' prio' ≠ seqStop := by
  rcases eq_or_ne led' led with rfl | hne
  · rw [updateActive_self] at h
    exact (first_eq_some_iff.mp h).1
  · have hsame : SameLed led' s (updateActive led (setState led prio i s)) :=
      (sameLed_setState hne i s).trans (sameLed_updateActive hne _)
    rw [hsame.2.1] at h
    rw [hsame.1]
    exact ha led' prio' h

/-- A write that stops nothing. -/
theorem active_written {i : ℤ} (hi : i ≠ seqStop)
    (ha : ∀ led prio, s.activeSeq led = some prio → s.state led prio ≠ seqStop) (led' : Led)
    (prio' : Prio) (h : s.activeSeq led' = some prio') :
    (setState led prio i s).state led' prio' ≠ seqStop := by
  show written s (some (led, prio, i)) led' prio' ≠ seqStop
  by_cases he : led' = led ∧ prio' = prio
  · obtain ⟨rfl, rfl⟩ := he
    rwa [written_same]
  · rw [written_other i he]
    exact ha led' prio' h

/-- What is active is not stopped. -/
theorem seqStep_active (h : seqStep s pc = some (s', pc')) (hok : pc.Ok s)
    (ha : ∀ led prio, s.activeSeq led = some prio → s.state led prio ≠ seqStop) :
    ∀ led prio, s'.activeSeq led = some prio → s'.state led prio ≠ seqStop := by
  cases pc with
  | idle => exact nomatch h
  | runTake | stopTake =>
      obtain ⟨rfl, -⟩ := Prod.mk.inj (Option.some.inj h)
      exact active_updateActive _ ha
  | runTest | loop | step =>
      obtain ⟨rfl, -⟩ := Prod.mk.inj (Option.some.inj h)
      exact ha
  | advance led prio i =>
      obtain ⟨rfl, -⟩ := Prod.mk.inj (Option.some.inj h)
      exact active_written (nonneg_ne_stop (Int.le_add_one (hok.nonneg rfl))) ha
  | take led prio i =>
      obtain ⟨step, -, hr⟩ := Option.map_eq_some_iff.mp h
      obtain ⟨rfl, -⟩ := Prod.mk.inj hr
      unfold perform
      split_ifs
      · exact active_written (nonneg_ne_stop le_rfl) ha
      · exact active_updateActive _ ha
      · exact ha
      · exact ha

/-- What is written is a first step or `LEDSEQ_STOP`, or the position is moved on. -/
theorem writes_value {i : ℤ} (h : pc.writes s = some (led, prio, i)) :
    i = 0 ∨ i = seqStop ∨ ∃ j, pc = .advance led prio j := by
  rcases writes_cases h with ⟨-, hi⟩ | ⟨-, hi⟩ | hw
  · exact .inl hi
  · exact .inr (.inl hi)
  · cases pc with
    | idle | runTake | runTest | stopTake | loop => exact nomatch hw
    | step => exact nomatch h
    | advance led' prio' j =>
        obtain ⟨rfl, rfl⟩ := Prod.mk.inj (Option.some.inj hw)
        exact .inr (.inr ⟨j, rfl⟩)
    | take led' prio' j =>
        obtain ⟨step, -, hv⟩ := Option.bind_eq_some_iff.mp h
        split_ifs at hv
        · exact .inl (Prod.mk.inj (Prod.mk.inj (Option.some.inj hv)).2).2.symm
        · exact .inr (.inl (Prod.mk.inj (Prod.mk.inj (Option.some.inj hv)).2).2.symm)

/-- A section that does not write the position has performed a timed step. -/
theorem inSequence_of_take {i : ℤ} (h : seqStep s (.take led prio i) = some (s', pc'))
    (hw : ∀ j, (SeqPc.take led prio i).writes s ≠ some (led, prio, j)) :
    InSequence prio (i + 1) := by
  obtain ⟨step, hs, -⟩ := Option.map_eq_some_iff.mp h
  simp only [SeqPc.writes, hs, Option.bind_some] at hw
  rcases stepAt_cases hs with ⟨-, hn⟩ | hl | hl
  · exact hn
  · exact absurd (if_pos hl) (hw 0)
  · have hloop : step.action ≠ seqLoop := by rw [hl]; decide
    rw [if_neg hloop] at hw
    exact absurd (if_pos hl) (hw seqStop)

end Statement

theorem SeqPc.Ok.of_idle {s : Sequencer} {pc : SeqPc} (h : pc.work = none) : pc.Ok s := by
  cases pc with
  | idle | runTake | runTest | stopTake | loop => trivial
  | step | advance | take => exact nomatch h

theorem LedCall.entry_work (c : LedCall) : c.entry.work = none := by
  cases c with
  | run led sequence | stop led sequence =>
      rcases hp : getPrio sequence with - | prio <;> simp only [LedCall.entry, hp] <;> rfl
  | expire led => rfl

section Guarded

variable {σ σ' : LedSystem κ} {e : LedEvent κ}

/-- A call begins to work on nothing. -/
theorem LedSystem.Guarded.call {k : κ} {c : LedCall} (h : σ.Guarded)
    (hs : threadStep σ (.call k c) = some σ') : σ'.Guarded := by
  obtain ⟨hidle, hseq, hpc⟩ := threadStep_call hs
  have hwork : ∀ k', (σ'.pc k').work = (σ.pc k').work := by
    intro k'
    rw [hpc]
    rcases eq_or_ne k' k with rfl | hne
    · rw [Function.update_self, c.entry_work, hidle]
      rfl
    · rw [Function.update_of_ne hne]
  refine ⟨by rw [hseq]; exact h.active, fun k₁ k₂ w h₁ h₂ => ?_, fun k' => ?_, fun led prio hno => ?_⟩
  · rw [hwork] at h₁ h₂
    exact h.alone k₁ k₂ w h₁ h₂
  · rw [hseq, hpc]
    rcases eq_or_ne k' k with rfl | hne
    · rw [Function.update_self]
      exact .of_idle c.entry_work
    · rw [Function.update_of_ne hne]
      exact h.ok k'
  · rw [hseq]
    refine h.rest led prio fun k' i htake => ?_
    rcases eq_or_ne k' k with rfl | hne
    · exact nomatch hidle.symm.trans htake
    · refine hno k' i ?_
      rw [hpc, Function.update_of_ne hne, htake]

section Next

variable {k : κ} {pc' : SeqPc}

/-- A context begins to work on a sequence that no other one works on. -/
theorem LedSystem.Guarded.alone_next (h : σ.Guarded) (he : Exclusive σ (.next k))
    (hstep : seqStep σ.seq (σ.pc k) = some (σ'.seq, pc'))
    (hpc : σ'.pc = Function.update σ.pc k pc') (k₁ k₂ : κ) (w : Led × Prio)
    (h₁ : (σ'.pc k₁).work = some w) (h₂ : (σ'.pc k₂).work = some w) : k₁ = k₂ := by
  have hself : σ'.pc k = pc' := by rw [hpc, Function.update_self]
  have hother : ∀ k', k' ≠ k → σ'.pc k' = σ.pc k' := fun k' hne => by
    rw [hpc, Function.update_of_ne hne]
  have hnew : ∀ k', k' ≠ k → (σ.pc k').work = some w → pc'.work ≠ some w := by
    intro k' hne hw hw'
    rcases seqStep_work hstep with hn | hsame | hclaim
    · exact nomatch hn.symm.trans hw'
    · exact hne (h.alone k' k w hw (hsame ▸ hw'))
    · exact he w (hclaim ▸ hw') k' hw
  -- only the context that has moved can be new on the sequence
  by_cases he₁ : k₁ = k <;> by_cases he₂ : k₂ = k
  · exact he₁.trans he₂.symm
  · rw [he₁, hself] at h₁
    rw [hother k₂ he₂] at h₂
    exact absurd h₁ (hnew k₂ he₂ h₂)
  · rw [hother k₁ he₁] at h₁
    rw [he₂, hself] at h₂
    exact absurd h₂ (hnew k₁ he₁ h₁)
  · rw [hother k₁ he₁] at h₁
    rw [hother k₂ he₂] at h₂
    exact h.alone k₁ k₂ w h₁ h₂

/-- The position of a sequence is right again behind the section. -/
theorem LedSystem.Guarded.rest_next (h : σ.Guarded)
    (hstep : seqStep σ.seq (σ.pc k) = some (σ'.seq, pc'))
    (hpc : σ'.pc = Function.update σ.pc k pc') : σ'.AtRest := by
  intro led prio hno
  rw [seqStep_state hstep]
  by_cases hw : ∃ i, (σ.pc k).writes σ.seq = some (led, prio, i)
  · -- the statement writes this position
    obtain ⟨i, hi⟩ := hw
    rw [hi, written_same]
    rcases writes_value hi with rfl | rfl | ⟨j, hadv⟩
    · exact .inr (inSequence_zero prio)
    · exact .inl rfl
    · have hself : σ'.pc k = pc' := by rw [hpc, Function.update_self]
      rw [hadv] at hstep
      exact absurd (hself.trans (Prod.mk.inj (Option.some.inj hstep)).2.symm) (hno k j)
  · have hsame : written σ.seq ((σ.pc k).writes σ.seq) led prio = σ.seq.state led prio := by
      rcases hv : (σ.pc k).writes σ.seq with - | ⟨led', prio', i⟩
      · rfl
      · refine written_other i fun heq => hw ⟨i, ?_⟩
        rw [hv, heq.1, heq.2]
    rw [hsame]
    by_cases htake : ∃ i, σ.pc k = .take led prio i
    · -- a section that leaves the position where the increment has put it
      obtain ⟨i, hi⟩ := htake
      have hok := h.ok k
      rw [hi] at hok hstep hw
      rcases hok.2 with hs' | hs' | hs'
      · rw [hs']
        exact .inr (inSequence_of_take hstep fun j hj => hw ⟨j, hj⟩)
      · rw [hs']
        exact .inr (inSequence_zero prio)
      · rw [hs']
        exact .inr (inSequence_one prio)
    · refine h.rest led prio fun k' i hi => ?_
      rcases eq_or_ne k' k with rfl | hne
      · exact htake ⟨i, hi⟩
      · refine hno k' i ?_
        rw [hpc, Function.update_of_ne hne, hi]

/-- The position stays what the contexts take it for. -/
theorem LedSystem.Guarded.ok_next (h : σ.Guarded) (he : Exclusive σ (.next k))
    (hstep : seqStep σ.seq (σ.pc k) = some (σ'.seq, pc'))
    (hpc : σ'.pc = Function.update σ.pc k pc') (k' : κ) : (σ'.pc k').Ok σ'.seq := by
  rcases eq_or_ne k' k with rfl | hne
  · rw [hpc, Function.update_self]
    refine seqStep_ok hstep (h.ok k') fun led prio hloop ha => ?_
    refine (h.rest led prio fun k₁ i htake => ?_).resolve_left (h.active led prio ha)
    refine he (led, prio) ?_ k₁ (by rw [htake]; rfl)
    rw [hloop, SeqPc.claims, ha]
    rfl
  · rw [hpc, Function.update_of_ne hne]
    refine (h.ok k').written (seqStep_state hstep) fun led prio i hw hwork => ?_
    rcases writes_cases hw with ⟨-, hi⟩ | ⟨hclaim, -⟩ | hwork'
    · exact hi
    · exact absurd hwork (he _ hclaim k')
    · exact absurd (h.alone k' k _ hwork hwork') hne

end Next

/-- A step that meets the condition keeps the invariant. -/
theorem LedSystem.Guarded.step (h : σ.Guarded) (he : Exclusive σ e)
    (hs : threadStep σ e = some σ') : σ'.Guarded := by
  rcases e with ⟨k, c⟩ | k
  · exact h.call hs
  · obtain ⟨pc', hstep, hpc⟩ := threadStep_next hs
    exact ⟨seqStep_active hstep (h.ok k) h.active, h.alone_next he hstep hpc,
      h.ok_next he hstep hpc, h.rest_next hstep hpc⟩

/-- A step from a state of the invariant is in bounds and revives nothing. -/
theorem LedSystem.Guarded.sound (h : σ.Guarded) (hs : threadStep σ e = some σ') :
    InBounds σ e ∧ StaysStopped σ e σ' := by
  rcases e with ⟨k, c⟩ | k
  · refine ⟨trivial, fun led prio hstop hne => ?_⟩
    rw [(threadStep_call hs).2.1] at hne
    exact absurd hstop hne
  obtain ⟨pc', hstep, -⟩ := threadStep_next hs
  have hstate := seqStep_state hstep
  constructor
  · intro led prio hpc
    have hok := h.ok k
    rwa [hpc] at hok
  · intro led prio hstop hne
    rw [hstate] at hne
    rcases hv : (σ.pc k).writes σ.seq with - | ⟨led', prio', i⟩
    · rw [hv] at hne
      exact absurd hstop hne
    · rw [hv] at hne
      by_cases he : led = led' ∧ prio = prio'
      · obtain ⟨rfl, rfl⟩ := he
        rw [written_same] at hne
        rcases writes_cases hv with ⟨hrun, -⟩ | ⟨-, hi⟩ | hwork
        · exact hrun
        · exact absurd hi hne
        · exact absurd hstop (nonneg_ne_stop ((h.ok k).nonneg hwork))
      · rw [written_other i he] at hne
        exact absurd hstop hne

end Guarded

/-! ### Runs -/

/-- What is left of a sound step between the increment of a position and its section. -/
def SoundAtRest (σ : LedSystem κ) (e : LedEvent κ) (σ' : LedSystem κ) : Prop :=
  σ'.AtRest ∧ InBounds σ e ∧ StaysStopped σ e σ'

/-- **The sequencer under interleaving.**  After `ledseq_init` the steps of a run are
all sound exactly if no sequence is stopped under a context that works on it,
and none is moved on from its last step.  And if no sequence is stopped or
worked on by two contexts at once, then only the moment behind
`state[led][prio]++` is left out. -/
theorem ledseq_race_iff (κ : Type*) [DecidableEq κ] (es : List (LedEvent κ)) :
    (Along threadStep Sound (LedSystem.init κ) es ↔
      Along threadStep (fun σ e _ => Undisturbed σ e) (LedSystem.init κ) es) ∧
    (Along threadStep (fun σ e _ => Exclusive σ e) (LedSystem.init κ) es →
      Along threadStep SoundAtRest (LedSystem.init κ) es) := by
  constructor
  · refine Along.congr (I := LedSystem.Inside) es inside_init ?_ ?_
    · exact fun σ e σ' h he hs => ((sound_iff h hs).mpr he).1
    · exact fun σ e σ' h hs => sound_iff h hs
  · intro hal
    refine hal.mono (I := LedSystem.Guarded) guarded_init fun σ e σ' h he hs => ?_
    exact ⟨h.step he hs, (h.step he hs).rest, h.sound hs⟩

/-- A thread runs `seq_alive`; the callback of the timer has read `activeSeq`. -/
def callbackAlive : List (LedEvent Bool) :=
  .call true (.run .ledNet (some .alive)) :: List.replicate 6 (.next true) ++
    [.call false (.expire .ledNet), .next false]

/-- A thread runs `seq_power_on`; the callback of the timer is at its last step. -/
def callbackPowerOn : List (LedEvent Bool) :=
  .call true (.run .ledNet (some .powerOn)) :: List.replicate 6 (.next true) ++
    [.call false (.expire .ledNet), .next false, .next false]

/-- A stop before the address is taken, so that it is the address of
`sequences[prio][-1]`; a stop behind it, that the increment takes back; and an
increment on the last step. -/
theorem ledseq_race_fails :
    ¬ Along threadStep (fun σ e _ => InBounds σ e) (LedSystem.init Bool)
        (callbackAlive ++ [.call true (.stop .ledNet (some .alive)), .next true] ++ [.next false]) ∧
      ¬ Along threadStep StaysStopped (LedSystem.init Bool)
        (callbackAlive ++ [.next false, .call true (.stop .ledNet (some .alive)), .next true] ++
          [.next false]) ∧
      ¬ Along threadStep (fun _ _ σ' => σ'.Inside) (LedSystem.init Bool)
        (callbackPowerOn ++ [.next false]) := by
  refine ⟨fun h => ?_, fun h => ?_, fun h => ?_⟩
  · have hlast := (h.append_right rfl _ rfl).1 .ledNet 8 rfl
    exact absurd hlast.1 (by decide)
  · have hlast := (h.append_right rfl _ rfl).1 .ledNet 8 rfl (by decide)
    exact nomatch hlast
  · have hlast := (h.append_right rfl _ rfl).1 .ledNet 2
    rcases hlast with hstop | hin
    · exact absurd hstop (by decide)
    · exact absurd hin.2 (by decide)

end DolphinNote
