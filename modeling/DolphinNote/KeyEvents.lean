/-
DolphinNote/KeyEvents.lean

The events that the key thread posts into `F_key_state`.

The main loop acts on a long press of NET (states 2 and 5) and on a short press of
SNP (state 5).  Each of the three blocks begins with `F_key_state = 0`, which
clears the six bits at once: an event that is pending besides, one posted between
the test and this statement, and a second press of the same key all go with it.
`key_events_iff`: the books balance in a run exactly if at most one event has been
posted whenever the byte is cleared.
-/
import DolphinNote.Control
import DolphinNote.History

namespace DolphinNote

open Transition

/-! ### The books -/

/-- The bit whose event the statement begins to act on: it clears `F_key_state`. -/
def Pc.actsOn : Pc → Option UInt8
  | .keyClear | .netClear => some keyNetLongPush
  | .snpClear => some keySnpShortPush
  | _ => none

/-- The event posted by the step. -/
def postedBit (t : Taken Sys Event) : Option UInt8 :=
  match t.label with
  | .key bit => some bit
  | _ => none

/-- The event acted on by the step. -/
def actedBit (t : Taken Sys Event) : Option UInt8 :=
  match t.label with
  | .main _ _ => t.before.pc.actsOn
  | _ => none

/-- The events posted in the past. -/
def posted (h : List (Taken Sys Event)) : List UInt8 := h.filterMap postedBit

/-- The events acted on in the past. -/
def acted (h : List (Taken Sys Event)) : List UInt8 := h.filterMap actedBit

/-- The events posted since the byte was last cleared. -/
def held (h : List (Taken Sys Event)) : List UInt8 :=
  posted (h.takeWhile fun t => (actedBit t).isNone)

/-- No event is lost or invented: of each key, what has been posted has been acted
on, one for one, but for what is still pending in `F_key_state`. -/
def Balanced (h : List (Taken Sys Event)) (s : Sys) : Prop :=
  ∀ bit ∈ keyBits, (acted h).count bit ≤ (posted h).count bit ∧
    (s.fKeyState &&& bit = bit ↔ (acted h).count bit < (posted h).count bit)

/-- Where the byte is cleared, at most one event has been posted since it was
cleared last. -/
def ClearsOne (h : List (Taken Sys Event)) (s : Sys) : Event → Prop
  | .main _ _ => s.pc.actsOn ≠ none → (held h).length ≤ 1
  | _ => True

/-- The six keys. -/
theorem forall_keyBits {P : UInt8 → Prop} :
    (∀ b ∈ keyBits, P b) ↔ P 0x01 ∧ P 0x02 ∧ P 0x04 ∧ P 0x08 ∧ P 0x10 ∧ P 0x20 := by
  simp [keyBits]

instance (h : List (Taken Sys Event)) (s : Sys) : Decidable (Balanced h s) :=
  decidable_of_iff _ forall_keyBits.symm

instance (h : List (Taken Sys Event)) (s : Sys) : (e : Event) → Decidable (ClearsOne h s e)
  | .main .. => inferInstanceAs (Decidable (s.pc.actsOn ≠ none → (held h).length ≤ 1))
  | .led | .key _ | .phone .. | .screen .. | .transmit | .tick => inferInstanceAs (Decidable True)

/-! ### The byte -/

/-- One bit more. -/
theorem or_key {f bit b : UInt8} (hbit : bit ∈ keyBits) (hb : b ∈ keyBits) :
    (f ||| bit) &&& b = b ↔ f &&& b = b ∨ b = bit := by
  have hkeys : ∀ x ∈ keyBits, ∀ y ∈ keyBits, x &&& y = if y = x then y else 0 := by
    simp only [forall_keyBits]
    decide
  have hdistrib : (f ||| bit) &&& b = (f &&& b) ||| (bit &&& b) :=
    UInt8.toBitVec_inj.mp BitVec.and_or_distrib_right
  rw [hdistrib, hkeys bit hbit b hb]
  split_ifs with h
  · have habsorb : (f &&& b) ||| b = b := by
      apply UInt8.toBitVec_inj.mp
      ext i hi
      simp
    exact iff_of_true habsorb (.inr h)
  · rw [UInt8.or_zero]
    exact (or_iff_left h).symm

/-- The main loop writes the byte where it begins to act on an event. -/
theorem mainStep_fKeyState (again : Bool) (staip : Option (Buffer 4)) (s : Sys) :
    (mainStep again staip s).fKeyState = if s.pc.actsOn = none then s.fKeyState else 0 := by
  cases hpc : s.pc with
  | ipCopy i | endIP i | recCopy i | ack a i sum =>
      simp only [mainStep, hpc, Pc.actsOn]
      split <;> rfl
  | _ => simp [mainStep, hpc, Pc.actsOn, Sys.goto, Sys.assign]

/-- It begins to act on an event that it has found in the byte. -/
theorem mainStep_actsOn {again : Bool} {staip : Option (Buffer 4)} {s : Sys} {bit : UInt8}
    (h : (mainStep again staip s).pc.actsOn = some bit) :
    s.pc.actsOn = none ∧ s.fKeyState &&& bit = bit := by
  cases hpc : s.pc with
  | keyTest | netTest | snpTest =>
      simp only [mainStep, hpc, Sys.goto] at h
      split_ifs at h with hbit
      · obtain rfl := Option.some.inj h
        exact ⟨rfl, hbit⟩
      · cases h
  | ack a i sum =>
      simp only [mainStep, hpc] at h
      split at h
      · cases h
      · cases a <;> cases h
  | put p => cases p <;> simp [mainStep, hpc, Put.next, Pc.actsOn] at h
  | top =>
      simp only [mainStep, hpc, Sys.goto] at h
      split at h <;> cases h
  | cfgWait | portWait | searchTest | phoneTest | ipWait | completeTest | linkTest
  | penTest | penUp | idleTest | endTest | timeTest | downTest | recTest
  | recWait | ipCopy | endIP | recCopy | recCmp =>
      simp only [mainStep, hpc, Sys.goto, Sys.assign] at h
      split_ifs at h <;> cases h
  | _ => simp [mainStep, hpc, Sys.goto, Sys.assign, Pc.actsOn] at h

/-! ### One step more -/

section Books

variable {h : List (Taken Sys Event)} {t : Taken Sys Event} {s s' : Sys} {e : Event} {b : UInt8}

theorem held_cons_post (hp : postedBit t = some b) (ha : actedBit t = none) :
    held (t :: h) = b :: held h := by
  simp only [held, posted, List.takeWhile_cons, ha, Option.isNone_none, if_true]
  exact List.filterMap_cons_some hp

theorem held_cons_other (hp : postedBit t = none) (ha : actedBit t = none) :
    held (t :: h) = held h := by
  simp only [held, posted, List.takeWhile_cons, ha, Option.isNone_none, if_true]
  exact List.filterMap_cons_none hp

theorem held_cons_act (ha : actedBit t = some b) : held (t :: h) = [] := by
  simp [held, posted, ha]

/-- The books: what is pending has been posted since the byte was cleared, and
with what has been acted on it is all that has been posted. -/
structure KeyBooks (h : List (Taken Sys Event)) (s : Sys) : Prop where
  acting : ∀ bit, s.pc.actsOn = some bit → s.fKeyState &&& bit = bit
  shown : ∀ bit ∈ keyBits, (s.fKeyState &&& bit = bit ↔ bit ∈ held h)
  keys : ∀ bit ∈ held h, bit ∈ keyBits
  balance : ∀ bit, (posted h).count bit = (acted h).count bit + (held h).count bit

theorem keyBooks_powerOn : KeyBooks [] Sys.powerOn :=
  ⟨nofun, forall_keyBits.mpr (by decide), nofun, fun _ => rfl⟩

theorem KeyBooks.balanced (hi : KeyBooks h s) : Balanced h s := by
  intro bit hbit
  have hbal := hi.balance bit
  refine ⟨by omega, (hi.shown bit hbit).trans ?_⟩
  rw [← List.count_pos_iff]
  omega

/-- The keys that are acted on. -/
theorem actsOn_mem {pc : Pc} (ha : pc.actsOn = some b) : b ∈ keyBits := by
  unfold Pc.actsOn at ha
  split at ha
  · obtain rfl := Option.some.inj ha
    decide
  · obtain rfl := Option.some.inj ha
    decide
  · obtain rfl := Option.some.inj ha
    decide
  · exact nomatch ha

/-- A step that does not clear the byte keeps the books. -/
theorem KeyBooks.kept (hi : KeyBooks h s) (hs : Steps s e s')
    (ha : actedBit ⟨s, e, s'⟩ = none) : KeyBooks (⟨s, e, s'⟩ :: h) s' := by
  have hacted : acted (⟨s, e, s'⟩ :: h) = acted h := List.filterMap_cons_none ha
  cases hp : postedBit ⟨s, e, s'⟩ with
  | some b =>
      -- an event is posted: the bit is set, and one more is held
      have hheld := held_cons_post (h := h) hp ha
      have hposted : posted (⟨s, e, s'⟩ :: h) = b :: posted h := List.filterMap_cons_some hp
      cases hs with
      | @key bit hbit =>
          obtain rfl := Option.some.inj hp
          refine ⟨fun c hc => ?_, fun c hc => ?_, ?_, fun c => ?_⟩
          · exact (or_key hbit (actsOn_mem hc)).mpr (.inl (hi.acting c hc))
          · rw [hheld, List.mem_cons, ← hi.shown c hc]
            exact (or_key hbit hc).trans or_comm
          · rw [hheld]
            exact List.forall_mem_cons.mpr ⟨hbit, hi.keys⟩
          · rw [hacted, hheld, hposted, List.count_cons, List.count_cons, hi.balance c, Nat.add_assoc]
      | main | led | phone | screen | transmit | tick => exact nomatch hp
  | none =>
      -- neither posted nor acted on: the byte and the books stay
      have hheld := held_cons_other (h := h) hp ha
      have hposted : posted (⟨s, e, s'⟩ :: h) = posted h := List.filterMap_cons_none hp
      have hkept : s'.fKeyState = s.fKeyState ∧
          ∀ bit, s'.pc.actsOn = some bit → s.fKeyState &&& bit = bit := by
        cases hs with
        | main again staip =>
            rw [mainStep_fKeyState, if_pos (show s.pc.actsOn = none from ha)]
            exact ⟨rfl, fun bit hbit => (mainStep_actsOn hbit).2⟩
        | led =>
            obtain ⟨flag, cnt, led, hled⟩ := ledStep_frame s
            rw [hled]
            exact ⟨rfl, hi.acting⟩
        | key => exact nomatch hp
        | phone | screen | transmit | tick => exact ⟨rfl, hi.acting⟩
      refine ⟨fun c hc => ?_, fun c hc => ?_, ?_, fun c => ?_⟩
      · rw [hkept.1]
        exact hkept.2 c hc
      · rw [hheld, hkept.1]
        exact hi.shown c hc
      · rw [hheld]
        exact hi.keys
      · rw [hacted, hheld, hposted]
        exact hi.balance c

/-- The byte is cleared: the books balance exactly if one event was pending. -/
theorem KeyBooks.cleared {again : Bool} {staip : Option (Buffer 4)} (hi : KeyBooks h s)
    (ha : s.pc.actsOn = some b) :
    Balanced (⟨s, .main again staip, mainStep again staip s⟩ :: h) (mainStep again staip s) ↔
      held h = [b] := by
  have hb := actsOn_mem ha
  have hmem : b ∈ held h := (hi.shown b hb).mp (hi.acting b ha)
  have hzero : (mainStep again staip s).fKeyState = 0 := by
    rw [mainStep_fKeyState, if_neg (by simp [ha])]
  set t : Taken Sys Event := ⟨s, .main again staip, mainStep again staip s⟩ with ht
  have hacted : acted (t :: h) = b :: acted h := List.filterMap_cons_some ha
  have hposted : posted (t :: h) = posted h := List.filterMap_cons_none rfl
  have hpending : ∀ bit ∈ keyBits, ¬ (mainStep again staip s).fKeyState &&& bit = bit := by
    rw [hzero, forall_keyBits]
    decide
  constructor
  · intro hbal
    -- nothing is pending any more, so all that was held has been acted on
    have hcount : ∀ bit, (held h).count bit = [b].count bit := by
      intro bit
      by_cases hbit : bit ∈ keyBits
      · obtain ⟨hle, hiff⟩ := hbal bit hbit
        have hge := not_lt.mp fun hlt => hpending bit hbit (hiff.mpr hlt)
        have heq := le_antisymm hle hge
        rw [hacted, hposted, List.count_cons, hi.balance bit] at heq
        rw [List.count_singleton]
        omega
      · rw [List.count_eq_zero_of_not_mem fun hm => hbit (hi.keys bit hm), eq_comm]
        exact List.count_eq_zero_of_not_mem fun hm => hbit (List.mem_singleton.mp hm ▸ hb)
    exact List.perm_singleton.mp (List.perm_iff_count.mpr hcount)
  · intro hone bit hbit
    have hbal := hi.balance bit
    rw [hone, List.count_singleton] at hbal
    rw [hacted, hposted, List.count_cons, hbal]
    exact ⟨le_rfl, iff_of_false (hpending bit hbit) (lt_irrefl _)⟩

/-- Behind the clearing of the one event that was pending. -/
theorem KeyBooks.acted_one {again : Bool} {staip : Option (Buffer 4)} (hi : KeyBooks h s)
    (ha : s.pc.actsOn = some b) (hone : held h = [b]) :
    KeyBooks (⟨s, .main again staip, mainStep again staip s⟩ :: h) (mainStep again staip s) := by
  have hheld : held (⟨s, .main again staip, mainStep again staip s⟩ :: h) = [] := held_cons_act ha
  have hzero : (mainStep again staip s).fKeyState = 0 := by
    rw [mainStep_fKeyState, if_neg (by simp [ha])]
  refine ⟨fun bit hbit => ?_, fun bit hbit => ?_, ?_, fun bit => ?_⟩
  · exact nomatch ha.symm.trans (mainStep_actsOn hbit).1
  · rw [hheld, hzero]
    refine iff_of_false ?_ List.not_mem_nil
    revert bit
    rw [forall_keyBits]
    decide
  · rw [hheld]
    exact nofun
  · have hbal := hi.balance bit
    rw [hone, List.count_singleton] at hbal
    set t : Taken Sys Event := ⟨s, .main again staip, mainStep again staip s⟩ with ht
    have hacted : acted (t :: h) = b :: acted h := List.filterMap_cons_some ha
    have hposted : posted (t :: h) = posted h := List.filterMap_cons_none rfl
    rw [hheld, hacted, hposted, List.count_cons, hbal, List.count_nil, Nat.add_zero]

/-- With the books in order, one event at most is pending where exactly one is. -/
theorem KeyBooks.clearsOne_iff {again : Bool} {staip : Option (Buffer 4)} (hi : KeyBooks h s)
    (ha : s.pc.actsOn = some b) : ClearsOne h s (.main again staip) ↔ held h = [b] := by
  have hmem : b ∈ held h := (hi.shown b (actsOn_mem ha)).mp (hi.acting b ha)
  constructor
  · intro hc
    have hle : (held h).length ≤ 1 := hc (by simp [ha])
    rcases hh : held h with - | ⟨c, l⟩
    · rw [hh] at hmem
      exact absurd hmem List.not_mem_nil
    · rw [hh, List.length_cons] at hle
      obtain rfl := List.length_eq_zero_iff.mp (show l.length = 0 by omega)
      rw [hh] at hmem
      rw [List.mem_singleton.mp hmem]
  · intro hone _
    rw [hone, List.length_singleton]

end Books

/-- **Key events** are neither lost nor invented in a run exactly if, whenever the
main loop clears `F_key_state`, at most one event has been posted since it did so
last. -/
theorem key_events_iff (as : List Event) :
    AlongPast step (fun h s e s' => Balanced (⟨s, e, s'⟩ :: h) s') Sys.powerOn as ↔
      AlongPast step (fun h s e _ => ClearsOne h s e) Sys.powerOn as := by
  refine Along.congr (I := fun r => KeyBooks r.2 r.1) as keyBooks_powerOn ?_ ?_
  · rintro ⟨s, h⟩ e r' hi hc hr
    obtain ⟨s', hs, rfl⟩ := recorded_eq_some.mp hr
    cases ha : actedBit ⟨s, e, s'⟩ with
    | none => exact hi.kept (steps_of_step hs) ha
    | some b =>
        cases e with
        | main again staip =>
            obtain rfl := Option.some.inj hs
            exact hi.acted_one ha ((hi.clearsOne_iff ha).mp hc)
        | _ => exact nomatch ha
  · rintro ⟨s, h⟩ e r' hi hr
    obtain ⟨s', hs, rfl⟩ := recorded_eq_some.mp hr
    cases ha : actedBit ⟨s, e, s'⟩ with
    | none =>
        -- both hold of a step that does not clear the byte
        refine iff_of_true (hi.kept (steps_of_step hs) ha).balanced ?_
        cases e with
        | main again staip => exact fun hne => absurd (show s.pc.actsOn = none from ha) hne
        | _ => trivial
    | some b =>
        cases e with
        | main again staip =>
            obtain rfl := Option.some.inj hs
            exact (hi.cleared ha).trans (hi.clearsOne_iff ha).symm
        | _ => exact nomatch ha

/-- In a session, acting on NET takes the press of SNP with it that came besides. -/
theorem key_events_fails :
    (exec step Sys.powerOn opened).map (fun s => (s.mainFuctionState, s.g.netCompleteFlag)) =
        some (5, 1) ∧
      ¬ AlongPast step (fun h s e s' => Balanced (⟨s, e, s'⟩ :: h) s') Sys.powerOn
        (opened ++ .key keyNetLongPush :: .key keySnpShortPush :: List.replicate 8 .next) := by
  decide +kernel

end DolphinNote
