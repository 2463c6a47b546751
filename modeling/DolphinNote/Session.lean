/-
DolphinNote/Session.lean

Pairing and the opening of a session.

* Pairing: while `is_First_connect` is 0, the phone's ID and address and the
  reconnection flag should be in the hands of the paired phone.  They are,
  exactly if no search frame with another ID passes the bar code, and the
  meeting-end block does not erase a new address.
* Opening: from the end of `cc3200_set_udpIP` until state 4 is left, the link
  flag should stay up.  It does as long as no refused request and no fourth
  missed heartbeat falls into this window; if it does not, state 4 is never
  left again.
-/
import DolphinNote.Control

namespace DolphinNote

open Transition

/-! ### Pairing -/

/-- The event is a connection request with the right bar code and the paired
phone's ID. -/
def OwnRequest (s : Sys) : Event → Prop
  | .phone dataBuf _ =>
      HasCode dataBuf 0x75 ∧ barCodeErr dataBuf = false ∧ frameID dataBuf = s.g.phoneID
  | _ => False

/-- `cc3200_reconnect` is about to clear the reconnection flag. -/
def ReconnectClears (s : Sys) : Event → Prop
  | .main _ _ => s.pc = .recClear
  | _ => False

/-- What pairing asks of one step while `is_First_connect` stays 0: the ID
stays, the address and the reconnection flag change only on the paired phone's
requests, and `cc3200_reconnect` may clear the flag. -/
def PairingKept (s : Sys) (e : Event) (s' : Sys) : Prop :=
  s.g.isFirstConnect = 0 → s'.g.isFirstConnect = 0 →
    s'.g.phoneID = s.g.phoneID ∧ (s'.g.phoneIP ≠ s.g.phoneIP → OwnRequest s e) ∧
      (s'.g.netReconnectFlag ≠ s.g.netReconnectFlag →
        OwnRequest s e ∨ (ReconnectClears s e ∧ s'.g.netReconnectFlag = 0))

/-- No search frame with another ID passes, and the meeting-end block erases
no new address. -/
def PairingSafe (s : Sys) : Event → Prop
  | .phone dataBuf _ => s.g.isFirstConnect = 0 → HasCode dataBuf 0x78 →
      barCodeErr dataBuf = false → frameID dataBuf = s.g.phoneID
  | .main _ _ => s.g.isFirstConnect = 0 → ∀ i < 4, s.pc = .endIP i → s.g.phoneIP.rd i = 0
  | _ => True

instance (s : Sys) : (e : Event) → Decidable (OwnRequest s e)
  | .phone dataBuf _ => inferInstanceAs <| Decidable
      (HasCode dataBuf 0x75 ∧ barCodeErr dataBuf = false ∧ frameID dataBuf = s.g.phoneID)
  | .main .. | .led | .key _ | .screen .. | .transmit | .tick => inferInstanceAs (Decidable False)

instance (s : Sys) : (e : Event) → Decidable (ReconnectClears s e)
  | .main .. => inferInstanceAs (Decidable (s.pc = .recClear))
  | .phone .. | .led | .key _ | .screen .. | .transmit | .tick => inferInstanceAs (Decidable False)

instance (s : Sys) (e : Event) (s' : Sys) : Decidable (PairingKept s e s') := by
  unfold PairingKept; infer_instance

theorem phoneIDErr_eq_false {g : Globals} {dataBuf : Buffer 50} :
    phoneIDErr g dataBuf = false ↔ frameID dataBuf = g.phoneID := by
  unfold phoneIDErr
  rw [← Bool.not_eq_true, List.any_eq_true]
  constructor
  · intro h
    refine Buffer.ext_rd fun i hi => ?_
    rw [frameID, Buffer.rd_tabulate _ hi]
    by_contra hne
    exact h ⟨i, List.mem_range.mpr hi, by simpa using hne⟩
  · rintro h ⟨i, hi, hne⟩
    have hi := List.mem_range.mp hi
    rw [← h, frameID, Buffer.rd_tabulate _ hi] at hne
    simp at hne

theorem PairingKept.of_same {s s' : Sys} {e : Event} (hid : s'.g.phoneID = s.g.phoneID)
    (hip : s'.g.phoneIP = s.g.phoneIP) (hre : s'.g.netReconnectFlag = s.g.netReconnectFlag) :
    PairingKept s e s' :=
  fun _ _ => ⟨hid, fun h => absurd hip h, fun h => absurd hre h⟩

/-- The dispatcher keeps the pairing exactly if the frame is no search of
another phone. -/
theorem pairingKept_phone_iff {s : Sys} {dataBuf : Buffer 50} {num : UInt8} :
    PairingKept s (.phone dataBuf num) { s with g := wifiDataDeal s.g dataBuf num } ↔
      PairingSafe s (.phone dataBuf num) := by
  by_cases hsearch : HasCode dataBuf 0x78 ∧ barCodeErr dataBuf = false
  · obtain ⟨hcode, hbar⟩ := hsearch
    rw [wifiDataDeal_search num hcode hbar]
    simp only [PairingKept, PairingSafe, wifiAckSend_isFirstConnect, wifiAckSend_phoneID,
      wifiAckSend_phoneIP, wifiAckSend_netReconnectFlag, ne_eq, not_true_eq_false, false_imp_iff,
      and_true]
    exact ⟨fun h h0 _ _ => h h0 h0, fun h h0 _ => h h0 hcode hbar⟩
  · refine iff_of_true ?_ fun _ hcode hbar => absurd ⟨hcode, hbar⟩ hsearch
    have hdealt := wifiDataDeal_dealt s.g dataBuf num
    generalize wifiDataDeal s.g dataBuf num = g' at hdealt
    cases hdealt with
    | paired _ _ hfirst => exact fun h0 => absurd h0 hfirst
    | repeated hcode hbar _ hid =>
        have hown : OwnRequest s (.phone dataBuf num) := ⟨hcode, hbar, phoneIDErr_eq_false.mp hid⟩
        exact fun _ _ => ⟨by simp only [wifiAckSend_phoneID], fun _ => hown, fun _ => .inl hown⟩
    | searched hcode hbar => exact absurd ⟨hcode, hbar⟩ hsearch
    | heartbeat | touchInfo | versionInfo | acked =>
        exact .of_same (by simp only [wifiAckSend_phoneID]) (by simp only [wifiAckSend_phoneIP])
          (by simp only [wifiAckSend_netReconnectFlag])
    | ignored | refused | searchRefused | meetingEnd | timeCheck => exact .of_same rfl rfl rfl

/-- A statement of the main loop keeps the pairing exactly if it does not erase
an octet of a new address. -/
theorem pairingKept_main_iff {s : Sys} {again : Bool} {staip : Option (Buffer 4)} :
    PairingKept s (.main again staip) (mainStep again staip s) ↔
      PairingSafe s (.main again staip) := by
  by_cases hend : ∃ i < 4, s.pc = .endIP i
  · obtain ⟨i, hi, hpc⟩ := hend
    have hstep : mainStep again staip s
        = s.assign { s.g with phoneIP := s.g.phoneIP.wr i 0 } (.endIP (i + 1)) := by
      simp only [mainStep, hpc, dif_pos hi]
    rw [hstep]
    constructor
    · intro h h0 j _ hj
      obtain rfl : i = j := Pc.endIP.inj (hpc.symm.trans hj)
      by_contra hne
      exact (h h0 h0).2.1 fun heq => hne ((Buffer.wr_eq_self_iff hi).mp heq)
    · intro h h0 _
      have hz := h h0 i hi hpc
      exact ⟨rfl, fun hip => absurd ((Buffer.wr_eq_self_iff hi).mpr hz) hip, fun hre => absurd rfl hre⟩
  · refine iff_of_true ?_ fun _ i hi hpc => absurd ⟨i, hi, hpc⟩ hend
    have hg := mainStep_globals again staip s
    unfold PairingKept
    generalize (mainStep again staip s).g = g' at hg
    cases hg with
    | endIP hi hpc => exact absurd ⟨_, hi, hpc⟩ hend
    | endFirst _ => exact fun _ h1 => absurd (show (1 : UInt8) = 0 from h1) (by decide)
    | recClear hpc =>
        exact fun _ _ => ⟨rfl, fun hip => absurd rfl hip, fun _ => .inr ⟨hpc, rfl⟩⟩
    | @ack a i sum f _ hf =>
        obtain ⟨buf, len, hfg⟩ := ackStmts_frame a.code 0 f (List.mem_of_getElem? hf) (s.g, sum)
        rw [hfg]
        exact fun _ _ => ⟨rfl, fun hip => absurd rfl hip, fun hre => absurd rfl hre⟩
    | _ => exact fun _ _ => ⟨rfl, fun hip => absurd rfl hip, fun hre => absurd rfl hre⟩

/-- **One step** keeps the pairing exactly if it is safe. -/
theorem pairingKept_iff {s s' : Sys} {e : Event} (hs : Steps s e s') :
    PairingKept s e s' ↔ PairingSafe s e := by
  cases hs with
  | main again staip => exact pairingKept_main_iff
  | phone _ hg _ =>
      subst hg
      exact pairingKept_phone_iff
  | screen _ ha =>
      refine iff_of_true ?_ trivial
      cases ha <;> exact .of_same rfl rfl rfl
  | led =>
      obtain ⟨flag, cnt, led, hled⟩ := ledStep_frame s
      rw [hled]
      exact iff_of_true (.of_same rfl rfl rfl) trivial
  | key | transmit | tick => exact iff_of_true (.of_same rfl rfl rfl) trivial

/-- `is_First_connect` becomes 0 only by a connection request with the right bar
code, whose ID is stored. -/
theorem paired_of_accepted {s s' : Sys} {e : Event} (hs : Steps s e s')
    (h1 : s.g.isFirstConnect ≠ 0) (h0 : s'.g.isFirstConnect = 0) :
    ∃ dataBuf num, e = .phone dataBuf num ∧ HasCode dataBuf 0x75 ∧ barCodeErr dataBuf = false ∧
      s'.g.phoneID = frameID dataBuf := by
  have same (h : s'.g.isFirstConnect = s.g.isFirstConnect) : False := h1 (h.symm.trans h0)
  cases hs with
  | main again staip =>
      have hg := mainStep_globals again staip s
      generalize (mainStep again staip s).g = g' at hg h0 same
      cases hg with
      | endFirst _ => exact absurd (show (1 : UInt8) = 0 from h0) (by decide)
      | @ack a i sum f _ hf =>
          obtain ⟨buf, len, hfg⟩ := ackStmts_frame a.code 0 f (List.mem_of_getElem? hf) (s.g, sum)
          exact (same (by rw [hfg])).elim
      | _ => exact (same rfl).elim
  | @phone dataBuf num _ _ _ hdealt =>
      cases hdealt with
      | paired hcode hbar _ => exact ⟨dataBuf, num, rfl, hcode, hbar, by simp only [wifiAckSend_phoneID]⟩
      | repeated | searched | heartbeat | touchInfo | versionInfo | acked =>
          exact (same (by simp only [wifiAckSend_isFirstConnect])).elim
      | ignored | refused | searchRefused | meetingEnd | timeCheck => exact (same rfl).elim
  | screen _ ha => cases ha <;> exact (same rfl).elim
  | led =>
      obtain ⟨flag, cnt, led, hled⟩ := ledStep_frame s
      exact (same (by rw [hled])).elim
  | key | transmit | tick => exact (same rfl).elim

/-- In the run, the phone's ID is the one stored at the last acceptance for as
long as `is_First_connect` stays 0. -/
def IDLasts (as : List Event) : Prop :=
  ∀ before e after rest s s' t, as = before ++ e :: (after ++ rest) →
    exec step Sys.powerOn before = some s → step s e = some s' →
    s.g.isFirstConnect ≠ 0 → s'.g.isFirstConnect = 0 →
    Along step (fun u _ u' => u.g.isFirstConnect = 0 ∧ u'.g.isFirstConnect = 0) s' after →
    exec step s' after = some t →
    ∃ dataBuf num, e = .phone dataBuf num ∧ HasCode dataBuf 0x75 ∧ barCodeErr dataBuf = false ∧
      t.g.phoneID = frameID dataBuf

theorem idLasts_of_along {as : List Event} (hal : Along step PairingKept Sys.powerOn as) :
    IDLasts as := by
  rintro before e after rest s s' t rfl hbefore hs h1 h0 hzero ht
  obtain ⟨dataBuf, num, he, hcode, hbar, hid⟩ := paired_of_accepted (steps_of_step hs) h1 h0
  have hkept : Along step PairingKept s' after :=
    (hal.append_right hbefore s' hs).2.append_left
  have hconst : t.g.phoneID = s'.g.phoneID :=
    (hkept.and hzero).const (f := fun u => u.g.phoneID) (fun _ _ _ hc _ => (hc.1 hc.2.1 hc.2.2).1) ht
  exact ⟨dataBuf, num, he, hcode, hbar, hconst.trans hid⟩

/-- **Pairing is sticky** in a run exactly if each of its steps is safe: no
search frame with the right bar code and another ID is processed, and the
meeting-end block erases no new address. -/
theorem pairing_iff (as : List Event) :
    Along step PairingKept Sys.powerOn as ∧ IDLasts as ↔
      Along step (fun s e _ => PairingSafe s e) Sys.powerOn as := by
  have hcongr : Along step PairingKept Sys.powerOn as ↔
      Along step (fun s e _ => PairingSafe s e) Sys.powerOn as :=
    Along.congr (I := fun _ => True) as trivial (fun _ _ _ _ _ _ => trivial)
      fun _ _ _ _ hs => pairingKept_iff (steps_of_step hs)
  exact ⟨fun h => hcongr.mp h.1, fun h => ⟨hcongr.mpr h, idLasts_of_along (hcongr.mpr h)⟩⟩

/-- A paired phone searches; then a search with another ID replaces its ID. -/
theorem pairing_lost :
    ¬ Along step PairingKept Sys.powerOn
      (List.replicate 9 .next ++ [.phone (request 0x75 1 1) 39, .phone (request 0x78 2 1) 39]) := by
  decide

/-! ### Opening a session -/

/-- `cc3200_set_udpIP` has set the link flag and state 4 has not seen it yet. -/
def OpeningWindow (s : Sys) : Prop :=
  s.pc = .toState 4 ∨
    (s.mainFuctionState = 4 ∧ (s.pc = .delay ∨ s.pc = .top ∨ s.pc = .completeTest))

/-- In the window no request with a wrong bar code is processed, and the
heartbeat thread does not give the link up. -/
def LinkUndisturbed (s : Sys) : Event → Prop
  | .phone dataBuf _ => OpeningWindow s → HasCode dataBuf 0x75 → barCodeErr dataBuf = false
  | .led => OpeningWindow s → s.led ≠ .clear
  | _ => True

instance (s : Sys) : Decidable (OpeningWindow s) := by
  unfold OpeningWindow; infer_instance

/-- The link flag is up throughout the window. -/
def LinkUp (s : Sys) : Prop := OpeningWindow s → s.g.netCompleteFlag = 1

theorem mainStep_toState_four {again : Bool} {staip : Option (Buffer 4)} {s : Sys}
    (h : (mainStep again staip s).pc = .toState 4) : s.pc = .ipDone := by
  cases hpc : s.pc with
  | ipDone => rfl
  | put p => cases p <;> simp [mainStep, hpc, Put.next] at h
  | cfgWait | portWait | keyTest | searchTest | phoneTest | ipWait | completeTest | linkTest
  | penTest | penUp | idleTest | netTest | snpTest | endTest | timeTest | downTest | recTest
  | recWait | ipCopy | endIP | recCopy | ack | top =>
      simp only [mainStep, hpc, Sys.goto] at h
      split at h <;> cases h
  | recCmp i =>
      simp only [mainStep, hpc, Sys.goto] at h
      split_ifs at h
  | _ => simp [mainStep, hpc, Sys.goto, Sys.assign] at h

/-- The window opens only with the statement behind `cc3200_set_udpIP`, which
sets the flag; in the window the main loop leaves the globals alone. -/
theorem openingWindow_mainStep {again : Bool} {staip : Option (Buffer 4)} {s : Sys}
    (hloc : s.Located) (hw : OpeningWindow (mainStep again staip s)) :
    (mainStep again staip s).g.netCompleteFlag = 1 ∨
      (OpeningWindow s ∧ (mainStep again staip s).g = s.g) := by
  rcases hw with hpc | ⟨hst, hpc⟩
  · have hdone := mainStep_toState_four hpc
    exact .inl (by simp only [mainStep, hdone, Sys.assign])
  right
  rcases mainStep_mode again staip s with hmode | hmode | ⟨-, hmode⟩
  · have hfour : s.mainFuctionState = 4 := hmode.symm.trans hst
    unfold Sys.Located at hloc
    rw [hfour] at hloc
    rcases hloc.mode_four with h | h | h | h | h
    · exact ⟨.inr ⟨hfour, .inl h⟩, by simp only [mainStep, h, Sys.goto]⟩
    · exact ⟨.inr ⟨hfour, .inr (.inl h)⟩, by simp only [mainStep, h, Sys.goto]⟩
    · exact ⟨.inr ⟨hfour, .inr (.inr h)⟩, by simp only [mainStep, h, Sys.goto]⟩
    · simp [mainStep, h] at hst
    · simp [mainStep, h, Put.next] at hpc
  · rw [hst] at hmode
    exact ⟨.inl hmode, by simp only [mainStep, hmode]⟩
  · exact absurd (hst.symm.trans hmode) (by decide)

/-- **One step** keeps the flag up in the window exactly if the link is left
alone. -/
theorem linkUp_iff {s s' : Sys} {e : Event} (hs : Steps s e s') (hloc : s.Located)
    (hup : LinkUp s) : LinkUp s' ↔ LinkUndisturbed s e := by
  cases hs with
  | main again staip =>
      refine iff_of_true (fun hw => ?_) trivial
      rcases openingWindow_mainStep hloc hw with hflag | ⟨hw, hg⟩
      · exact hflag
      · rw [hg]
        exact hup hw
  | @phone dataBuf num _ _ hg _ =>
      subst hg
      simp only [LinkUp, LinkUndisturbed, wifiDataDeal_netCompleteFlag]
      refine imp_congr_right fun hw => ?_
      by_cases hcode : HasCode dataBuf 0x75 <;> simp [hcode, hup hw]
  | screen _ ha =>
      refine iff_of_true ?_ trivial
      cases ha <;> exact hup
  | led =>
      cases hled : s.led with
      | clear =>
          simp only [LinkUp, LinkUndisturbed, ledStep, hled]
          exact imp_congr_right fun _ => by simp
      | _ =>
          refine iff_of_true ?_ fun _ => by simp [hled]
          unfold ledStep
          rw [hled]
          exact hup
  | key | transmit | tick => exact iff_of_true hup trivial

/-- The main loop waits in state 4, and the link flag is not 1. -/
structure Stuck (s : Sys) : Prop where
  mode : s.mainFuctionState = 4
  pc : s.pc = .delay ∨ s.pc = .top ∨ s.pc = .completeTest
  flag : s.g.netCompleteFlag ≠ 1

theorem Stuck.step {s s' : Sys} {e : Event} (hs : Steps s e s') (h : Stuck s) : Stuck s' := by
  obtain ⟨hst, hpc, hflag⟩ := h
  cases hs with
  | main again staip =>
      rcases hpc with hpc | hpc | hpc <;> simp only [mainStep, hpc, Sys.goto, hst]
      · exact ⟨rfl, .inr (.inl rfl), hflag⟩
      · exact ⟨rfl, .inr (.inr rfl), hflag⟩
      · rw [if_neg hflag]
        exact ⟨rfl, .inl rfl, hflag⟩
  | led =>
      unfold ledStep
      cases s.led with
      | clear => exact ⟨hst, hpc, show (0 : UInt8) ≠ 1 by decide⟩
      | _ => exact ⟨hst, hpc, hflag⟩
  | @phone dataBuf num _ _ hg _ =>
      refine ⟨hst, hpc, ?_⟩
      rw [hg, wifiDataDeal_netCompleteFlag]
      split_ifs
      · decide
      · exact hflag
  | screen _ ha => cases ha <;> exact ⟨hst, hpc, hflag⟩
  | key | transmit | tick => exact ⟨hst, hpc, hflag⟩

/-- A stuck main loop stays stuck, whatever happens. -/
theorem stuck_forever {s t : Sys} {as : List Event} (h : Stuck s) (ht : exec step s as = some t) :
    Stuck t :=
  Reachable.invariant ⟨as, ht⟩ h fun _ _ _ hi hs => hi.step (steps_of_step hs)

/-- If the run leads between two iterations in state 4, the link flag is 1. -/
def OpensAt (as : List Event) : Prop :=
  ∀ t, exec step Sys.powerOn as = some t → t.pc = .delay ∨ t.pc = .top →
    t.mainFuctionState = 4 → t.g.netCompleteFlag = 1

/-- The link flag is up in the window, if it is between two iterations there
and one statement later. -/
theorem linkUp_of_opensAt {as : List Event} {t : Sys} (ht : exec step Sys.powerOn as = some t)
    (h0 : OpensAt as) (h1 : OpensAt (as ++ [.next])) : LinkUp t := by
  have hnext : exec step Sys.powerOn (as ++ [.next]) = some (mainStep false none t) :=
    exec_append.mpr ⟨t, ht, rfl⟩
  rintro (hpc | ⟨hst, hpc | hpc | hpc⟩)
  · have := h1 _ hnext
    simpa [mainStep, hpc] using this
  · exact h0 t ht (.inl hpc) hst
  · exact h0 t ht (.inr hpc) hst
  · by_contra hflag
    have := h1 _ hnext
    simp only [mainStep, hpc, Sys.goto, if_neg hflag, hst, true_or, true_imp_iff] at this
    exact hflag this

/-- At power-on the window is closed. -/
theorem linkUp_powerOn : LinkUp Sys.powerOn := fun h => absurd h (by decide)

theorem linkUp_step {s s' : Sys} {e : Event} (hi : s.Located ∧ LinkUp s)
    (hc : LinkUndisturbed s e) (hs : step s e = some s') : s'.Located ∧ LinkUp s' :=
  ⟨hi.1.step (steps_of_step hs), (linkUp_iff (steps_of_step hs) hi.1 hi.2).mpr hc⟩

/-- The link flag is up in the window along a run exactly if the link is left
alone in it. -/
theorem along_linkUp_iff (as : List Event) :
    Along step (fun _ _ s' => LinkUp s') Sys.powerOn as ↔
      Along step (fun s e _ => LinkUndisturbed s e) Sys.powerOn as := by
  exact Along.congr (I := fun s => s.Located ∧ LinkUp s) as ⟨Sys.located_powerOn, linkUp_powerOn⟩
    (fun _ _ _ hi hc hs => linkUp_step hi hc hs)
    fun _ _ _ hi hs => linkUp_iff (steps_of_step hs) hi.1 hi.2

/-- **Opening a session.**  However a run is cut and the main loop then goes on
alone, state 4 is found with the link flag up, exactly if in the window no
request with a wrong bar code is processed and the heartbeat thread does not
give the link up.  Found with the flag down, state 4 is never left again. -/
theorem opening_iff (as : List Event) :
    ((∀ k n, OpensAt (as.take k ++ List.replicate n .next)) ↔
      Along step (fun s e _ => LinkUndisturbed s e) Sys.powerOn as) ∧
    ∀ s t, Stuck s → exec step s as = some t → Stuck t := by
  refine ⟨⟨fun h => ?_, fun h k n t ht hpc hst => ?_⟩, fun s t hs ht => stuck_forever hs ht⟩
  · refine (along_linkUp_iff as).mp (.of_at fun as₁ a as₂ m t has hm ht => ?_)
    have htake : as.take (as₁.length + 1) = as₁ ++ [a] := by
      rw [has, List.take_length_add_append]
      rfl
    have hrun : exec step Sys.powerOn (as₁ ++ [a]) = some t :=
      exec_append.mpr ⟨m, hm, (exec_cons [] ht).trans rfl⟩
    refine linkUp_of_opensAt hrun ?_ ?_
    · simpa [htake] using h (as₁.length + 1) 0
    · simpa [htake] using h (as₁.length + 1) 1
  · have hprefix : Along step (fun s e _ => LinkUndisturbed s e) Sys.powerOn (as.take k) := by
      rw [← List.take_append_drop k as] at h
      exact h.append_left
    have hal : Along step (fun s e _ => LinkUndisturbed s e) Sys.powerOn
        (as.take k ++ List.replicate n .next) :=
      hprefix.append fun m _ => .of_mem fun e he _ _ => by
        rw [List.eq_of_mem_replicate he]
        trivial
    have hup := hal.invariant ⟨Sys.located_powerOn, linkUp_powerOn⟩
      (fun _ _ _ hi hc hs => linkUp_step hi hc hs) ht
    exact hup.2 (.inr ⟨hst, by tauto⟩)

/-- A request with a wrong bar code between the end of `cc3200_set_udpIP` and
the next iteration: the main loop waits in state 4 with the link flag down. -/
theorem opening_lost :
    ¬ OpensAt (List.replicate 9 .next ++ .phone (request 0x75 1 1) 39 ::
      (List.replicate 21 .next ++ [.phone (request 0x75 2 0) 39, .next])) := by
  intro h
  have hrun : (exec step Sys.powerOn (List.replicate 9 .next ++ .phone (request 0x75 1 1) 39 ::
      (List.replicate 21 .next ++ [.phone (request 0x75 2 0) 39, .next]))).map
      (fun t => (t.pc, t.mainFuctionState, t.g.netCompleteFlag)) = some (.delay, 4, 0) := by
    decide
  obtain ⟨t, ht, hv⟩ := Option.map_eq_some_iff.mp hrun
  simp only [Prod.mk.injEq] at hv
  obtain ⟨hpc, hst, hflag⟩ := hv
  exact absurd (hflag.symm.trans (h t ht (.inl hpc) hst)) (by decide)

end DolphinNote
