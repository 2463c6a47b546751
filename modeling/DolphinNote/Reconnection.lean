/-
DolphinNote/Reconnection.lean

Losing the link and taking it up again.

* A reconnection should answer a request that came after the loss.  The flag
  `net_reconnect_flag` is raised by every repeated request and cleared in
  `cc3200_reconnect` only, so a request from before the loss does as well,
  unless the flag is down whenever the link is lost (`reconnects_fresh`).
* The address is kept in three places besides `Phone_IP`: `Pre_Phone_IP`, the
  text in `RT_Phone_IP`, and the last `AT+SOCK` command.  They agree in a
  connected session as long as no accepted request changes an octet that the
  main loop has taken over already (`talks_to_phone`).
-/
import DolphinNote.History
import DolphinNote.Session

namespace DolphinNote

open Transition

/-! ### Fresh requests -/

/-- The meeting-end block, once the link is going to be dropped, and the ends of
iterations. -/
def Pc.tearsDown : Pc → Bool
  | .endClear | .endNet | .endFirst | .endIP _ | .toState _ => true
  | _ => false

/-- Were the link lost now, the main loop would go on to `cc3200_reconnect`. -/
def MayReconnect (s : Sys) : Prop :=
  s.pc = .put .complete ∨ s.pc = .toState 5 ∨ (s.mainFuctionState = 5 ∧ s.pc.tearsDown = false)

/-- When the link is lost, `net_reconnect_flag` is down. -/
def LossSafe (s : Sys) (e : Event) : Prop :=
  Drops s e → s.g.netCompleteFlag ≠ 0 → MayReconnect s → s.g.netReconnectFlag = 0

/-- The paired phone has requested a connection with the link down. -/
def FreshRequest (t : Taken Sys Event) : Prop :=
  t.before.g.netCompleteFlag = 0 ∧ OwnRequest t.before t.label

/-- The link has not come back. -/
def StillLost (t : Taken Sys Event) : Prop := t.after.g.netCompleteFlag = 0

/-- When `cc3200_reconnect` sets the link flag, the paired phone has requested a
connection since the link was lost. -/
def ReconnectsFresh (h : List (Taken Sys Event)) (s : Sys) : Event → Prop
  | .main _ _ => s.pc = .recSame ∨ s.pc = .recDone → Since FreshRequest StillLost h
  | _ => True

instance (s : Sys) : Decidable (MayReconnect s) := by
  unfold MayReconnect; infer_instance

instance (s : Sys) (e : Event) : Decidable (LossSafe s e) := by
  unfold LossSafe; infer_instance

instance : DecidablePred FreshRequest := fun t =>
  inferInstanceAs (Decidable (t.before.g.netCompleteFlag = 0 ∧ OwnRequest t.before t.label))

instance : DecidablePred StillLost := fun t =>
  inferInstanceAs (Decidable (t.after.g.netCompleteFlag = 0))

instance (h : List (Taken Sys Event)) (s : Sys) : (e : Event) → Decidable (ReconnectsFresh h s e)
  | .main .. => inferInstanceAs <| Decidable
      (s.pc = .recSame ∨ s.pc = .recDone → Since FreshRequest StillLost h)
  | .led | .key _ | .phone .. | .screen .. | .transmit | .tick => inferInstanceAs (Decidable True)

/-- `cc3200_reconnect` has seen the flag. -/
def Pc.Requested : Pc → Prop
  | .recClear | .recCmp _ | .recCopy _ | .recSame | .recText | .recClose | .recSock | .recOpen
  | .recWait | .recDone => True
  | _ => False

/-- The request is among the steps since the loss: once the flag has been seen,
and before, whenever it is up with the link down. -/
structure RequestSeen (h : List (Taken Sys Event)) (s : Sys) : Prop where
  located : s.Located
  down : LinkDown s
  pending : s.g.netReconnectFlag ≠ 0 → s.g.netCompleteFlag = 0 → MayReconnect s →
    Since FreshRequest StillLost h
  past : s.pc.Requested → Since FreshRequest StillLost h

/-- The reconnection flag is raised by a request of the paired phone only. -/
theorem Steps.netReconnectFlag {s s' : Sys} {e : Event} (hs : Steps s e s') :
    s'.g.netReconnectFlag = s.g.netReconnectFlag ∨ s'.g.netReconnectFlag = 0 ∨ OwnRequest s e := by
  cases hs with
  | main again staip =>
      have hg := mainStep_globals again staip s
      generalize (mainStep again staip s).g = g' at hg
      cases hg with
      | recClear _ => exact .inr (.inl rfl)
      | @ack a i sum f _ hf =>
          obtain ⟨buf, len, hfg⟩ := ackStmts_frame a.code 0 f (List.mem_of_getElem? hf) (s.g, sum)
          rw [hfg]
          exact .inl rfl
      | _ => exact .inl rfl
  | phone _ _ hdealt =>
      cases hdealt with
      | repeated hcode hbar _ hid => exact .inr (.inr ⟨hcode, hbar, phoneIDErr_eq_false.mp hid⟩)
      | paired | searched | heartbeat | touchInfo | versionInfo | acked =>
          exact .inl (by simp only [wifiAckSend_netReconnectFlag])
      | ignored | refused | searchRefused | meetingEnd | timeCheck => exact .inl rfl
  | screen _ ha => cases ha <;> exact .inl rfl
  | led =>
      obtain ⟨flag, cnt, led, hled⟩ := ledStep_frame s
      rw [hled]
      exact .inl rfl
  | key | transmit | tick => exact .inl rfl

/-- With the link down the main loop comes within reach of `cc3200_reconnect`
from there only: state 4 is left with the link up. -/
theorem mayReconnect_mainStep {again : Bool} {staip : Option (Buffer 4)} {s : Sys}
    (hloc : s.Located) (hdown : (mainStep again staip s).g.netCompleteFlag = 0)
    (h : MayReconnect (mainStep again staip s)) : MayReconnect s ∧ s.g.netCompleteFlag = 0 := by
  unfold MayReconnect at h ⊢
  unfold Sys.Located at hloc
  cases hpc : s.pc with
  | ack a i sum =>
      simp only [mainStep, hpc] at h hdown
      rw [hpc] at hloc
      split at h
      case h_1 f hf =>
        obtain ⟨buf, len, hfg⟩ := ackStmts_frame a.code 0 f (List.mem_of_getElem? hf) (s.g, sum)
        simp_all [Located, Sys.assign, Pc.tearsDown]
      case h_2 hf => simp_all [Located, Sys.goto, Pc.tearsDown]
  | put p => cases p <;> simp_all [mainStep, Located, Put.next, Pc.tearsDown]
  | top =>
      simp only [mainStep, hpc, Sys.goto] at h hdown
      split at h <;> simp_all [Pc.tearsDown]
  | cfgWait | portWait | keyTest | searchTest | phoneTest | ipWait | completeTest | linkTest
  | penTest | penUp | idleTest | netTest | snpTest | endTest | timeTest | downTest | recTest
  | recWait | ipCopy | endIP | recCopy | recCmp =>
      rw [hpc] at hloc
      simp only [mainStep, hpc, Sys.goto, Sys.assign] at h hdown
      split_ifs at h hdown <;> simp_all [Located, Pc.tearsDown]
  | _ =>
      rw [hpc] at hloc
      simp_all [mainStep, Located, Sys.goto, Sys.assign, Pc.tearsDown]

/-- `cc3200_reconnect` goes on only when it has seen the flag. -/
theorem requested_mainStep {again : Bool} {staip : Option (Buffer 4)} {s : Sys}
    (h : (mainStep again staip s).pc.Requested) :
    s.pc.Requested ∨ (s.pc = .recTest ∧ s.g.netReconnectFlag ≠ 0) := by
  have hent := mainStep_entered again staip s
  generalize (mainStep again staip s).pc = pc' at h hent
  cases pc' with
  | recClear => exact .inr hent
  | recCmp i =>
      rcases hent with ⟨-, hpc⟩ | ⟨j, -, -, hpc, -⟩ <;> exact .inl (by rw [hpc]; trivial)
  | recCopy j =>
      rcases hent with ⟨-, i, hpc⟩ | ⟨i, -, -, hpc⟩ <;> exact .inl (by rw [hpc]; trivial)
  | recSame | recText =>
      obtain ⟨i, -, hpc⟩ := hent
      exact .inl (by rw [hpc]; trivial)
  | recClose | recSock | recOpen | recDone => exact .inl (by rw [show s.pc = _ from hent]; trivial)
  | recWait => rcases hent with hpc | hpc <;> exact .inl (by rw [hpc]; trivial)
  | _ => exact absurd h nofun

/-- In a step that is safe, what is pending stays fresh. -/
theorem RequestSeen.pending_step {h : List (Taken Sys Event)} {s s' : Sys} {e : Event}
    (hi : RequestSeen h s) (hsafe : LossSafe s e) (hs : Steps s e s')
    (hreconnect : s'.g.netReconnectFlag ≠ 0) (hdown : s'.g.netCompleteFlag = 0)
    (hmay : MayReconnect s') : Since FreshRequest StillLost (⟨s, e, s'⟩ :: h) := by
  have hmay₀ : MayReconnect s ∧ (s.g.netCompleteFlag ≠ 0 → Drops s e) := by
    rcases hs.control with ⟨again, staip, -, rfl⟩ | ⟨hpc, hst, -⟩
    · obtain ⟨hmay₀, hdown₀⟩ := mayReconnect_mainStep hi.located hdown hmay
      exact ⟨hmay₀, fun hne => absurd hdown₀ hne⟩
    · refine ⟨by rwa [MayReconnect, hpc, hst] at hmay, fun hne => ?_⟩
      have hflag := hs.linkFlag
      rw [hdown] at hflag
      generalize hz : (0 : UInt8) = flag at hflag
      cases hflag with
      | same => exact absurd hz.symm hne
      | set => exact absurd hz (by decide)
      | drop hdrop => exact hdrop
  obtain ⟨hmay₀, hdrop⟩ := hmay₀
  by_cases hlost : s.g.netCompleteFlag = 0
  · rcases hs.netReconnectFlag with hsame | hzero | hown
    · exact .later hdown (hi.pending (hsame ▸ hreconnect) hlost hmay₀)
    · exact absurd hzero hreconnect
    · exact .here ⟨hlost, hown⟩
  · -- the step loses the link, and the flag was down
    have hzero := hsafe (hdrop hlost) hlost hmay₀
    rcases hs.netReconnectFlag with hsame | hzero' | hown
    · exact absurd (hsame.trans hzero) hreconnect
    · exact absurd hzero' hreconnect
    · cases e with
      | phone dataBuf num =>
          exact absurd (hown.2.1.symm.trans (hdrop hlost).2) (by decide)
      | _ => exact hown.elim

theorem RequestSeen.step {h : List (Taken Sys Event)} {s s' : Sys} {e : Event}
    (hi : RequestSeen h s) (hsafe : LossSafe s e) (hs : Steps s e s') :
    RequestSeen (⟨s, e, s'⟩ :: h) s' where
  located := hi.located.step hs
  down := linkDown_step hs hi.down
  pending := hi.pending_step hsafe hs
  past hreq := by
    have hdown : s'.g.netCompleteFlag = 0 := by
      refine linkDown_step hs hi.down ?_
      revert hreq
      cases s'.pc <;> simp [Pc.Requested, Pc.LinkDown]
    refine .later hdown ?_
    rcases hs.control with ⟨again, staip, -, rfl⟩ | ⟨hpc, -, -⟩
    · rcases requested_mainStep hreq with hreq | ⟨hpc, hne⟩
      · exact hi.past hreq
      · have hloc := hi.located
        unfold Sys.Located at hloc
        rw [hpc] at hloc
        exact hi.pending hne (hi.down (by rw [hpc]; trivial)) (.inr (.inr ⟨hloc.1, by rw [hpc]; rfl⟩))
    · exact hi.past (hpc ▸ hreq)

/-- **A reconnection answers a fresh request** in every run in which
`net_reconnect_flag` is down whenever the link is lost. -/
theorem reconnects_fresh (as : List Event)
    (hsafe : Along step (fun s e _ => LossSafe s e) Sys.powerOn as) :
    AlongPast step (fun h s e _ => ReconnectsFresh h s e) Sys.powerOn as := by
  have h0 : RequestSeen [] Sys.powerOn := ⟨Sys.located_powerOn, linkDown_powerOn, nofun, nofun⟩
  refine hsafe.past (J := RequestSeen) h0 fun h s e s' hi hc hs => ?_
  refine ⟨hi.step hc (steps_of_step hs), ?_⟩
  cases e with
  | main again staip =>
      rintro (hpc | hpc) <;> exact hi.past (by rw [hpc]; trivial)
  | _ => trivial

/-- The link is lost, the phone requests a connection, and gets it. -/
theorem reconnects_fresh_once :
    AlongPast step (fun h s e _ => ReconnectsFresh h s e) Sys.powerOn
      (opened ++ .phone (request 0x75 2 0) 39 :: .phone (request 0x75 1 1) 39 ::
        List.replicate 13 .next) := by
  apply reconnects_fresh
  decide +kernel

/-- The phone repeats its request, and then the link is lost: the reconnection
takes the old request for an answer. -/
theorem reconnects_stale :
    ¬ AlongPast step (fun h s e _ => ReconnectsFresh h s e) Sys.powerOn
      (opened ++ .phone (request 0x75 1 1) 39 :: .phone (request 0x75 2 0) 39 ::
        List.replicate 13 .next) := by
  decide +kernel

/-! ### The phone's address -/

/-- The octets of `Phone_IP` that the main loop has copied, or found equal to
the copy.  In `sprintf` the four are read as one. -/
def octetsTaken (s : Sys) : ℕ :=
  match s.pc with
  | .ipCopy i | .recCmp i | .recCopy i => i
  | .ipText | .ipClose | .ipSock | .ipOpen | .ipWait | .ipDone | .recSame | .recText | .recClose
  | .recSock | .recOpen | .recWait | .recDone => 4
  | _ => if s.g.netCompleteFlag ≠ 0 then 4 else 0

/-- An accepted request changes no octet that has been taken over. -/
def AddressSafe (s : Sys) : Event → Prop
  | .phone dataBuf _ => Accepted s.g dataBuf →
      ∀ k < octetsTaken s, (frameIP dataBuf).rd k = s.g.phoneIP.rd k
  | _ => True

/-- Between iterations of a connected session all copies of the address agree. -/
def TalksToPhone (s : Sys) : Prop :=
  s.pc = .delay ∨ s.pc = .top → s.mainFuctionState = 5 → s.g.netCompleteFlag = 1 →
    s.prePhoneIP = s.g.phoneIP ∧ s.rtPhoneIP = s.g.phoneIP ∧ s.sockIP = s.g.phoneIP

instance (s : Sys) : (e : Event) → Decidable (AddressSafe s e)
  | .phone dataBuf _ => inferInstanceAs <| Decidable (Accepted s.g dataBuf →
      ∀ k < octetsTaken s, (frameIP dataBuf).rd k = s.g.phoneIP.rd k)
  | .main .. | .led | .key _ | .screen .. | .transmit | .tick => inferInstanceAs (Decidable True)

instance (s : Sys) : Decidable (TalksToPhone s) := by
  unfold TalksToPhone; infer_instance

/-- `RT_Phone_IP` has been formatted from the copy. -/
def TextCurrent (st : UInt8) : Pc → Prop
  | .ipClose | .ipSock | .ipOpen | .ipWait | .ipDone | .toState 4 => True
  | .recCopy _ | .recText => False
  | _ => st = 4 ∨ st = 5

/-- The module has been given the text. -/
def SockCurrent (st : UInt8) : Pc → Prop
  | .ipOpen | .ipWait | .ipDone | .toState 4 => True
  | .recCopy _ | .recText | .recClose | .recSock => False
  | _ => st = 4 ∨ st = 5

/-- The copies agree as far as the main loop has come. -/
structure AddressKept (s : Sys) : Prop where
  located : s.Located
  down : LinkDown s
  pre : ∀ k < octetsTaken s, s.prePhoneIP.rd k = s.g.phoneIP.rd k
  text : TextCurrent s.mainFuctionState s.pc → s.rtPhoneIP = s.prePhoneIP
  sock : SockCurrent s.mainFuctionState s.pc → s.sockIP = s.rtPhoneIP

/-- The text follows the copy, and the command the text. -/
theorem AddressKept.text_mainStep {again : Bool} {staip : Option (Buffer 4)} {s : Sys}
    (h : AddressKept s) :
    (TextCurrent (mainStep again staip s).mainFuctionState (mainStep again staip s).pc →
      (mainStep again staip s).rtPhoneIP = (mainStep again staip s).prePhoneIP) ∧
    (SockCurrent (mainStep again staip s).mainFuctionState (mainStep again staip s).pc →
      (mainStep again staip s).sockIP = (mainStep again staip s).rtPhoneIP) := by
  obtain ⟨hloc, -, hpre, htext, hsock⟩ := h
  unfold Sys.Located at hloc
  cases hpc : s.pc with
  | delay =>
      rw [hpc] at htext hsock
      simp only [mainStep, hpc, Sys.goto]
      exact ⟨htext, hsock⟩
  | top =>
      rw [hpc] at hloc htext hsock
      simp only [mainStep, hpc, Sys.goto]
      split <;> simp_all [Located, TextCurrent, SockCurrent]
  | toState n =>
      rw [hpc] at hloc htext hsock
      simp only [mainStep, hpc]
      rcases hloc with ⟨rfl, -⟩ | ⟨rfl, -⟩ | ⟨rfl, -⟩ | ⟨rfl, -⟩ | ⟨rfl, hst, -⟩ <;>
        simp_all [TextCurrent, SockCurrent]
  | ipText | recText =>
      rw [hpc] at hloc
      simp only [octetsTaken, hpc] at hpre
      simp only [mainStep, hpc]
      refine ⟨fun _ => (Buffer.ext_rd hpre).symm, fun hs => ?_⟩
      simp_all [Located, SockCurrent]
  | ipSock | recSock =>
      rw [hpc] at hloc htext
      simp only [mainStep, hpc]
      exact ⟨fun _ => htext (by simp [TextCurrent, hloc.1]), fun _ => trivial⟩
  | recCopy j =>
      simp only [mainStep, hpc, Sys.goto]
      split_ifs <;> exact ⟨False.elim, False.elim⟩
  | recClose =>
      rw [hpc] at hloc htext
      simp only [mainStep, hpc]
      exact ⟨fun _ => htext (.inr hloc.1), False.elim⟩
  | ack a i sum =>
      rw [hpc] at hloc htext hsock
      simp only [mainStep, hpc]
      split <;> exact ⟨fun _ => htext (.inr hloc.1), fun _ => hsock (.inr hloc.1)⟩
  | put p =>
      rw [hpc] at hloc htext hsock
      cases p <;> simp_all [mainStep, Located, Put.next, TextCurrent, SockCurrent]
  | completeTest =>
      rw [hpc] at hloc htext hsock
      simp only [mainStep, hpc, Sys.goto]
      split_ifs <;> exact ⟨fun _ => htext (.inl hloc.1), fun _ => hsock (.inl hloc.1)⟩
  -- mode 5 leaves the text and the command alone
  | linkTest | penTest | penUp | idleTest | netTest | snpTest | endTest | timeTest | downTest
  | recTest | recWait | endIP | recCmp =>
      rw [hpc] at hloc htext hsock
      simp only [mainStep, hpc, Sys.goto, Sys.assign]
      split_ifs <;> exact ⟨fun _ => htext (.inr hloc.1), fun _ => hsock (.inr hloc.1)⟩
  | penClear | idleClear | idleBeat | netClear | snpClear | endClear | endNet | endFirst
  | timeClear | recDelay | recClear | recSame | recOpen | recDone =>
      rw [hpc] at hloc htext hsock
      simp only [mainStep, hpc, Sys.goto, Sys.assign]
      exact ⟨fun _ => htext (.inr hloc.1), fun _ => hsock (.inr hloc.1)⟩
  -- before mode 4 only the end of state 3 counts
  | cfgWait | portWait | keyTest | searchTest | phoneTest | ipWait | ipCopy =>
      rw [hpc] at hloc htext hsock
      simp only [mainStep, hpc, Sys.goto]
      split_ifs <;> simp_all [Located, TextCurrent, SockCurrent]
  | _ =>
      rw [hpc] at hloc htext hsock
      simp_all [mainStep, Located, Sys.goto, Sys.assign, TextCurrent, SockCurrent]

/-- `Pre_Phone_IP` agrees with `Phone_IP` on the octets taken over: a round of a
copying loop adds one, and so does a round of the comparison. -/
theorem AddressKept.pre_mainStep {again : Bool} {staip : Option (Buffer 4)} {s : Sys}
    (h : AddressKept s) : ∀ k < octetsTaken (mainStep again staip s),
      (mainStep again staip s).prePhoneIP.rd k = (mainStep again staip s).g.phoneIP.rd k := by
  obtain ⟨-, hdown, hpre, -, -⟩ := h
  unfold LinkDown at hdown
  cases hpc : s.pc with
  | ipCopy i | recCopy i =>
      simp only [octetsTaken, hpc] at hpre
      simp only [mainStep, hpc, Sys.goto]
      split_ifs with hi
      · intro k hk
        simp only [octetsTaken] at hk
        rw [Buffer.rd_wr]
        split_ifs with hik
        · subst hik
          rfl
        · exact hpre k (by omega)
      · intro k hk
        simp only [octetsTaken] at hk
        exact hpre k (by omega)
  | recCmp i =>
      simp only [octetsTaken, hpc] at hpre
      simp only [mainStep, hpc, Sys.goto]
      split_ifs with hi hne
      · exact fun k hk => absurd hk (Nat.not_lt_zero k)
      · intro k hk
        rcases Nat.lt_succ_iff_lt_or_eq.mp hk with hk | rfl
        · exact hpre k hk
        · simpa using hne
      · intro k hk
        simp only [octetsTaken] at hk
        exact hpre k (by omega)
  | endIP i =>
      -- the link is down, and nothing counts as taken over
      have hzero := hdown (by rw [hpc]; trivial)
      simp only [mainStep, hpc, Sys.goto, Sys.assign]
      split_ifs <;> simp [octetsTaken, hzero]
  | ack a i sum =>
      simp only [octetsTaken, hpc] at hpre
      simp only [mainStep, hpc]
      split
      case h_1 f hf =>
        obtain ⟨buf, len, hfg⟩ := ackStmts_frame a.code 0 f (List.mem_of_getElem? hf) (s.g, sum)
        simpa [Sys.assign, hfg, octetsTaken] using hpre
      case h_2 => cases a <;> exact hpre
  | put p =>
      simp only [octetsTaken, hpc] at hpre
      cases p <;> simpa only [mainStep, hpc, Put.next, octetsTaken] using hpre
  | top =>
      simp only [octetsTaken, hpc] at hpre
      simp only [mainStep, hpc, Sys.goto]
      split
      case h_4 => exact fun k hk => absurd hk (Nat.not_lt_zero k)
      all_goals exact hpre
  | endNet =>
      simp only [mainStep, hpc, Sys.assign]
      exact fun k hk => absurd hk (Nat.not_lt_zero k)
  | recClear =>
      simp only [mainStep, hpc, Sys.assign]
      exact fun k hk => absurd hk (Nat.not_lt_zero k)
  | cfgWait | portWait | keyTest | searchTest | phoneTest | ipWait | completeTest | linkTest
  | penTest | penUp | idleTest | netTest | snpTest | endTest | timeTest | downTest | recTest
  | recWait =>
      simp only [octetsTaken, hpc] at hpre
      simp only [mainStep, hpc, Sys.goto]
      split_ifs <;> exact hpre
  | _ =>
      simp only [octetsTaken, hpc] at hpre
      simp only [mainStep, hpc, Sys.goto, Sys.assign]
      exact hpre

/-- What is not the main loop drops the link flag at most, and changes the
address only with an accepted request. -/
theorem AddressKept.step {s s' : Sys} {e : Event} (h : AddressKept s) (hsafe : AddressSafe s e)
    (hs : Steps s e s') : AddressKept s' := by
  have hloc := h.located.step hs
  have hdown := linkDown_step hs h.down
  -- a step that leaves the copies alone, and the address where it has been taken over
  have same (hpc : s'.pc = s.pc) (hst : s'.mainFuctionState = s.mainFuctionState)
      (hcopies : s'.prePhoneIP = s.prePhoneIP ∧ s'.rtPhoneIP = s.rtPhoneIP ∧ s'.sockIP = s.sockIP)
      (hflag : s'.g.netCompleteFlag = s.g.netCompleteFlag ∨ s'.g.netCompleteFlag = 0)
      (hip : ∀ k < octetsTaken s, s'.g.phoneIP.rd k = s.g.phoneIP.rd k) : AddressKept s' := by
    obtain ⟨hpre, hrt, hsock⟩ := hcopies
    refine ⟨hloc, hdown, fun k hk => ?_, ?_, ?_⟩
    · have hk₀ : k < octetsTaken s := by
        refine Nat.lt_of_lt_of_le hk ?_
        unfold octetsTaken
        rw [hpc]
        rcases hflag with hflag | hflag
        · rw [hflag]
        · rw [hflag]
          cases s.pc <;> simp
      rw [hpre, hip k hk₀]
      exact h.pre k hk₀
    · rw [hpc, hst, hrt, hpre]
      exact h.text
    · rw [hpc, hst, hsock, hrt]
      exact h.sock
  cases hs with
  | main again staip => exact ⟨hloc, hdown, h.pre_mainStep, h.text_mainStep.1, h.text_mainStep.2⟩
  | led =>
      unfold ledStep at same ⊢
      cases hled : s.led with
      | clear =>
          rw [hled] at same
          exact same rfl rfl ⟨rfl, rfl, rfl⟩ (.inr rfl) fun _ _ => rfl
      | _ =>
          rw [hled] at same
          exact same rfl rfl ⟨rfl, rfl, rfl⟩ (.inl rfl) fun _ _ => rfl
  | @phone dataBuf num g' _ hg _ =>
      subst hg
      refine same rfl rfl ⟨rfl, rfl, rfl⟩ ?_ fun k hk => ?_
      · show (wifiDataDeal s.g dataBuf num).netCompleteFlag = _ ∨ _ = 0
        rw [wifiDataDeal_netCompleteFlag]
        split_ifs
        · exact .inr rfl
        · exact .inl rfl
      · show (wifiDataDeal s.g dataBuf num).phoneIP.rd k = _
        rw [(wifiDataDeal_accepted s.g dataBuf num).1]
        split_ifs with hacc
        · exact hsafe hacc k hk
        · rfl
  | screen _ ha => cases ha <;> exact same rfl rfl ⟨rfl, rfl, rfl⟩ (.inl rfl) fun _ _ => rfl
  | key | transmit | tick => exact same rfl rfl ⟨rfl, rfl, rfl⟩ (.inl rfl) fun _ _ => rfl

theorem AddressKept.talksToPhone {s : Sys} (h : AddressKept s) : TalksToPhone s := by
  rintro hpc hst hflag
  have htaken : octetsTaken s = 4 := by
    unfold octetsTaken
    rcases hpc with hpc | hpc <;> rw [hpc, hflag] <;> rfl
  have hpre : s.prePhoneIP = s.g.phoneIP := Buffer.ext_rd fun k hk => h.pre k (htaken ▸ hk)
  have htext : s.rtPhoneIP = s.prePhoneIP :=
    h.text (by rcases hpc with hpc | hpc <;> rw [hpc] <;> exact .inr hst)
  have hsock : s.sockIP = s.rtPhoneIP :=
    h.sock (by rcases hpc with hpc | hpc <;> rw [hpc] <;> exact .inr hst)
  exact ⟨hpre, htext.trans hpre, hsock.trans (htext.trans hpre)⟩

/-- **The module talks to the phone** in every run in which no accepted request
changes an octet of the address that the main loop has taken over. -/
theorem talks_to_phone (as : List Event)
    (hsafe : Along step (fun s e _ => AddressSafe s e) Sys.powerOn as) :
    Along step (fun _ _ s' => TalksToPhone s') Sys.powerOn as := by
  have h0 : AddressKept Sys.powerOn := by
    refine ⟨Sys.located_powerOn, linkDown_powerOn, nofun, ?_, ?_⟩ <;>
      exact fun h => by simp [TextCurrent, SockCurrent, Sys.powerOn] at h
  exact hsafe.mono h0 fun s e s' hi hc hs =>
    have hi' := hi.step hc (steps_of_step hs)
    ⟨hi', hi'.talksToPhone⟩

/-- The link is lost, and the phone comes back with another address. -/
theorem talks_to_phone_again :
    Along step (fun _ _ s' => TalksToPhone s') Sys.powerOn
      (opened ++ .phone (request 0x75 2 0) 39 :: .phone moved 39 ::
        List.replicate 22 .next) :=
  talks_to_phone _ (by decide +kernel)

/-- The phone changes its address while `cc3200_set_udpIP` waits for the module:
the session opens with the old one. -/
theorem talks_to_nobody :
    ¬ Along step (fun _ _ s' => TalksToPhone s') Sys.powerOn
      (List.replicate 9 .next ++ .phone (request 0x75 1 1) 39 :: (List.replicate 19 .next ++
        .phone moved 39 :: List.replicate 8 .next)) := by
  decide +kernel

end DolphinNote
