/-
DolphinNote/Provisioning.lean

How the WiFi module is brought into a network (`cc3200_smartcfg`, `cc3200_start`).

The module is asked for its role; if it is a station, its link is waited for with
the 16-bit down-counter `wait_time`, and otherwise (or if that fails) it is put into
the smart-config mode.  If the smart-config pin is low, the link is waited for once
more, with the 8-bit up-counter `time` against the 16-bit `over_time`.

* The first wait always ends (`linkWait_ends`).
* The second one gives up in time if `over_time` fits into the counter
  (`linkPoll_gives_up`), and waits forever for a link that does not come if it does
  not fit (`linkPoll_forever`).
* What holds for every trace of the pins is `gives_up_iff`.
-/
import DolphinNote.Globals

namespace DolphinNote

/-- The commands whose answer is not looked at. -/
inductive Command
  /-- `AT+STA=ff`, which clears the list of networks. -/
  | delAllSta
  /-- `AT+SL=smartcfg` -/
  | smartcfg
  /-- `AT+ROLE=STA` -/
  | roleSta
  /-- `AT+RST` -/
  | rst
  /-- `+++` -/
  | atMode
  deriving DecidableEq, Repr

/-- What `cc3200_smartcfg` learns about the module: the result of `AT+ROLE=?`, the
readings of the link pin in its two loops, and that of the smart-config pin.  A pin
that reads `false` is active. -/
structure Cc3200 where
  roleAnswer : UInt8
  linkWaited : ℕ → Bool
  smartPin : Bool
  linkPolled : ℕ → Bool

/-- The link pin is never active. -/
def Cc3200.NoLink (m : Cc3200) : Prop :=
  (∀ k, m.linkWaited k = true) ∧ ∀ k, m.linkPolled k = true

/-! ### cc3200_smartcfg -/

/-- `while(wait_time--)`, from the reading `k` on, with the commands sent. -/
def linkWait (pin : ℕ → Bool) : ℕ → ℕ → UInt16 → Option (List Command)
  | 0, _, _ => none
  | fuel + 1, k, waitTime =>
      if waitTime = 0 then some []
      else
        let waitTime := waitTime - 1
        if pin k = false then some []
        else
          -- the last second has passed
          let sent := if waitTime = 0 then [Command.delAllSta, .smartcfg] else []
          (linkWait pin fuel (k + 1) waitTime).map (sent ++ ·)

/-- The loop that waits for the connection, with `k` readings made: the value
returned, and the readings made in the end. -/
def linkPoll (pin : ℕ → Bool) (overTime : UInt16) : ℕ → ℕ → UInt8 → Option (UInt8 × ℕ)
  | 0, _, _ => none
  | fuel + 1, k, time =>
      if pin k then
        let time := time + 1
        if time.toUInt16 ≥ overTime then some (1, k + 1) else linkPoll pin overTime fuel (k + 1) time
      else some (0, k + 1)

/-- `cc3200_smartcfg`: the value returned, the readings made in the second loop, and
the commands sent behind `AT+ROLE=?`. -/
def cc3200Smartcfg (fuel : ℕ) (m : Cc3200) (waitTime overTime : UInt16) :
    Option (UInt8 × ℕ × List Command) :=
  (if m.roleAnswer = 0 then linkWait m.linkWaited fuel 0 waitTime
    else some [.roleSta, .rst, .atMode, .delAllSta, .smartcfg]).bind fun sent =>
      (if m.smartPin = false then linkPoll m.linkPolled overTime fuel 0 0 else some (0, 0)).map
        fun r => (r.1, r.2, sent)

/-- `Link_wait_time` -/
def linkWaitTime : UInt16 := 30

/-- `Cfg_over_time` -/
def cfgOverTime : UInt16 := 120

/-- The loop of `cc3200_start`: the attempts it takes; `m` is the module in each of
them. -/
def cc3200Start (fuel : ℕ) (m : ℕ → Cc3200) : ℕ → ℕ → Option ℕ
  | 0, _ => none
  | tries + 1, k =>
      match cc3200Smartcfg fuel (m k) linkWaitTime cfgOverTime with
      | none => none
      | some (res, _, _) => if res = 0 then some (k + 1) else cc3200Start fuel m tries (k + 1)

/-! ### The loops -/

section Loops

variable {pin : ℕ → Bool} {overTime : UInt16}

/-- **The first loop** ends: the counter is tested before it is decremented. -/
theorem linkWait_ends (pin : ℕ → Bool) (k : ℕ) (waitTime : UInt16) :
    ∃ sent, ∀ fuel, waitTime.toNat < fuel → linkWait pin fuel k waitTime = some sent := by
  induction hn : waitTime.toNat generalizing k waitTime with
  | zero =>
      have hzero : waitTime = 0 := UInt16.toNat.inj hn
      refine ⟨[], fun fuel hf => ?_⟩
      obtain ⟨fuel, rfl⟩ := Nat.exists_eq_add_of_lt hf
      rw [Nat.zero_add, linkWait, if_pos hzero]
  | succ n ih =>
      have hpos : waitTime ≠ 0 := by
        rintro rfl
        cases hn
      have hone : (1 : UInt16) ≤ waitTime := by
        rw [UInt16.le_iff_toNat_le, hn]
        exact Nat.succ_pos n
      have hdec : (waitTime - 1).toNat = n := by
        rw [UInt16.toNat_sub_of_le _ _ hone, hn]
        rfl
      obtain ⟨sent, hsent⟩ := ih (k + 1) (waitTime - 1) hdec
      rcases hp : pin k with - | -
      · refine ⟨[], fun fuel hf => ?_⟩
        obtain ⟨fuel, rfl⟩ := Nat.exists_eq_add_of_lt hf
        rw [linkWait, if_neg hpos]
        exact if_pos hp
      · refine ⟨(if waitTime - 1 = 0 then [Command.delAllSta, .smartcfg] else []) ++ sent,
          fun fuel hf => ?_⟩
        obtain ⟨fuel, rfl⟩ := Nat.exists_eq_add_of_lt hf
        have hrest := hsent (n + 1 + fuel) (by omega)
        rw [linkWait, if_neg hpos]
        dsimp only
        rw [hp, if_neg (by decide), hrest, Option.map_some]

/-- The counter behind one more second. -/
theorem toNat_time (time : UInt8) (h : time.toNat < 255) :
    (time + 1).toUInt16.toNat = time.toNat + 1 := by
  rw [UInt8.toNat_toUInt16, UInt8.toNat_add]
  show (time.toNat + 1) % 256 = _
  exact Nat.mod_eq_of_lt (by omega)

/-- The link is there, -/
theorem linkPoll_linked {fuel k : ℕ} {time : UInt8} (hp : pin k = false) (hf : 0 < fuel) :
    linkPoll pin overTime fuel k time = some (0, k + 1) := by
  obtain ⟨fuel, rfl⟩ := Nat.exists_eq_add_of_lt hf
  rw [Nat.zero_add, linkPoll, hp]
  rfl

/-- or the limit is reached, -/
theorem linkPoll_over {fuel k : ℕ} {time : UInt8} (hp : pin k = true)
    (hge : (time + 1).toUInt16 ≥ overTime) (hf : 0 < fuel) :
    linkPoll pin overTime fuel k time = some (1, k + 1) := by
  obtain ⟨fuel, rfl⟩ := Nat.exists_eq_add_of_lt hf
  rw [Nat.zero_add, linkPoll, if_pos hp]
  exact if_pos hge

/-- or the loop goes on. -/
theorem linkPoll_wait {k : ℕ} {time : UInt8} (hp : pin k = true)
    (hlt : ¬ (time + 1).toUInt16 ≥ overTime) (fuel : ℕ) :
    linkPoll pin overTime (fuel + 1) k time = linkPoll pin overTime fuel (k + 1) (time + 1) := by
  rw [linkPoll, if_pos hp]
  exact if_neg hlt

/-- **The second loop** gives up in time if the limit fits into the counter. -/
theorem linkPoll_gives_up (pin : ℕ → Bool) (hover : overTime.toNat ≤ 255) (n k : ℕ) (time : UInt8)
    (hn : time.toNat + n = max 1 overTime.toNat) (hpos : 0 < n) :
    ∃ res polls, (∀ fuel, n < fuel + 1 → linkPoll pin overTime fuel k time = some (res, polls)) ∧
      polls ≤ k + n ∧ ((∀ i, pin i = true) → res = 1) := by
  induction n generalizing k time with
  | zero => cases hpos
  | succ n ih =>
      have htime := toNat_time time (by omega)
      rcases hp : pin k with - | -
      · refine ⟨0, k + 1, fun fuel hf => linkPoll_linked hp (by omega), by omega, fun hall => ?_⟩
        rw [hall k] at hp
        cases hp
      · by_cases hge : (time + 1).toUInt16 ≥ overTime
        · exact ⟨1, k + 1, fun fuel hf => linkPoll_over hp hge (by omega), by omega, fun _ => rfl⟩
        · have hlt : (time + 1).toUInt16.toNat < overTime.toNat :=
            UInt16.lt_iff_toNat_lt.mp (UInt16.not_le.mp hge)
          have htime' : (time + 1).toNat = time.toNat + 1 := htime
          obtain ⟨res, polls, hend, hle, hone⟩ := ih (k + 1) (time + 1) (by omega) (by omega)
          refine ⟨res, polls, fun fuel hf => ?_, by omega, hone⟩
          obtain ⟨fuel, rfl⟩ := Nat.exists_eq_add_of_lt (show 0 < fuel by omega)
          rw [Nat.zero_add, linkPoll_wait hp hge]
          exact hend fuel (by omega)

/-- It ends when the link comes, whatever the limit is. -/
theorem linkPoll_link (overTime : UInt16) (d k : ℕ) (time : UInt8) (hd : pin (k + d) = false) :
    ∃ r, ∀ fuel, d < fuel → linkPoll pin overTime fuel k time = some r := by
  induction d generalizing k time with
  | zero => exact ⟨(0, k + 1), fun fuel hf => linkPoll_linked hd hf⟩
  | succ d ih =>
      obtain ⟨r, hr⟩ := ih (k + 1) (time + 1) (by rwa [Nat.add_assoc, Nat.add_comm 1 d])
      rcases hp : pin k with - | -
      · exact ⟨(0, k + 1), fun fuel hf => linkPoll_linked hp (Nat.zero_lt_of_lt hf)⟩
      · by_cases hge : (time + 1).toUInt16 ≥ overTime
        · exact ⟨(1, k + 1), fun fuel hf => linkPoll_over hp hge (Nat.zero_lt_of_lt hf)⟩
        · refine ⟨r, fun fuel hf => ?_⟩
          obtain ⟨fuel, rfl⟩ := Nat.exists_eq_add_of_lt hf
          rw [linkPoll_wait hp hge]
          exact hr _ (by omega)

/-- It waits forever if the limit is above the counter and the link does not come. -/
theorem linkPoll_forever (hover : 255 < overTime.toNat) (hpin : ∀ k, pin k = true) (fuel k : ℕ)
    (time : UInt8) : linkPoll pin overTime fuel k time = none := by
  induction fuel generalizing k time with
  | zero => rfl
  | succ fuel ih =>
      have hlt : ¬ (time + 1).toUInt16 ≥ overTime := by
        have hbyte := (time + 1).toNat_lt
        rw [ge_iff_le, UInt16.not_le, UInt16.lt_iff_toNat_lt, UInt8.toNat_toUInt16]
        omega
      rw [linkPoll_wait (hpin k) hlt]
      exact ih (k + 1) (time + 1)

end Loops

/-! ### Giving up -/

/-- The call returns; without a link it returns 1, after at most `over_time` readings
in the second loop (one for a limit of 0), if it gets there, and 0 otherwise. -/
def GivesUp (m : Cc3200) (waitTime overTime : UInt16) : Prop :=
  ∃ res polls sent,
    (∃ n, ∀ fuel, n < fuel → cc3200Smartcfg fuel m waitTime overTime = some (res, polls, sent)) ∧
      (m.NoLink → if m.smartPin = false then res = 1 ∧ polls ≤ max 1 overTime.toNat else res = 0)

variable {m : Cc3200} {waitTime overTime : UInt16}

/-- The first part ends, and then the second loop decides. -/
theorem cc3200Smartcfg_first (m : Cc3200) (waitTime overTime : UInt16) :
    ∃ sent, ∀ fuel, waitTime.toNat < fuel → cc3200Smartcfg fuel m waitTime overTime =
      (if m.smartPin = false then linkPoll m.linkPolled overTime fuel 0 0 else some (0, 0)).map
        fun r => (r.1, r.2, sent) := by
  by_cases hrole : m.roleAnswer = 0
  · obtain ⟨sent, hsent⟩ := linkWait_ends m.linkWaited 0 waitTime
    refine ⟨sent, fun fuel hf => ?_⟩
    unfold cc3200Smartcfg
    rw [if_pos hrole, hsent fuel hf]
    rfl
  · refine ⟨[.roleSta, .rst, .atMode, .delAllSta, .smartcfg], fun fuel _ => ?_⟩
    unfold cc3200Smartcfg
    rw [if_neg hrole]
    rfl

/-- If the second loop ends with enough fuel, so does the call. -/
theorem cc3200Smartcfg_ends (m : Cc3200) (waitTime overTime : UInt16) {r : UInt8 × ℕ} {n : ℕ}
    (h : ∀ fuel, n < fuel →
      (if m.smartPin = false then linkPoll m.linkPolled overTime fuel 0 0 else some (0, 0)) = some r) :
    ∃ sent, ∃ n, ∀ fuel, n < fuel →
      cc3200Smartcfg fuel m waitTime overTime = some (r.1, r.2, sent) := by
  obtain ⟨sent, hfirst⟩ := cc3200Smartcfg_first m waitTime overTime
  refine ⟨sent, max n waitTime.toNat, fun fuel hf => ?_⟩
  rw [hfirst fuel (lt_of_le_of_lt (le_max_right _ _) hf), h fuel (lt_of_le_of_lt (le_max_left _ _) hf),
    Option.map_some]

/-- The second loop is not entered. -/
theorem gives_up_of_high (hsmart : ¬ m.smartPin = false) : GivesUp m waitTime overTime := by
  obtain ⟨sent, hend⟩ := cc3200Smartcfg_ends m waitTime overTime
    (r := (0, 0)) (n := 0) fun fuel _ => if_neg hsmart
  refine ⟨0, 0, sent, hend, fun _ => ?_⟩
  rw [if_neg hsmart]

/-- A limit that fits into the counter is enough, on every trace of the pins. -/
theorem gives_up_of_le (m : Cc3200) (waitTime : UInt16) (hover : overTime.toNat ≤ 255) :
    GivesUp m waitTime overTime := by
  by_cases hsmart : m.smartPin = false
  · obtain ⟨res, polls, hpoll, hle, hone⟩ := linkPoll_gives_up m.linkPolled hover
      (max 1 overTime.toNat) 0 0 (Nat.zero_add _)
      (lt_of_lt_of_le Nat.one_pos (le_max_left _ _))
    obtain ⟨sent, hend⟩ := cc3200Smartcfg_ends m waitTime overTime (r := (res, polls))
      (n := max 1 overTime.toNat) fun fuel hf => by
        rw [if_pos hsmart]
        exact hpoll fuel (Nat.lt_succ_of_lt hf)
    refine ⟨res, polls, sent, hend, fun hno => ?_⟩
    rw [if_pos hsmart]
    exact ⟨hone hno.2, by omega⟩
  · exact gives_up_of_high hsmart

/-- **Provisioning.**  The call returns, and gives up in time, exactly if the limit
fits into the 8-bit counter, or the second loop is not entered, or the link comes
in it. -/
theorem gives_up_iff (m : Cc3200) (waitTime overTime : UInt16) :
    GivesUp m waitTime overTime ↔
      overTime.toNat ≤ 255 ∨ m.smartPin = true ∨ ∃ k, m.linkPolled k = false := by
  constructor
  · rintro ⟨res, polls, sent, ⟨n, hend⟩, -⟩
    by_contra hno
    rw [not_or, not_or, not_exists] at hno
    obtain ⟨hover, hsmart, hpin⟩ := hno
    obtain ⟨sent', hfirst⟩ := cc3200Smartcfg_first m waitTime overTime
    have hforever := linkPoll_forever (Nat.lt_of_not_le hover)
      (fun k => Bool.eq_true_of_not_eq_false (hpin k)) (max n waitTime.toNat + 1) 0 0
    have hsome := hend (max n waitTime.toNat + 1) (Nat.lt_succ_of_le (le_max_left _ _))
    rw [hfirst _ (Nat.lt_succ_of_le (le_max_right _ _)), if_pos (Bool.eq_false_of_not_eq_true hsmart),
      hforever] at hsome
    cases hsome
  · intro h
    by_cases hover : overTime.toNat ≤ 255
    · exact gives_up_of_le m waitTime hover
    · by_cases hsmart : m.smartPin = false
      · obtain ⟨k, hk⟩ := (h.resolve_left hover).resolve_left (by rw [hsmart]; decide)
        obtain ⟨r, hr⟩ := linkPoll_link overTime k 0 0 ((Nat.zero_add k).symm ▸ hk)
        obtain ⟨sent, hend⟩ := cc3200Smartcfg_ends m waitTime overTime (r := r) (n := k)
          fun fuel hf => by
            rw [if_pos hsmart]
            exact hr fuel hf
        refine ⟨r.1, r.2, sent, hend, fun hno => ?_⟩
        rw [hno.2 k] at hk
        cases hk
      · exact gives_up_of_high hsmart

/-- With a limit of 256 the call waits forever for a link that does not come. -/
theorem gives_up_fails :
    ¬ GivesUp { roleAnswer := 0, linkWaited := fun _ => true, smartPin := false,
                linkPolled := fun _ => true } 30 256 := by
  rintro ⟨res, polls, sent, ⟨n, hend⟩, -⟩
  obtain ⟨sent', hfirst⟩ := cc3200Smartcfg_first
    { roleAnswer := 0, linkWaited := fun _ => true, smartPin := false,
      linkPolled := fun _ => true } 30 256
  have hsome := hend (n + 31) (by omega)
  rw [hfirst _ (Nat.lt_add_left n (by decide)), if_pos rfl,
    linkPoll_forever (by decide) (fun _ => rfl)] at hsome
  cases hsome

/-! ### cc3200_start -/

/-- With the two constants every attempt ends, so `cc3200_start` goes on to one that
finds the smart-config pin high, at the latest. -/
theorem cc3200Start_ends (m : ℕ → Cc3200) (d k : ℕ) (hd : (m (k + d)).smartPin = true) :
    ∃ n, ∀ fuel, n < fuel → ∀ tries, d < tries → ∃ j, cc3200Start fuel m tries k = some j := by
  induction d generalizing k with
  | zero =>
      have hhigh : ¬ (m k).smartPin = false := by
        rw [show (m k).smartPin = true from hd]
        decide
      obtain ⟨sent, n, hend⟩ := cc3200Smartcfg_ends (m k) linkWaitTime cfgOverTime
        (r := (0, 0)) (n := 0) fun fuel _ => if_neg hhigh
      refine ⟨n, fun fuel hf tries ht => ⟨k + 1, ?_⟩⟩
      obtain ⟨tries, rfl⟩ := Nat.exists_eq_add_of_lt ht
      rw [Nat.zero_add, cc3200Start, hend fuel hf]
      rfl
  | succ d ih =>
      obtain ⟨n, hn⟩ := ih (k + 1) (by rwa [Nat.add_assoc, Nat.add_comm 1 d])
      obtain ⟨res, polls, sent, ⟨n', hend⟩, -⟩ :=
        gives_up_of_le (m k) linkWaitTime (show cfgOverTime.toNat ≤ 255 by decide)
      refine ⟨max n n', fun fuel hf tries ht => ?_⟩
      obtain ⟨tries, rfl⟩ := Nat.exists_eq_add_of_lt ht
      rw [cc3200Start, hend fuel (lt_of_le_of_lt (le_max_right _ _) hf)]
      dsimp only
      by_cases hres : res = 0
      · exact ⟨k + 1, if_pos hres⟩
      · rw [if_neg hres]
        exact hn fuel (lt_of_le_of_lt (le_max_left _ _) hf) _ (by omega)

end DolphinNote
