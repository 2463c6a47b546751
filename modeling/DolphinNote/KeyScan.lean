/-
DolphinNote/KeyScan.lean

The keys: `KeyRead` and `key_scan` (key.c) in the loop of the Key thread, and the
events it posts.

A scan takes samples until the key is released or, at the ninth, until it counts as
long; `key_lock_flag` keeps the rest of a long hold from being posted again, and is
cleared by a scan that begins with a released sample.  A scan thus ends with every
released sample, but the one that ends a hold is swallowed by `key_scan` unless the
hold takes up its scans completely.

* `keyLoop_held` — what the thread does in a hold and the released sample behind it.
* `after_released` — where it stands then, after any samples.
* `reports_once_iff` — which presses are reported.
-/
import Mathlib.Data.List.DropRight
import DolphinNote.MainLoop

namespace DolphinNote

/-! ### key.c -/

/-- `ReadData`: the pins 12 to 14 of the port, 1 for a key that is down. -/
def readData (port : UInt16) : UInt8 :=
  ((port &&& 0x7000) >>> 12).toUInt8 ^^^ 0x07

/-- `KeyRead` -/
def keyRead (port : UInt16) : UInt8 :=
  let cont : UInt8 := 0
  let trg := readData port &&& (readData port ^^^ cont)
  trg + readData port

/-- `key_press` -/
def keyPress (keyValue : UInt8) : UInt8 := ((keyValue >>> 2) ^^^ 0x03) <<< 4

/-- The loop of `key_scan` from its pass `i` on: the value returned, and the samples
left.  `none` if they have run out. -/
def scanLoop (press : UInt8) : ℕ → List UInt16 → Option (UInt8 × List UInt16)
  | _, [] => none
  | i, port :: ports =>
      if keyRead port = 0 then some (press ||| 0x02, ports)
      else if i = 7 then some (press ||| 0x03, ports)
      else if i + 1 < 10 then scanLoop press (i + 1) ports
      else some (0, ports)

/-- `key_scan` -/
def keyScan : List UInt16 → Option (UInt8 × List UInt16)
  | [] => none
  | port :: ports =>
      if keyRead port ≠ 0 then scanLoop (keyPress (keyRead port)) 0 ports else some (0, ports)

/-! ### The Key thread -/

/-- The bit of `F_key_state` for a result of `key_scan`. -/
def scanBit (scan : UInt8) : Option UInt8 :=
  match scan with
  | 0x12 => some 0x08 -- KEY_rec_short_push
  | 0x22 => some 0x20 -- KEY_snp_short_push
  | 0x32 => some 0x02 -- KEY_net_short_push
  | 0x33 => some 0x01 -- KEY_net_long_push
  | 0x23 => some 0x10 -- KEY_snp_long_push
  | 0x13 => some 0x04 -- KEY_rec_long_push
  | _ => none

/-- `switch(key_scan())`: the new `key_lock_flag`, and what is posted. -/
def keySwitch (keyLockFlag scan : UInt8) : UInt8 × List UInt8 :=
  match scanBit scan with
  | some bit => if keyLockFlag = 0 then (1, [bit]) else (keyLockFlag, [])
  | none => (0, [])

theorem scanLoop_length {press : UInt8} {i : ℕ} {xs : List UInt16} {r : UInt8 × List UInt16}
    (h : scanLoop press i xs = some r) : r.2.length < xs.length := by
  induction xs generalizing i with
  | nil => cases h
  | cons x xs ih =>
      unfold scanLoop at h
      split_ifs at h
      · obtain rfl := Option.some.inj h
        exact Nat.lt_succ_self _
      · obtain rfl := Option.some.inj h
        exact Nat.lt_succ_self _
      · exact (ih h).trans (Nat.lt_succ_self _)
      · obtain rfl := Option.some.inj h
        exact Nat.lt_succ_self _

/-- A scan takes a sample at least. -/
theorem keyScan_length {xs : List UInt16} {r : UInt8 × List UInt16} (h : keyScan xs = some r) :
    r.2.length < xs.length := by
  cases xs with
  | nil => cases h
  | cons x xs =>
      simp only [keyScan] at h
      split_ifs at h
      · exact (scanLoop_length h).trans (Nat.lt_succ_self _)
      · obtain rfl := Option.some.inj h
        exact Nat.lt_succ_self _

/-- The loop of the Key thread: the events posted while the samples are read. -/
def keyLoop (keyLockFlag : UInt8) (xs : List UInt16) : List UInt8 :=
  match _h : keyScan xs with
  | none => []
  | some r => (keySwitch keyLockFlag r.1).2 ++ keyLoop (keySwitch keyLockFlag r.1).1 r.2
termination_by xs.length
decreasing_by exact keyScan_length _h

/-- `Key_thread_entry` -/
def keyThread (xs : List UInt16) : List UInt8 := keyLoop 1 xs

theorem keyLoop_none {lock : UInt8} {xs : List UInt16} (h : keyScan xs = none) :
    keyLoop lock xs = [] := by
  rw [keyLoop]
  split
  · rfl
  · rename_i hs
    rw [h] at hs
    cases hs

theorem keyLoop_some {lock : UInt8} {xs : List UInt16} {r : UInt8 × List UInt16}
    (h : keyScan xs = some r) :
    keyLoop lock xs = (keySwitch lock r.1).2 ++ keyLoop (keySwitch lock r.1).1 r.2 := by
  rw [keyLoop]
  split
  · rename_i hs
    rw [h] at hs
    cases hs
  · rename_i hs
    obtain rfl := Option.some.inj (h.symm.trans hs)
    rfl

/-! ### Samples -/

/-- The keys. -/
inductive Key
  | tNet | tSnp | tRec
  deriving DecidableEq, Repr

/-- The bit of a key in `ReadData`. -/
def Key.mask : Key → UInt8
  | .tNet => 1
  | .tSnp => 2
  | .tRec => 4

/-- No key is down. -/
def Released (port : UInt16) : Prop := readData port = 0

/-- One key is down. -/
def Down (key : Key) (port : UInt16) : Prop := readData port = key.mask

instance (port : UInt16) : Decidable (Released port) := inferInstanceAs (Decidable (_ = _))

instance (key : Key) (port : UInt16) : Decidable (Down key port) := inferInstanceAs (Decidable (_ = _))

/-- At most one key is down. -/
def OneKey (port : UInt16) : Prop := Released port ∨ ∃ key, Down key port

/-- The event of a press that takes `n` samples. -/
def Key.event (key : Key) (n : ℕ) : UInt8 :=
  match key with
  | .tNet => if n ≤ 8 then 0x02 else 0x01
  | .tSnp => if n ≤ 8 then 0x20 else 0x10
  | .tRec => if n ≤ 8 then 0x08 else 0x04

theorem keyRead_released {port : UInt16} (h : Released port) : keyRead port = 0 := by
  unfold keyRead
  rw [show readData port = 0 from h]
  rfl

theorem keyRead_down {key : Key} {port : UInt16} (h : Down key port) :
    keyRead port = 2 * key.mask := by
  unfold keyRead
  rw [show readData port = key.mask from h]
  cases key <;> rfl

/-- With at most one key down, a sample that is not released is read as pressed. -/
theorem down_of_not_released {port : UInt16} (h : OneKey port) (hr : ¬ Released port) :
    ∃ key, Down key port ∧ keyRead port ≠ 0 := by
  obtain ⟨key, hk⟩ := h.resolve_left hr
  refine ⟨key, hk, ?_⟩
  rw [keyRead_down hk]
  cases key <;> decide

/-- The thread acts on a short press -/
theorem keySwitch_short {key : Key} {port : UInt16} (h : Down key port) (lock : UInt8) {n : ℕ}
    (hn : n ≤ 8) :
    keySwitch lock (keyPress (keyRead port) ||| 0x02) =
      if lock = 0 then (1, [key.event n]) else (lock, []) := by
  rw [keyRead_down h]
  cases key <;> simp only [Key.event, if_pos hn] <;> rfl

/-- and on a long one. -/
theorem keySwitch_long {key : Key} {port : UInt16} (h : Down key port) (lock : UInt8) {n : ℕ}
    (hn : ¬ n ≤ 8) :
    keySwitch lock (keyPress (keyRead port) ||| 0x03) =
      if lock = 0 then (1, [key.event n]) else (lock, []) := by
  rw [keyRead_down h]
  cases key <;> simp only [Key.event, if_neg hn] <;> rfl

/-! ### Scans -/

section Scans

variable {press : UInt8} {r : UInt16} {xs ys : List UInt16}

/-- The key is released before the eighth pass is over. -/
theorem scanLoop_released {i : ℕ} (hxs : ∀ x ∈ xs, keyRead x ≠ 0) (hi : i + xs.length ≤ 7)
    (hr : Released r) : scanLoop press i (xs ++ r :: ys) = some (press ||| 0x02, ys) := by
  induction xs generalizing i with
  | nil =>
      rw [List.nil_append, scanLoop, if_pos (keyRead_released hr)]
  | cons x xs ih =>
      rw [List.length_cons] at hi
      rw [List.cons_append, scanLoop, if_neg (hxs x List.mem_cons_self), if_neg (by omega),
        if_pos (by omega)]
      exact ih (fun x hx => hxs x (List.mem_cons_of_mem _ hx)) (by omega)

/-- The key is held for eight passes. -/
theorem scanLoop_held {i : ℕ} (hxs : ∀ x ∈ xs, keyRead x ≠ 0) (hne : xs ≠ [])
    (hi : i + xs.length = 8) : scanLoop press i (xs ++ ys) = some (press ||| 0x03, ys) := by
  induction xs generalizing i with
  | nil => exact absurd rfl hne
  | cons x xs ih =>
      rw [List.length_cons] at hi
      rw [List.cons_append, scanLoop, if_neg (hxs x List.mem_cons_self)]
      by_cases h7 : i = 7
      · have hnil : xs = [] := List.length_eq_zero_iff.mp (by omega)
        rw [if_pos h7, hnil, List.nil_append]
      · have hne' : xs ≠ [] := by
          rintro rfl
          rw [List.length_nil] at hi
          omega
        rw [if_neg h7, if_pos (by omega)]
        exact ih (fun x hx => hxs x (List.mem_cons_of_mem _ hx)) hne' (by omega)

/-- A scan that begins with a released sample clears the lock. -/
theorem keyLoop_released (hr : Released r) (lock : UInt8) :
    keyLoop lock (r :: ys) = keyLoop 0 ys := by
  have hscan : keyScan (r :: ys) = some (0, ys) := by
    rw [keyScan, if_neg (not_not.mpr (keyRead_released hr))]
  rw [keyLoop_some hscan]
  rfl

@[simp] theorem keyLoop_nil (lock : UInt8) : keyLoop lock [] = [] := keyLoop_none rfl

/-- What the thread does with a scan that returns a key, -/
theorem keyLoop_key {lock scan ev : UInt8} (hscan : keyScan xs = some (scan, ys))
    (hkey : keySwitch lock scan = if lock = 0 then (1, [ev]) else (lock, [])) :
    keyLoop lock xs =
      (if lock = 0 then [ev] else []) ++ keyLoop (if lock = 0 then 1 else lock) ys := by
  rw [keyLoop_some hscan]
  show (keySwitch lock scan).2 ++ keyLoop (keySwitch lock scan).1 ys = _
  rw [hkey]
  split_ifs <;> rfl

/-- behind which the lock is set. -/
theorem locked (lock : UInt8) : (if lock = 0 then 1 else lock) ≠ 0 := by
  split_ifs with h
  · decide
  · exact h

/-- **A hold** and the released sample behind it: it is posted if the lock is
clear, and the lock is clear in the end if the scans have taken it up completely. -/
theorem keyLoop_held {key : Key} {x : UInt16} (hx : Down key x) (hone : ∀ y ∈ xs, OneKey y)
    (hxs : ∀ y ∈ xs, ¬ Released y) (hr : Released r) (lock : UInt8) :
    ∃ lock', (lock' = 0 ↔ 9 ∣ xs.length + 1) ∧ ∀ ys, keyLoop lock (x :: (xs ++ r :: ys)) =
      (if lock = 0 then [key.event (xs.length + 1)] else []) ++ keyLoop lock' ys := by
  induction hn : xs.length using Nat.strongRecOn generalizing xs x key lock with
  | ind n ih =>
      subst hn
      have hread : ∀ y ∈ xs, keyRead y ≠ 0 := fun y hy =>
        (down_of_not_released (hone y hy) (hxs y hy)).choose_spec.2
      have hpress : keyRead x ≠ 0 := by
        rw [keyRead_down hx]
        cases key <;> decide
      by_cases hshort : xs.length + 1 ≤ 8
      · refine ⟨if lock = 0 then 1 else lock, iff_of_false (locked lock) (by omega), fun ys => ?_⟩
        have hscan : keyScan (x :: (xs ++ r :: ys)) = some (keyPress (keyRead x) ||| 0x02, ys) := by
          rw [keyScan, if_pos hpress]
          exact scanLoop_released hread (by omega) hr
        exact keyLoop_key hscan (keySwitch_short hx lock hshort)
      · -- the first nine samples are one scan
        obtain ⟨zs, ws, rfl, hlen⟩ : ∃ zs ws, xs = zs ++ ws ∧ zs.length = 8 :=
          ⟨xs.take 8, xs.drop 8, (List.take_append_drop 8 xs).symm, by rw [List.length_take]; omega⟩
        have hscan : ∀ ys, keyScan (x :: (zs ++ ws ++ r :: ys)) =
            some (keyPress (keyRead x) ||| 0x03, ws ++ r :: ys) := by
          intro ys
          rw [keyScan, if_pos hpress, List.append_assoc]
          refine scanLoop_held (fun y hy => hread y (List.mem_append_left _ hy)) ?_ (by omega)
          rintro rfl
          cases hlen
        have hfirst : ∀ ys, keyLoop lock (x :: (zs ++ ws ++ r :: ys)) =
            (if lock = 0 then [key.event ((zs ++ ws).length + 1)] else []) ++
              keyLoop (if lock = 0 then 1 else lock) (ws ++ r :: ys) := by
          intro ys
          exact keyLoop_key (hscan ys) (keySwitch_long hx lock hshort)
        rcases ws with - | ⟨w, ws⟩
        · -- the released sample begins a scan of its own
          refine ⟨0, iff_of_true rfl (by rw [List.append_nil, hlen]), fun ys => ?_⟩
          rw [hfirst, List.nil_append, keyLoop_released hr]
        · have hmem : w ∈ zs ++ w :: ws := List.mem_append_right _ List.mem_cons_self
          have hsub : ∀ y ∈ ws, y ∈ zs ++ w :: ws := fun y hy =>
            List.mem_append_right _ (List.mem_cons_of_mem _ hy)
          obtain ⟨key', hw, -⟩ := down_of_not_released (hone w hmem) (hxs w hmem)
          obtain ⟨lock', hdvd, hrest⟩ := ih ws.length
            (by rw [List.length_append, List.length_cons]; omega) hw
            (fun y hy => hone y (hsub y hy)) (fun y hy => hxs y (hsub y hy))
            (if lock = 0 then 1 else lock) rfl
          refine ⟨lock', hdvd.trans ?_, fun ys => ?_⟩
          · rw [List.length_append, List.length_cons, hlen]
            omega
          · rw [hfirst, List.cons_append, hrest, if_neg (locked lock), List.nil_append]

end Scans

/-! ### The thread -/

/-- The number of samples for which a key has been held in the end. -/
def heldFor (pre : List UInt16) : ℕ := (pre.rtakeWhile fun p => ¬ Released p).length

/-- The samples before the last hold, and those of it. -/
theorem exists_hold (pre : List UInt16) :
    ∃ before hold, pre = before ++ hold ∧ hold.length = heldFor pre ∧
      (∀ p ∈ hold, ¬ Released p) ∧
      (before = [] ∨ ∃ pre' r, before = pre' ++ [r] ∧ Released r) := by
  refine ⟨pre.rdropWhile fun p => ¬ Released p, pre.rtakeWhile fun p => ¬ Released p,
    (List.rdropWhile_append_rtakeWhile ..).symm, rfl, fun p hp => ?_, ?_⟩
  · exact of_decide_eq_true (p := ¬ Released p)
      (List.mem_rtakeWhile_imp (p := fun p => decide ¬ Released p) hp)
  · refine or_iff_not_imp_left.mpr fun hne => ?_
    have hlast := List.rdropWhile_last_not _ _ hne
    exact ⟨_, _, (List.dropLast_concat_getLast hne).symm, not_not.mp (by simpa using hlast)⟩

/-- Where the thread stands behind a released sample: before a new scan, with the lock
clear if the hold before it has taken up its scans completely (or there was none). -/
theorem after_released {pre : List UInt16} {r : UInt16} (hone : ∀ p ∈ pre, OneKey p)
    (hr : Released r) :
    ∃ out lock, (lock = 0 ↔ 9 ∣ heldFor pre) ∧
      ∀ ys, keyLoop 1 (pre ++ r :: ys) = out ++ keyLoop lock ys := by
  induction hn : pre.length using Nat.strongRecOn generalizing pre r with
  | ind n ih =>
      subst hn
      obtain ⟨before, hold, rfl, hlen, hhold, hbefore⟩ := exists_hold pre
      -- where it stands before the hold
      obtain ⟨out, lock, hstart⟩ : ∃ out lock, ∀ zs,
          keyLoop 1 (before ++ zs) = out ++ keyLoop lock zs := by
        rcases hbefore with rfl | ⟨pre', r', rfl, hr'⟩
        · exact ⟨[], 1, fun zs => rfl⟩
        · obtain ⟨out, lock, -, hloop⟩ := ih pre'.length
            (by rw [List.length_append, List.length_append, List.length_singleton]; omega)
            (fun p hp => hone p (List.mem_append_left _ (List.mem_append_left _ hp))) hr' rfl
          refine ⟨out, lock, fun zs => ?_⟩
          rw [List.append_assoc, List.singleton_append]
          exact hloop zs
      rw [← hlen]
      rcases hold with - | ⟨x, xs⟩
      · refine ⟨out, 0, iff_of_true rfl (dvd_zero 9), fun ys => ?_⟩
        rw [List.append_nil, hstart, keyLoop_released hr]
      · have hmem : ∀ p ∈ x :: xs, OneKey p := fun p hp => hone p (List.mem_append_right _ hp)
        obtain ⟨key, hx, -⟩ :=
          down_of_not_released (hmem x List.mem_cons_self) (hhold x List.mem_cons_self)
        obtain ⟨lock', hdvd, hheld⟩ := keyLoop_held hx
          (fun y hy => hmem y (List.mem_cons_of_mem _ hy))
          (fun y hy => hhold y (List.mem_cons_of_mem _ hy)) hr lock
        refine ⟨out ++ if lock = 0 then [key.event (xs.length + 1)] else [], lock', hdvd,
          fun ys => ?_⟩
        rw [List.append_assoc, hstart, List.cons_append, hheld, List.append_assoc]

/-- What the thread posts are events of the main loop. -/
theorem keyLoop_keyBits {lock : UInt8} {xs : List UInt16} {bit : UInt8} (h : bit ∈ keyLoop lock xs) :
    bit ∈ keyBits := by
  induction hn : xs.length using Nat.strongRecOn generalizing xs lock with
  | ind n ih =>
      rcases hs : keyScan xs with - | r
      · rw [keyLoop_none hs] at h
        cases h
      · rw [keyLoop_some hs] at h
        rcases List.mem_append.mp h with h | h
        · have hbit : ∀ scan b, scanBit scan = some b → b ∈ keyBits := by
            intro scan b hb
            unfold scanBit at hb
            split at hb <;> first | (obtain rfl := Option.some.inj hb; simp [keyBits]) | cases hb
          unfold keySwitch at h
          split at h
          · rename_i b hb
            split_ifs at h
            · rw [List.mem_singleton.mp h]
              exact hbit _ _ hb
            · cases h
          · cases h
        · exact ih _ (hn ▸ keyScan_length hs) h rfl

/-! ### Presses -/

/-- In the samples `xs` the key is down for those of `run`, from a released sample to
another one. -/
structure Press (xs pre run rest : List UInt16) (r r' : UInt16) (key : Key) : Prop where
  split : xs = pre ++ r :: (run ++ r' :: rest)
  before : Released r
  after : Released r'
  held : run ≠ []
  down : ∀ p ∈ run, Down key p

/-- Every press is posted once, by the time the key is released, and nothing is posted
while no key is down. -/
def ReportsOnce (xs : List UInt16) : Prop :=
  (∀ pre run rest r r' key, Press xs pre run rest r r' key →
      keyThread (pre ++ r :: (run ++ [r'])) = keyThread (pre ++ [r]) ++ [key.event run.length]) ∧
    ∀ pre r rest, xs = pre ++ r :: rest → Released r → (∀ p ∈ pre.getLast?, Released p) →
      keyThread (pre ++ [r]) = keyThread pre

/-- **One press** is posted exactly if the hold before it has taken up its scans. -/
theorem press_iff {xs pre run rest : List UInt16} {r r' : UInt16} {key : Key}
    (hone : ∀ p ∈ xs, OneKey p) (h : Press xs pre run rest r r' key) :
    keyThread (pre ++ r :: (run ++ [r'])) = keyThread (pre ++ [r]) ++ [key.event run.length] ↔
      9 ∣ heldFor pre := by
  obtain ⟨rfl, hr, hr', hheld, hdown⟩ := h
  obtain ⟨out, lock, hlock, hloop⟩ := after_released
    (fun p hp => hone p (List.mem_append_left _ hp)) hr
  obtain ⟨x, run, rfl⟩ := List.exists_cons_of_ne_nil hheld
  have hnot : ∀ y ∈ run, ¬ Released y := by
    intro y hy hrel
    have hmask : key.mask = 0 := (hdown y (List.mem_cons_of_mem _ hy)).symm.trans hrel
    cases key <;> exact absurd hmask (by decide)
  obtain ⟨lock', -, hrun⟩ := keyLoop_held (hdown x List.mem_cons_self)
    (fun y hy => .inr ⟨key, hdown y (List.mem_cons_of_mem _ hy)⟩) hnot hr' lock
  have hbefore : keyThread (pre ++ [r]) = out := by
    rw [keyThread, hloop, keyLoop_nil, List.append_nil]
  have hafter : keyThread (pre ++ r :: (x :: run ++ [r'])) =
      out ++ if lock = 0 then [key.event (run.length + 1)] else [] := by
    rw [keyThread, hloop, List.cons_append, hrun, keyLoop_nil, List.append_nil]
  rw [hbefore, hafter, List.append_cancel_left_eq, ← hlock, List.length_cons]
  split_ifs with h
  · exact iff_of_true rfl h
  · exact iff_of_false (fun he => he.elim) h

/-- Nothing is posted in a released sample behind another one. -/
theorem quiet {pre : List UInt16} {r : UInt16} (hone : ∀ p ∈ pre, OneKey p) (hr : Released r)
    (hpre : ∀ p ∈ pre.getLast?, Released p) : keyThread (pre ++ [r]) = keyThread pre := by
  rcases List.eq_nil_or_concat' pre with rfl | ⟨pre, r₀, rfl⟩
  · rw [List.nil_append, keyThread, keyLoop_released hr, keyThread, keyLoop_nil, keyLoop_nil]
  · have hr₀ : Released r₀ := hpre r₀ (by simp)
    obtain ⟨out, lock, -, hloop⟩ := after_released
      (fun p hp => hone p (List.mem_append_left _ hp)) hr₀
    have htwo : keyThread (pre ++ [r₀] ++ [r]) = out := by
      rw [keyThread, List.append_assoc, List.singleton_append, hloop, keyLoop_released hr,
        keyLoop_nil, List.append_nil]
    rw [htwo, keyThread, hloop, keyLoop_nil, List.append_nil]

/-- **Key presses.**  With at most one key down at a time, every press is reported
once, short or long, and nothing else, exactly if no press follows a hold that has left
a scan unfinished after a single released sample. -/
theorem reports_once_iff {xs : List UInt16} (hone : ∀ p ∈ xs, OneKey p) :
    ReportsOnce xs ↔ ∀ pre run rest r r' key, Press xs pre run rest r r' key → 9 ∣ heldFor pre := by
  constructor
  · exact fun h pre run rest r r' key hp => (press_iff hone hp).mp (h.1 _ _ _ _ _ _ hp)
  · intro h
    refine ⟨fun pre run rest r r' key hp => (press_iff hone hp).mpr (h _ _ _ _ _ _ hp), ?_⟩
    rintro pre r rest rfl hr hpre
    exact quiet (fun p hp => hone p (List.mem_append_left _ hp)) hr hpre

/-- The condition as it is checked on given samples. -/
theorem divides_of_check {xs : List UInt16}
    (h : ∀ k < xs.length, (xs[k]?.any fun r => Released r) = true →
      (xs[k + 1]?.any fun x => ¬ Released x) = true → 9 ∣ heldFor (xs.take k))
    {pre run rest : List UInt16} {r r' : UInt16} {key : Key} (hp : Press xs pre run rest r r' key) :
    9 ∣ heldFor pre := by
  obtain ⟨rfl, hr, -, hheld, hdown⟩ := hp
  obtain ⟨x, run, rfl⟩ := List.exists_cons_of_ne_nil hheld
  have hx : ¬ Released x := by
    intro hrel
    have hmask : key.mask = 0 := (hdown x List.mem_cons_self).symm.trans hrel
    cases key <;> exact absurd hmask (by decide)
  have hat : (pre ++ r :: (x :: run ++ r' :: rest))[pre.length]? = some r := by simp
  have hnext : (pre ++ r :: (x :: run ++ r' :: rest))[pre.length + 1]? = some x := by simp
  have hcheck := h pre.length (by simp)
  rw [hat, hnext, List.take_left] at hcheck
  exact hcheck (decide_eq_true hr) (decide_eq_true hx)

/-- NET for three samples, and after two released ones SNP for ten. -/
theorem reports_once_two :
    ReportsOnce ([0x7000] ++ List.replicate 3 0x6000 ++ [0x7000, 0x7000] ++
      List.replicate 10 0x5000 ++ [0x7000]) := by
  refine (reports_once_iff fun p hp => ?_).mpr fun _ _ _ _ _ _ hp => divides_of_check (by decide) hp
  simp only [List.mem_append, List.mem_replicate, List.mem_cons, List.not_mem_nil, or_false] at hp
  rcases hp with (((rfl | ⟨-, rfl⟩) | rfl | rfl) | ⟨-, rfl⟩) | rfl
  · exact .inl (by decide)
  · exact .inr ⟨.tNet, by decide⟩
  · exact .inl (by decide)
  · exact .inl (by decide)
  · exact .inr ⟨.tSnp, by decide⟩
  · exact .inl (by decide)

/-- After a single released sample the second press of NET is not reported. -/
theorem reports_once_fails :
    ¬ ReportsOnce [0x7000, 0x6000, 0x7000, 0x6000, 0x7000] := by
  intro h
  have hpress : Press [0x7000, 0x6000, 0x7000, 0x6000, 0x7000] [0x7000, 0x6000] [0x6000] [] 0x7000
      0x7000 .tNet :=
    ⟨rfl, by decide, by decide, List.cons_ne_nil _ _, by
      intro p hp
      rw [List.mem_singleton.mp hp]
      decide⟩
  have hone : ∀ p ∈ ([0x7000, 0x6000, 0x7000, 0x6000, 0x7000] : List UInt16), OneKey p := by
    simp only [List.forall_mem_cons, List.not_mem_nil, false_imp_iff, implies_true, and_true]
    exact ⟨.inl (by decide), .inr ⟨.tNet, by decide⟩, .inl (by decide), .inr ⟨.tNet, by decide⟩,
      .inl (by decide)⟩
  exact absurd ((press_iff hone hpress).mp (h.1 _ _ _ _ _ _ hpress)) (by decide)

end DolphinNote
