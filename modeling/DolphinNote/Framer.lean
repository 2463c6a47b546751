/-
DolphinNote/Framer.lean

Byte-at-a-time framing, abstractly.  A `Framer` collects symbols into a
partial frame; for each new symbol its `verdict` on the partial frame says
whether the symbol is skipped, kept, completes a frame, or discards what was
collected.  The state is the partial frame itself, so "what has been
collected" needs no counters.

* `feed F p s` runs the framer over `s` from the partial frame `p` and lists
  the frames completed on the way.
* `feed_frames`: a stream of frames separated by skipped symbols is cut into
  exactly these frames.
* `collected_split`: once a framer no longer skips, what it collects is a
  contiguous piece of the input.
* `headersWhole_iff`: if it skips in the header only, each frame completed is
  what came last exactly if headers come in one piece.
* `Implements`: a machine that stores the partial frame in a buffer of `cap`
  cells and follows the verdicts does what the framer does as long as the
  frame fits, and fails at the first symbol that does not.
-/
import DolphinNote.Traced

/-- What a framer does with a symbol. -/
inductive Verdict
  | skip | keep | emit | drop
  deriving DecidableEq, Repr

/-- A framer: the verdict on each symbol, given the partial frame. -/
structure Framer (β : Type) where
  verdict : List β → β → Verdict

namespace Framer

variable {β : Type} (F : Framer β)

/-- One symbol: the new partial frame, and the frame completed if any. -/
def step (p : List β) (b : β) : List β × List (List β) :=
  match F.verdict p b with
  | .skip => (p, [])
  | .keep => (p ++ [b], [])
  | .emit => ([], [p ++ [b]])
  | .drop => ([], [])

/-- Run over a stream: the partial frame at its end, and the frames completed. -/
def feed : List β → List β → List β × List (List β)
  | p, [] => (p, [])
  | p, b :: s => ((feed (F.step p b).1 s).1, (F.step p b).2 ++ (feed (F.step p b).1 s).2)

/-- Every symbol of `q` is kept, from the partial frame `p`. -/
def Keeps : List β → List β → Prop
  | _, [] => True
  | p, b :: q => F.verdict p b = .keep ∧ Keeps (p ++ [b]) q

/-- `f` is a frame: its last symbol completes it and the others are kept. -/
def IsFrame (f : List β) : Prop :=
  ∃ q c, f = q ++ [c] ∧ F.Keeps [] q ∧ F.verdict q c = .emit

variable {F}

/-! ### Single steps -/

theorem step_skip {p : List β} {b : β} (h : F.verdict p b = .skip) : F.step p b = (p, []) := by
  simp [step, h]

theorem step_keep {p : List β} {b : β} (h : F.verdict p b = .keep) :
    F.step p b = (p ++ [b], []) := by
  simp [step, h]

theorem step_emit {p : List β} {b : β} (h : F.verdict p b = .emit) :
    F.step p b = ([], [p ++ [b]]) := by
  simp [step, h]

theorem step_drop {p : List β} {b : β} (h : F.verdict p b = .drop) : F.step p b = ([], []) := by
  simp [step, h]

/-! ### Streams -/

@[simp] theorem feed_nil (p : List β) : F.feed p [] = (p, []) := rfl

theorem feed_append (p s t : List β) :
    F.feed p (s ++ t)
      = ((F.feed (F.feed p s).1 t).1, (F.feed p s).2 ++ (F.feed (F.feed p s).1 t).2) := by
  induction s generalizing p with
  | nil => simp
  | cons b s ih => simp [feed, ih]

theorem feed_concat (p s : List β) (b : β) :
    F.feed p (s ++ [b])
      = ((F.step (F.feed p s).1 b).1, (F.feed p s).2 ++ (F.step (F.feed p s).1 b).2) := by
  rw [feed_append]
  simp [feed]

theorem feed_skips {p s : List β} (h : ∀ b ∈ s, F.verdict p b = .skip) : F.feed p s = (p, []) := by
  induction s with
  | nil => rfl
  | cons b s ih =>
      have hb : F.step p b = (p, []) := step_skip (h b (by simp))
      have hs : F.feed p s = (p, []) := ih fun c hc => h c (by simp [hc])
      simp [feed, hb, hs]

theorem feed_keeps {p q : List β} (h : F.Keeps p q) : F.feed p q = (p ++ q, []) := by
  induction q generalizing p with
  | nil => simp
  | cons b q ih =>
      obtain ⟨hb, hq⟩ := h
      simp [feed, step_keep hb, ih hq]

theorem feed_frame {f : List β} (h : F.IsFrame f) : F.feed [] f = ([], [f]) := by
  obtain ⟨q, c, rfl, hq, hc⟩ := h
  rw [feed_concat, feed_keeps hq]
  simp [step_emit hc]

/-- **Decoding.**  Frames separated by skipped symbols are found exactly, in
order, and nothing is left over. -/
theorem feed_frames (l : List (List β × List β))
    (hnoise : ∀ x ∈ l, ∀ b ∈ x.1, F.verdict [] b = .skip) (hframe : ∀ x ∈ l, F.IsFrame x.2) :
    F.feed [] (l.flatMap fun x => x.1 ++ x.2) = ([], l.map Prod.snd) := by
  induction l with
  | nil => rfl
  | cons x l ih =>
      have hx : F.feed [] x.1 = ([], []) := feed_skips (hnoise x (by simp))
      have hf : F.feed [] x.2 = ([], [x.2]) := feed_frame (hframe x (by simp))
      have hl := ih (fun y hy => hnoise y (by simp [hy])) fun y hy => hframe y (by simp [hy])
      simp [feed_append, hx, hf, hl]

/-! ### The partial frame -/

theorem Keeps.append {p q r : List β} (hq : F.Keeps p q) (hr : F.Keeps (p ++ q) r) :
    F.Keeps p (q ++ r) := by
  induction q generalizing p with
  | nil => simpa using hr
  | cons b q ih => exact ⟨hq.1, ih hq.2 (by simpa using hr)⟩

theorem Keeps.concat {q : List β} {b : β} (hq : F.Keeps [] q) (hb : F.verdict q b = .keep) :
    F.Keeps [] (q ++ [b]) :=
  hq.append ⟨by simpa using hb, trivial⟩

theorem Keeps.step {p : List β} (h : F.Keeps [] p) (b : β) : F.Keeps [] (F.step p b).1 := by
  rcases hv : F.verdict p b with - | - | - | -
  · simpa [step_skip hv] using h
  · simpa [step_keep hv] using h.concat hv
  · simp [step_emit hv, Keeps]
  · simp [step_drop hv, Keeps]

/-- What is being collected is always the beginning of a frame. -/
theorem Keeps.feed {p : List β} (h : F.Keeps [] p) (s : List β) : F.Keeps [] (F.feed p s).1 := by
  induction s generalizing p with
  | nil => exact h
  | cons b s ih => exact ih (h.step b)

theorem Keeps.of_append {p q r : List β} (h : F.Keeps p (q ++ r)) :
    F.Keeps p q ∧ F.Keeps (p ++ q) r := by
  induction q generalizing p with
  | nil => exact ⟨trivial, by simpa using h⟩
  | cons b q ih =>
      obtain ⟨hq, hr⟩ := ih h.2
      exact ⟨⟨h.1, hq⟩, by simpa using hr⟩

/-- The verdict that admitted a collected symbol. -/
theorem Keeps.verdict {p q : List β} {b : β} (h : F.Keeps [] (p ++ b :: q)) :
    F.verdict p b = .keep := by
  simpa using h.of_append.2.1

/-- The last symbol collected was kept from the partial frame before it, and
what came after it was skipped. -/
theorem last_kept {p s : List β} {b : β} (h : (F.feed [] s).1 = p ++ [b]) :
    ∃ u m, s = u ++ b :: m ∧ (F.feed [] u).1 = p ∧ F.verdict p b = .keep ∧
      ∀ c ∈ m, F.verdict (p ++ [b]) c = .skip := by
  induction s using List.reverseRecOn with
  | nil => simp at h
  | append_singleton s c ih =>
      rw [feed_concat] at h
      rcases hv : F.verdict (F.feed [] s).1 c with - | - | - | -
      · rw [step_skip hv] at h
        obtain ⟨u, m, rfl, hu, hb, hm⟩ := ih h
        refine ⟨u, m ++ [c], by simp, hu, hb, fun d hd => ?_⟩
        rcases List.mem_append.mp hd with hd | hd
        · exact hm d hd
        · rw [List.mem_singleton.mp hd, ← h]
          exact hv
      · rw [step_keep hv] at h
        obtain ⟨hp, hc⟩ := List.append_inj' h rfl
        obtain rfl := List.singleton_inj.mp hc
        exact ⟨s, [], rfl, hp, hp ▸ hv, by simp⟩
      · simp [step_emit hv] at h
      · simp [step_drop hv] at h

/-- **Contiguity.**  If nothing is skipped once `k` symbols are collected, the
stream ends with the symbols collected from then on, and before them the
framer had collected the first `k`. -/
theorem collected_split {k : ℕ} (hk : ∀ p b, k ≤ p.length → F.verdict p b ≠ .skip) {p s : List β}
    (hp : (F.feed [] s).1 = p) (hlen : k ≤ p.length) :
    ∃ u, s = u ++ p.drop k ∧ (F.feed [] u).1 = p.take k := by
  induction p using List.reverseRecOn generalizing s with
  | nil => exact ⟨s, by simp, by simp [hp]⟩
  | append_singleton p b ih =>
      by_cases hle : k ≤ p.length
      · obtain ⟨u, m, rfl, hu, -, hm⟩ := last_kept hp
        rcases m with - | ⟨c, m⟩
        · obtain ⟨w, rfl, hw⟩ := ih hu hle
          refine ⟨w, ?_, ?_⟩
          · rw [List.drop_append_of_le_length hle, List.append_assoc]
          · rw [List.take_append_of_le_length hle, hw]
        · exact absurd (hm c (by simp)) (hk _ _ hlen)
      · -- `b` is the `k`-th collected symbol
        have hkp : k = (p ++ [b]).length := by
          rw [List.length_append, List.length_singleton] at hlen ⊢
          omega
        exact ⟨s, by simp [hkp], by rw [hp, hkp, List.take_length]⟩

/-- A frame is no longer than what was there to make it of. -/
theorem length_le_of_mem_feed {p s f : List β} (h : f ∈ (F.feed p s).2) :
    f.length ≤ p.length + s.length := by
  induction s generalizing p with
  | nil => exact absurd h List.not_mem_nil
  | cons b s ih =>
      rw [List.length_cons]
      rcases List.mem_append.mp h with h | h
      · rcases hv : F.verdict p b with - | - | - | -
        · simp [step_skip hv] at h
        · simp [step_keep hv] at h
        · obtain rfl : f = p ++ [b] := by simpa [step_emit hv] using h
          rw [List.length_append, List.length_singleton]
          omega
        · simp [step_drop hv] at h
      · have hle := ih h
        rcases hv : F.verdict p b with - | - | - | -
        · rw [step_skip hv] at hle
          dsimp only at hle
          omega
        · rw [step_keep hv, List.length_append, List.length_singleton] at hle
          omega
        · rw [step_emit hv, List.length_nil] at hle
          omega
        · rw [step_drop hv, List.length_nil] at hle
          omega

/-! ### Headers of two symbols -/

/-- The header of each frame that the stream completes came in one piece: what
comes directly before its second symbol is the first one. -/
def HeadersWhole (F : Framer β) (s : List β) : Prop :=
  ∀ v m a c r t, s = v ++ a :: (m ++ c :: (r ++ t)) → (F.feed [] v).1 = [] →
    (∀ d ∈ m, F.verdict [a] d = .skip) → F.IsFrame (a :: c :: r) →
    (a :: m).getLast (List.cons_ne_nil a m) = a

/-- A partial frame behind its header: the two symbols, with what was skipped
between them, and the rest of it without a gap. -/
theorem header_split (hk : ∀ p b, 2 ≤ p.length → F.verdict p b ≠ .skip) {s : List β}
    (hlen : 2 ≤ (F.feed [] s).1.length) :
    ∃ v m a c r, s = v ++ a :: (m ++ c :: r) ∧ (F.feed [] v).1 = [] ∧
      (∀ d ∈ m, F.verdict [a] d = .skip) ∧ (F.feed [] s).1 = a :: c :: r := by
  obtain ⟨a, c, r, hp⟩ : ∃ a c r, (F.feed [] s).1 = a :: c :: r := by
    rcases hp : (F.feed [] s).1 with - | ⟨a, - | ⟨c, r⟩⟩
    · exact absurd hlen (by simp [hp])
    · exact absurd hlen (by simp [hp])
    · exact ⟨a, c, r, rfl⟩
  obtain ⟨u, hs, hu⟩ := collected_split hk hp (hp ▸ hlen)
  -- the second symbol, and nothing skipped behind it
  obtain ⟨u', m', rfl, hu', -, hm'⟩ := last_kept (p := [a]) (b := c) hu
  obtain rfl : m' = [] := by
    rcases m' with - | ⟨d, m'⟩
    · rfl
    · exact absurd (hm' d List.mem_cons_self) (hk _ d le_rfl)
  -- the first symbol, and what was skipped behind it
  obtain ⟨v, m, rfl, hv, -, hm⟩ := last_kept (p := []) (b := a) hu'
  exact ⟨v, m, a, c, r, by simpa using hs, hv, hm, hp⟩

/-- Collecting from a header with symbols skipped in it. -/
theorem feed_header {v m q : List β} {a c : β} (hv : (F.feed [] v).1 = [])
    (hm : ∀ d ∈ m, F.verdict [a] d = .skip) (hq : F.Keeps [] (a :: c :: q)) :
    (F.feed [] (v ++ a :: (m ++ c :: q))).1 = a :: c :: q := by
  have ha : F.feed [] [a] = ([a], []) := feed_keeps ⟨hq.1, trivial⟩
  have hrest : F.feed [a] (c :: q) = (a :: c :: q, []) := feed_keeps hq.2
  rw [← List.singleton_append, feed_append, hv, feed_append, ha, feed_append, feed_skips hm,
    hrest]

/-- The header and what follows it end the stream exactly if what comes directly
before the second symbol is the first one. -/
theorem header_suffix_iff {v m r : List β} {a c : β} :
    a :: c :: r <:+ v ++ a :: (m ++ c :: r) ↔
      (a :: m).getLast (List.cons_ne_nil a m) = a := by
  have hsplit : v ++ a :: (m ++ c :: r) = v ++ a :: m ++ c :: r := by simp
  constructor
  · rintro ⟨w, hw⟩
    have hcancel : w ++ [a] ++ c :: r = v ++ a :: m ++ c :: r := by
      rw [← hsplit, ← hw]
      simp
    have hends : w ++ [a] = v ++ a :: m := List.append_cancel_right hcancel
    have hlast : (v ++ a :: m).getLast (by simp) = a := by
      simp only [← hends, List.getLast_append_singleton]
    rwa [List.getLast_append_of_ne_nil] at hlast
  · intro hlast
    have hm := List.dropLast_concat_getLast (List.cons_ne_nil a m)
    rw [hlast] at hm
    refine ⟨v ++ (a :: m).dropLast, ?_⟩
    calc v ++ (a :: m).dropLast ++ a :: c :: r
        = v ++ ((a :: m).dropLast ++ [a]) ++ c :: r := by simp
      _ = v ++ a :: m ++ c :: r := by rw [hm]
      _ = v ++ a :: (m ++ c :: r) := hsplit.symm

/-- **Contiguous frames.**  If nothing is skipped behind the first two symbols of
a frame, each frame that is completed is what came last exactly if headers come
in one piece. -/
theorem headersWhole_iff (hk : ∀ p b, 2 ≤ p.length → F.verdict p b ≠ .skip)
    (he : ∀ p b, F.verdict p b = .emit → 2 ≤ p.length) {s : List β} :
    F.HeadersWhole s ↔ ∀ u b t, s = u ++ b :: t → F.verdict (F.feed [] u).1 b = .emit →
      (F.feed [] u).1 ++ [b] <:+ u ++ [b] := by
  have hshift : ∀ (v m r : List β) (a c b : β),
      v ++ a :: (m ++ c :: r) ++ [b] = v ++ a :: (m ++ c :: (r ++ [b])) := by simp
  constructor
  · intro hwhole u b t hs hb
    obtain ⟨v, m, a, c, r, hu, hv, hm, hp⟩ := header_split hk (he _ _ hb)
    have hframe : F.IsFrame (a :: c :: (r ++ [b])) :=
      ⟨a :: c :: r, b, rfl, hp ▸ Keeps.feed (p := []) trivial u, hp ▸ hb⟩
    have hlast := hwhole v m a c (r ++ [b]) t (by rw [hs, hu]; simp) hv hm hframe
    -- header and rest, as they were received
    rw [hp, hu, hshift]
    exact header_suffix_iff.mpr hlast
  · intro hall v m a c r t hs hv hm ⟨q, b, hqb, hq, hb⟩
    obtain ⟨r, rfl, rfl⟩ : ∃ r', q = a :: c :: r' ∧ r = r' ++ [b] := by
      have hle := he q b hb
      rcases q with - | ⟨d, - | ⟨e, r'⟩⟩
      · exact absurd hle (by simp)
      · exact absurd hle (by simp)
      · simp only [List.cons_append, List.cons.injEq] at hqb
        exact ⟨r', by rw [hqb.1, hqb.2.1], hqb.2.2⟩
    have hp := feed_header hv hm hq
    have hends := hall (v ++ a :: (m ++ c :: r)) b t (by rw [hs]; simp) (hp ▸ hb)
    rw [hp, hshift] at hends
    exact header_suffix_iff.mp hends

/-! ### Bounded storage -/

/-- There is a cell for the symbol, if it is stored at all. -/
def Room (F : Framer β) (cap : ℕ) (p : List β) (b : β) : Prop :=
  F.verdict p b = .keep ∨ F.verdict p b = .emit → p.length < cap

/-- Every symbol of the stream that is stored finds a cell. -/
def Fits (F : Framer β) (cap : ℕ) : List β → List β → Prop
  | _, [] => True
  | p, b :: s => F.Room cap p b ∧ Fits F cap (F.step p b).1 s

theorem fits_iff {cap : ℕ} {p s : List β} :
    F.Fits cap p s ↔ ∀ q b t, s = q ++ b :: t → F.Room cap (F.feed p q).1 b := by
  induction s generalizing p with
  | nil =>
      constructor
      · rintro - q b t h
        simp at h
      · exact fun _ => trivial
  | cons c s ih =>
      constructor
      · rintro ⟨hc, hs⟩ q b t h
        rcases q with - | ⟨d, q⟩
        · obtain ⟨rfl, rfl⟩ := List.cons.inj h
          exact hc
        · obtain ⟨rfl, rfl⟩ := List.cons.inj h
          exact ih.mp hs q b t rfl
      · intro h
        exact ⟨h [] c s rfl, ih.mpr fun q b t hs => h (c :: q) b t (by rw [hs]; rfl)⟩

theorem Fits.of_append {cap : ℕ} {p s t : List β} (h : F.Fits cap p (s ++ t)) :
    F.Fits cap p s ∧ F.Fits cap (F.feed p s).1 t := by
  induction s generalizing p with
  | nil => exact ⟨trivial, h⟩
  | cons b s ih => exact ⟨⟨h.1, (ih h.2).1⟩, (ih h.2).2⟩

theorem Fits.append {cap : ℕ} {p s t : List β} (hs : F.Fits cap p s)
    (ht : F.Fits cap (F.feed p s).1 t) : F.Fits cap p (s ++ t) := by
  induction s generalizing p with
  | nil => exact ht
  | cons b s ih => exact ⟨hs.1, ih hs.2 ht⟩

theorem fits_skips {cap : ℕ} {p s : List β} (h : ∀ b ∈ s, F.verdict p b = .skip) :
    F.Fits cap p s := by
  induction s with
  | nil => trivial
  | cons b s ih =>
      have hb : F.verdict p b = .skip := h b (by simp)
      refine ⟨by simp [Room, hb], ?_⟩
      rw [step_skip hb]
      exact ih fun c hc => h c (by simp [hc])

theorem fits_keeps {cap : ℕ} {p q : List β} (h : F.Keeps p q) (hlen : p.length + q.length ≤ cap) :
    F.Fits cap p q := by
  induction q generalizing p with
  | nil => trivial
  | cons b q ih =>
      obtain ⟨hb, hq⟩ := h
      rw [List.length_cons] at hlen
      refine ⟨fun _ => by omega, ?_⟩
      rw [step_keep hb]
      exact ih hq (by simp; omega)

/-- Frames of at most `cap` symbols, with skipped symbols between them, fit. -/
theorem fits_frames {cap : ℕ} (l : List (List β × List β))
    (hnoise : ∀ x ∈ l, ∀ b ∈ x.1, F.verdict [] b = .skip)
    (hframe : ∀ x ∈ l, F.IsFrame x.2 ∧ x.2.length ≤ cap) :
    F.Fits cap [] (l.flatMap fun x => x.1 ++ x.2) := by
  induction l with
  | nil => trivial
  | cons x l ih =>
      have hskip := hnoise x (by simp)
      obtain ⟨hf, hlen⟩ := hframe x (by simp)
      have hl := ih (fun y hy => hnoise y (by simp [hy])) fun y hy => hframe y (by simp [hy])
      have hfit : F.Fits cap [] x.2 := by
        obtain ⟨q, c, hqc, hq, hc⟩ := hf
        rw [hqc, List.length_append, List.length_singleton] at hlen
        rw [hqc]
        refine (fits_keeps hq (by simp; omega)).append ⟨fun _ => ?_, trivial⟩
        rw [feed_keeps hq]
        simp
        omega
      rw [List.flatMap_cons, List.append_assoc]
      refine (fits_skips hskip).append ?_
      rw [feed_skips hskip]
      refine hfit.append ?_
      rw [feed_frame hf]
      exact hl

instance (cap : ℕ) (p : List β) (b : β) : Decidable (F.Room cap p b) := by
  unfold Room; infer_instance

/-- One symbol, for a machine that leaves everything as it is when there is no
cell. -/
def stepWithin (F : Framer β) (cap : ℕ) (p : List β) (b : β) : List β × List (List β) :=
  if F.Room cap p b then F.step p b else (p, [])

/-- Run over a stream. -/
def feedWithin (F : Framer β) (cap : ℕ) : List β → List β → List β × List (List β)
  | p, [] => (p, [])
  | p, b :: s => ((feedWithin F cap (F.stepWithin cap p b).1 s).1,
      (F.stepWithin cap p b).2 ++ (feedWithin F cap (F.stepWithin cap p b).1 s).2)

theorem feedWithin_append {cap : ℕ} (p s t : List β) :
    F.feedWithin cap p (s ++ t) = ((F.feedWithin cap (F.feedWithin cap p s).1 t).1,
      (F.feedWithin cap p s).2 ++ (F.feedWithin cap (F.feedWithin cap p s).1 t).2) := by
  induction s generalizing p with
  | nil => simp [feedWithin]
  | cons b s ih => simp [feedWithin, ih]

/-- On a stream that fits there is no difference. -/
theorem feedWithin_of_fits {cap : ℕ} {p s : List β} (h : F.Fits cap p s) :
    F.feedWithin cap p s = F.feed p s := by
  induction s generalizing p with
  | nil => rfl
  | cons b s ih =>
      have hb : F.stepWithin cap p b = F.step p b := if_pos h.1
      rw [feedWithin, feed, hb, ih h.2]

/-! ### Machines -/

/-- **Implementation.**  A machine reads inputs that carry at most one symbol
(`sym`).  It implements the framer with `cap` cells if a relation between its
states and the partial frames is kept by every input, the frames visible in its
events (`out`) are those of the framer, and it fails exactly where a symbol has
no cell. -/
structure Implements {S X ε ι : Type} (F : Framer β) (cap : ℕ) (h : S → X → Traced ε ι S)
    (sym : X → Option β) (out : ι → Option (List β)) (R : S → List β → Prop) : Prop where
  idle : ∀ s p x, R s p → sym x = none →
    ∃ s' l, h s x = Except.ok (s', l) ∧ R s' p ∧ l.filterMap out = []
  step : ∀ s p x b, R s p → sym x = some b → F.Room cap p b →
    ∃ s' l, h s x = Except.ok (s', l) ∧ R s' (F.step p b).1 ∧ l.filterMap out = (F.step p b).2
  full : ∀ s p x b, R s p → sym x = some b → ¬ F.Room cap p b → ∃ e, h s x = Except.error e

/-- The events of the input `x`, behind the inputs `xs`, show the frame `f`. -/
def Emits {S X ε ι : Type} (h : S → X → Traced ε ι S) (out : ι → Option (List β)) (s : S)
    (xs : List X) (x : X) (f : List β) : Prop :=
  ∃ s₁ l₁ s₂ l₂, xs.foldlM h s = Except.ok (s₁, l₁) ∧ h s₁ x = Except.ok (s₂, l₂) ∧
    f ∈ l₂.filterMap out

namespace Implements

variable {S X ε ι : Type} {cap : ℕ} {h : S → X → Traced ε ι S} {sym : X → Option β}
  {out : ι → Option (List β)} {R : S → List β → Prop}

/-- **Simulation.**  Over a stream that fits, the machine does what the framer
does. -/
theorem run (hI : F.Implements cap h sym out R) {s : S} {p : List β} {xs : List X} (hR : R s p)
    (hfit : F.Fits cap p (xs.filterMap sym)) :
    ∃ s' l, xs.foldlM h s = Except.ok (s', l) ∧ R s' (F.feed p (xs.filterMap sym)).1 ∧
      l.filterMap out = (F.feed p (xs.filterMap sym)).2 := by
  induction xs generalizing s p with
  | nil => exact ⟨s, [], rfl, hR, rfl⟩
  | cons x xs ih =>
      rcases hx : sym x with - | b
      · rw [List.filterMap_cons_none hx] at hfit ⊢
        obtain ⟨s₁, l₁, hs₁, hR₁, hl₁⟩ := hI.idle s p x hR hx
        obtain ⟨s₂, l₂, hs₂, hR₂, hl₂⟩ := ih hR₁ hfit
        refine ⟨s₂, l₁ ++ l₂, ?_, hR₂, ?_⟩
        · rw [List.foldlM_cons]
          exact Traced.bind_eq_ok.mpr ⟨s₁, l₁, l₂, hs₁, hs₂, rfl⟩
        · rw [List.filterMap_append, hl₁, hl₂, List.nil_append]
      · rw [List.filterMap_cons_some hx] at hfit ⊢
        obtain ⟨hroom, hfit⟩ := hfit
        obtain ⟨s₁, l₁, hs₁, hR₁, hl₁⟩ := hI.step s p x b hR hx hroom
        obtain ⟨s₂, l₂, hs₂, hR₂, hl₂⟩ := ih hR₁ hfit
        refine ⟨s₂, l₁ ++ l₂, ?_, hR₂, ?_⟩
        · rw [List.foldlM_cons]
          exact Traced.bind_eq_ok.mpr ⟨s₁, l₁, l₂, hs₁, hs₂, rfl⟩
        · rw [List.filterMap_append, hl₁, hl₂]
          rfl

/-- The machine returns exactly on the streams that fit. -/
theorem returns_iff (hI : F.Implements cap h sym out R) {s : S} {p : List β} {xs : List X}
    (hR : R s p) :
    (∃ s' l, xs.foldlM h s = Except.ok (s', l)) ↔ F.Fits cap p (xs.filterMap sym) := by
  constructor
  · rintro ⟨s', l, hrun⟩
    induction xs generalizing s p l with
    | nil => trivial
    | cons x xs ih =>
        rw [List.foldlM_cons] at hrun
        obtain ⟨s₁, l₁, l₂, hs₁, hs₂, -⟩ := Traced.bind_eq_ok.mp hrun
        rcases hx : sym x with - | b
        · rw [List.filterMap_cons_none hx]
          obtain ⟨s₁', l₁', hs₁', hR₁, -⟩ := hI.idle s p x hR hx
          rw [hs₁] at hs₁'
          cases hs₁'
          exact ih hR₁ l₂ hs₂
        · rw [List.filterMap_cons_some hx]
          by_cases hroom : F.Room cap p b
          · obtain ⟨s₁', l₁', hs₁', hR₁, -⟩ := hI.step s p x b hR hx hroom
            rw [hs₁] at hs₁'
            cases hs₁'
            exact ⟨hroom, ih hR₁ l₂ hs₂⟩
          · obtain ⟨e, he⟩ := hI.full s p x b hR hx hroom
            rw [hs₁] at he
            cases he
  · intro hfit
    obtain ⟨s', l, hrun, -, -⟩ := hI.run hR hfit
    exact ⟨s', l, hrun⟩

/-- Before and at each input of a stream that fits. -/
theorem each (hI : F.Implements cap h sym out R) {s : S} {p : List β} {xs ys : List X} {x : X}
    (hR : R s p) (hfit : F.Fits cap p ((xs ++ x :: ys).filterMap sym)) :
    ∃ s₁ l₁ s₂ l₂, xs.foldlM h s = Except.ok (s₁, l₁) ∧ R s₁ (F.feed p (xs.filterMap sym)).1 ∧
      h s₁ x = Except.ok (s₂, l₂) := by
  rw [List.filterMap_append] at hfit
  obtain ⟨hleft, hright⟩ := hfit.of_append
  obtain ⟨s₁, l₁, hrun, hR₁, -⟩ := hI.run hR hleft
  rcases hx : sym x with - | b
  · obtain ⟨s₂, l₂, hs₂, -, -⟩ := hI.idle s₁ _ x hR₁ hx
    exact ⟨s₁, l₁, s₂, l₂, hrun, hR₁, hs₂⟩
  · rw [List.filterMap_cons_some hx] at hright
    obtain ⟨s₂, l₂, hs₂, -, -⟩ := hI.step s₁ _ x b hR₁ hx hright.1
    exact ⟨s₁, l₁, s₂, l₂, hrun, hR₁, hs₂⟩

/-- A frame seen in the events of one input was completed by its symbol. -/
theorem emitted (hI : F.Implements cap h sym out R) {s s' : S} {p f : List β} {x : X} {l : List ι}
    (hR : R s p) (hs : h s x = Except.ok (s', l)) (hf : f ∈ l.filterMap out) :
    ∃ b, sym x = some b ∧ F.verdict p b = .emit ∧ f = p ++ [b] := by
  rcases hx : sym x with - | b
  · obtain ⟨t, l', ht, -, hl⟩ := hI.idle s p x hR hx
    rw [hs] at ht
    cases ht
    rw [hl] at hf
    cases hf
  · by_cases hroom : F.Room cap p b
    · obtain ⟨t, l', ht, -, hl⟩ := hI.step s p x b hR hx hroom
      rw [hs] at ht
      cases ht
      rw [hl] at hf
      rcases hv : F.verdict p b with - | - | - | -
      · simp [step_skip hv] at hf
      · simp [step_keep hv] at hf
      · exact ⟨b, rfl, hv, by simpa [step_emit hv] using hf⟩
      · simp [step_drop hv] at hf
    · obtain ⟨e, he⟩ := hI.full s p x b hR hx hroom
      rw [hs] at he
      cases he

/-- **One input**: the frames seen in its events, over a stream that fits. -/
theorem emits_iff (hI : F.Implements cap h sym out R) {s : S} {p f : List β} {xs : List X} {x : X}
    (hR : R s p) (hfit : F.Fits cap p ((xs ++ [x]).filterMap sym)) :
    Emits h out s xs x f ↔
      ∃ b, sym x = some b ∧ F.verdict (F.feed p (xs.filterMap sym)).1 b = .emit ∧
        f = (F.feed p (xs.filterMap sym)).1 ++ [b] := by
  obtain ⟨s₁, l₁, s₂, l₂, hrun, hR₁, hs⟩ := hI.each hR hfit
  constructor
  · rintro ⟨t₁, k₁, t₂, k₂, hrun', hs', hf⟩
    cases hrun.symm.trans hrun'
    exact hI.emitted hR₁ hs' hf
  · rintro ⟨b, hx, hv, rfl⟩
    rw [List.filterMap_append, List.filterMap_cons_some hx] at hfit
    obtain ⟨t, k, ht, -, hout⟩ := hI.step s₁ _ x b hR₁ hx hfit.of_append.2.1
    refine ⟨s₁, l₁, t, k, hrun, ht, ?_⟩
    rw [hout, step_emit hv]
    exact List.mem_singleton_self _

/-- What is seen is a frame. -/
theorem isFrame_of_emits (hI : F.Implements cap h sym out R) {s : S} {f : List β} {xs : List X}
    {x : X} (hR : R s []) (he : Emits h out s xs x f) : F.IsFrame f := by
  obtain ⟨s₁, l₁, s₂, l₂, hrun, hs, hf⟩ := he
  obtain ⟨t, k, hrun', hR', -⟩ := hI.run hR ((hI.returns_iff hR).mp ⟨s₁, l₁, hrun⟩)
  cases hrun.symm.trans hrun'
  obtain ⟨b, -, hv, rfl⟩ := hI.emitted hR' hs hf
  exact ⟨_, b, rfl, Keeps.feed (p := []) trivial _, hv⟩

/-- **Contiguous frames**, over inputs: each frame seen is what the inputs carried
last exactly if headers come in one piece. -/
theorem headersWhole_iff (hI : F.Implements cap h sym out R) {s : S} {xs : List X} (hR : R s [])
    (hfit : F.Fits cap [] (xs.filterMap sym)) (hk : ∀ p b, 2 ≤ p.length → F.verdict p b ≠ .skip)
    (he : ∀ p b, F.verdict p b = .emit → 2 ≤ p.length) :
    F.HeadersWhole (xs.filterMap sym) ↔ ∀ ys x zs f, xs = ys ++ x :: zs →
      Emits h out s ys x f → f <:+ (ys ++ [x]).filterMap sym := by
  have hpart : ∀ {ys x zs}, xs = ys ++ x :: zs → F.Fits cap [] ((ys ++ [x]).filterMap sym) := by
    rintro ys x zs rfl
    rw [List.append_cons, List.filterMap_append] at hfit
    exact hfit.of_append.1
  rw [Framer.headersWhole_iff hk he]
  constructor
  · intro hall ys x zs f hxs hf
    obtain ⟨b, hx, hb, rfl⟩ := (hI.emits_iff hR (hpart hxs)).mp hf
    rw [List.filterMap_append, List.filterMap_cons_some hx, List.filterMap_nil]
    refine hall _ b (zs.filterMap sym) ?_ hb
    rw [hxs, List.filterMap_append, List.filterMap_cons_some hx]
  · intro hall u b t hs hb
    -- the input that carries `b`
    obtain ⟨ys₁, zs₁, hxs, rfl, hzs₁⟩ := List.filterMap_eq_append_iff.mp hs
    obtain ⟨ys₂, x, zs, rfl, hys₂, hx, -⟩ := List.filterMap_eq_cons_iff.mp hzs₁
    have hys : (ys₁ ++ ys₂).filterMap sym = ys₁.filterMap sym := by
      rw [List.filterMap_append, List.filterMap_eq_nil_iff.mpr hys₂, List.append_nil]
    rw [← List.append_assoc] at hxs
    have hends := hall _ x zs _ hxs ((hI.emits_iff hR (hpart hxs)).mpr ⟨b, hx, hys ▸ hb, rfl⟩)
    have hlast : (ys₁ ++ ys₂ ++ [x]).filterMap sym = ys₁.filterMap sym ++ [b] := by
      rw [List.filterMap_append, hys, List.filterMap_cons_some hx, List.filterMap_nil]
    rwa [hlast, hys] at hends

end Implements

end Framer
