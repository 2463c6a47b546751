/-
DolphinNote/ScreenStreams.lean

Byte streams through `USART1_IRQHandler`.

* Framing: `Screen_data_analize` is called on the bytes received last exactly if
  the length byte of each frame came directly after an `0x68`.  In the state
  between the two the handler stays on a byte from 50 on.
* Resynchronisation: a frame that starts where one can start is dispatched once,
  unless it starts directly behind a frame of length zero.  The handler drops
  the byte that comes there.
-/
import DolphinNote.ScreenReceiver

namespace DolphinNote

open Traced

/-! ### Frames of the screen -/

/-- A frame: `0x68`, a length in 1..49, and that many bytes. -/
def ScreenBytes (f : List UInt8) : Prop :=
  f.getD 0 0 = 0x68 ∧ 1 ≤ (f.getD 1 0).toNat ∧ (f.getD 1 0).toNat < 50 ∧
    f.length = 2 + (f.getD 1 0).toNat

instance (f : List UInt8) : Decidable (ScreenBytes f) := by
  unfold ScreenBytes; infer_instance

theorem screen_emit_iff {p : List UInt8} {b : UInt8} :
    screenFramer.verdict p b = .emit ↔
      2 ≤ p.length ∧ p.getD 1 0 ≠ 0 ∧ p.length = 1 + (p.getD 1 0).toNat := by
  rcases Nat.lt_or_ge p.length 2 with hlt | hle
  · refine iff_of_false (fun h => ?_) (by omega)
    rcases Nat.lt_or_ge p.length 1 with h0 | h1
    · rw [screen_verdict_zero b (by omega)] at h
      split_ifs at h
    · rw [screen_verdict_one b (by omega)] at h
      split_ifs at h
  · rw [screen_verdict_payload b hle]
    split_ifs with hz hend
    · exact iff_of_false nofun fun h => h.2.1 hz
    · exact iff_of_true rfl ⟨hle, hz, hend⟩
    · exact iff_of_false nofun fun h => hend h.2.2

/-- Nothing is skipped in the payload. -/
theorem screen_verdict_ne_skip {p : List UInt8} (b : UInt8) (h : 2 ≤ p.length) :
    screenFramer.verdict p b ≠ .skip := by
  rw [screen_verdict_payload b h]
  split_ifs <;> decide

theorem screenPrefix_feed (s : List UInt8) : ScreenPrefix (screenFramer.feed [] s).1 :=
  ScreenPrefix.feed ⟨by simp, by simp, by simp⟩ s

theorem screen_keeps {q : List UInt8} (h : ScreenPrefix q) : screenFramer.Keeps [] q := by
  induction q using List.reverseRecOn with
  | nil => trivial
  | append_singleton q b ih =>
      obtain ⟨hhead, hlen, hbound⟩ := h
      simp only [List.length_append, List.length_singleton] at hhead hlen hbound
      have hq : ScreenPrefix q := by
        refine ⟨fun h => ?_, fun h => ?_, fun h => ?_⟩
        · rw [← hhead (by omega), getD_concat_of_lt (by omega)]
        · rw [← getD_concat_of_lt (b := b) (by omega)]
          exact hlen (by omega)
        · have hle := hbound (by omega)
          rw [getD_concat_of_lt (by omega)] at hle
          omega
      refine (ih hq).concat ?_
      rcases Nat.lt_or_ge q.length 2 with hlt | hle
      · rcases Nat.lt_or_ge q.length 1 with h0 | h1
        · obtain rfl := List.length_eq_zero_iff.mp (show q.length = 0 by omega)
          have hb : b = 0x68 := hhead (by omega)
          rw [screen_verdict_zero b rfl, if_pos hb]
        · have h1' : q.length = 1 := by omega
          have hb := hlen (by omega)
          rw [← h1', getD_concat_length] at hb
          rw [screen_verdict_one b h1', if_pos hb]
      · have hle' := hbound (by omega)
        rw [getD_concat_of_lt (by omega)] at hle'
        have hz : q.getD 1 0 ≠ 0 := fun h => by
          rw [h, UInt8.toNat_zero] at hle'
          omega
        rw [screen_verdict_payload b hle, if_neg hz, if_neg (by omega)]

/-- The frames of the framer. -/
theorem screen_isFrame_iff {f : List UInt8} : screenFramer.IsFrame f ↔ ScreenBytes f := by
  constructor
  · rintro ⟨q, c, rfl, hq, hc⟩
    have hpre : ScreenPrefix q := by
      have hfeed := screenPrefix_feed q
      rwa [Framer.feed_keeps hq, List.nil_append] at hfeed
    obtain ⟨hle, hz, hlen⟩ := screen_emit_iff.mp hc
    have hlt := UInt8.lt_iff_toNat_lt.mp (hpre.len hle)
    have hz' : (q.getD 1 0).toNat ≠ 0 := fun h => hz (UInt8.toNat_inj.mp h)
    unfold ScreenBytes
    rw [getD_concat_of_lt (by omega), getD_concat_of_lt (by omega)]
    refine ⟨hpre.head (by omega), by omega, hlt, ?_⟩
    rw [List.length_append, List.length_singleton]
    omega
  · rintro ⟨h0, hpos, hlt, hlen⟩
    have hne : f ≠ [] := by
      rintro rfl
      rw [List.length_nil] at hlen
      omega
    have hf : f.dropLast ++ [f.getLast hne] = f := List.dropLast_concat_getLast hne
    have hq : f.dropLast.length = 1 + (f.getD 1 0).toNat := by
      rw [List.length_dropLast]
      omega
    have h0' : f.dropLast.getD 0 0 = f.getD 0 0 := by
      rw [← hf, getD_concat_of_lt (by omega), hf]
    have h1' : f.dropLast.getD 1 0 = f.getD 1 0 := by
      rw [← hf, getD_concat_of_lt (by omega), hf]
    refine ⟨f.dropLast, f.getLast hne, hf.symm, screen_keeps ⟨fun _ => ?_, fun _ => ?_, fun _ => ?_⟩, ?_⟩
    · rw [h0', h0]
    · rw [h1']
      exact UInt8.lt_iff_toNat_lt.mpr hlt
    · rw [h1', hq]
    · refine screen_emit_iff.mpr ⟨by omega, fun hz => ?_, by rw [h1', hq]⟩
      rw [← h1', hz, UInt8.toNat_zero] at hpos
      omega

/-! ### Calls -/

section Streams

variable {g : Globals}

/-- The handler at power-on. -/
abbrev screenStart (g : Globals) : Usart1 × Globals := (.powerOn, g)

/-- The activation `x` that follows the activations `ys` calls
`Screen_data_analize(dataBuf, num)`. -/
def Analizes (g : Globals) (ys : List Sample) (x : Sample) (dataBuf : Buffer 255) (num : UInt8) :
    Prop :=
  ∃ s l s' l', usart1Run (screenStart g) ys = Except.ok (s, l) ∧
    usart1IRQHandler s x = Except.ok (s', l') ∧ .screenDataAnalize dataBuf num ∈ l'

/-- The call is made on the last `num` bytes of the stream, and these are a
frame of that length. -/
def AnalizesLast (dataBuf : Buffer 255) (num : UInt8) (s : List UInt8) : Prop :=
  dataBuf.bytes num.toNat <:+ s ∧ ScreenFrame dataBuf num

theorem screen_idle (g : Globals) : ScreenReceives (screenStart g).1 [] :=
  ⟨⟨by simp, by simp, by simp⟩, rfl, .idle rfl rfl, rfl, rfl⟩

theorem mem_analizedFrame {l : List Effect} {f : List UInt8} :
    f ∈ l.filterMap analizedFrame ↔
      ∃ dataBuf num, .screenDataAnalize dataBuf num ∈ l ∧ dataBuf.bytes num.toNat = f := by
  rw [List.mem_filterMap]
  constructor
  · rintro ⟨e, he, hf⟩
    cases e with
    | screenDataAnalize dataBuf num => exact ⟨dataBuf, num, he, Option.some.inj hf⟩
    | rd | wr | wifiDataDeal => cases hf
  · rintro ⟨dataBuf, num, he, rfl⟩
    exact ⟨_, he, rfl⟩

/-- The calls are the frames seen. -/
theorem analizes_emits {ys : List Sample} {x : Sample} {f : List UInt8} :
    (∃ dataBuf num, Analizes g ys x dataBuf num ∧ dataBuf.bytes num.toNat = f) ↔
      Framer.Emits usart1IRQHandler analizedFrame (screenStart g) ys x f := by
  constructor
  · rintro ⟨dataBuf, num, ⟨s, l, s', l', hrun, hs, hmem⟩, hf⟩
    exact ⟨s, l, s', l', hrun, hs, mem_analizedFrame.mpr ⟨dataBuf, num, hmem, hf⟩⟩
  · rintro ⟨s, l, s', l', hrun, hs, hmem⟩
    obtain ⟨dataBuf, num, he, hf⟩ := mem_analizedFrame.mp hmem
    exact ⟨dataBuf, num, ⟨s, l, s', l', hrun, hs, he⟩, hf⟩

/-- And these are the frames of the framer. -/
theorem analizes_iff {ys : List Sample} {x : Sample} {f : List UInt8} :
    (∃ dataBuf num, Analizes g ys x dataBuf num ∧ dataBuf.bytes num.toNat = f) ↔
      ∃ b, x.rx = some b ∧
        screenFramer.verdict (screenFramer.feed [] (ys.filterMap Sample.rx)).1 b = .emit ∧
        f = (screenFramer.feed [] (ys.filterMap Sample.rx)).1 ++ [b] :=
  analizes_emits.trans (screen_implements.emits_iff (screen_idle g) (screen_fits _))

/-- What is called on is a frame. -/
theorem Analizes.screenFrame {ys : List Sample} {x : Sample} {dataBuf : Buffer 255} {num : UInt8}
    (h : Analizes g ys x dataBuf num) : ScreenFrame dataBuf num := by
  obtain ⟨s, l, s', l', hrun, hs, hmem⟩ := h
  obtain ⟨t, k, hrun', hR, -⟩ := screen_implements.run (s := screenStart g) (screen_idle g)
    (screen_fits (ys.filterMap Sample.rx))
  cases hrun.symm.trans hrun'
  obtain ⟨t, k, hs', hstep⟩ := usart1IRQHandler_step hR x
  cases hs.symm.trans hs'
  exact (hstep.log.call dataBuf num hmem).1

/-! ### Framing -/

/-- In each frame that the stream completes, the length byte came directly after
an `0x68`. -/
def LengthsAdjacent (s : List UInt8) : Prop :=
  ∀ v m c r t, s = v ++ 0x68 :: (m ++ c :: (r ++ t)) → (screenFramer.feed [] v).1 = [] →
    (∀ d ∈ m, 50 ≤ d) → ScreenBytes (0x68 :: c :: r) → (0x68 :: m).getLast (by simp) = 0x68

/-- Behind the header, bytes from 50 on are skipped. -/
theorem lengthsAdjacent_iff {s : List UInt8} :
    LengthsAdjacent s ↔ screenFramer.HeadersWhole s := by
  have hskip : ∀ d, screenFramer.verdict [0x68] d = .skip ↔ 50 ≤ d := by
    intro d
    rw [screen_verdict_one d rfl, ← UInt8.not_lt]
    split_ifs with hlt
    · exact iff_of_false nofun (not_not.mpr hlt)
    · exact iff_of_true rfl hlt
  constructor
  · intro hadj v m a c r t hs hv hm hf
    have hbytes : ScreenBytes (a :: c :: r) := screen_isFrame_iff.mp hf
    obtain rfl : a = 0x68 := hbytes.1
    exact hadj v m c r t hs hv (fun d hd => (hskip d).mp (hm d hd)) hbytes
  · intro hwhole v m c r t hs hv hm hf
    exact hwhole v m 0x68 c r t hs hv (fun d hd => (hskip d).mpr (hm d hd))
      (screen_isFrame_iff.mpr hf)

/-- Every call is made on what was received last exactly if headers come in one
piece. -/
theorem analizesLast_iff {xs : List Sample} :
    (∀ ys x zs dataBuf num, xs = ys ++ x :: zs → Analizes g ys x dataBuf num →
      AnalizesLast dataBuf num ((ys ++ [x]).filterMap Sample.rx)) ↔
        LengthsAdjacent (xs.filterMap Sample.rx) := by
  rw [lengthsAdjacent_iff, screen_implements.headersWhole_iff (screen_idle g) (screen_fits _)
    (fun _ b => screen_verdict_ne_skip b) fun _ _ h => (screen_emit_iff.mp h).1]
  constructor
  · intro hall ys x zs f hxs hf
    obtain ⟨dataBuf, num, hcall, rfl⟩ := analizes_emits.mpr hf
    exact (hall ys x zs dataBuf num hxs hcall).1
  · intro hall ys x zs dataBuf num hxs hcall
    exact ⟨hall ys x zs _ hxs (analizes_emits.mp ⟨dataBuf, num, hcall, rfl⟩), hcall.screenFrame⟩

/-! ### Resynchronisation -/

/-- The handler waits for a frame after the activations `xs`. -/
def Waits (g : Globals) (xs : List Sample) : Prop :=
  ∃ s l, usart1Run (screenStart g) xs = Except.ok (s, l) ∧ s.1.rxState = 0

/-- A frame of length zero has been received, and nothing since. -/
def BehindZero (g : Globals) (xs : List Sample) : Prop :=
  ∃ ys zs, xs = ys ++ zs ∧ Waits g ys ∧ zs.filterMap Sample.rx = [0x68, 0]

/-- Where a frame can start: at power-on, behind a frame that was dispatched,
behind one of length zero, and behind other bytes there. -/
inductive FrameStart (g : Globals) : List Sample → Prop
  | powerOn : FrameStart g []
  | dispatched {ys : List Sample} {x : Sample} {dataBuf : Buffer 255} {num : UInt8} :
      Analizes g ys x dataBuf num → FrameStart g (ys ++ [x])
  | zero {xs : List Sample} : BehindZero g xs → FrameStart g xs
  | other {ys : List Sample} {x : Sample} : FrameStart g ys → x.rx ≠ some 0x68 →
      FrameStart g (ys ++ [x])

/-- Behind the activations `ys`, the activations `zs` lead to one call, on the
bytes that they receive. -/
def DispatchedOnce (g : Globals) (ys zs : List Sample) : Prop :=
  ∃ s l s' l', usart1Run (screenStart g) ys = Except.ok (s, l) ∧
    usart1Run s zs = Except.ok (s', l') ∧
      l'.filterMap analizedFrame = [zs.filterMap Sample.rx]

theorem waits_iff {xs : List Sample} :
    Waits g xs ↔ (screenFramer.feed [] (xs.filterMap Sample.rx)).1 = [] := by
  obtain ⟨s, l, hrun, hR, -⟩ := screen_implements.run (s := screenStart g) (screen_idle g)
    (screen_fits (xs.filterMap Sample.rx))
  constructor
  · rintro ⟨s', l', hrun', hst⟩
    cases hrun.symm.trans hrun'
    cases hR.counters with
    | idle hlen => exact List.length_eq_zero_iff.mp hlen
    | length _ hst' | payload _ hst' => exact absurd (hst.symm.trans hst') (by decide)
  · intro hp
    rw [hp] at hR
    refine ⟨s, l, hrun, ?_⟩
    cases hR.counters with
    | idle _ hst => exact hst
    | length hlen => exact absurd hlen (by decide)
    | payload hlen => exact absurd hlen (by simp; omega)

theorem feed_behindZero {xs : List Sample} (h : BehindZero g xs) :
    (screenFramer.feed [] (xs.filterMap Sample.rx)).1 = [0x68, 0] := by
  obtain ⟨ys, zs, rfl, hw, hzs⟩ := h
  rw [List.filterMap_append, hzs, Framer.feed_append, waits_iff.mp hw]
  rfl

/-- Where a frame can start, the handler waits for one, or has just got the
length zero. -/
theorem FrameStart.waits {xs : List Sample} (h : FrameStart g xs) :
    (screenFramer.feed [] (xs.filterMap Sample.rx)).1 = [] ∨ BehindZero g xs := by
  induction h with
  | powerOn => exact .inl rfl
  | @dispatched ys x dataBuf num hcall =>
      -- the byte that completes a frame leaves nothing behind
      obtain ⟨b, hx, hb, -⟩ := analizes_iff.mp ⟨dataBuf, num, hcall, rfl⟩
      refine .inl ?_
      rw [List.filterMap_append, List.filterMap_cons_some hx, List.filterMap_nil, Framer.feed_concat,
        Framer.step_emit hb]
  | zero hz => exact .inr hz
  | @other ys x hys hx ih =>
      rcases hrx : x.rx with - | b
      · rw [List.filterMap_append, List.filterMap_cons_none hrx, List.filterMap_nil, List.append_nil]
        refine ih.imp_right ?_
        rintro ⟨us, zs, rfl, hw, hzs⟩
        refine ⟨us, zs ++ [x], List.append_assoc _ _ _, hw, ?_⟩
        rw [List.filterMap_append, hzs, List.filterMap_cons_none hrx, List.filterMap_nil,
          List.append_nil]
      · -- skipped in front of a header, dropped behind a length zero
        have hb : b ≠ 0x68 := fun h => hx (by rw [hrx, h])
        refine .inl ?_
        rw [List.filterMap_append, List.filterMap_cons_some hrx, List.filterMap_nil,
          Framer.feed_concat]
        rcases ih with hp | hz
        · rw [hp, Framer.step_skip (by rw [screen_verdict_zero b rfl, if_neg hb])]
        · rw [feed_behindZero hz, Framer.step_drop rfl]

/-- A frame is dispatched once where the handler waits, and not behind a length
zero, where its first byte is dropped. -/
theorem dispatchedOnce_iff {ys zs : List Sample} (h : FrameStart g ys)
    (hf : ScreenBytes (zs.filterMap Sample.rx)) :
    DispatchedOnce g ys zs ↔ ¬ BehindZero g ys := by
  obtain ⟨s, l, hrun, hR, -⟩ := screen_implements.run (s := screenStart g) (screen_idle g)
    (screen_fits (ys.filterMap Sample.rx))
  have hfits := screen_fits ((ys ++ zs).filterMap Sample.rx)
  rw [List.filterMap_append] at hfits
  obtain ⟨s', l', hrun', -, hout⟩ := screen_implements.run hR hfits.of_append.2
  have hiff : DispatchedOnce g ys zs ↔ l'.filterMap analizedFrame = [zs.filterMap Sample.rx] := by
    constructor
    · rintro ⟨t, k, t', k', ht, ht', hk⟩
      cases hrun.symm.trans ht
      cases hrun'.symm.trans ht'
      exact hk
    · exact fun hk => ⟨s, l, s', l', hrun, hrun', hk⟩
  rw [hiff, hout]
  constructor
  · intro hone hz
    rw [feed_behindZero hz] at hone
    rcases hzs : zs.filterMap Sample.rx with - | ⟨b, f⟩
    · rw [hzs] at hf
      exact absurd hf.1 (by decide)
    · -- the first byte is dropped, and the others are too few
      rw [hzs, Framer.feed, Framer.step_drop rfl, List.nil_append] at hone
      have hmem : b :: f ∈ (screenFramer.feed [] f).2 := by
        rw [hone]
        exact List.mem_singleton_self _
      have hle := Framer.length_le_of_mem_feed hmem
      rw [List.length_cons, List.length_nil] at hle
      omega
  · intro hz
    rcases h.waits with hp | hz'
    · rw [hp, Framer.feed_frame (screen_isFrame_iff.mpr hf)]
    · exact absurd hz' hz

end Streams

/-- **Screen framing.**  For every stream, all calls are made on what was received
last exactly if headers come in one piece; and wherever a frame can start, it is
dispatched once exactly if it does not start directly behind a frame of length
zero. -/
theorem screen_framing_iff (g : Globals) :
    (∀ xs, (∃ s l, usart1Run (screenStart g) xs = Except.ok (s, l)) ∧
      ((∀ ys x zs dataBuf num, xs = ys ++ x :: zs → Analizes g ys x dataBuf num →
          AnalizesLast dataBuf num ((ys ++ [x]).filterMap Sample.rx)) ↔
        LengthsAdjacent (xs.filterMap Sample.rx))) ∧
    ∀ ys zs, FrameStart g ys → ScreenBytes (zs.filterMap Sample.rx) →
      (DispatchedOnce g ys zs ↔ ¬ BehindZero g ys) := by
  refine ⟨fun xs => ⟨?_, analizesLast_iff⟩, fun _ _ => dispatchedOnce_iff⟩
  exact (screen_implements.returns_iff (s := screenStart g) (screen_idle g)).mpr (screen_fits _)

/-- A byte behind the header that is no length, and a frame behind the length zero. -/
theorem screen_framing_fails :
    (∃ dataBuf num, Analizes .powerOn (received [0x68, 0x60, 1]) ⟨false, false, some 2⟩ dataBuf num ∧
      ¬ AnalizesLast dataBuf num [0x68, 0x60, 1, 2]) ∧
    FrameStart .powerOn (received [0x68, 0]) ∧ ScreenBytes [0x68, 1, 2] ∧
      ¬ DispatchedOnce .powerOn (received [0x68, 0]) (received [0x68, 1, 2]) := by
  have hzero : BehindZero .powerOn (received [0x68, 0]) :=
    ⟨[], received [0x68, 0], rfl, ⟨_, _, rfl, rfl⟩, rfl⟩
  have hframe : ScreenBytes [0x68, 1, 2] := by decide
  have honce := @dispatchedOnce_iff .powerOn _ (received [0x68, 1, 2]) (.zero hzero) hframe
  refine ⟨?_, .zero hzero, hframe, fun h => honce.mp h hzero⟩
  obtain ⟨dataBuf, num, hcall, hf⟩ := (@analizes_iff .powerOn (received [0x68, 0x60, 1])
    ⟨false, false, some 2⟩ _).mpr ⟨2, rfl, by decide, rfl⟩
  refine ⟨dataBuf, num, hcall, ?_⟩
  rintro ⟨hsuffix, -⟩
  rw [hf] at hsuffix
  revert hsuffix
  decide

end DolphinNote
