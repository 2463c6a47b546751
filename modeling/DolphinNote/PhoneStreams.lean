/-
DolphinNote/PhoneStreams.lean

Byte streams through `USART2_IRQHandler` with `socket_start = 1`.

* Where the receive buffer holds: exactly on the streams in which an announced
  length above 41 is followed by at most 43 further bytes.
* Decoding: frames with noise between them are dispatched one by one, in order.
* Framing: a dispatched frame is a contiguous piece of the stream exactly when
  its `0A` came directly after an `FA`.
* Acting on frames: the header and the announced length are checked, the
  checksum and the trailer are not.
-/
import DolphinNote.Encoders
import DolphinNote.PhoneReceiver

namespace DolphinNote

open Traced

/-! ### Streams of the phone framer -/

/-- Every announced length in the stream is at most `n`. -/
def LengthsAtMost (n : ℕ) (s : List UInt8) : Prop :=
  ∀ q t, s = q ++ t → (phoneFramer.feed [] q).1.length = 7 →
    announced (phoneFramer.feed [] q).1 ≤ n

/-- An announced length above `n` is followed by at most `m` bytes. -/
def OverlongBounded (n m : ℕ) (s : List UInt8) : Prop :=
  ∀ q t, s = q ++ t → (phoneFramer.feed [] q).1.length = 7 →
    announced (phoneFramer.feed [] q).1 ≤ n ∨ t.length ≤ m

instance (n : ℕ) (s : List UInt8) : Decidable (LengthsAtMost n s) :=
  decidable_of_iff (∀ q ∈ s.inits, (phoneFramer.feed [] q).1.length = 7 →
      announced (phoneFramer.feed [] q).1 ≤ n) <| by
    constructor
    · intro h q t hs
      exact h q (List.mem_inits _ _ |>.mpr ⟨t, hs.symm⟩)
    · intro h q hq
      obtain ⟨t, ht⟩ := List.mem_inits _ _ |>.mp hq
      exact h q t ht.symm

theorem LengthsAtMost.overlongBounded {n m : ℕ} {s : List UInt8} (h : LengthsAtMost n s) :
    OverlongBounded n m s :=
  fun q t hs h7 => .inl (h q t hs h7)

/-- Behind the length bytes everything up to the trailer is kept. -/
theorem phone_keeps_within {p q : List UInt8} (h7 : 7 ≤ p.length)
    (h : p.length + q.length ≤ 8 + announced p) : phoneFramer.Keeps p q := by
  induction q generalizing p with
  | nil => trivial
  | cons b q ih =>
      rw [List.length_cons] at h
      refine ⟨phone_keep_iff.mpr (.inr (.inr (by omega))), ih ?_ ?_⟩
      · rw [List.length_append]
        omega
      · rw [announced_append h7, List.length_append, List.length_singleton]
        omega

/-- A byte behind the header is stored. -/
theorem phone_stored {p : List UInt8} (b : UInt8) (h : 2 ≤ p.length) :
    phoneFramer.verdict p b = .keep ∨ phoneFramer.verdict p b = .emit := by
  rcases hv : phoneFramer.verdict p b with - | - | - | -
  · exact absurd hv (phone_ne_skip b h)
  · exact .inl rfl
  · exact .inr rfl
  · exact absurd hv (phone_ne_drop p b)

/-- What has been collected begins with the part collected up to any `k ≥ 2`. -/
theorem phone_split {k : ℕ} (hk : 2 ≤ k) {p q : List UInt8} (hp : (phoneFramer.feed [] q).1 = p)
    (h : k ≤ p.length) :
    ∃ u, q = u ++ p.drop k ∧ (phoneFramer.feed [] u).1 = p.take k :=
  Framer.collected_split (fun _ b hp => phone_ne_skip b (by omega)) hp h

/-- **Room.**  A stream fits 50 cells exactly if every announced length above
41 is followed by at most 43 bytes. -/
theorem phone_fits_iff {s : List UInt8} :
    phoneFramer.Fits 50 [] s ↔ OverlongBounded 41 43 s := by
  rw [Framer.fits_iff]
  constructor
  · intro hroom q t hs h7
    by_contra hcon
    rw [not_or, not_le, not_le] at hcon
    obtain ⟨hlong, hmore⟩ := hcon
    set p := (phoneFramer.feed [] q).1 with hp
    -- the 43 bytes behind the length fill the buffer; the next one has no cell
    obtain ⟨b, t', ht⟩ : ∃ b t', t.drop 43 = b :: t' :=
      List.exists_cons_of_length_pos (by rw [List.length_drop]; omega)
    have htake : (t.take 43).length = 43 := by rw [List.length_take]; omega
    have hkeeps : phoneFramer.Keeps p (t.take 43) := phone_keeps_within (by omega) (by omega)
    have hfeed : (phoneFramer.feed [] (q ++ t.take 43)).1 = p ++ t.take 43 := by
      rw [Framer.feed_append, ← hp, Framer.feed_keeps hkeeps]
    have hs' : s = (q ++ t.take 43) ++ b :: t' := by
      rw [List.append_assoc, ← ht, List.take_append_drop, hs]
    have h := hroom _ b t' hs'
    rw [hfeed] at h
    have hlt := h (phone_stored b (by rw [List.length_append]; omega))
    rw [List.length_append] at hlt
    omega
  · intro hbound q b t hs hstored
    by_contra hfull
    rw [not_lt] at hfull
    set p := (phoneFramer.feed [] q).1 with hp
    obtain ⟨u, hq, hu⟩ := phone_split (k := 7) (by omega) hp.symm (by omega)
    have h7 : (phoneFramer.feed [] u).1.length = 7 := by
      rw [hu, List.length_take]
      omega
    have hann : announced (phoneFramer.feed [] u).1 = announced p := by
      conv_rhs => rw [← List.take_append_drop 7 p]
      rw [hu, announced_append (by rw [List.length_take]; omega)]
    rcases hbound u (p.drop 7 ++ b :: t) (by rw [hs, ← List.append_assoc, ← hq]) h7 with h | h
    · have hpre : PhonePrefix p := phone_keeps_iff.mp (Framer.Keeps.feed (p := []) trivial q)
      have := hpre.bound (by omega)
      omega
    · rw [List.length_append, List.length_drop, List.length_cons] at h
      omega

/-- The header of each frame the stream completes came in one piece: the byte
before its `0A` was an `FA`. -/
def HeadersAdjacent (s : List UInt8) : Prop :=
  ∀ v m r t, s = v ++ 0xFA :: (m ++ 0x0A :: (r ++ t)) → (phoneFramer.feed [] v).1 = [] →
    0x0A ∉ m → PhoneFrame (0xFA :: 0x0A :: r) → (0xFA :: m).getLast (by simp) = 0xFA

/-- Behind the `FA`, bytes other than `0A` are skipped. -/
theorem headersAdjacent_iff {s : List UInt8} :
    HeadersAdjacent s ↔ phoneFramer.HeadersWhole s := by
  have hskip : ∀ m : List UInt8,
      (∀ d ∈ m, phoneFramer.verdict [0xFA] d = .skip) ↔ 0x0A ∉ m := by
    intro m
    constructor
    · intro hm hmem
      exact absurd (hm _ hmem) (by decide)
    · exact fun hm d hd => phone_skip_iff.mpr (.inr ⟨rfl, fun h => hm (h ▸ hd)⟩)
  constructor
  · intro hadj v m a c r t hs hv hm hf
    have hframe : PhoneFrame (a :: c :: r) := phone_isFrame_iff.mp hf
    obtain rfl : a = 0xFA := hframe.1
    obtain rfl : c = 0x0A := hframe.2.1
    exact hadj v m r t hs hv ((hskip m).mp hm) hframe
  · intro hwhole v m r t hs hv hm hf
    exact hwhole v m 0xFA 0x0A r t hs hv ((hskip m).mpr hm) (phone_isFrame_iff.mpr hf)

/-! ### The receive buffer -/

section Handler

/-- The activations `xs` of the handler in socket mode. -/
abbrev usart2Run (s₀ : Usart2 × Globals) (xs : List Sample) : Exec (Usart2 × Globals) :=
  xs.foldlM (usart2IRQHandler 1) s₀

variable (tx : WifiTx) (at_ : AtRx) (g : Globals)

/-- **The receive buffer holds exactly the streams without a long overlong
frame.**  From power-on the handler runs through, and writes `WIFI_RxBuffer`
below index 50 only, if and only if no announced length above 41 is followed
by more than 43 bytes. -/
theorem wifiRxBuffer_inside_iff (xs : List Sample) :
    (∃ s l, usart2Run ({ rx := .powerOn, tx := tx, at_ := at_ }, g) xs
        = Except.ok (s, l) ∧ ∀ i, .wr .wifiRxBuffer i ∈ l → i < 50) ↔
      OverlongBounded 41 43 (xs.filterMap Sample.rx) := by
  have hidle : Receives WifiRx.powerOn [] := .idle rfl rfl
  rw [← phone_fits_iff, ← phone_implements.returns_iff (s := ({ rx := .powerOn, tx := tx, at_ := at_ }, g)) hidle]
  constructor
  · rintro ⟨s, l, hrun, -⟩
    exact ⟨s, l, hrun⟩
  · rintro ⟨s, l, hrun⟩
    have hall := Only.foldlM usart2IRQHandler_inBounds xs _ s l hrun
    exact ⟨s, l, hrun, fun i hi => hall _ hi⟩

/-- A frame that announces 42 bytes: its 51st byte is written behind the
buffer. -/
theorem wifiRxBuffer_overrun :
    usart2Run (Usart2.powerOn, Globals.powerOn)
        (received ([0xFA, 0x0A, 0xA1, 0x00, 0x00, 42, 0x00] ++ List.replicate 44 0x00))
      = fail (.outOfBounds .wifiRxBuffer 50) := by
  decide

/-! ### Decoding -/

/-- The codes `wifi_ack_send` builds a frame for. -/
def replyCodes : List UInt8 := [0x77, 0xA1, 0x70, 0x76, 0x78, 0x74]

/-- The frame a reply leaves in `wifi_data_to_send`. -/
def replyFrame (code : UInt8) (para : UInt16) : List UInt8 :=
  (wifiAckSend g code para).wifiDataToSend.bytes (wifiAckSend g code para).wifiDataLen.toNat

theorem replyFrame_phoneFrame {code : UInt8} (para : UInt16) (h : code ∈ replyCodes) :
    PhoneFrame (replyFrame g code para) ∧ announced (replyFrame g code para) ≤ 41 := by
  have key {n L : ℕ} (hn : n = 9 + L) (hL : L ≤ 41)
      (hlen : (wifiAckSend g code para).wifiDataLen.toNat = n)
      (hhead : HeaderIn (wifiAckSend g code para).wifiDataToSend L) :
      PhoneFrame (replyFrame g code para) ∧ announced (replyFrame g code para) ≤ 41 := by
    unfold replyFrame
    rw [hlen]
    exact ⟨phoneFrame_bytes_iff.mpr ⟨L, hn, hhead⟩, by rwa [hhead.announced (by omega)]⟩
  simp only [replyCodes, List.mem_cons, List.not_mem_nil, or_false] at h
  rcases h with rfl | rfl | rfl | rfl | rfl | rfl
  · exact key (n := 11) rfl (by omega) rfl (headerIn_ackStatus g _ para)
  · exact key (n := 11) rfl (by omega) rfl (headerIn_ackStatus g _ para)
  · exact key (n := 11) rfl (by omega) rfl (headerIn_ackStatus g _ para)
  · exact key (n := 17) rfl (by omega) rfl (frameIn_ackAddress g _).toHeaderIn
  · exact key (n := 17) rfl (by omega) rfl (frameIn_ackAddress g _).toHeaderIn
  · exact key (n := 13) rfl (by omega) rfl (frameIn_ackTime g _).toHeaderIn

/-- **The decoder accepts everything the protocol can say.**  Frames with at
most 41 payload bytes, with any bytes but `FA` before and between them, are
dispatched one by one and in order, each from the first bytes of the buffer and
with its own length; the replies of `wifi_ack_send` are such frames. -/
theorem frames_dealt (r : WifiRx) (h0 : r.rxState = 0) (h1 : r.idCnt = 0)
    (l : List (List UInt8 × List UInt8)) (hnoise : ∀ x ∈ l, 0xFA ∉ x.1)
    (hframe : ∀ x ∈ l, PhoneFrame x.2 ∧ announced x.2 ≤ 41)
    (xs : List Sample) (hxs : xs.filterMap Sample.rx = l.flatMap fun x => x.1 ++ x.2) :
    (∃ s e, usart2Run ({ rx := r, tx := tx, at_ := at_ }, g) xs
        = Except.ok (s, e) ∧ e.filterMap dealtFrame = l.map Prod.snd ∧
        s.1.rx.rxState = 0 ∧ s.1.rx.idCnt = 0) ∧
      ∀ code ∈ replyCodes, ∀ para : UInt16,
        PhoneFrame (replyFrame g code para) ∧ announced (replyFrame g code para) ≤ 41 := by
  refine ⟨?_, fun code hcode para => replyFrame_phoneFrame g para hcode⟩
  have hskip : ∀ x ∈ l, ∀ b ∈ x.1, phoneFramer.verdict [] b = .skip := fun x hx b hb =>
    phone_skip_iff.mpr (.inl ⟨rfl, fun h => hnoise x hx (h ▸ hb)⟩)
  have hfit : phoneFramer.Fits 50 [] (xs.filterMap Sample.rx) := by
    rw [hxs]
    refine Framer.fits_frames l hskip fun x hx => ?_
    obtain ⟨hf, hle⟩ := hframe x hx
    exact ⟨phone_isFrame_iff.mpr hf, by rw [hf.2.2]; omega⟩
  obtain ⟨s, e, hrun, hR, hout⟩ := phone_implements.run
    (s := ({ rx := r, tx := tx, at_ := at_ }, g)) (Receives.idle h0 h1) hfit
  rw [hxs, Framer.feed_frames l hskip fun x hx => phone_isFrame_iff.mpr (hframe x hx).1] at hR hout
  refine ⟨s, e, hrun, hout, ?_⟩
  cases hR.counters with
  | idle _ hst hid => exact ⟨hst, hid⟩
  | header h | code h | id h | length h | payload h | checksum h | trailer h =>
      rw [List.length_nil] at h
      omega

/-- A byte of noise, a meeting-end frame, a heartbeat with the header bytes in
its payload. -/
theorem frames_dealt_example :
    ∃ s e, usart2Run (Usart2.powerOn, Globals.powerOn)
        (received ([0x55, 0xFA, 0x0A, 0xA1, 0, 0, 0, 0, 0xA5, 0xED] ++
          [0xFA, 0x0A, 0xA9, 0, 0, 2, 0, 0xFA, 0x0A, 0xB3, 0xED])) = Except.ok (s, e) ∧
      e.filterMap dealtFrame = [[0xFA, 0x0A, 0xA1, 0, 0, 0, 0, 0xA5, 0xED],
        [0xFA, 0x0A, 0xA9, 0, 0, 2, 0, 0xFA, 0x0A, 0xB3, 0xED]] ∧
      s.1.rx.rxState = 0 ∧ s.1.rx.idCnt = 0 :=
  (frames_dealt .powerOn .powerOn .powerOn .powerOn rfl rfl
    [([0x55], [0xFA, 0x0A, 0xA1, 0, 0, 0, 0, 0xA5, 0xED]),
      ([], [0xFA, 0x0A, 0xA9, 0, 0, 2, 0, 0xFA, 0x0A, 0xB3, 0xED])]
    (by decide) (by decide) _ (by decide)).1

/-! ### Framing -/

/-- The activation `x` that follows the activations `ys` calls
`wifi_data_deal(dataBuf, num)`. -/
def Dispatches (s₀ : Usart2 × Globals) (ys : List Sample) (x : Sample) (dataBuf : Buffer 50)
    (num : UInt8) : Prop :=
  ∃ s l s' l', usart2Run s₀ ys = Except.ok (s, l) ∧
    usart2IRQHandler 1 s x = Except.ok (s', l') ∧ .wifiDataDeal dataBuf num ∈ l'

/-- The call is made on the last `num` bytes of the stream, and these begin
like a frame of that length. -/
def DealsLast (dataBuf : Buffer 50) (num : UInt8) (s : List UInt8) : Prop :=
  dataBuf.bytes num.toNat <:+ s ∧ dataBuf.rd 0 = 0xFA ∧ dataBuf.rd 1 = 0x0A ∧
    num.toNat = 9 + ((dataBuf.rd 5).toNat + 256 * (dataBuf.rd 6).toNat)

theorem mem_dealtFrame {l : List Effect} {f : List UInt8} :
    f ∈ l.filterMap dealtFrame ↔
      ∃ dataBuf num, .wifiDataDeal dataBuf num ∈ l ∧ dataBuf.bytes num.toNat = f := by
  rw [List.mem_filterMap]
  constructor
  · rintro ⟨e, he, hf⟩
    cases e with
    | wifiDataDeal dataBuf num => exact ⟨dataBuf, num, he, Option.some.inj hf⟩
    | rd | wr | screenDataAnalize => cases hf
  · rintro ⟨dataBuf, num, he, rfl⟩
    exact ⟨_, he, rfl⟩

/-- The calls are the frames seen. -/
theorem dispatches_emits {s₀ : Usart2 × Globals} {ys : List Sample} {x : Sample} {f : List UInt8} :
    (∃ dataBuf num, Dispatches s₀ ys x dataBuf num ∧ dataBuf.bytes num.toNat = f) ↔
      Framer.Emits (usart2IRQHandler 1) dealtFrame s₀ ys x f := by
  constructor
  · rintro ⟨dataBuf, num, ⟨s, l, s', l', hrun, hs, hmem⟩, hf⟩
    exact ⟨s, l, s', l', hrun, hs, mem_dealtFrame.mpr ⟨dataBuf, num, hmem, hf⟩⟩
  · rintro ⟨s, l, s', l', hrun, hs, hmem⟩
    obtain ⟨dataBuf, num, he, hf⟩ := mem_dealtFrame.mp hmem
    exact ⟨dataBuf, num, ⟨s, l, s', l', hrun, hs, he⟩, hf⟩

theorem phoneFrame_bytes {dataBuf : Buffer 50} {num : UInt8}
    (hframe : PhoneFrame (dataBuf.bytes num.toNat)) :
    dataBuf.rd 0 = 0xFA ∧ dataBuf.rd 1 = 0x0A ∧
      num.toNat = 9 + ((dataBuf.rd 5).toNat + 256 * (dataBuf.rd 6).toNat) := by
  obtain ⟨L, hnum, hhead⟩ := phoneFrame_bytes_iff.mp hframe
  exact ⟨hhead.rd0, hhead.rd1, by rw [hhead.len, hnum]⟩

/-- **A dispatched frame is what was received last, exactly when headers come
in one piece.**  In the state between the two header bytes the handler waits
for `0A` and stays there on any other byte, so bytes that follow the `FA` are
lost without a trace; nothing else ever is. -/
theorem dealsLast_iff (xs : List Sample) (hlen : LengthsAtMost 41 (xs.filterMap Sample.rx)) :
    (∃ s l, usart2Run ({ rx := .powerOn, tx := tx, at_ := at_ }, g) xs
        = Except.ok (s, l)) ∧
      ((∀ ys x zs dataBuf num, xs = ys ++ x :: zs →
          Dispatches ({ rx := .powerOn, tx := tx, at_ := at_ }, g) ys x dataBuf num →
          DealsLast dataBuf num ((ys ++ [x]).filterMap Sample.rx)) ↔
        HeadersAdjacent (xs.filterMap Sample.rx)) := by
  have hfit : phoneFramer.Fits 50 [] (xs.filterMap Sample.rx) :=
    phone_fits_iff.mpr hlen.overlongBounded
  have hidle : Receives WifiRx.powerOn [] := .idle rfl rfl
  refine ⟨(phone_implements.returns_iff (s := ({ rx := .powerOn, tx := tx, at_ := at_ }, g))
    hidle).mpr hfit, ?_⟩
  rw [headersAdjacent_iff, phone_implements.headersWhole_iff
    (s := ({ rx := .powerOn, tx := tx, at_ := at_ }, g)) hidle hfit (fun _ b => phone_ne_skip b)
    fun p b hb => by have := phone_emit_iff.mp hb; omega]
  constructor
  · intro hall ys x zs f hxs hf
    obtain ⟨dataBuf, num, hcall, rfl⟩ := dispatches_emits.mpr hf
    exact (hall ys x zs dataBuf num hxs hcall).1
  · intro hall ys x zs dataBuf num hxs hcall
    have hf := dispatches_emits.mp ⟨dataBuf, num, hcall, rfl⟩
    have hframe := phone_isFrame_iff.mp (phone_implements.isFrame_of_emits hidle hf)
    exact ⟨hall ys x zs _ hxs hf, phoneFrame_bytes hframe⟩

theorem dealsLast_example :
    (∃ s l, usart2Run (Usart2.powerOn, Globals.powerOn)
        (received [0xFA, 0x0A, 0xA1, 0, 0, 0, 0, 0xA5, 0xED]) = Except.ok (s, l)) ∧
      ((∀ ys x zs dataBuf num,
          received [0xFA, 0x0A, 0xA1, 0, 0, 0, 0, 0xA5, 0xED] = ys ++ x :: zs →
          Dispatches (Usart2.powerOn, Globals.powerOn) ys x dataBuf num →
          DealsLast dataBuf num ((ys ++ [x]).filterMap Sample.rx)) ↔
        HeadersAdjacent [0xFA, 0x0A, 0xA1, 0, 0, 0, 0, 0xA5, 0xED]) :=
  dealsLast_iff .powerOn .powerOn .powerOn (received [0xFA, 0x0A, 0xA1, 0, 0, 0, 0, 0xA5, 0xED])
    (by decide)

/-- A frame whose header came in two pieces: it is dispatched although nine
consecutive bytes of that form were never received. -/
theorem dealsLast_split_header :
    LengthsAtMost 41 [0xFA, 0x55, 0x0A, 0xA1, 0, 0, 0, 0, 0xA5, 0xED] ∧
      ∃ ys x dataBuf num, received [0xFA, 0x55, 0x0A, 0xA1, 0, 0, 0, 0, 0xA5, 0xED] = ys ++ [x] ∧
        Dispatches (Usart2.powerOn, Globals.powerOn) ys x dataBuf num ∧
        ¬ DealsLast dataBuf num ((ys ++ [x]).filterMap Sample.rx) := by
  have hlen : LengthsAtMost 41 [0xFA, 0x55, 0x0A, 0xA1, 0, 0, 0, 0, 0xA5, 0xED] := by decide
  have hfit : phoneFramer.Fits 50 [] ((received [0xFA, 0x55, 0x0A, 0xA1, 0, 0, 0, 0, 0xA5] ++
      (⟨false, false, some 0xED⟩ : Sample) :: []).filterMap Sample.rx) :=
    phone_fits_iff.mpr hlen.overlongBounded
  have hidle : Receives WifiRx.powerOn [] := .idle rfl rfl
  obtain ⟨dataBuf, num, hcall, hf⟩ := dispatches_emits.mpr ((phone_implements.emits_iff
    (s := (Usart2.powerOn, Globals.powerOn)) hidle hfit).mpr ⟨0xED, rfl, by decide, rfl⟩)
  refine ⟨hlen, _, _, dataBuf, num, rfl, hcall, ?_⟩
  rintro ⟨hsuffix, -⟩
  rw [hf] at hsuffix
  revert hsuffix
  decide

/-! ### Acting on frames -/

/-- **What is checked before a frame is acted on.**  Whenever an activation
changes the globals it does so by one call of the dispatcher, on a frame with
the header, the announced length and a code the dispatcher knows.  The checksum
and the trailer are not looked at: frames that differ there only are acted on
alike. -/
theorem acted_frame (xs : List Sample) (hlen : LengthsAtMost 41 (xs.filterMap Sample.rx)) :
    (∀ ys x zs, xs = ys ++ x :: zs → ∃ s l s' l',
      usart2Run ({ rx := .powerOn, tx := tx, at_ := at_ }, g) ys
        = Except.ok (s, l) ∧ usart2IRQHandler 1 s x = Except.ok (s', l') ∧
      (s'.2 ≠ s.2 → ∃ dataBuf num, .wifiDataDeal dataBuf num ∈ l' ∧
        s'.2 = wifiDataDeal s.2 dataBuf num ∧ PhoneFrame (dataBuf.bytes num.toNat) ∧
        dataBuf.rd 2 ∈ actedCodes)) ∧
      ∀ (dataBuf dataBuf' : Buffer 50) (num : UInt8) (L : ℕ),
        (∀ i < 7 + L, dataBuf.rd i = dataBuf'.rd i) →
        30 ≤ L ∨ dataBuf.rd 2 ∉ ([0x75, 0x78] : List UInt8) →
        wifiDataDeal g dataBuf num = wifiDataDeal g dataBuf' num := by
  have hidle : Receives WifiRx.powerOn [] := .idle rfl rfl
  constructor
  · rintro ys x zs rfl
    obtain ⟨s, l, s', l', hrun, -, hs⟩ := phone_implements.each
      (s := ({ rx := .powerOn, tx := tx, at_ := at_ }, g)) hidle
      (phone_fits_iff.mpr hlen.overlongBounded)
    refine ⟨s, l, s', l', hrun, hs, fun hne => ?_⟩
    rcases usart2IRQHandler_globals hs with hg | ⟨dataBuf, num, hmem, hg⟩
    · exact absurd hg hne
    · have hf := phone_implements.isFrame_of_emits hidle
        ⟨s, l, s', l', hrun, hs, mem_dealtFrame.mpr ⟨dataBuf, num, hmem, rfl⟩⟩
      exact ⟨dataBuf, num, hmem, hg, phone_isFrame_iff.mp hf, (wifiDataDeal_acted (hg ▸ hne)).2.2⟩
  · intro dataBuf dataBuf' num L hsame hreq
    exact wifiDataDeal_congr hsame (by omega) (hreq.imp (by omega) id)

theorem acted_example :
    ∃ s l s' l', usart2Run (Usart2.powerOn, Globals.powerOn)
        (received [0xFA, 0x0A, 0xA1, 0, 0, 0, 0, 0xA5]) = Except.ok (s, l) ∧
      usart2IRQHandler 1 s ⟨false, false, some 0xED⟩ = Except.ok (s', l') ∧
      (s'.2 ≠ s.2 → ∃ dataBuf num, .wifiDataDeal dataBuf num ∈ l' ∧
        s'.2 = wifiDataDeal s.2 dataBuf num ∧ PhoneFrame (dataBuf.bytes num.toNat) ∧
        dataBuf.rd 2 ∈ actedCodes) :=
  (acted_frame .powerOn .powerOn .powerOn (received [0xFA, 0x0A, 0xA1, 0, 0, 0, 0, 0xA5, 0xED])
    (by decide)).1 _ _ [] rfl

/-- A meeting-end frame with a wrong checksum and a wrong trailer ends the
meeting. -/
theorem acted_unsealed :
    LengthsAtMost 41 [0xFA, 0x0A, 0xA1, 0, 0, 0, 0, 0, 0] ∧
      ¬ Sealed [0xFA, 0x0A, 0xA1, 0, 0, 0, 0, 0, 0] ∧
      ∃ s l, usart2Run (Usart2.powerOn, Globals.powerOn)
          (received [0xFA, 0x0A, 0xA1, 0, 0, 0, 0, 0, 0]) = Except.ok (s, l) ∧
        l.filterMap dealtFrame = [[0xFA, 0x0A, 0xA1, 0, 0, 0, 0, 0, 0]] ∧
        s.2 ≠ Globals.powerOn := by
  have hlen : LengthsAtMost 41 [0xFA, 0x0A, 0xA1, 0, 0, 0, 0, 0, 0] := by decide
  refine ⟨hlen, by decide, ?_⟩
  have hfit : phoneFramer.Fits 50 []
      ((received [0xFA, 0x0A, 0xA1, 0, 0, 0, 0, 0, 0]).filterMap Sample.rx) :=
    phone_fits_iff.mpr hlen.overlongBounded
  obtain ⟨s, l, hrun, -, hout⟩ := phone_implements.run (s := (Usart2.powerOn, Globals.powerOn))
    (Receives.idle rfl rfl) hfit
  have hended : (usart2Run (Usart2.powerOn, Globals.powerOn)
      (received [0xFA, 0x0A, 0xA1, 0, 0, 0, 0, 0, 0])).result?.map
        (fun s => s.2.meetingEndFlag) = some 1 := by decide
  refine ⟨s, l, hrun, by rw [hout]; decide, ?_⟩
  intro hsame
  rw [usart2Run, hrun] at hended
  have hflag : s.2.meetingEndFlag = 1 := Option.some.inj hended
  rw [hsame] at hflag
  exact absurd hflag (by decide)

end Handler

end DolphinNote
