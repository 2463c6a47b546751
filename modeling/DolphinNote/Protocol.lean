/-
DolphinNote/Protocol.lean

The two wire formats of the board, as formats.

A phone frame is

    FA 0A  code  id₀ id₁  lenLo lenHi  payload…  checksum  ED

where the payload has the announced length, and a screen frame is
`68 len` followed by `len` bytes.  Both are given as framers: `phoneFramer`
and `screenFramer` say what a receiver that wants to cut a byte stream into
such frames does with each byte, without buffers and counters.  The interrupt
handlers are related to them in `PhoneReceiver` and `ScreenReceiver`.

`WholeFrame` is the law the encoders are written for: the outline of a phone
frame, with the sum of all bytes before it as the checksum, and the trailer.
-/
import DolphinNote.Framer
import DolphinNote.Buffer

namespace DolphinNote

/-! ### Phone frames -/

/-- The little-endian length at offsets 5 and 6. -/
def announced (f : List UInt8) : ℕ := (f.getD 5 0).toNat + 256 * (f.getD 6 0).toNat

/-- The outline of a frame: header and announced length. -/
def PhoneFrame (f : List UInt8) : Prop :=
  f.getD 0 0 = 0xFA ∧ f.getD 1 0 = 0x0A ∧ f.length = 9 + announced f

/-- The integrity law: the last byte but one is the sum of all bytes before it,
the last one is the trailer. -/
def Sealed (f : List UInt8) : Prop :=
  f.getD (f.length - 2) 0 = (f.take (f.length - 2)).sum ∧ f.getD (f.length - 1) 0 = 0xED

/-- The frame law: outline and integrity. -/
def WholeFrame (f : List UInt8) : Prop := PhoneFrame f ∧ Sealed f

instance : DecidablePred PhoneFrame := fun f => by
  unfold PhoneFrame; infer_instance

instance : DecidablePred Sealed := fun f => by
  unfold Sealed; infer_instance

instance : DecidablePred WholeFrame := fun f => by
  unfold WholeFrame; infer_instance

/-- Cutting a stream into phone frames: wait for `FA`, then for `0A`, then
take what the announced length asks for. -/
def phoneFramer : Framer UInt8 where
  verdict p b :=
    if p.length = 0 then if b = 0xFA then .keep else .skip
    else if p.length = 1 then if b = 0x0A then .keep else .skip
    else if p.length = 8 + announced p then .emit else .keep

theorem announced_append {p q : List UInt8} (h : 7 ≤ p.length) :
    announced (p ++ q) = announced p := by
  have h5 : 5 < p.length := by omega
  have h6 : 6 < p.length := by omega
  simp [announced, List.getElem?_append_left h5, List.getElem?_append_left h6]

theorem announced_bytes {n : ℕ} (buf : Buffer n) {k : ℕ} (h : 7 ≤ k) :
    announced (buf.bytes k) = (buf.rd 5).toNat + 256 * (buf.rd 6).toNat := by
  unfold announced
  rw [Buffer.getD_bytes buf (by omega), Buffer.getD_bytes buf (by omega)]

/-- The beginnings of phone frames. -/
structure PhonePrefix (p : List UInt8) : Prop where
  head : 1 ≤ p.length → p.getD 0 0 = 0xFA
  second : 2 ≤ p.length → p.getD 1 0 = 0x0A
  bound : 9 ≤ p.length → p.length ≤ 8 + announced p

theorem phone_keep_iff {p : List UInt8} {b : UInt8} :
    phoneFramer.verdict p b = .keep ↔
      (p.length = 0 ∧ b = 0xFA) ∨ (p.length = 1 ∧ b = 0x0A) ∨
        (2 ≤ p.length ∧ p.length ≠ 8 + announced p) := by
  simp only [phoneFramer]
  split_ifs with h0 hb h1 hb h2
  · exact iff_of_true rfl (.inl ⟨h0, hb⟩)
  · refine iff_of_false (by simp) ?_
    rintro (⟨-, h⟩ | ⟨h, -⟩ | ⟨h, -⟩)
    · exact hb h
    · omega
    · omega
  · exact iff_of_true rfl (.inr (.inl ⟨h1, hb⟩))
  · refine iff_of_false (by simp) ?_
    rintro (⟨h, -⟩ | ⟨-, h⟩ | ⟨h, -⟩)
    · omega
    · exact hb h
    · omega
  · exact iff_of_false (by simp) (by omega)
  · exact iff_of_true rfl (.inr (.inr ⟨by omega, h2⟩))

theorem phone_emit_iff {p : List UInt8} {b : UInt8} :
    phoneFramer.verdict p b = .emit ↔ p.length = 8 + announced p := by
  simp only [phoneFramer]
  split_ifs with h0 hb h1 hb h2 <;> constructor <;> intro h <;>
    first | rfl | omega | cases h

theorem phone_skip_iff {p : List UInt8} {b : UInt8} :
    phoneFramer.verdict p b = .skip ↔
      (p.length = 0 ∧ b ≠ 0xFA) ∨ (p.length = 1 ∧ b ≠ 0x0A) := by
  simp only [phoneFramer]
  split_ifs <;> simp_all

theorem phone_ne_drop (p : List UInt8) (b : UInt8) : phoneFramer.verdict p b ≠ .drop := by
  simp only [phoneFramer]
  split_ifs <;> simp

/-- Past the header nothing is skipped. -/
theorem phone_ne_skip {p : List UInt8} (b : UInt8) (h : 2 ≤ p.length) :
    phoneFramer.verdict p b ≠ .skip := by
  rw [ne_eq, phone_skip_iff]
  omega

theorem getD_concat_of_lt {p : List UInt8} {b : UInt8} {i : ℕ} (h : i < p.length) :
    (p ++ [b]).getD i 0 = p.getD i 0 := by
  simp [List.getElem?_append_left h]

theorem getD_concat_length (p : List UInt8) (b : UInt8) : (p ++ [b]).getD p.length 0 = b := by
  simp

/-- What the framer collects are exactly the beginnings of phone frames. -/
theorem phone_keeps_iff {p : List UInt8} : phoneFramer.Keeps [] p ↔ PhonePrefix p := by
  induction p using List.reverseRecOn with
  | nil => exact ⟨fun _ => ⟨by simp, by simp, by simp⟩, fun _ => trivial⟩
  | append_singleton p b ih =>
      have hsplit : phoneFramer.Keeps [] (p ++ [b]) ↔
          PhonePrefix p ∧ phoneFramer.verdict p b = .keep := by
        rw [← ih]
        exact ⟨fun h => ⟨h.of_append.1, h.verdict⟩, fun h => h.1.concat h.2⟩
      rw [hsplit, phone_keep_iff]
      constructor
      · rintro ⟨hp, hb⟩
        refine ⟨fun _ => ?_, fun h2 => ?_, fun h9 => ?_⟩
        · rcases hb with ⟨h0, rfl⟩ | ⟨h1, -⟩ | ⟨h2, -⟩
          · rw [List.length_eq_zero_iff] at h0
            simp [h0]
          · rw [getD_concat_of_lt (by omega), hp.head (by omega)]
          · rw [getD_concat_of_lt (by omega), hp.head (by omega)]
        · rw [List.length_append, List.length_singleton] at h2
          rcases hb with ⟨h0, -⟩ | ⟨h1, rfl⟩ | ⟨h2, -⟩
          · omega
          · rw [← h1, getD_concat_length]
          · rw [getD_concat_of_lt (by omega), hp.second h2]
        · rw [List.length_append, List.length_singleton] at h9 ⊢
          rw [announced_append (by omega)]
          have := hp.bound
          omega
      · rintro ⟨hhead, hsecond, hbound⟩
        simp only [List.length_append, List.length_singleton] at hhead hsecond hbound
        refine ⟨⟨fun h => ?_, fun h => ?_, fun h => ?_⟩, ?_⟩
        · rw [← hhead (by omega), getD_concat_of_lt (by omega)]
        · rw [← hsecond (by omega), getD_concat_of_lt (by omega)]
        · have := hbound (by omega)
          rw [announced_append (by omega)] at this
          omega
        · rcases hlen : p.length with - | - | k
          · left
            have h := hhead (by omega)
            rw [List.length_eq_zero_iff] at hlen
            subst hlen
            exact ⟨rfl, by simpa using h⟩
          · right; left
            have h1 : p.length = 1 := hlen
            have h := hsecond (by omega)
            rw [← h1, getD_concat_length] at h
            exact ⟨rfl, h⟩
          · right; right
            refine ⟨by omega, fun heq => ?_⟩
            have h := hbound (by omega)
            rw [announced_append (by omega)] at h
            omega

/-- The frames of the framer: header and announced length, nothing else. -/
theorem phone_isFrame_iff {f : List UInt8} :
    phoneFramer.IsFrame f ↔ PhoneFrame f := by
  constructor
  · rintro ⟨q, c, rfl, hq, hc⟩
    rw [phone_keeps_iff] at hq
    rw [phone_emit_iff] at hc
    unfold PhoneFrame
    rw [getD_concat_of_lt (by omega), getD_concat_of_lt (by omega), announced_append (by omega)]
    exact ⟨hq.head (by omega), hq.second (by omega), by simp; omega⟩
  · rintro ⟨h0, h1, hlen⟩
    have hne : f ≠ [] := by
      rintro rfl
      rw [List.length_nil] at hlen
      omega
    have hf : f.dropLast ++ [f.getLast hne] = f := List.dropLast_concat_getLast hne
    have hq : f.dropLast.length = 8 + announced f := by
      rw [List.length_dropLast]; omega
    have ha : announced f = announced f.dropLast := by
      conv_lhs => rw [← hf]
      exact announced_append (by omega)
    refine ⟨f.dropLast, f.getLast hne, hf.symm, ?_, ?_⟩
    · rw [phone_keeps_iff]
      refine ⟨fun h => ?_, fun h => ?_, fun h => by omega⟩
      · rw [← h0, ← hf, getD_concat_of_lt (by omega), hf]
      · rw [← h1, ← hf, getD_concat_of_lt (by omega), hf]
    · rw [phone_emit_iff, hq, ha]

/-! ### Screen frames -/

/-- Cutting a stream into screen frames: wait for `68`, then for a length below
50, then take that many bytes.  After the length zero one byte is discarded. -/
def screenFramer : Framer UInt8 where
  verdict p b :=
    if p.length = 0 then if b = 0x68 then .keep else .skip
    else if p.length = 1 then if b < 50 then .keep else .skip
    else if p.getD 1 0 = 0 then .drop
    else if p.length = 1 + (p.getD 1 0).toNat then .emit else .keep

/-- The beginnings of screen frames. -/
structure ScreenPrefix (p : List UInt8) : Prop where
  head : 1 ≤ p.length → p.getD 0 0 = 0x68
  len : 2 ≤ p.length → p.getD 1 0 < 50
  bound : 3 ≤ p.length → p.length ≤ 1 + (p.getD 1 0).toNat

theorem screen_verdict_zero {p : List UInt8} (b : UInt8) (h : p.length = 0) :
    screenFramer.verdict p b = if b = 0x68 then .keep else .skip :=
  if_pos h

theorem screen_verdict_one {p : List UInt8} (b : UInt8) (h : p.length = 1) :
    screenFramer.verdict p b = if b < 50 then .keep else .skip := by
  simp only [screenFramer]
  rw [if_neg (by omega), if_pos h]

theorem screen_verdict_payload {p : List UInt8} (b : UInt8) (h : 2 ≤ p.length) :
    screenFramer.verdict p b = if p.getD 1 0 = 0 then .drop
      else if p.length = 1 + (p.getD 1 0).toNat then .emit else .keep := by
  simp only [screenFramer]
  rw [if_neg (by omega), if_neg (by omega)]

/-- What is kept extends the beginning of a frame. -/
theorem ScreenPrefix.concat {p : List UInt8} {b : UInt8} (hp : ScreenPrefix p)
    (hv : screenFramer.verdict p b = .keep) : ScreenPrefix (p ++ [b]) := by
  simp only [screenFramer] at hv
  split_ifs at hv with h0 hb h1 hb hz hend
  · rw [List.length_eq_zero_iff] at h0
    subst h0 hb
    exact ⟨fun _ => rfl, by simp, by simp⟩
  · have hb1 : (p ++ [b]).getD 1 0 = b := by rw [← h1, getD_concat_length]
    refine ⟨fun _ => ?_, fun _ => by rwa [hb1], by simp [h1]⟩
    rw [getD_concat_of_lt (by omega), hp.head (by omega)]
  · -- a payload byte: the length is not zero, and not yet reached
    have hz' : (p.getD 1 0).toNat ≠ 0 := fun h => hz (UInt8.toNat_inj.mp h)
    have hbound := hp.bound
    refine ⟨fun _ => ?_, fun _ => ?_, fun _ => ?_⟩
    · rw [getD_concat_of_lt (by omega), hp.head (by omega)]
    · rw [getD_concat_of_lt (by omega)]
      exact hp.len (by omega)
    · rw [getD_concat_of_lt (by omega), List.length_append, List.length_singleton]
      omega

theorem ScreenPrefix.length_le {p : List UInt8} (hp : ScreenPrefix p) : p.length ≤ 50 := by
  by_contra h
  have hlen := UInt8.lt_iff_toNat_lt.mp (hp.len (by omega))
  have hbound := hp.bound (by omega)
  have h50 : (50 : UInt8).toNat = 50 := rfl
  omega

/-- What the framer collects is always the beginning of a screen frame. -/
theorem ScreenPrefix.feed {p : List UInt8} (hp : ScreenPrefix p) (s : List UInt8) :
    ScreenPrefix (screenFramer.feed p s).1 := by
  induction s generalizing p with
  | nil => exact hp
  | cons b s ih =>
      refine ih ?_
      have hnil : ScreenPrefix [] := ⟨by simp, by simp, by simp⟩
      rcases hv : screenFramer.verdict p b with - | - | - | -
      · rwa [Framer.step_skip hv]
      · rw [Framer.step_keep hv]
        exact hp.concat hv
      · rwa [Framer.step_emit hv]
      · rwa [Framer.step_drop hv]

/-- Every stream fits 51 cells. -/
theorem screen_fits (s : List UInt8) : screenFramer.Fits 51 [] s :=
  Framer.fits_iff.mpr fun q _ _ _ _ =>
    Nat.lt_succ_of_le (ScreenPrefix.feed ⟨by simp, by simp, by simp⟩ q).length_le

end DolphinNote
