/-
DolphinNote/CString.lean

C strings in fixed-size arrays, and the search for one text in another.

* `strstr` is the offset of the first occurrence.  It finds something exactly in a
  text that contains the pattern (`strstr_isSome_iff`), and a single symbol at its
  first place (`strstr_singleton`).
* `Holds v i t` says that the array `v` holds the string `t` at the offset `i`: the
  symbols of `t` and a terminating zero inside of the array.  Overwriting a symbol by
  a zero cuts the string in two (`Holds.cut`).
-/
import Mathlib.Tactic
import Mathlib.Data.List.TakeWhile
import DolphinNote.Buffer

namespace CString

/-! ### Search -/

section Search

variable {α : Type*} [DecidableEq α]

/-- The offset of the first occurrence of `pat`. -/
def strstr (pat : List α) : List α → Option ℕ
  | [] => if pat = [] then some 0 else none
  | c :: s => if pat <+: c :: s then some 0 else (strstr pat s).map (· + 1)

variable {pat s : List α} {c : α}

theorem strstr_isSome_iff : (strstr pat s).isSome = true ↔ pat <:+: s := by
  induction s with
  | nil =>
      rw [List.infix_nil, strstr]
      by_cases h : pat = []
      · rw [if_pos h]
        exact iff_of_true rfl h
      · rw [if_neg h]
        exact iff_of_false (by decide) h
  | cons c s ih =>
      rw [List.infix_cons_iff, strstr]
      by_cases h : pat <+: c :: s
      · rw [if_pos h]
        exact iff_of_true rfl (.inl h)
      · rw [if_neg h, Option.isSome_map, ih]
        exact (or_iff_right h).symm

theorem strstr_eq_none_iff : strstr pat s = none ↔ ¬ pat <:+: s := by
  rw [← strstr_isSome_iff, Bool.not_eq_true, Option.isSome_eq_false_iff, Option.isNone_iff_eq_none]

/-- The first place of a symbol. -/
theorem strstr_singleton {pre : List α} (h : c ∉ pre) (post : List α) :
    strstr [c] (pre ++ c :: post) = some pre.length := by
  induction pre with
  | nil =>
      rw [List.nil_append, strstr, if_pos ⟨post, rfl⟩]
      rfl
  | cons d pre ih =>
      have hne : ¬ [c] <+: d :: (pre ++ c :: post) := by
        rintro ⟨l, hl⟩
        obtain ⟨rfl, -⟩ := List.cons.inj hl
        exact h List.mem_cons_self
      rw [List.cons_append, strstr, if_neg hne, ih fun hc => h (List.mem_cons_of_mem _ hc)]
      rfl

theorem strstr_singleton_none (h : c ∉ s) : strstr [c] s = none := by
  rw [strstr_eq_none_iff]
  exact fun hin => h (hin.subset List.mem_cons_self)

/-- A text that contains a symbol, at its first place. -/
theorem exists_first (h : c ∈ s) : ∃ pre post, s = pre ++ c :: post ∧ c ∉ pre := by
  induction s with
  | nil => cases h
  | cons d s ih =>
      by_cases hd : c = d
      · subst hd
        exact ⟨[], s, rfl, List.not_mem_nil⟩
      · obtain ⟨pre, post, rfl, hpre⟩ := ih (List.mem_of_ne_of_mem hd h)
        exact ⟨d :: pre, post, rfl, List.not_mem_cons_of_ne_of_not_mem hd hpre⟩

/-- The first place of a symbol is one. -/
theorem first_unique {pre pre' post post' : List α} (h : pre ++ c :: post = pre' ++ c :: post')
    (hpre : c ∉ pre) (hpre' : c ∉ pre') : pre = pre' ∧ post = post' := by
  have hlen : pre.length = pre'.length := by
    apply Option.some.inj
    rw [← strstr_singleton hpre post, h, strstr_singleton hpre']
  obtain ⟨hpre, hpost⟩ := List.append_inj h hlen
  exact ⟨hpre, (List.cons.inj hpost).2⟩

end Search

/-! ### Strings in memory -/

variable {n i : ℕ} {v : Buffer n} {a b t : List UInt8} {c : UInt8}

/-- The string at an offset, up to the first zero. -/
def cstring (v : Buffer n) (i : ℕ) : List UInt8 := ((v.bytes n).drop i).takeWhile (· ≠ 0)

/-- The array holds the string `t` at the offset `i`, with its terminator. -/
def Holds (v : Buffer n) (i : ℕ) (t : List UInt8) : Prop :=
  0 ∉ t ∧ ∃ tail, (v.bytes n).drop i = t ++ 0 :: tail

theorem cstring_of_holds (h : Holds v i t) : cstring v i = t := by
  obtain ⟨ht, tail, hdrop⟩ := h
  have hne : ∀ x ∈ t, decide (x ≠ 0) = true := fun x hx =>
    decide_eq_true fun he => ht (he ▸ hx)
  rw [cstring, hdrop, List.takeWhile_append_of_pos hne, List.takeWhile_cons_of_neg (by decide),
    List.append_nil]

theorem Holds.lt (h : Holds v i t) : i + t.length < n := by
  obtain ⟨-, tail, hdrop⟩ := h
  have hlen := congrArg List.length hdrop
  rw [List.length_drop, Buffer.length_bytes, List.length_append, List.length_cons] at hlen
  omega

/-- Its symbols are inside of the array. -/
theorem Holds.symbol_lt (h : Holds v i (a ++ c :: b)) : i + a.length < n := by
  have hend := h.lt
  rw [List.length_append, List.length_cons] at hend
  omega

/-- The string behind some symbols. -/
theorem Holds.behind (h : Holds v i (a ++ b)) : Holds v (i + a.length) b := by
  obtain ⟨ht, tail, hdrop⟩ := h
  refine ⟨fun hb => ht (List.mem_append_right _ hb), tail, ?_⟩
  rw [← List.drop_drop, hdrop, List.append_assoc, List.drop_left]

theorem bytes_wr {k : ℕ} {x : UInt8} (hk : k < n) : (v.wr k x hk).bytes n = (v.bytes n).set k x := by
  refine List.ext_getElem (by simp) fun j hj hj' => ?_
  simp only [Buffer.bytes, List.getElem_map, List.getElem_range, List.getElem_set, Buffer.rd_wr]

/-- **Cutting.**  A zero in place of a symbol ends the string in front of it, and
leaves the one behind it. -/
theorem Holds.cut (h : Holds v i (a ++ c :: b)) (hk : i + a.length < n) :
    Holds (v.wr (i + a.length) 0 hk) i a ∧ Holds (v.wr (i + a.length) 0 hk) (i + a.length + 1) b := by
  obtain ⟨ht, tail, hdrop⟩ := h
  have hcut : ((v.wr (i + a.length) 0 hk).bytes n).drop i = a ++ 0 :: (b ++ 0 :: tail) := by
    rw [bytes_wr, List.drop_set, if_neg (by omega), hdrop, Nat.add_sub_cancel_left,
      List.append_assoc, List.set_append_right _ _ le_rfl, Nat.sub_self]
    rfl
  refine ⟨⟨fun ha => ht (List.mem_append_left _ ha), _, hcut⟩,
    fun hb => ht (List.mem_append_right _ (List.mem_cons_of_mem _ hb)), tail, ?_⟩
  rw [Nat.add_assoc, ← List.drop_drop, hcut, ← List.drop_drop, List.drop_left]
  rfl

/-- A zero behind the first `k` bytes: they are a string, or what is in front of their
first zero is one. -/
theorem holds_terminated {k : ℕ} (hk : k < n) :
    Holds (v.wr k 0 hk) 0 ((v.bytes k).takeWhile (· ≠ 0)) := by
  have hbytes : (v.wr k 0 hk).bytes n = v.bytes k ++ 0 :: (v.bytes n).drop (k + 1) := by
    rw [bytes_wr, List.set_eq_take_append_cons_drop, if_pos (by rwa [Buffer.length_bytes]),
      Buffer.take_bytes v hk.le]
  refine ⟨fun h0 => ?_, ?_⟩
  · have hzero := List.all_eq_true.mp (List.all_takeWhile (p := (· ≠ 0)) (l := v.bytes k)) 0 h0
    exact absurd hzero (by decide)
  · rw [List.drop_zero, hbytes]
    rcases hd : (v.bytes k).dropWhile (· ≠ 0) with - | ⟨d, ds⟩
    · have hall : (v.bytes k).takeWhile (· ≠ 0) = v.bytes k := by
        conv_rhs => rw [← List.takeWhile_append_dropWhile (p := (· ≠ 0)) (l := v.bytes k), hd,
          List.append_nil]
      exact ⟨_, by rw [hall]⟩
    · have hzero : d = 0 := by
        have hne : (v.bytes k).dropWhile (· ≠ 0) ≠ [] := by
          rw [hd]
          exact List.cons_ne_nil _ _
        have hhead := List.head_dropWhile_not (fun x : UInt8 => decide (x ≠ 0)) hne
        simpa only [hd, List.head_cons, decide_eq_false_iff_not, not_not] using hhead
      refine ⟨ds ++ 0 :: (v.bytes n).drop (k + 1), ?_⟩
      conv_lhs => rw [← List.takeWhile_append_dropWhile (p := (· ≠ 0)) (l := v.bytes k), hd, hzero]
      rw [List.append_assoc, List.cons_append]

theorem cstring_terminated {k : ℕ} (hk : k < n) (hnz : 0 ∉ v.bytes k) :
    cstring (v.wr k 0 hk) 0 = v.bytes k := by
  have hne : ∀ x ∈ v.bytes k, decide (x ≠ 0) = true := fun x hx =>
    decide_eq_true fun he => hnz (he ▸ hx)
  have hall : (v.bytes k).takeWhile (· ≠ 0) = v.bytes k := List.takeWhile_eq_self_iff.mpr hne
  rw [cstring_of_holds (holds_terminated hk), hall]

end CString
