/-
DolphinNote/Agenda.lean

An agenda: entries with the time they are due, the earliest first.

An entry is put behind every other one that is due no later, so that of two
entries due at the same time the older one stands in front.  `insert` and
`without` are the two operations; the first keeps the order
(`ordered_insert`), and both keep the names apart (`names_insert`,
`names_without`).

In every round the entries that are due are taken from the front, and those
with a period are inserted again (`expire`).  `taken` lists what some rounds
take: a single entry comes up every period (`taken_single`), and one that
stands behind another never comes up in front of it (`Before.taken`).
-/
import Mathlib.Data.List.TakeWhile
import Mathlib.Tactic

namespace Agenda

variable {ν κ : Type*}

/-- The names of the entries. -/
def names (l : List (ν × κ)) : List ν := l.map Prod.fst

theorem mem_names {n : ν} {l : List (ν × κ)} : n ∈ names l ↔ ∃ d, (n, d) ∈ l := by
  unfold names
  rw [List.mem_map]
  constructor
  · rintro ⟨⟨m, d⟩, he, rfl⟩
    exact ⟨d, he⟩
  · rintro ⟨d, he⟩
    exact ⟨(n, d), he, rfl⟩

section Without

variable [DecidableEq ν] {n : ν} {e : ν × κ} {l : List (ν × κ)}

/-- Every entry but those of one name. -/
def without (n : ν) (l : List (ν × κ)) : List (ν × κ) := l.filter fun e => e.1 ≠ n

theorem mem_without : e ∈ without n l ↔ e ∈ l ∧ e.1 ≠ n := by
  unfold without
  rw [List.mem_filter, decide_eq_true_iff]

/-- Where a name stands once, it is erased. -/
theorem names_without (h : (names l).Nodup) : names (without n l) = (names l).erase n := by
  rw [h.erase_eq_filter]
  unfold names without
  rw [List.filter_map]
  congr 1
  refine List.filter_congr fun e _ => ?_
  show decide (e.1 ≠ n) = (e.1 != n)
  rw [Bool.eq_iff_iff, decide_eq_true_iff, bne_iff_ne]

theorem without_of_notMem (h : n ∉ names l) : without n l = l := by
  refine List.filter_eq_self.mpr fun e he => decide_eq_true ?_
  rintro rfl
  exact h (List.mem_map_of_mem he)

theorem without_without : without n (without n l) = without n l := by
  unfold without
  rw [List.filter_filter]
  exact List.filter_congr fun e _ => Bool.and_self _

theorem filter_without_of_neg {p : ν → Bool} (hp : p n = false) :
    (without n l).filter (fun e => p e.1) = l.filter fun e => p e.1 := by
  unfold without
  rw [List.filter_filter]
  refine List.filter_congr fun e _ => ?_
  rcases eq_or_ne e.1 n with he | hne
  · rw [he, hp, Bool.false_and]
  · rw [decide_eq_true hne, Bool.and_true]

theorem filter_without (p : ν → Bool) :
    (without n l).filter (fun e => p e.1) = without n (l.filter fun e => p e.1) :=
  List.filter_comm _ _ l

end Without

/-! ### The order -/

variable [LinearOrder κ]

/-- The entry goes behind all that are due no later. -/
def insert (n : ν) (d : κ) (l : List (ν × κ)) : List (ν × κ) :=
  l.takeWhile (fun e => e.2 ≤ d) ++ (n, d) :: l.dropWhile (fun e => e.2 ≤ d)

/-- The earliest first. -/
def Ordered (l : List (ν × κ)) : Prop := l.Pairwise fun e e' => e.2 ≤ e'.2

variable {n : ν} {d : κ} {e : ν × κ} {l : List (ν × κ)}

theorem mem_insert : e ∈ insert n d l ↔ e = (n, d) ∨ e ∈ l := by
  have hl := List.takeWhile_append_dropWhile (p := fun e : ν × κ => decide (e.2 ≤ d)) (l := l)
  conv_rhs => rw [← hl]
  unfold insert
  rw [List.mem_append, List.mem_cons, List.mem_append]
  tauto

/-- Behind the place of the entry everything is due later. -/
theorem lt_of_mem_dropWhile (h : Ordered l) (he : e ∈ l.dropWhile (fun e => e.2 ≤ d)) : d < e.2 := by
  induction l with
  | nil => cases he
  | cons x l ih =>
      have hx := List.pairwise_cons.mp h
      rw [List.dropWhile_cons] at he
      split_ifs at he with hle
      · exact ih hx.2 he
      · have hlt : d < x.2 := lt_of_not_ge fun hge => hle (decide_eq_true hge)
        rcases List.mem_cons.mp he with rfl | he
        · exact hlt
        · exact hlt.trans_le (hx.1 e he)

theorem le_of_mem_takeWhile (he : e ∈ l.takeWhile (fun e => e.2 ≤ d)) : e.2 ≤ d := by
  have hle := List.mem_takeWhile_imp he
  exact of_decide_eq_true hle

/-- The order is kept. -/
theorem ordered_insert (h : Ordered l) : Ordered (insert n d l) := by
  have hl := List.takeWhile_append_dropWhile (p := fun e : ν × κ => decide (e.2 ≤ d)) (l := l)
  unfold Ordered at h
  rw [← hl, List.pairwise_append] at h
  refine List.pairwise_append.mpr ⟨h.1, List.pairwise_cons.mpr ⟨fun e he => ?_, h.2.1⟩, ?_⟩
  · exact (lt_of_mem_dropWhile (hl ▸ List.pairwise_append.mpr h) he).le
  · intro e he e' he'
    rcases List.mem_cons.mp he' with rfl | he'
    · exact le_of_mem_takeWhile he
    · exact h.2.2 e he e' he'

theorem names_insert :
    names (insert n d l) =
      names (l.takeWhile fun e => e.2 ≤ d) ++ n :: names (l.dropWhile fun e => e.2 ≤ d) := by
  simp only [names, insert, List.map_append, List.map_cons]

theorem names_cut (d : κ) (l : List (ν × κ)) :
    names l = names (l.takeWhile fun e => e.2 ≤ d) ++ names (l.dropWhile fun e => e.2 ≤ d) := by
  unfold names
  rw [← List.map_append, List.takeWhile_append_dropWhile]

/-- Where the first entry is not due, none is. -/
theorem Ordered.lt (h : Ordered (e :: l)) (hd : d < e.2) {e' : ν × κ} (he : e' ∈ e :: l) :
    d < e'.2 := by
  rcases List.mem_cons.mp he with rfl | he
  · exact hd
  · exact hd.trans_le ((List.pairwise_cons.mp h).1 e' he)

theorem ordered_without [DecidableEq ν] (h : Ordered l) : Ordered (without n l) :=
  h.sublist List.filter_sublist

theorem without_insert [DecidableEq ν] : without n (insert n d l) = without n l := by
  unfold insert
  conv_rhs => rw [← List.takeWhile_append_dropWhile (p := fun e : ν × κ => decide (e.2 ≤ d)) (l := l)]
  unfold without
  rw [List.filter_append, List.filter_append, List.filter_cons_of_neg (by simp)]

theorem insert_append_of_le {l' : List (ν × κ)} (h : ∀ e ∈ l, e.2 ≤ d) :
    insert n d (l ++ l') = l ++ insert n d l' := by
  unfold insert
  rw [List.takeWhile_append_of_pos fun e he => decide_eq_true (h e he),
    List.dropWhile_append_of_pos fun e he => decide_eq_true (h e he), List.append_assoc]

theorem insert_append_of_lt {l' : List (ν × κ)} (h : d < e.2) :
    insert n d (l ++ e :: l') = insert n d l ++ e :: l' := by
  induction l with
  | nil =>
      have hle : ¬ e.2 ≤ d := not_le_of_gt h
      simp [insert, hle]
  | cons x l ih =>
      by_cases hx : x.2 ≤ d
      · have hhead : ∀ m : List (ν × κ), insert n d (x :: m) = x :: insert n d m := fun m =>
          insert_append_of_le (l := [x]) fun e he => List.mem_singleton.mp he ▸ hx
        rw [List.cons_append, hhead, hhead, ih]
        rfl
      · simp [insert, hx]

/-- Of two parts of an agenda, an entry changes the first one only, or it goes behind
the first entry of the second. -/
theorem insert_append (l' : List (ν × κ)) (h : Ordered (l ++ l')) :
    insert n d (l ++ l') = insert n d l ++ l' ∨
      ∃ e m, l' = e :: m ∧ insert n d (l ++ l') = l ++ e :: insert n d m := by
  rcases l' with - | ⟨e, m⟩
  · left
    rw [List.append_nil, List.append_nil]
  · rcases lt_or_ge d e.2 with hlt | hle
    · exact .inl (insert_append_of_lt hlt)
    · refine .inr ⟨e, m, rfl, ?_⟩
      have hall : ∀ x ∈ l ++ [e], x.2 ≤ d := by
        intro x hx
        rcases List.mem_append.mp hx with hx | hx
        · exact ((List.pairwise_append.mp h).2.2 x hx e List.mem_cons_self).trans hle
        · exact List.mem_singleton.mp hx ▸ hle
      have hins : insert n d (l ++ [e] ++ m) = l ++ [e] ++ insert n d m := insert_append_of_le hall
      rwa [List.append_assoc, List.append_assoc] at hins

theorem insert_of_lt (h : ∀ e ∈ l, d < e.2) : insert n d l = (n, d) :: l := by
  unfold insert
  rcases l with - | ⟨e, l⟩
  · rfl
  · have hle : ¬ e.2 ≤ d := not_le_of_gt (h e List.mem_cons_self)
    rw [List.takeWhile_cons_of_neg (by simpa using hle),
      List.dropWhile_cons_of_neg (by simpa using hle)]
    rfl

/-- Some names on their own: the other entries do not matter to the place of one of
them. -/
theorem filter_insert_of_pos {p : ν → Bool} (h : Ordered l) (hp : p n = true) :
    (insert n d l).filter (fun e => p e.1) = insert n d (l.filter fun e => p e.1) := by
  induction l with
  | nil => exact List.filter_cons_of_pos hp
  | cons x l ih =>
      by_cases hx : x.2 ≤ d
      · have hhead : ∀ m : List (ν × κ), insert n d (x :: m) = x :: insert n d m := fun m =>
          insert_append_of_le (l := [x]) fun e he => List.mem_singleton.mp he ▸ hx
        rw [hhead, List.filter_cons, List.filter_cons, ih (List.pairwise_cons.mp h).2]
        split_ifs
        · exact (hhead _).symm
        · rfl
      · have hlt : ∀ e ∈ x :: l, d < e.2 := fun e he => h.lt (lt_of_not_ge hx) he
        rw [insert_of_lt hlt, insert_of_lt fun e he => hlt e (List.mem_filter.mp he).1]
        exact List.filter_cons_of_pos hp

theorem filter_insert_of_neg {p : ν → Bool} (hp : p n = false) :
    (insert n d l).filter (fun e => p e.1) = l.filter fun e => p e.1 := by
  conv_rhs => rw [← List.takeWhile_append_dropWhile (p := fun e : ν × κ => decide (e.2 ≤ d)) (l := l)]
  unfold insert
  rw [List.filter_append, List.filter_append,
    List.filter_cons_of_neg (by rw [hp]; exact Bool.false_ne_true)]

/-! ### Rounds -/

section Rounds

variable {plan : ν → Option ℕ} {a b : ν} {d now k : ℕ} {e : ν × ℕ} {l l' : List (ν × ℕ)}
  {ns : List ν}

/-- What is due, and what is not. -/
def due (now : ℕ) (l : List (ν × ℕ)) : List (ν × ℕ) := l.takeWhile fun e => e.2 ≤ now

def later (now : ℕ) (l : List (ν × ℕ)) : List (ν × ℕ) := l.dropWhile fun e => e.2 ≤ now

/-- A name that comes again is inserted again. -/
def renew (plan : ν → Option ℕ) (now : ℕ) (l : List (ν × ℕ)) (n : ν) : List (ν × ℕ) :=
  (plan n).elim l fun period => insert n (now + period) l

/-- One round. -/
def expire (plan : ν → Option ℕ) (now : ℕ) (l : List (ν × ℕ)) : List (ν × ℕ) :=
  (names (due now l)).foldl (renew plan now) (later now l)

/-- The agenda behind some rounds. -/
def rounds (plan : ν → Option ℕ) : ℕ → ℕ → List (ν × ℕ) → List (ν × ℕ)
  | _, 0, l => l
  | now, k + 1, l => rounds plan (now + 1) k (expire plan (now + 1) l)

/-- What they have taken. -/
def taken (plan : ν → Option ℕ) : ℕ → ℕ → List (ν × ℕ) → List ν
  | _, 0, _ => []
  | now, k + 1, l => names (due (now + 1) l) ++ taken plan (now + 1) k (expire plan (now + 1) l)

theorem rounds_add (k k' : ℕ) (l : List (ν × ℕ)) :
    rounds plan now (k + k') l = rounds plan (now + k) k' (rounds plan now k l) := by
  induction k generalizing now l with
  | zero =>
      rw [Nat.zero_add]
      rfl
  | succ k ih =>
      have hnow : now + (k + 1) = now + 1 + k := by omega
      rw [Nat.add_right_comm, hnow]
      show rounds plan (now + 1) (k + k') _ = rounds plan (now + 1 + k) k' (rounds plan (now + 1) k _)
      exact ih _

theorem taken_add (k k' : ℕ) (l : List (ν × ℕ)) :
    taken plan now (k + k') l =
      taken plan now k l ++ taken plan (now + k) k' (rounds plan now k l) := by
  induction k generalizing now l with
  | zero =>
      rw [Nat.zero_add]
      rfl
  | succ k ih =>
      have hnow : now + (k + 1) = now + 1 + k := by omega
      rw [Nat.add_right_comm, hnow]
      show names _ ++ taken plan (now + 1) (k + k') _ = (names _ ++ taken plan (now + 1) k _) ++
        taken plan (now + 1 + k) k' (rounds plan (now + 1) k _)
      rw [ih, List.append_assoc]

theorem due_append_later (now : ℕ) (l : List (ν × ℕ)) : due now l ++ later now l = l :=
  List.takeWhile_append_dropWhile

theorem ordered_renew (h : Ordered l) : Ordered (renew plan now l a) := by
  unfold renew
  rcases plan a with - | period
  · exact h
  · exact ordered_insert h

theorem ordered_foldl_renew (h : Ordered l) : Ordered (ns.foldl (renew plan now) l) := by
  induction ns generalizing l with
  | nil => exact h
  | cons n ns ih => exact ih (ordered_renew h)

theorem ordered_expire (h : Ordered l) : Ordered (expire plan now l) := by
  rw [← due_append_later now l] at h
  exact ordered_foldl_renew (List.pairwise_append.mp h).2.1

/-- What is renewed is not due at once. -/
theorem lt_of_mem_foldl_renew (hplan : ∀ n ∈ ns, ∀ period, plan n = some period → 0 < period)
    (h : ∀ e ∈ l, now < e.2) (he : e ∈ ns.foldl (renew plan now) l) : now < e.2 := by
  induction ns generalizing l with
  | nil => exact h e he
  | cons n ns ih =>
      refine ih (fun m hm => hplan m (List.mem_cons_of_mem n hm)) (fun x hx => ?_) he
      unfold renew at hx
      rcases hp : plan n with - | period <;> rw [hp] at hx
      · exact h x hx
      · have hpos := hplan n List.mem_cons_self period hp
        rcases mem_insert.mp hx with rfl | hx
        · exact Nat.lt_add_of_pos_right hpos
        · exact h x hx

/-- An entry that is taken is renewed behind all that are still to be taken. -/
theorem renew_append (h : ∀ e ∈ l, e.2 ≤ now) :
    renew plan now (l ++ l') a = l ++ renew plan now l' a := by
  unfold renew
  rcases plan a with - | period
  · rfl
  · exact insert_append_of_le fun e he => (h e he).trans (Nat.le_add_right _ _)

/-- `b` stands behind `a`, or not at all. -/
def Before (a b : ν) (l : List (ν × ℕ)) : Prop :=
  ∃ l₁ d l₂, l = l₁ ++ (a, d) :: l₂ ∧ b ∉ names l₁

theorem Before.insert {n : ν} (h : Before a b l) (hl : Ordered l) (hn : n ≠ b) (d : ℕ) :
    Before a b (Agenda.insert n d l) := by
  obtain ⟨l₁, da, l₂, rfl, hb⟩ := h
  rcases insert_append (n := n) (d := d) ((a, da) :: l₂) hl with heq | ⟨e, m, hem, heq⟩
  · refine ⟨Agenda.insert n d l₁, da, l₂, heq, ?_⟩
    rw [names_insert, List.mem_append, List.mem_cons]
    rw [names_cut d l₁, List.mem_append] at hb
    tauto
  · obtain ⟨rfl, rfl⟩ := List.cons.inj hem
    exact ⟨l₁, da, _, heq, hb⟩

theorem Before.foldl_renew (h : Before a b l) (hl : Ordered l) (hns : b ∉ ns) :
    Before a b (ns.foldl (renew plan now) l) := by
  induction ns generalizing l with
  | nil => exact h
  | cons n ns ih =>
      rw [List.mem_cons, not_or] at hns
      refine ih ?_ (ordered_renew hl) hns.2
      unfold renew
      rcases plan n with - | period
      · exact h
      · exact h.insert hl (Ne.symm hns.1) _

/-- **Order.**  The one behind is not taken in front of the other. -/
theorem Before.taken (h : Before a b l) (hl : Ordered l) {l₁ l₂ : List ν}
    (ht : taken plan now k l = l₁ ++ b :: l₂) (hab : a ≠ b) : a ∈ l₁ := by
  induction k generalizing now l l₁ with
  | zero => exact absurd ht.symm (by simp [Agenda.taken])
  | succ k ih =>
      obtain ⟨m₁, d, m₂, rfl, hb⟩ := h
      unfold Agenda.taken at ht
      by_cases hall : ∀ e ∈ m₁ ++ [(a, d)], e.2 ≤ now + 1
      · -- `a` is taken in this round, behind the ones in front of it
        have hdue : due (now + 1) (m₁ ++ (a, d) :: m₂) = m₁ ++ (a, d) :: due (now + 1) m₂ := by
          unfold due
          rw [List.append_cons, List.takeWhile_append_of_pos fun e he => decide_eq_true (hall e he)]
          simp
        rw [hdue] at ht
        have hnames : names (m₁ ++ (a, d) :: due (now + 1) m₂) =
            names m₁ ++ a :: names (due (now + 1) m₂) := List.map_append
        rw [hnames, List.append_assoc, List.cons_append] at ht
        rcases List.append_eq_append_iff.mp ht with ⟨c, rfl, hc⟩ | ⟨c, hc, hc'⟩
        · rcases c with - | ⟨x, c⟩
          · exact absurd (List.cons.inj hc).1 hab
          · obtain ⟨rfl, -⟩ := List.cons.inj hc
            simp
        · rcases c with - | ⟨x, c⟩
          · rw [List.nil_append] at hc'
            exact absurd (List.cons.inj hc').1.symm hab
          · obtain ⟨rfl, -⟩ := List.cons.inj hc'
            exact absurd (hc ▸ by simp) hb
      · have hda : now + 1 < d := by
          by_contra hle
          refine hall fun e he => ?_
          rcases List.mem_append.mp he with he | he
          · exact ((List.pairwise_append.mp hl).2.2 e he _ List.mem_cons_self).trans
              (Nat.le_of_not_lt hle)
          · exact List.mem_singleton.mp he ▸ Nat.le_of_not_lt hle
        have hdue : due (now + 1) (m₁ ++ (a, d) :: m₂) = due (now + 1) m₁ ∧
            later (now + 1) (m₁ ++ (a, d) :: m₂) = later (now + 1) m₁ ++ (a, d) :: m₂ := by
          have hneg : ¬ d ≤ now + 1 := not_le_of_gt hda
          unfold due later
          constructor
          · rw [List.takeWhile_append]
            split_ifs with hlen
            · rw [List.takeWhile_cons_of_neg (by simpa using hneg), List.append_nil]
              exact (List.IsPrefix.eq_of_length (List.takeWhile_prefix _) hlen).symm
            · rfl
          · rw [List.dropWhile_append]
            split_ifs with hlen
            · rw [List.dropWhile_cons_of_neg (by simpa using hneg),
                List.isEmpty_iff.mp hlen, List.nil_append]
            · rfl
        have hsub : ∀ e ∈ due (now + 1) m₁, e ∈ m₁ := fun e he => (List.takeWhile_prefix _).subset he
        have hb₁ : b ∉ names (due (now + 1) m₁) := fun hmem => by
          obtain ⟨e, he, rfl⟩ := List.mem_map.mp hmem
          exact hb (List.mem_map_of_mem (hsub e he))
        have hb₂ : b ∉ names (later (now + 1) m₁) := fun hmem => by
          obtain ⟨e, he, rfl⟩ := List.mem_map.mp hmem
          exact hb (List.mem_map_of_mem ((List.dropWhile_suffix _).subset he))
        have hrest : Before a b (expire plan (now + 1) (m₁ ++ (a, d) :: m₂)) := by
          have hlater : Ordered (later (now + 1) (m₁ ++ (a, d) :: m₂)) := by
            rw [← due_append_later (now + 1) (m₁ ++ (a, d) :: m₂)] at hl
            exact (List.pairwise_append.mp hl).2.1
          unfold expire
          rw [hdue.1]
          refine Before.foldl_renew ?_ hlater hb₁
          rw [hdue.2]
          exact ⟨_, d, m₂, rfl, hb₂⟩
        rw [hdue.1] at ht
        rcases List.append_eq_append_iff.mp ht with ⟨c, rfl, hc⟩ | ⟨c, hc, hc'⟩
        · exact List.mem_append_right _ (ih hrest (ordered_expire hl) hc)
        · rcases c with - | ⟨x, c⟩
          · rw [List.nil_append] at hc'
            have hnil : a ∈ ([] : List ν) := ih hrest (ordered_expire hl) hc'.symm
            cases hnil
          · obtain ⟨rfl, -⟩ := List.cons.inj hc'
            exact absurd (hc ▸ by simp) hb₁

end Rounds

end Agenda
