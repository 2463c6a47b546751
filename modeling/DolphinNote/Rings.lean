/-
DolphinNote/Rings.lean

Circular lists linked both ways, threaded through the elements themselves.

A node is the head of a list or an element, and `Links` says what stands behind
and in front of each node.  `Holds L lists` reads the links as a family of
lists: at every cut of a list the two nodes beside the cut point at each other,
no element is in two lists or twice in one, and an element in no list points at
itself.

The operations change four links at most.  `Holds.insertBefore`,
`Holds.insertAfter` and `Holds.remove` say which lists they leave behind, and
`Holds.next_head`, `Holds.next_item` and `Holds.prev_head` what a walk along
the links meets.
-/
import Mathlib.Tactic

namespace Rings

variable {η ν : Type*}

/-- The head of a list, or an element. -/
inductive Node (η ν : Type*)
  | head (h : η)
  | item (n : ν)
  deriving DecidableEq, Repr

/-- What stands behind each node, and what in front of it. -/
structure Links (η ν : Type*) where
  next : Node η ν → Node η ν
  prev : Node η ν → Node η ν

/-- Every node by itself. -/
def Links.empty : Links η ν where
  next := id
  prev := id

/-- The two nodes beside a cut point at each other. -/
def Links.Joined (L : Links η ν) (a b : Node η ν) : Prop := L.next a = b ∧ L.prev b = a

/-- The first node of a list from some place on: the head, behind its end. -/
def first (h : η) (l : List ν) : Node η ν := l.head?.elim (.head h) .item

/-- The last node of a list up to some place: the head, in front of its begin. -/
def last (h : η) (l : List ν) : Node η ν := l.getLast?.elim (.head h) .item

@[simp] theorem first_nil (h : η) : first h ([] : List ν) = .head h := rfl

@[simp] theorem first_cons (h : η) (n : ν) (l : List ν) : first h (n :: l) = .item n := rfl

@[simp] theorem last_nil (h : η) : last h ([] : List ν) = .head h := rfl

@[simp] theorem last_concat (h : η) (l : List ν) (n : ν) : last h (l ++ [n]) = .item n := by
  simp [last]

@[simp] theorem last_append_cons (h : η) (l l' : List ν) (n : ν) :
    last h (l ++ n :: l') = last h (n :: l') := by
  simp only [last, List.getLast?_append_cons]

/-- A last node is the head or an element of the list. -/
theorem last_cases (h : η) (l : List ν) : last h l = .head h ∨ ∃ n ∈ l, last h l = .item n := by
  rcases l.eq_nil_or_concat' with rfl | ⟨l', n, rfl⟩
  · exact .inl rfl
  · exact .inr ⟨n, by simp, last_concat h l' n⟩

theorem first_cases (h : η) (l : List ν) : first h l = .head h ∨ ∃ n ∈ l, first h l = .item n := by
  rcases l with - | ⟨n, l⟩
  · exact .inl rfl
  · exact .inr ⟨n, List.mem_cons_self, rfl⟩

/-- The links are those of the lists. -/
structure Links.Holds (L : Links η ν) (lists : η → List ν) : Prop where
  joined : ∀ h l₁ l₂, lists h = l₁ ++ l₂ → L.Joined (last h l₁) (first h l₂)
  nodup : ∀ h, (lists h).Nodup
  disjoint : ∀ h h', h ≠ h' → (lists h).Disjoint (lists h')
  alone : ∀ n, (∀ h, n ∉ lists h) → L.Joined (.item n) (.item n)

theorem Links.holds_empty : (Links.empty : Links η ν).Holds fun _ => [] where
  joined h l₁ l₂ he := by
    obtain ⟨rfl, rfl⟩ := List.append_eq_nil_iff.mp he.symm
    exact ⟨rfl, rfl⟩
  nodup _ := List.nodup_nil
  disjoint _ _ _ := List.disjoint_nil_left _
  alone _ _ := ⟨rfl, rfl⟩

/-! ### Walking along the links -/

section Walk

variable {L : Links η ν} {lists : η → List ν} {h h' : η} {n : ν} {l₁ l₂ : List ν}

theorem Links.Holds.next_head (H : L.Holds lists) (h : η) :
    L.next (.head h) = first h (lists h) :=
  (H.joined h [] (lists h) rfl).1

theorem Links.Holds.prev_head (H : L.Holds lists) (h : η) :
    L.prev (.head h) = last h (lists h) :=
  (H.joined h (lists h) [] (List.append_nil _).symm).2

theorem Links.Holds.next_item (H : L.Holds lists) (hl : lists h = l₁ ++ n :: l₂) :
    L.next (.item n) = first h l₂ := by
  have hj := H.joined h (l₁ ++ [n]) l₂ (by rw [hl, List.append_assoc]; rfl)
  rw [last_concat] at hj
  exact hj.1

/-- The walk has come to the end of a list exactly behind all of its elements. -/
theorem Links.Holds.last_eq_prev_head (H : L.Holds lists) (hl : lists h = l₁ ++ l₂) :
    last h l₁ = L.prev (.head h) ↔ l₂ = [] := by
  rw [H.prev_head, hl]
  constructor
  · intro he
    rcases l₂.eq_nil_or_concat' with rfl | ⟨l, m, rfl⟩
    · rfl
    · rw [← List.append_assoc, last_concat] at he
      have hnodup := hl ▸ H.nodup h
      rcases last_cases h l₁ with hlast | ⟨n, hn, hlast⟩
      · rw [hlast] at he
        cases he
      · rw [hlast] at he
        obtain rfl := Node.item.inj he
        exact absurd (by simp : n ∈ l ++ [n]) ((List.nodup_append'.mp hnodup).2.2 hn)
  · rintro rfl
    rw [List.append_nil]

/-- An element is in at most one list. -/
theorem Links.Holds.head_unique (H : L.Holds lists) (hn : n ∈ lists h) (hn' : n ∈ lists h') :
    h = h' := by
  by_contra hne
  exact H.disjoint h h' hne hn hn'

/-- The lists are determined by their links. -/
theorem Links.Holds.next_eq_head_iff (H : L.Holds lists) (h : η) :
    L.next (.head h) = .head h ↔ lists h = [] := by
  rw [H.next_head]
  rcases lists h with - | ⟨n, l⟩
  · exact iff_of_true rfl rfl
  · exact iff_of_false (fun he => nomatch he) (List.cons_ne_nil n l)

variable {a b x y : Node η ν}

/-- Two joints with one node in common are the same. -/
theorem Links.Joined.ne_right (hj : L.Joined x y) (hj' : L.Joined a b) (hx : x ≠ a) : y ≠ b := by
  rintro rfl
  exact hx (hj.2.symm.trans hj'.2)

theorem Links.Joined.ne_left (hj : L.Joined x y) (hj' : L.Joined a b) (hy : y ≠ b) : x ≠ a := by
  rintro rfl
  exact hy (hj.1.symm.trans hj'.1)

/-- The nodes beside a cut, told apart from the elements on its other side. -/
theorem last_ne_item (hn : n ∉ l₁) : last h l₁ ≠ .item n := by
  rcases last_cases h l₁ with hl | ⟨m, hm, hl⟩
  · rw [hl]
    exact fun he => nomatch he
  · rw [hl]
    rintro he
    obtain rfl := Node.item.inj he
    exact hn hm

theorem first_ne_item (hn : n ∉ l₁) : first h l₁ ≠ .item n := by
  rcases first_cases h l₁ with hl | ⟨m, hm, hl⟩
  · rw [hl]
    exact fun he => nomatch he
  · rw [hl]
    rintro he
    obtain rfl := Node.item.inj he
    exact hn hm

/-- The last node up to a cut is none of the nodes of another list. -/
theorem last_ne_last {h' : η} {l : List ν} (hne : h ≠ h') (hd : l₁.Disjoint l) :
    last h l₁ ≠ last h' l := by
  rcases last_cases h' l with hl | ⟨m, hm, hl⟩
  · rw [hl]
    rcases last_cases h l₁ with hl₁ | ⟨k, hk, hl₁⟩
    · rw [hl₁]
      exact fun he => hne (Node.head.inj he)
    · rw [hl₁]
      exact fun he => nomatch he
  · rw [hl]
    exact last_ne_item fun hm₁ => hd hm₁ hm

end Walk

/-! ### Operations -/

variable [DecidableEq η] [DecidableEq ν]

/-- Links `a` to `b`. -/
def Links.join (a b : Node η ν) (L : Links η ν) : Links η ν where
  next := Function.update L.next a b
  prev := Function.update L.prev b a

/-- `n` goes behind `l`. -/
def Links.insertAfter (l n : Node η ν) (L : Links η ν) : Links η ν :=
  (L.join n (L.next l)).join l n

/-- `n` goes in front of `l`. -/
def Links.insertBefore (l n : Node η ν) (L : Links η ν) : Links η ν :=
  (L.join (L.prev l) n).join n l

/-- Takes `n` out, and leaves it by itself. -/
def Links.remove (n : Node η ν) (L : Links η ν) : Links η ν :=
  (L.join (L.prev n) (L.next n)).join n n

section Laws

variable {L : Links η ν} {lists : η → List ν} {h : η} {n : ν} {l₁ l₂ : List ν}
  {a b x y : Node η ν}

theorem Links.Joined.join (hj : L.Joined x y) (hx : x ≠ a) (hy : y ≠ b) :
    (L.join a b).Joined x y :=
  ⟨(Function.update_of_ne hx _ _).trans hj.1, (Function.update_of_ne hy _ _).trans hj.2⟩

theorem Links.joined_join : (L.join a b).Joined a b :=
  ⟨Function.update_self _ _ _, Function.update_self _ _ _⟩

theorem Links.insertAfter_eq (hj : L.Joined a b) (n : Node η ν) (ha : a ≠ n) (hb : b ≠ n) :
    L.insertAfter a n = L.insertBefore b n := by
  unfold Links.insertAfter Links.insertBefore Links.join
  rw [hj.1, hj.2]
  congr 1
  · exact Function.update_comm ha.symm _ _ _
  · exact Function.update_comm hb _ _ _

/-- **Insertion.**  An element of no list goes between the nodes beside a cut. -/
theorem Links.Holds.insertBefore (H : L.Holds lists) (hl : lists h = l₁ ++ l₂)
    (hn : ∀ h, n ∉ lists h) :
    (L.insertBefore (first h l₂) (.item n)).Holds
      (Function.update lists h (l₁ ++ n :: l₂)) := by
  have hcut := H.joined h l₁ l₂ hl
  have hnodup := List.nodup_append'.mp (hl ▸ H.nodup h)
  have hn' : n ∉ l₁ ∧ n ∉ l₂ := by
    have hh := hn h
    rw [hl, List.mem_append, not_or] at hh
    exact hh
  -- a joint of the old lists that is not the one cut stays
  have hkeep : ∀ {x y}, L.Joined x y → x ≠ last h l₁ → x ≠ .item n → y ≠ .item n →
      (L.insertBefore (first h l₂) (.item n)).Joined x y := by
    intro x y hj hx hxn hyn
    unfold Links.insertBefore
    rw [hcut.2]
    exact (hj.join hx hyn).join hxn (hj.ne_right hcut hx)
  have hleft : (L.insertBefore (first h l₂) (.item n)).Joined (last h l₁) (.item n) := by
    unfold Links.insertBefore
    rw [hcut.2]
    exact joined_join.join (last_ne_item hn'.1) (first_ne_item hn'.2).symm
  have hright : (L.insertBefore (first h l₂) (.item n)).Joined (.item n) (first h l₂) :=
    joined_join
  refine ⟨fun k m₁ m₂ hk => ?_, fun k => ?_, fun k k' hne => ?_, fun m hm => ?_⟩
  · rcases eq_or_ne k h with rfl | hne
    · rw [Function.update_self] at hk
      rcases List.append_eq_append_iff.mp hk with ⟨c, rfl, hc⟩ | ⟨c, rfl, rfl⟩
      · -- the cut is behind `n`
        rcases c with - | ⟨m, c⟩
        · obtain rfl : m₂ = n :: l₂ := hc.symm
          rw [List.append_nil]
          exact hleft
        · obtain ⟨rfl, hl₂⟩ := List.cons.inj hc
          obtain rfl : l₂ = c ++ m₂ := hl₂
          rw [last_append_cons]
          rcases c.eq_nil_or_concat' with rfl | ⟨c, m, rfl⟩
          · exact hright
          · have hj := H.joined k (l₁ ++ (c ++ [m])) m₂ (by rw [hl, List.append_assoc l₁])
            rw [← List.append_assoc, last_concat] at hj
            rw [← List.cons_append, last_concat]
            have hm : m ∉ l₁ := fun hm => hnodup.2.2 hm (by simp)
            refine hkeep hj (last_ne_item hm).symm ?_ (first_ne_item fun hm => hn'.2 (by simp [hm]))
            rintro he
            obtain rfl := Node.item.inj he
            exact hn'.2 (by simp)
      · -- the cut is in front of `n`
        rcases c with - | ⟨m, c⟩
        · rw [List.append_nil] at hleft
          exact hleft
        · have hj := H.joined k m₁ (m :: c ++ l₂) (by rw [hl, List.append_assoc])
          refine hkeep hj (hj.ne_left hcut ?_) (last_ne_item fun hm => hn'.1 (by simp [hm])) ?_
          · rw [List.cons_append, first_cons]
            exact (first_ne_item fun hm => hnodup.2.2 (by simp) hm).symm
          · rw [List.cons_append, first_cons]
            rintro he
            obtain rfl := Node.item.inj he
            exact hn'.1 (by simp)
    · rw [Function.update_of_ne hne] at hk
      have hd := H.disjoint k h hne
      rw [hk, hl, List.disjoint_append_left, List.disjoint_append_right] at hd
      have hnk := hn k
      rw [hk, List.mem_append, not_or] at hnk
      exact hkeep (H.joined k m₁ m₂ hk) (last_ne_last hne hd.1.1) (last_ne_item hnk.1)
        (first_ne_item hnk.2)
  · rcases eq_or_ne k h with rfl | hne
    · rw [Function.update_self]
      exact List.nodup_middle.mpr (List.nodup_cons.mpr ⟨hl ▸ hn k, hl ▸ H.nodup k⟩)
    · rw [Function.update_of_ne hne]
      exact H.nodup k
  · have hd : ∀ j, j ≠ h → (l₁ ++ n :: l₂).Disjoint (lists j) := by
      intro j hj
      have hjd := H.disjoint h j hj.symm
      rw [hl] at hjd
      intro m hm hmj
      rcases List.mem_append.mp hm with hm | hm
      · exact hjd (List.mem_append_left _ hm) hmj
      · rcases List.mem_cons.mp hm with rfl | hm
        · exact hn j hmj
        · exact hjd (List.mem_append_right _ hm) hmj
    rcases eq_or_ne k h with rfl | hk
    · rw [Function.update_self, Function.update_of_ne hne.symm]
      exact hd k' hne.symm
    · rw [Function.update_of_ne hk]
      rcases eq_or_ne k' h with rfl | hk'
      · rw [Function.update_self]
        exact (hd k hk).symm
      · rw [Function.update_of_ne hk']
        exact H.disjoint k k' hne
  · have hmh := hm h
    rw [Function.update_self, List.mem_append, List.mem_cons, not_or, not_or] at hmh
    have hold : ∀ k, m ∉ lists k := by
      intro k
      rcases eq_or_ne k h with rfl | hk
      · rw [hl, List.mem_append, not_or]
        exact ⟨hmh.1, hmh.2.2⟩
      · have hmk := hm k
        rwa [Function.update_of_ne hk] at hmk
    have hmn : Node.item (η := η) m ≠ .item n := fun he => hmh.2.1 (Node.item.inj he)
    exact hkeep (H.alone m hold) (last_ne_item hmh.1).symm hmn hmn

/-- The same with the node in front of the cut. -/
theorem Links.Holds.insertAfter (H : L.Holds lists) (hl : lists h = l₁ ++ l₂)
    (hn : ∀ h, n ∉ lists h) :
    (L.insertAfter (last h l₁) (.item n)).Holds (Function.update lists h (l₁ ++ n :: l₂)) := by
  have hnh := hn h
  rw [hl, List.mem_append, not_or] at hnh
  rw [insertAfter_eq (H.joined h l₁ l₂ hl) _ (last_ne_item hnh.1) (first_ne_item hnh.2)]
  exact H.insertBefore hl hn

theorem Links.Joined.join_self (hj : L.Joined a b) : L.join a b = L := by
  unfold Links.join
  congr 1
  · exact Function.update_eq_self_iff.mpr hj.1.symm
  · exact Function.update_eq_self_iff.mpr hj.2.symm

/-- An element of no list is taken out without any change. -/
theorem Links.Holds.remove_alone (H : L.Holds lists) (hn : ∀ h, n ∉ lists h) :
    L.remove (.item n) = L := by
  have hj := H.alone n hn
  unfold Links.remove
  rw [hj.1, hj.2, hj.join_self, hj.join_self]

/-- **Removal.**  The two nodes beside the element are joined. -/
theorem Links.Holds.remove_mem (H : L.Holds lists) (hl : lists h = l₁ ++ n :: l₂) :
    (L.remove (.item n)).Holds (Function.update lists h (l₁ ++ l₂)) := by
  have hnodup := hl ▸ H.nodup h
  obtain ⟨hn, hl₁₂⟩ := List.nodup_cons.mp (List.nodup_middle.mp hnodup)
  rw [List.mem_append, not_or] at hn
  have hd := (List.nodup_append'.mp hl₁₂).2.2
  have hleft : L.Joined (last h l₁) (.item n) := H.joined h l₁ (n :: l₂) hl
  have hright : L.Joined (.item n) (first h l₂) :=
    ⟨H.next_item hl, by
      have hj := H.joined h (l₁ ++ [n]) l₂ (by rw [hl, List.append_assoc]; rfl)
      rw [last_concat] at hj
      exact hj.2⟩
  have hkeep : ∀ {x y}, L.Joined x y → x ≠ last h l₁ → x ≠ .item n → y ≠ first h l₂ →
      y ≠ .item n → (L.remove (.item n)).Joined x y := by
    intro x y hj hx hxn hy hyn
    unfold Links.remove
    rw [hleft.2, hright.1]
    exact (hj.join hx hy).join hxn hyn
  have hcut : (L.remove (.item n)).Joined (last h l₁) (first h l₂) := by
    unfold Links.remove
    rw [hleft.2, hright.1]
    exact joined_join.join (last_ne_item hn.1) (first_ne_item hn.2)
  refine ⟨fun k m₁ m₂ hk => ?_, fun k => ?_, fun k k' hne => ?_, fun m hm => ?_⟩
  · rcases eq_or_ne k h with rfl | hne
    · rw [Function.update_self] at hk
      rcases List.append_eq_append_iff.mp hk with ⟨c, rfl, rfl⟩ | ⟨c, rfl, rfl⟩
      · -- the cut is behind `n`
        rcases c.eq_nil_or_concat' with rfl | ⟨c, m, rfl⟩
        · rw [List.append_nil]
          exact hcut
        · have hj := H.joined k (l₁ ++ n :: (c ++ [m])) m₂ (by rw [hl]; simp)
          rw [last_append_cons, ← List.cons_append, last_concat] at hj
          rw [← List.append_assoc, last_concat]
          have hm : m ∉ l₁ := fun hm => hd hm (by simp)
          have hx : Node.item m ≠ Node.item (η := η) n := by
            rintro he
            obtain rfl := Node.item.inj he
            exact hn.2 (by simp)
          exact hkeep hj (last_ne_item hm).symm hx (hj.ne_right hright hx)
            (first_ne_item fun hm => hn.2 (by simp [hm]))
      · -- the cut is in front of `n`
        rcases c with - | ⟨m, c⟩
        · rw [List.append_nil] at hcut
          exact hcut
        · have hj := H.joined k m₁ (m :: c ++ n :: l₂) (by rw [hl, List.append_assoc])
          rw [List.cons_append, first_cons] at hj ⊢
          have hm : m ∉ l₂ := fun hm => hd (by simp) hm
          have hy : Node.item m ≠ Node.item (η := η) n := by
            rintro he
            obtain rfl := Node.item.inj he
            exact hn.1 (by simp)
          exact hkeep hj (hj.ne_left hleft hy) (last_ne_item fun hm => hn.1 (by simp [hm]))
            (first_ne_item hm).symm hy
    · rw [Function.update_of_ne hne] at hk
      have hdk := H.disjoint k h hne
      rw [hk, hl, List.disjoint_append_left, List.disjoint_append_right] at hdk
      have hnk : n ∉ m₁ ∧ n ∉ m₂ :=
        ⟨fun hm => hdk.1.2 hm List.mem_cons_self, fun hm => hdk.2 hm (by simp)⟩
      have hj := H.joined k m₁ m₂ hk
      exact hkeep hj (last_ne_last hne hdk.1.1) (last_ne_item hnk.1)
        (hj.ne_right hright (last_ne_item hnk.1)) (first_ne_item hnk.2)
  · rcases eq_or_ne k h with rfl | hne
    · rw [Function.update_self]
      exact hl₁₂
    · rw [Function.update_of_ne hne]
      exact H.nodup k
  · have hsub : ∀ j, Function.update lists h (l₁ ++ l₂) j ⊆ lists j := by
      intro j m hm
      rcases eq_or_ne j h with rfl | hj
      · rw [Function.update_self] at hm
        rw [hl]
        exact List.mem_append.mpr ((List.mem_append.mp hm).imp_right (List.mem_cons_of_mem n))
      · rwa [Function.update_of_ne hj] at hm
    exact fun m hm hm' => H.disjoint k k' hne (hsub k hm) (hsub k' hm')
  · rcases eq_or_ne m n with rfl | hmn
    · exact joined_join
    · have hold : ∀ k, m ∉ lists k := by
        intro k
        have hmk := hm k
        rcases eq_or_ne k h with rfl | hk
        · rw [Function.update_self, List.mem_append, not_or] at hmk
          rw [hl, List.mem_append, List.mem_cons, not_or, not_or]
          exact ⟨hmk.1, hmn, hmk.2⟩
        · rwa [Function.update_of_ne hk] at hmk
      have hmh := hm h
      rw [Function.update_self, List.mem_append, not_or] at hmh
      have hne : Node.item (η := η) m ≠ .item n := fun he => hmn (Node.item.inj he)
      exact hkeep (H.alone m hold) (last_ne_item hmh.1).symm hne (first_ne_item hmh.2).symm hne

/-- Wherever the element is, it is in no list afterwards, and the others keep their
order. -/
theorem Links.Holds.remove (H : L.Holds lists) (n : ν) :
    (L.remove (.item n)).Holds fun h => (lists h).erase n := by
  by_cases hn : ∃ h, n ∈ lists h
  · obtain ⟨h, hn⟩ := hn
    obtain ⟨l₁, l₂, hl⟩ := List.append_of_mem hn
    have hnodup := hl ▸ H.nodup h
    have hn₁ : n ∉ l₁ := fun hm => (List.nodup_append'.mp hnodup).2.2 hm List.mem_cons_self
    have hlists : (fun k => (lists k).erase n) = Function.update lists h (l₁ ++ l₂) := by
      funext k
      rcases eq_or_ne k h with rfl | hk
      · rw [Function.update_self, hl, List.erase_append_right _ hn₁, List.erase_cons_head]
      · rw [Function.update_of_ne hk]
        exact List.erase_of_not_mem fun hm => hk (H.head_unique hm hn)
    rw [hlists]
    exact H.remove_mem hl
  · have hn : ∀ h, n ∉ lists h := fun h hm => hn ⟨h, hm⟩
    have hlists : (fun k => (lists k).erase n) = lists := by
      funext k
      exact List.erase_of_not_mem (hn k)
    rw [H.remove_alone hn, hlists]
    exact H

end Laws

end Rings
