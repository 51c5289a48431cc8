import Mathlib.Algebra.Group.End
import Mathlib.Data.List.GetD
import Mathlib.Data.List.Nodup
import Mathlib.Logic.Function.Basic

namespace Pugputer

/-! Heap sort in place, of the elements 0 to n - 1 of an array. -/

section Heapsort

variable {α : Type} (lt : α → α → Bool)

def swap (a : Nat → α) (i j : Nat) : Nat → α :=
  Function.update (Function.update a i (a j)) j (a i)

theorem swap_left {a : Nat → α} {i j : Nat} (other : i ≠ j) : swap a i j i = a j := by
  rw [swap, Function.update_of_ne other, Function.update_self]

theorem swap_right {a : Nat → α} {i j : Nat} : swap a i j j = a i := by
  rw [swap, Function.update_self]

theorem swap_other {a : Nat → α} {i j k : Nat} (left : k ≠ i) (right : k ≠ j) :
    swap a i j k = a k := by
  rw [swap, Function.update_of_ne right, Function.update_of_ne left]

/-- The larger child of `j`, whose left one is in the heap. -/
def child (n : Nat) (a : Nat → α) (j : Nat) : Nat :=
  if 2 * j + 2 < n ∧ lt (a (2 * j + 1)) (a (2 * j + 2)) then 2 * j + 2 else 2 * j + 1

def IsChild (c i : Nat) : Prop := c = 2 * i + 1 ∨ c = 2 * i + 2

theorem child_is {n : Nat} (a : Nat → α) {j : Nat} (inner : 2 * j + 1 < n) :
    IsChild (child lt n a j) j ∧ child lt n a j < n := by
  rw [child]
  split
  · next right => exact ⟨.inr rfl, right.1⟩
  · exact ⟨.inl rfl, inner⟩

def siftdown (n : Nat) (a : Nat → α) (j : Nat) : Nat → α :=
  if n ≤ 2 * j + 1 then a
  else
    let k := child lt n a j
    if lt (a j) (a k) then siftdown n (swap a j k) k else a
termination_by n - j
decreasing_by
  next leaf _ =>
    have is := child_is lt a (Nat.lt_of_not_le leaf)
    rcases is.1 with equal | equal <;> omega

/-- Down from n/2 - 1. -/
def build (n : Nat) : Nat → (Nat → α) → Nat → α
  | 0, a => a
  | i + 1, a => build n i (siftdown lt n a i)

/-- The largest to the end, then the rest. -/
def takeout : Nat → (Nat → α) → Nat → α
  | 0, a => a
  | k + 1, a => if k = 0 then a else takeout k (siftdown lt k (swap a 0 k) 0)

def heapsort (n : Nat) (a : Nat → α) : Nat → α :=
  takeout lt n (build lt n (n / 2) a)

/-! The same elements, in another order. -/

variable {lt}

def Rearranged (n : Nat) (a a' : Nat → α) : Prop :=
  ∃ σ : Equiv.Perm Nat, (∀ i, n ≤ i → σ i = i) ∧ ∀ i, a' i = a (σ i)

namespace Rearranged

variable {n : Nat} {a a' a'' : Nat → α}

theorem refl : Rearranged n a a := ⟨1, fun _ _ => rfl, fun _ => rfl⟩

theorem trans (first : Rearranged n a a') (second : Rearranged n a' a'') : Rearranged n a a'' := by
  obtain ⟨σ, fixed, moved⟩ := first
  obtain ⟨τ, fixed', moved'⟩ := second
  refine ⟨σ * τ, fun i out => ?_, fun i => ?_⟩
  · rw [Equiv.Perm.mul_apply, fixed' i out, fixed i out]
  · rw [moved', moved, Equiv.Perm.mul_apply]

theorem mono {m : Nat} (rearranged : Rearranged m a a') (le : m ≤ n) : Rearranged n a a' := by
  obtain ⟨σ, fixed, moved⟩ := rearranged
  exact ⟨σ, fun i out => fixed i (le.trans out), moved⟩

theorem swapped {i j : Nat} (low : i < n) (low' : j < n) : Rearranged n a (swap a i j) := by
  refine ⟨Equiv.swap i j, fun k out => Equiv.swap_apply_of_ne_of_ne (by omega) (by omega), fun k => ?_⟩
  rw [swap]
  by_cases right : k = j
  · rw [right, Function.update_self, Equiv.swap_apply_right]
  · rw [Function.update_of_ne right]
    by_cases left : k = i
    · rw [left, Function.update_self, Equiv.swap_apply_left]
    · rw [Function.update_of_ne left, Equiv.swap_apply_of_ne_of_ne left right]

theorem stays {σ : Equiv.Perm Nat} (fixed : ∀ i, n ≤ i → σ i = i) {i : Nat} (low : i < n) :
    σ i < n := by
  by_contra out
  have same := σ.injective (fixed (σ i) (Nat.le_of_not_lt out))
  rw [same] at out
  exact out low

/-- Each element comes from one of the same part. -/
theorem from_ (rearranged : Rearranged n a a') (i : Nat) :
    ∃ i', a' i = a i' ∧ (i < n → i' < n) ∧ (n ≤ i → i' = i) := by
  obtain ⟨σ, fixed, moved⟩ := rearranged
  exact ⟨σ i, moved i, stays fixed, fixed i⟩

theorem all {S : α → Prop} (rearranged : Rearranged n a a') (within : ∀ i, i < n → S (a i)) :
    ∀ i, i < n → S (a' i) := by
  intro i low
  obtain ⟨i', same, low', -⟩ := rearranged.from_ i
  rw [same]
  exact within i' (low' low)

/-- As lists. -/
theorem perm (rearranged : Rearranged n a a') :
    ((List.range n).map a').Perm ((List.range n).map a) := by
  obtain ⟨σ, fixed, moved⟩ := rearranged
  have same : (List.range n).map a' = ((List.range n).map σ).map a := by
    rw [List.map_map]
    exact List.map_congr_left fun i _ => moved i
  rw [same]
  refine List.Perm.map a ?_
  have unique : ((List.range n).map σ).Nodup :=
    (List.nodup_map_iff σ.injective).mpr List.nodup_range
  refine (List.perm_ext_iff_of_nodup unique List.nodup_range).mpr fun i => ?_
  rw [List.mem_map, List.mem_range]
  constructor
  · rintro ⟨j, low, rfl⟩
    exact stays fixed (List.mem_range.mp low)
  · intro low
    have back : σ (σ.symm i) = i := σ.apply_symm_apply i
    refine ⟨σ.symm i, List.mem_range.mpr ?_, back⟩
    by_contra out
    rw [fixed _ (Nat.le_of_not_lt out)] at back
    rw [back] at out
    exact out low

end Rearranged

theorem siftdown_rearranged (n : Nat) (a : Nat → α) (j : Nat) :
    Rearranged n a (siftdown lt n a j) := by
  induction a, j using siftdown.induct lt n with
  | case1 a j leaf =>
      rw [siftdown, if_pos leaf]
      exact .refl
  | case2 a j inner k less ih =>
      rw [siftdown, if_neg inner]
      have is := child_is lt a (Nat.lt_of_not_le inner)
      exact (if_pos less).symm ▸ (Rearranged.swapped (by omega) is.2).trans ih
  | case3 a j inner k least =>
      rw [siftdown, if_neg inner]
      exact (if_neg least).symm ▸ .refl

theorem build_rearranged (n i : Nat) (a : Nat → α) : Rearranged n a (build lt n i a) := by
  induction i generalizing a with
  | zero => exact .refl
  | succ i ih => exact (siftdown_rearranged n a i).trans (ih _)

theorem takeout_rearranged (m : Nat) (a : Nat → α) : Rearranged m a (takeout lt m a) := by
  induction m generalizing a with
  | zero => exact .refl
  | succ k ih =>
      rw [takeout]
      split
      · exact .refl
      · exact (Rearranged.swapped (Nat.succ_pos k) (Nat.lt_succ_self k)).trans
          (((siftdown_rearranged k _ 0).trans (ih _)).mono (Nat.le_succ k))

theorem heapsort_rearranged (n : Nat) (a : Nat → α) : Rearranged n a (heapsort lt n a) :=
  (build_rearranged n (n / 2) a).trans (takeout_rearranged n _)

/-! With a strict weak order, each pass keeps a heap. -/

structure StrictWeak (lt : α → α → Bool) (S : α → Prop) : Prop where
  asymm : ∀ x y, S x → S y → lt x y = true → ¬lt y x = true
  weak : ∀ x y z, S x → S y → S z → lt x z = true → lt x y = true ∨ lt y z = true

variable {S : α → Prop} {n lo : Nat} {a : Nat → α}

theorem StrictWeak.trans (order : StrictWeak lt S) {x y z : α} (sx : S x) (sy : S y) (sz : S z)
    (first : ¬lt x y = true) (second : ¬lt y z = true) : ¬lt x z = true :=
  fun less => (order.weak x y z sx sy sz less).elim first second

/-- No element from `lo` on is less than a child, but for those of `hole`. -/
def Heaped (lt : α → α → Bool) (n lo : Nat) (hole : Option Nat) (a : Nat → α) : Prop :=
  ∀ i c, lo ≤ i → some i ≠ hole → IsChild c i → c < n → ¬lt (a i) (a c) = true

theorem child_largest (order : StrictWeak lt S) (within : ∀ i, i < n → S (a i)) {j c : Nat}
    (is : IsChild c j) (low : c < n) : ¬lt (a (child lt n a j)) (a c) = true := by
  have irrefl : ∀ i, i < n → ¬lt (a i) (a i) = true := fun i low less =>
    order.asymm _ _ (within i low) (within i low) less less
  rw [child]
  split
  · next right =>
      rcases is with rfl | rfl
      · exact order.asymm _ _ (within _ low) (within _ right.1) right.2
      · exact irrefl _ low
  · next left =>
      rcases is with rfl | rfl
      · exact irrefl _ low
      · exact fun less => left ⟨low, less⟩

/-- A swap with the larger child leaves nothing less than a child but for that one's. -/
theorem swap_heaped (order : StrictWeak lt S) {j k : Nat} (within : ∀ i, i < n → S (a i))
    (above : lo ≤ j) (heaped : Heaped lt n lo (some j) a) (is : IsChild k j) (inside : k < n)
    (less : lt (a j) (a k) = true) (largest : ∀ c, IsChild c j → c < n → ¬lt (a k) (a c) = true)
    (bridge : ∀ i c, lo ≤ i → IsChild j i → IsChild c j → c < n → ¬lt (a i) (a c) = true) :
    Heaped lt n lo (some k) (swap a j k) ∧
      ∀ i c, lo ≤ i → IsChild k i → IsChild c k → c < n →
        ¬lt (swap a j k i) (swap a j k c) = true := by
  have after : j < k := by rcases is with rfl | rfl <;> omega
  have ne : j ≠ k := Nat.ne_of_lt after
  refine ⟨fun i c high apart child low => ?_, fun i c high child grand low => ?_⟩
  · have apart : i ≠ k := fun same => apart (congrArg some same)
    have down : i < c := by rcases child with rfl | rfl <;> omega
    by_cases here : i = j
    · subst here
      rw [swap_left ne]
      by_cases same : c = k
      · rw [same, swap_right]
        exact order.asymm _ _ (within i (by omega)) (within k inside) less
      · rw [swap_other (by omega) same]
        exact largest c child low
    · have old := heaped i c high (fun same => here (Option.some.inj same)) child low
      rw [swap_other here apart]
      by_cases same : c = j
      · rw [same, swap_left ne]
        exact bridge i k high (same ▸ child) is inside
      · have other : c ≠ k := fun equal => here (by
          subst equal
          rcases child with one | one <;> rcases is with two | two <;> omega)
        rw [swap_other same other]
        exact old
  · have parent : i = j := by
      rcases child with one | one <;> rcases is with two | two <;> omega
    have below : k < c := by rcases grand with rfl | rfl <;> omega
    rw [parent, swap_left ne, swap_other (by omega) (by omega)]
    exact heaped k c (by omega) (fun same => ne (Option.some.inj same).symm) grand low

theorem siftdown_heaped (order : StrictWeak lt S) {j : Nat} (within : ∀ i, i < n → S (a i))
    (above : lo ≤ j) (heaped : Heaped lt n lo (some j) a)
    (bridge : ∀ i c, lo ≤ i → IsChild j i → IsChild c j → c < n → ¬lt (a i) (a c) = true) :
    Heaped lt n lo none (siftdown lt n a j) := by
  induction a, j using siftdown.induct lt n with
  | case1 a j leaf =>
      rw [siftdown, if_pos leaf]
      intro i c low _ is inside
      by_cases same : i = j
      · subst same
        rcases is with rfl | rfl <;> omega
      · exact heaped i c low (fun equal => same (Option.some.inj equal)) is inside
  | case2 a j inner k less ih =>
      rw [siftdown, if_neg inner]
      have is := child_is lt a (Nat.lt_of_not_le inner)
      have largest : ∀ c, IsChild c j → c < n → ¬lt (a k) (a c) = true := fun c is low =>
        child_largest order within is low
      obtain ⟨heaped', bridge'⟩ := swap_heaped order within above heaped is.1 is.2 less largest bridge
      have low : j < n := by omega
      refine (if_pos less).symm ▸ ih ((Rearranged.swapped low is.2).all within) ?_ heaped' bridge'
      rcases is.1 with equal | equal <;> omega
  | case3 a j inner k least =>
      rw [siftdown, if_neg inner]
      refine (if_neg least).symm ▸ ?_
      have is := child_is lt a (Nat.lt_of_not_le inner)
      intro i c low _ under inside
      by_cases same : i = j
      · subst same
        exact order.trans (within i (by omega)) (within k is.2) (within c inside) least
          (child_largest order within under inside)
      · exact heaped i c low (fun equal => same (Option.some.inj equal)) under inside

theorem build_heaped (order : StrictWeak lt S) {i : Nat} (within : ∀ i, i < n → S (a i))
    (heaped : Heaped lt n i none a) : Heaped lt n 0 none (build lt n i a) := by
  induction i generalizing a with
  | zero => exact heaped
  | succ i ih =>
      refine ih ((siftdown_rearranged n a i).all within)
        (siftdown_heaped order within (Nat.le_refl i) ?_ ?_)
      · intro j c high apart is inside
        have other : j ≠ i := fun same => apart (congrArg some same)
        exact heaped j c (by omega) (Option.some_ne_none j) is inside
      · intro j c high is
        rcases is with rfl | rfl <;> omega

theorem heaped_root (order : StrictWeak lt S) (within : ∀ i, i < n → S (a i))
    (heaped : Heaped lt n 0 none a) (i : Nat) (inside : i < n) : ¬lt (a 0) (a i) = true := by
  induction i using Nat.strong_induction_on with
  | _ i ih =>
      by_cases root : i = 0
      · subst root
        exact fun less => order.asymm _ _ (within 0 inside) (within 0 inside) less less
      · have parent : IsChild i ((i - 1) / 2) := by rw [IsChild]; omega
        have up : (i - 1) / 2 < i := by omega
        exact order.trans (within 0 (by omega)) (within _ (by omega)) (within i inside)
          (ih _ up (by omega)) (heaped _ i (Nat.zero_le _) (Option.some_ne_none _) parent inside)

/-- What is from `m` on is in its place. -/
def SortedFrom (lt : α → α → Bool) (n m : Nat) (a : Nat → α) : Prop :=
  ∀ i j, i < j → m ≤ j → j < n → ¬lt (a j) (a i) = true

theorem takeout_sorted (order : StrictWeak lt S) {m : Nat} (le : m ≤ n)
    (within : ∀ i, i < n → S (a i)) (heaped : Heaped lt m 0 none a) (sorted : SortedFrom lt n m a) :
    SortedFrom lt n 0 (takeout lt m a) := by
  induction m generalizing a with
  | zero => exact sorted
  | succ k ih =>
      rw [takeout]
      split
      · next single =>
          intro i j before _ inside
          exact sorted i j before (by omega) inside
      · next several =>
          have root := heaped_root order (fun i low => within i (by omega)) heaped
          have swapped : Rearranged (k + 1) a (swap a 0 k) :=
            .swapped (Nat.succ_pos k) (Nat.lt_succ_self k)
          have within' := (swapped.mono le).all within
          have sifted := @siftdown_rearranged α lt k (swap a 0 k) 0
          have moved := swapped.trans (sifted.mono (Nat.le_succ k))
          refine ih (by omega) ((moved.mono le).all within) ?_ ?_
          · refine siftdown_heaped order (fun i low => within' i (by omega)) (Nat.le_refl 0) ?_ ?_
            · intro i c _ apart is inside
              have other : i ≠ 0 := fun same => apart (congrArg some same)
              have after : i < c := by rcases is with rfl | rfl <;> omega
              rw [swap_other other (by omega), swap_other (by omega) (by omega)]
              exact heaped i c (Nat.zero_le i) (Option.some_ne_none i) is (by omega)
            · intro i c _ is
              rcases is with equal | equal <;> omega
          · intro i j before high inside
            obtain ⟨i', same, low, out⟩ := moved.from_ i
            rw [same]
            by_cases last : j = k
            · obtain ⟨k', still, -, fixed⟩ := sifted.from_ k
              rw [last, still, fixed (Nat.le_refl k), swap_right]
              exact root i' (low (by omega))
            · obtain ⟨j', same', -, fixed⟩ := moved.from_ j
              rw [same', fixed (by omega)]
              refine sorted i' j ?_ (by omega) inside
              rcases Nat.lt_or_ge i (k + 1) with part | part
              · have := low part
                omega
              · rw [out part]
                exact before

/-- Where the order is one, nothing comes before what is less. -/
theorem heapsort_sorted (order : StrictWeak lt S) (within : ∀ i, i < n → S (a i)) :
    SortedFrom lt n 0 (heapsort lt n a) := by
  refine takeout_sorted order (Nat.le_refl n) ((build_rearranged n (n / 2) a).all within)
    (build_heaped order within ?_) fun i j _ high low => by omega
  intro i c high _ is inside
  rcases is with rfl | rfl <;> omega

/-! Of lists. -/

def heapsorted [Inhabited α] (lt : α → α → Bool) (L : List α) : List α :=
  (List.range L.length).map (heapsort lt L.length fun i => L.getD i default)

theorem map_getD [Inhabited α] (L : List α) :
    (List.range L.length).map (fun i => L.getD i default) = L := by
  refine List.ext_getElem ?_ fun i low low' => ?_
  · rw [List.length_map, List.length_range]
  · rw [List.getElem_map, List.getElem_range, List.getD_eq_getElem L default low']

theorem heapsorted_perm [Inhabited α] (lt : α → α → Bool) (L : List α) :
    (heapsorted lt L).Perm L := by
  have perm := (@heapsort_rearranged α lt L.length fun i => L.getD i default).perm
  rw [map_getD] at perm
  exact perm

theorem heapsorted_sorted [Inhabited α] (lt : α → α → Bool) (L : List α)
    (order : StrictWeak lt (· ∈ L)) : (heapsorted lt L).Pairwise fun x y => ¬lt y x = true := by
  have within : ∀ i, i < L.length → L.getD i default ∈ L := fun i low => by
    rw [List.getD_eq_getElem L default low]
    exact List.getElem_mem low
  have sorted := heapsort_sorted order within
  refine List.pairwise_map.mpr (List.pairwise_lt_range.imp_of_mem fun _ high before => ?_)
  exact sorted _ _ before (Nat.zero_le _) (List.mem_range.mp high)

theorem StrictWeak.of_cmp (cmp : α → α → Ordering) [Std.TransCmp cmp] (S : α → Prop) :
    StrictWeak (fun x y => (cmp x y).isLT) S where
  asymm x y _ _ less greater := by
    rw [Ordering.isLT_iff_eq_lt] at less greater
    exact Std.OrientedCmp.not_lt_of_lt less greater
  weak x y z _ _ _ less := by
    rw [Ordering.isLT_iff_eq_lt] at less ⊢
    rw [Ordering.isLT_iff_eq_lt]
    by_cases first : cmp x y = .lt
    · exact .inl first
    · have swapped : cmp y x = (cmp x y).swap := Std.OrientedCmp.eq_swap
      refine .inr (Std.TransCmp.lt_of_isLE_of_lt ?_ less)
      rw [swapped]
      cases same : cmp x y with
      | lt => exact absurd same first
      | eq => rfl
      | gt => rfl

end Heapsort

end Pugputer
