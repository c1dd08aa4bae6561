import PagedIndex.Proofs.Node.Edits

/-! # Routing in one node

`route` answers with the child of a slot whose key is at or below the probe and whose next key is
above it (`route_eq`).  On slots with ascending keys this is the one slot that a linear scan
ends at: `Covers` says so of a slot in a list, where the key of the first slot does not count. -/

namespace PagedIndex

variable {K : Type}

/-! ### Covering slots -/

/-- The keys of a list of slots; that of the first slot is a placeholder. -/
def separators (l : List (K × PageId)) : List K := l.tail.map Prod.fst

/-- The separators ascend strictly. -/
def Ascending (order : K → K → Ordering) (l : List (K × PageId)) : Prop :=
  (separators l).Pairwise fun x y => order x y = .lt

/-- The child that a linear scan of the separators ends at. -/
def scan (order : K → K → Ordering) (probe : K) (l : List (K × PageId)) : Option PageId :=
  (l.map Prod.snd)[((separators l).takeWhile fun x => (order probe x).isGE).length]?

/-- The slot `e` between `a` and `b` covers the probe; a first slot covers all smaller probes. -/
structure Covers (order : K → K → Ordering) (probe : K) (a : List (K × PageId)) (e : K × PageId)
    (b : List (K × PageId)) : Prop where
  le : a ≠ [] → (order probe e.1).isGE
  lt : ∀ x ∈ b.head?, (order probe x.1).isLT

section Covers

variable {order : K → K → Ordering} [Std.TransCmp order] {probe : K}
variable {a b : List (K × PageId)} {e : K × PageId}

theorem separators_append (a b : List (K × PageId)) (e : K × PageId) :
    separators (a ++ e :: b) = separators (a ++ [e]) ++ b.map Prod.fst := by
  cases a <;> simp [separators]

theorem length_separators (l : List (K × PageId)) : (separators l).length = l.length - 1 := by
  rw [separators, List.length_map, List.length_tail]

theorem separators_concat {l : List (K × PageId)} (hl : l ≠ []) (e : K × PageId) :
    separators (l ++ [e]) = separators l ++ [e.1] := by
  rw [separators, List.tail_append_of_ne_nil hl, List.map_append]
  rfl

theorem separators_sublist (l m n : List (K × PageId)) :
    (separators l).Sublist (separators (m ++ l ++ n)) := by
  apply List.Sublist.map _
  cases m with
  | nil =>
      cases l with
      | nil => exact List.nil_sublist _
      | cons e l => exact List.sublist_append_left l n
  | cons z m =>
      rw [List.cons_append, List.cons_append, List.tail_cons, List.append_assoc]
      exact (l.tail_sublist.trans (List.sublist_append_left l n)).trans
        (List.sublist_append_right m _)

theorem isGE_of_lt {x y : K} (hlt : order x y = .lt) (hge : (order probe y).isGE) :
    (order probe x).isGE := by
  have hle : (order x probe).isLE := by
    rw [Std.TransCmp.lt_of_lt_of_isLE hlt (Std.OrientedCmp.isGE_iff_isLE.mp hge)]
    rfl
  exact Std.OrientedCmp.isGE_of_isLE hle

theorem Covers.ge_of_mem (h : Covers order probe a e b) (hasc : Ascending order (a ++ e :: b)) :
    ∀ x ∈ separators (a ++ [e]), (order probe x).isGE := by
  intro x hx
  cases a with
  | nil => exact absurd hx List.not_mem_nil
  | cons z a =>
      have hge : (order probe e.1).isGE := h.le (List.cons_ne_nil z a)
      have hkeys : separators (z :: a ++ e :: b) = a.map Prod.fst ++ e.1 :: b.map Prod.fst := by
        simp [separators]
      have hmem : x ∈ a.map Prod.fst ∨ x = e.1 := by simpa [separators] using hx
      rcases hmem with hmem | rfl
      · unfold Ascending at hasc
        rw [hkeys, List.pairwise_append] at hasc
        exact isGE_of_lt (hasc.2.2 x hmem e.1 List.mem_cons_self) hge
      · exact hge

theorem Covers.lt_of_mem (h : Covers order probe a e b) (hasc : Ascending order (a ++ e :: b)) :
    ∀ x ∈ b.map Prod.fst, order probe x = .lt := by
  intro x hx
  cases b with
  | nil => exact absurd hx List.not_mem_nil
  | cons y b =>
      have hlt : order probe y.1 = .lt := by simpa using h.lt y rfl
      unfold Ascending at hasc
      rw [separators_append, List.pairwise_append, List.map_cons, List.pairwise_cons] at hasc
      rw [List.map_cons, List.mem_cons] at hx
      rcases hx with rfl | hx
      · exact hlt
      · exact Std.TransCmp.lt_trans hlt (hasc.2.1.1 x hx)

theorem Covers.scan_eq (h : Covers order probe a e b) (hasc : Ascending order (a ++ e :: b)) :
    scan order probe (a ++ e :: b) = some e.2 := by
  have hstop : (b.map Prod.fst).takeWhile (fun x => (order probe x).isGE) = [] := by
    cases b with
    | nil => rfl
    | cons y b =>
        have hlt := h.lt_of_mem hasc y.1 (by simp)
        rw [List.map_cons, List.takeWhile_cons_of_neg (by simp [hlt])]
  have hcount : (separators (a ++ [e])).length = a.length := by
    cases a <;> simp [separators]
  rw [scan, separators_append, List.takeWhile_append_of_pos (h.ge_of_mem hasc), hstop,
    List.append_nil, hcount]
  simp

theorem Covers.ascending (h : Covers order probe a e b) (hasc : Ascending order (a ++ e :: b))
    (hnew : ∀ x ∈ separators (a ++ e :: b), order probe x ≠ .eq) (id : PageId) :
    Ascending order (a ++ e :: (probe, id) :: b) := by
  have hge := h.ge_of_mem hasc
  have hlt := h.lt_of_mem hasc
  unfold Ascending at hasc ⊢
  rw [separators_append] at hasc hnew ⊢
  rw [List.pairwise_append] at hasc ⊢
  rw [List.map_cons, List.pairwise_cons]
  refine ⟨hasc.1, ⟨hlt, hasc.2.1⟩, fun x hx y hy => ?_⟩
  rcases List.mem_cons.mp hy with heq | hy
  · have hne := hnew x (List.mem_append_left _ hx)
    have hgt : order probe x = .gt :=
      (Ordering.isGE_iff_eq_gt_or_eq_eq.mp (hge x hx)).resolve_right hne
    rw [heq]
    exact Std.OrientedCmp.lt_of_gt hgt
  · exact hasc.2.2 x hx y hy

end Covers

namespace Node

variable [Key K] {v : Node K} {order : K → K → Ordering} {probe : K}

/-! ### Halving -/

/-- What is asked of a slot that routing answers with. -/
structure CoversAt (v : Node K) (order : K → K → Ordering) (probe : K) (i : Nat) : Prop where
  lt_size : i < v.size
  le : 0 < i → (order probe (v.key i)).isGE
  lt : i + 1 < v.size → (order probe (v.key (i + 1))).isLT

/-- The comparisons let a search stop at an equal key: the next one is above the probe. -/
def Discerns (v : Node K) (order : K → K → Ordering) (probe : K) : Prop :=
  ∀ i, 1 ≤ i → i + 1 < v.size → order probe (v.key i) = .eq → order probe (v.key (i + 1)) = .lt

/-- Between two keys that enclose the probe, halving ends at a covering slot. -/
theorem bisect_eq (hsize : v.size ≤ capacity K) (hd : v.Discerns order probe) :
    ∀ low high, 1 ≤ low → low < high → high < v.size → (order probe (v.key low)).isGE →
      (order probe (v.key high)).isLT →
      ∃ i, v.bisect order probe low high = .ok (v.child i) ∧ v.CoversAt order probe i := by
  intro low high
  fun_induction v.bisect order probe low high with
  | case1 low high h mid hmid ihlow ihhigh =>
      intro hlow _ hhigh hge hlt
      simp only [readKey_eq v (show mid < capacity K by omega), bind, Except.bind]
      cases hcmp : order probe (v.key mid) with
      | lt => exact ihlow hlow hmid.1 (by omega) hge (by rw [hcmp]; rfl)
      | gt => exact ihhigh (by omega) hmid.2 hhigh (by rw [hcmp]; rfl) hlt
      | eq =>
          have hnext : mid + 1 < v.size → (order probe (v.key (mid + 1))).isLT := fun hmore => by
            rw [hd mid (by omega) hmore hcmp]
            rfl
          exact ⟨mid, readChild_eq v (by omega), by omega, fun _ => by rw [hcmp]; rfl, hnext⟩
  | case2 low high h =>
      intro _ hlow hhigh hge hlt
      obtain rfl : high = low + 1 := by omega
      exact ⟨low, readChild_eq v (by omega), by omega, fun _ => hge, fun _ => hlt⟩

/-- Routing answers with the child of a covering slot. -/
theorem route_eq (hsize : v.size ≤ capacity K) (hkeys : 1 < v.size)
    (hd : v.Discerns order probe) :
    ∃ i, v.route order probe = .ok (v.child i) ∧ v.CoversAt order probe i := by
  have hroute : v.route order probe =
      if (order probe (v.key 1)).isLT then .ok (v.child 0)
      else if (order probe (v.key (v.size - 1))).isGE then .ok (v.child (v.size - 1))
      else v.bisect order probe 1 (v.size - 1) := by
    simp only [route, require, if_pos hkeys, bind, Except.bind,
      readKey_eq v (show 1 < capacity K by omega),
      readKey_eq v (show v.size - 1 < capacity K by omega),
      readChild_eq v (show 0 < capacity K by omega),
      readChild_eq v (show v.size - 1 < capacity K by omega)]
  rw [hroute]
  by_cases hfirst : (order probe (v.key 1)).isLT
  · rw [if_pos hfirst]
    exact ⟨0, rfl, by omega, fun hpos => absurd hpos (Nat.lt_irrefl 0), fun _ => hfirst⟩
  · rw [if_neg hfirst]
    have hge : (order probe (v.key 1)).isGE :=
      Ordering.ne_lt_iff_isGE.mp (by simpa using hfirst)
    by_cases hlast : (order probe (v.key (v.size - 1))).isGE
    · rw [if_pos hlast]
      exact ⟨v.size - 1, rfl, by omega, fun _ => hlast, fun hmore => absurd hmore (by omega)⟩
    · rw [if_neg hlast]
      have hlt : (order probe (v.key (v.size - 1))).isLT := by simpa using hlast
      have hne : v.size - 1 ≠ 1 := fun h => hfirst (by rwa [h] at hlt)
      exact bisect_eq hsize hd 1 (v.size - 1) (Nat.le_refl 1) (by omega) (by omega) hge hlt

/-! ### Any comparisons -/

theorem bisect_child (hsize : v.size ≤ capacity K) :
    ∀ low high, low < high → high < v.size →
      ∃ i, v.bisect order probe low high = .ok (v.child i) ∧ i < v.size := by
  intro low high
  fun_induction v.bisect order probe low high with
  | case1 low high h mid hmid ihlow ihhigh =>
      intro _ hhigh
      simp only [readKey_eq v (show mid < capacity K by omega), bind, Except.bind]
      cases order probe (v.key mid) with
      | lt => exact ihlow hmid.1 (by omega)
      | gt => exact ihhigh hmid.2 hhigh
      | eq => exact ⟨mid, readChild_eq v (by omega), by omega⟩
  | case2 low high h =>
      intro hlow hhigh
      exact ⟨low, readChild_eq v (by omega), by omega⟩

/-- Whatever the comparisons say, routing answers with the child of an occupied slot. -/
theorem route_child (hsize : v.size ≤ capacity K) (hkeys : 1 < v.size)
    (order : K → K → Ordering) (probe : K) :
    ∃ i, v.route order probe = .ok (v.child i) ∧ i < v.size := by
  simp only [route, require, if_pos hkeys, bind, Except.bind,
    readKey_eq v (show 1 < capacity K by omega),
    readKey_eq v (show v.size - 1 < capacity K by omega),
    readChild_eq v (show 0 < capacity K by omega),
    readChild_eq v (show v.size - 1 < capacity K by omega)]
  split
  · exact ⟨0, rfl, by omega⟩
  · next hfirst =>
      split
      · exact ⟨v.size - 1, rfl, by omega⟩
      · next hlast =>
          have hne : v.size - 1 ≠ 1 := by
            intro h
            rw [h] at hlast
            exact hlast (Ordering.ne_lt_iff_isGE.mp (by simpa using hfirst))
          exact bisect_child hsize 1 (v.size - 1) (by omega) (by omega)

/-! ### Slots as a list -/

theorem CoversAt.split {i : Nat} (h : v.CoversAt order probe i) :
    ∃ a e b, v.slots = a ++ e :: b ∧ e.2 = v.child i ∧ Covers order probe a e b := by
  have hlt : i < v.slots.length := by
    rw [length_slots]
    exact h.lt_size
  have hslot : v.slots[i] = v.slot i := getElem_slots hlt
  refine ⟨v.slots.take i, v.slot i, v.slots.drop (i + 1), ?_, rfl, fun ha => h.le ?_, ?_⟩
  · rw [← hslot, ← List.drop_eq_getElem_cons hlt, List.take_append_drop]
  · cases i with
    | zero => exact absurd (List.take_zero ..) ha
    | succ i => exact Nat.succ_pos i
  · intro x hx
    rw [List.head?_drop] at hx
    obtain ⟨hnext, rfl⟩ := List.getElem?_eq_some_iff.mp hx
    rw [getElem_slots]
    exact h.lt (by rwa [length_slots] at hnext)

theorem discerns_of_ascending [Std.TransCmp order] (h : Ascending order v.slots) :
    v.Discerns order probe := by
  intro i hi hmore heq
  have hlen : (separators v.slots).length = v.size - 1 := by
    rw [separators, List.length_map, List.length_tail, length_slots]
  have hkey : ∀ j (hj : j < (separators v.slots).length),
      (separators v.slots)[j] = v.key (j + 1) := by
    intro j hj
    simp only [separators, List.getElem_map, List.getElem_tail, getElem_slots, slot]
  have hnext := List.pairwise_iff_getElem.mp h (i - 1) i (by omega) (by omega) (by omega)
  rw [hkey, hkey, Nat.sub_add_cancel hi] at hnext
  exact Std.TransCmp.lt_of_eq_of_lt heq hnext

/-- The child that the probe leads to: without separators, the only one. -/
def seek (v : Node K) (order : K → K → Ordering) (probe : K) : Except Fault PageId :=
  if 1 < v.size then v.route order probe else v.childAt 0

/-- On ascending keys the probe leads to the child of the slot that covers it. -/
theorem seek_covers [Std.TransCmp order] (probe : K) (hsize : v.size ≤ capacity K)
    (hpos : 1 ≤ v.size) (h : Ascending order v.slots) :
    ∃ a e b, v.slots = a ++ e :: b ∧ v.seek order probe = .ok e.2 ∧ Covers order probe a e b := by
  unfold seek
  by_cases hkeys : 1 < v.size
  · obtain ⟨i, hroute, hcovers⟩ := route_eq hsize hkeys (discerns_of_ascending h)
    obtain ⟨a, e, b, hslots, hchild, hab⟩ := hcovers.split
    exact ⟨a, e, b, hslots, by rw [if_pos hkeys, hroute, hchild], hab⟩
  · have hcovers : v.CoversAt order probe 0 :=
      ⟨hpos, fun hlt => absurd hlt (Nat.lt_irrefl 0), fun hlt => absurd hlt hkeys⟩
    obtain ⟨a, e, b, hslots, hchild, hab⟩ := hcovers.split
    have hroute : v.childAt 0 = .ok (v.child 0) := by
      rw [childAt, requireSlot_eq hpos, ← readChild_eq v (by omega)]
      rfl
    exact ⟨a, e, b, hslots, by rw [if_neg hkeys, hroute, hchild], hab⟩

theorem route_scan [Std.TransCmp order] (probe : K) (hsize : v.size ≤ capacity K)
    (hkeys : 1 < v.size) (h : Ascending order v.slots) :
    ∃ id, v.route order probe = .ok id ∧ scan order probe v.slots = some id := by
  obtain ⟨a, e, b, hslots, hseek, hcovers⟩ := seek_covers probe hsize (Nat.le_of_lt hkeys) h
  rw [seek, if_pos hkeys] at hseek
  rw [hslots] at h ⊢
  exact ⟨e.2, hseek, hcovers.scan_eq h⟩

end Node

end PagedIndex
