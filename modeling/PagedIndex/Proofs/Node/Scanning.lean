import PagedIndex.Key.Integer
import PagedIndex.Proofs.Node.Routing

/-! # Search and scan

A search compares the probe with few of the separators.  Where all the comparisons, read in order,
go from above to below with at most one tie (`Partitioned`), the child that it answers with is the
one a scan would count off (`route_scans`); on ascending separators that is so for every probe.
Whatever the comparisons say, a search ends, and it looks at no slot that is not occupied: `routeBy`
is the search with the reading of slots left open, and it makes no difference what is read elsewhere
(`routeBy_congr`). -/

namespace PagedIndex

variable {K : Type}

/-! ### Outcomes in order -/

/-- Comparisons of a probe as in an ordered list: above some separators, equal to one at most, below
the others. -/
def Partitioned (os : List Ordering) : Prop :=
  ∃ above tied below, tied ≤ 1 ∧
    os = List.replicate above .gt ++ List.replicate tied .eq ++ List.replicate below .lt

/-- The comparisons that do not put the probe below a separator. -/
def passed (os : List Ordering) : Nat := os.countP (· ≠ .lt)

namespace Partitioned

variable {os : List Ordering} {i : Nat}

theorem isGE_iff (h : Partitioned os) (hi : i < os.length) : os[i].isGE ↔ i < passed os := by
  obtain ⟨above, tied, below, -, rfl⟩ := h
  have hpassed : passed (List.replicate above .gt ++ List.replicate tied .eq ++
      List.replicate below .lt) = above + tied := by
    simp [passed, List.countP_replicate]
  rw [hpassed]
  rcases Nat.lt_or_ge i (above + tied) with hlt | hge
  · refine iff_of_true ?_ hlt
    rw [List.getElem_append_left (by simpa using hlt)]
    rcases Nat.lt_or_ge i above with hlt' | hge'
    · rw [List.getElem_append_left (by simpa using hlt'), List.getElem_replicate]
      rfl
    · rw [List.getElem_append_right (by simpa using hge'), List.getElem_replicate]
      rfl
  · refine iff_of_false ?_ (Nat.not_lt.mpr hge)
    rw [List.getElem_append_right (by simpa using hge), List.getElem_replicate]
    decide

theorem lt_of_eq (h : Partitioned os) (hi : i + 1 < os.length) (heq : os[i] = .eq) :
    os[i + 1] = .lt := by
  obtain ⟨above, tied, below, htied, rfl⟩ := h
  rcases Nat.lt_or_ge i above with hlt | hge
  · simp only [List.append_assoc] at heq
    rw [List.getElem_append_left (by simpa using hlt), List.getElem_replicate] at heq
    cases heq
  · rw [List.getElem_append_right (by simp; omega), List.getElem_replicate]

end Partitioned

/-- A probe compares in order with ascending keys. -/
theorem partitioned_of_pairwise {order : K → K → Ordering} [Std.TransCmp order] (probe : K)
    {l : List K} (h : l.Pairwise fun x y => order x y = .lt) :
    Partitioned (l.map (order probe)) := by
  induction l with
  | nil => exact ⟨0, 0, 0, Nat.zero_le 1, rfl⟩
  | cons x l ih =>
      obtain ⟨hx, hl⟩ := List.pairwise_cons.mp h
      have hbelow : order probe x ≠ .gt →
          l.map (order probe) = List.replicate l.length .lt := by
        intro hle
        rw [List.map_eq_replicate_iff]
        intro y hy
        exact Std.TransCmp.lt_of_isLE_of_lt (Ordering.ne_gt_iff_isLE.mp hle) (hx y hy)
      cases hcmp : order probe x with
      | lt =>
          refine ⟨0, 0, l.length + 1, Nat.zero_le 1, ?_⟩
          rw [List.map_cons, hcmp, hbelow (by simp [hcmp])]
          rfl
      | eq =>
          refine ⟨0, 1, l.length, Nat.le_refl 1, ?_⟩
          rw [List.map_cons, hcmp, hbelow (by simp [hcmp])]
          rfl
      | gt =>
          obtain ⟨above, tied, below, htied, heq⟩ := ih hl
          refine ⟨above + 1, tied, below, htied, ?_⟩
          rw [List.map_cons, hcmp, heq]
          rfl

namespace Node

variable [Key K] {v : Node K} {order : K → K → Ordering} {probe : K}

/-- The comparisons of a probe with the separators of a node, in order. -/
def outcomes (v : Node K) (order : K → K → Ordering) (probe : K) : List Ordering :=
  (separators v.slots).map (order probe)

@[simp] theorem length_outcomes : (v.outcomes order probe).length = v.size - 1 := by
  rw [outcomes, separators, List.length_map, List.length_map, List.length_tail, length_slots]

theorem getElem_outcomes {i : Nat} (h : i < (v.outcomes order probe).length) :
    (v.outcomes order probe)[i] = order probe (v.key (i + 1)) := by
  simp only [outcomes, separators, List.getElem_map, List.getElem_tail, getElem_slots, slot]

theorem passed_lt (hkeys : 1 < v.size) : passed (v.outcomes order probe) < v.size := by
  have hle : passed (v.outcomes order probe) ≤ (v.outcomes order probe).length :=
    List.countP_le_length
  rw [length_outcomes] at hle
  omega

/-- A search ends at the slot that a scan of the comparisons counts off. -/
theorem route_passed (hsize : v.size ≤ capacity K) (hkeys : 1 < v.size)
    (hparts : Partitioned (v.outcomes order probe)) :
    v.route order probe = .ok (v.child (passed (v.outcomes order probe))) := by
  have hlen : (v.outcomes order probe).length = v.size - 1 := length_outcomes
  have hd : v.Discerns order probe := by
    intro i hi hmore heq
    obtain ⟨j, rfl⟩ : ∃ j, i = j + 1 := ⟨i - 1, by omega⟩
    have hnext := hparts.lt_of_eq (i := j) (by omega) (by rwa [getElem_outcomes])
    rwa [getElem_outcomes] at hnext
  obtain ⟨i, hroute, hcovers⟩ := route_eq hsize hkeys hd
  have hcount : passed (v.outcomes order probe) < v.size := passed_lt hkeys
  obtain rfl : i = passed (v.outcomes order probe) := by
    rcases Nat.lt_trichotomy i (passed (v.outcomes order probe)) with hlt | heq | hgt
    · -- The separator behind slot `i` is passed too.
      have hge := (hparts.isGE_iff (i := i) (by omega)).mpr hlt
      rw [getElem_outcomes] at hge
      have hbelow := hcovers.lt (by omega)
      cases hcmp : order probe (v.key (i + 1)) <;> simp [hcmp] at hge hbelow
    · exact heq
    · -- The separator of slot `i` is passed although it does not count.
      obtain ⟨j, rfl⟩ : ∃ j, i = j + 1 := ⟨i - 1, by omega⟩
      have hin := hcovers.lt_size
      have hiff := hparts.isGE_iff (i := j) (by omega)
      rw [getElem_outcomes] at hiff
      exact absurd (hiff.mp (hcovers.le (Nat.succ_pos j))) (by omega)
  exact hroute

theorem passed_key [Std.TransCmp order] (hasc : Ascending order v.slots) {i : Nat} (hi : 1 ≤ i)
    (hlt : i < v.size) : passed (v.outcomes order (v.key i)) = i := by
  obtain ⟨i, rfl⟩ : ∃ j, i = j + 1 := ⟨i - 1, by omega⟩
  have hparts : Partitioned (v.outcomes order (v.key (i + 1))) :=
    partitioned_of_pairwise _ hasc
  have hlen : (v.outcomes order (v.key (i + 1))).length = v.size - 1 := length_outcomes
  have hsame : order (v.key (i + 1)) (v.key (i + 1)) = .eq := Std.ReflCmp.compare_self
  have hself := hparts.isGE_iff (i := i) (by omega)
  rw [getElem_outcomes, hsame] at hself
  have hpassed : i < passed (v.outcomes order (v.key (i + 1))) := hself.mp rfl
  rcases Nat.lt_or_ge (i + 1) (passed (v.outcomes order (v.key (i + 1)))) with hmore | hle
  · have hcount : passed (v.outcomes order (v.key (i + 1))) ≤ v.size - 1 :=
      hlen ▸ List.countP_le_length
    have hnext := (hparts.isGE_iff (i := i + 1) (by omega)).mpr hmore
    have hbelow := hparts.lt_of_eq (i := i) (by omega)
      (by rw [getElem_outcomes, hsame])
    rw [hbelow] at hnext
    cases hnext
  · omega

/-! ### What a search reads -/

section Reading

variable {readKey readKey' : Nat → Except Fault K}
  {readChild readChild' : Nat → Except Fault PageId}

/-- Halving, with the reading of slots left open. -/
def bisectBy (readKey : Nat → Except Fault K) (readChild : Nat → Except Fault PageId)
    (order : K → K → Ordering) (key : K) (low high : Nat) : Except Fault PageId :=
  if h : low + 1 < high then
    let mid := low + (high - low) / 2
    have : low < mid ∧ mid < high := by omega
    do
      match order key (← readKey mid) with
      | .lt => bisectBy readKey readChild order key low mid
      | .gt => bisectBy readKey readChild order key mid high
      | .eq => readChild mid
  else readChild low
termination_by high - low

/-- Search among `size` slots of the node `node`, with the reading of slots left open. -/
def routeBy (readKey : Nat → Except Fault K) (readChild : Nat → Except Fault PageId) (size : Nat)
    (node : PageId) (order : K → K → Ordering) (key : K) : Except Fault PageId := do
  require (1 < size) (Fault.noKeys node)
  if (order key (← readKey 1)).isLT then
    readChild 0
  else if (order key (← readKey (size - 1))).isGE then
    readChild (size - 1)
  else
    bisectBy readKey readChild order key 1 (size - 1)

theorem bisect_eq_bisectBy (low high : Nat) :
    v.bisect order probe low high = bisectBy v.readKey v.readChild order probe low high := by
  fun_induction v.bisect order probe low high with
  | case1 low high h mid hmid ihlow ihhigh =>
      rw [bisectBy, dif_pos h]
      cases hread : v.readKey mid with
      | error f => simp only [mid] at hread; simp only [hread, bind, Except.bind]
      | ok key =>
          simp only [mid] at hread
          simp only [hread, bind, Except.bind]
          cases order probe key with
          | lt => exact ihlow
          | gt => exact ihhigh
          | eq => rfl
  | case2 low high h => rw [bisectBy, dif_neg h]

/-- The search in a node reads the slots of the node. -/
theorem route_eq_routeBy (v : Node K) (order : K → K → Ordering) (probe : K) :
    v.route order probe =
      routeBy v.readKey v.readChild v.size v.pageId order probe := by
  unfold route routeBy
  simp only [bisect_eq_bisectBy]

omit [Key K] in
theorem bisectBy_congr {size : Nat} (hkey : ∀ i, 1 ≤ i → i < size → readKey' i = readKey i)
    (hchild : ∀ i, i < size → readChild' i = readChild i) :
    ∀ low high, 1 ≤ low → low < size → high < size →
      bisectBy readKey' readChild' order probe low high =
        bisectBy readKey readChild order probe low high := by
  intro low high
  fun_induction bisectBy readKey readChild order probe low high with
  | case1 low high h mid hmid ihlow ihhigh =>
      intro hlow hlt hhigh
      have hread : readKey' (low + (high - low) / 2) = readKey mid := hkey mid (by omega) (by omega)
      rw [bisectBy, dif_pos h]
      simp only [hread]
      refine bind_congr fun key => ?_
      cases order probe key with
      | lt => exact ihlow hlow hlt (by omega)
      | gt => exact ihhigh (by omega) (by omega) hhigh
      | eq => exact hchild mid (by omega)
  | case2 low high h =>
      intro _ hlt _
      rw [bisectBy, dif_neg h]
      exact hchild low hlt

omit [Key K] in
/-- A search reads occupied slots only, and of the first one not even the key. -/
theorem routeBy_congr {size : Nat} (hkey : ∀ i, 1 ≤ i → i < size → readKey' i = readKey i)
    (hchild : ∀ i, i < size → readChild' i = readChild i) (node : PageId) :
    routeBy readKey' readChild' size node order probe =
      routeBy readKey readChild size node order probe := by
  unfold routeBy
  rw [Action.require_bind, Action.require_bind]
  by_cases hkeys : 1 < size
  · have hcongr : bisectBy readKey' readChild' order probe 1 (size - 1) =
        bisectBy readKey readChild order probe 1 (size - 1) :=
      bisectBy_congr hkey hchild 1 (size - 1) (Nat.le_refl 1) hkeys (by omega)
    rw [if_pos hkeys, if_pos hkeys, hkey 1 (Nat.le_refl 1) hkeys,
      hkey (size - 1) (by omega) (by omega), hchild 0 (by omega), hchild (size - 1) (by omega),
      hcongr]
  · rw [if_neg hkeys, if_neg hkeys]

end Reading

/-! ### Search against scan -/

/-- In a node with separators, a probe that compares in order with them is led to the child that a
scan counts off.  On ascending separators every probe compares in order, and a separator leads to
its own child.  Whatever the comparisons say, a search answers with the child of an occupied slot,
and it is the same search however the slots behind the last one, and the key of the first one, are
read. -/
theorem route_scans (hsize : v.size ≤ capacity K) (hkeys : 1 < v.size)
    (order : K → K → Ordering) :
    (∀ probe, Partitioned (v.outcomes order probe) →
      passed (v.outcomes order probe) < v.size ∧
        v.route order probe = .ok (v.child (passed (v.outcomes order probe)))) ∧
    (Std.TransCmp order → Ascending order v.slots →
      (∀ probe, Partitioned (v.outcomes order probe)) ∧
        ∀ i, 1 ≤ i → i < v.size → v.route order (v.key i) = .ok (v.child i)) ∧
    ∀ probe, (∃ i, i < v.size ∧ v.route order probe = .ok (v.child i)) ∧
      ∀ readKey readChild, (∀ i, 1 ≤ i → i < v.size → readKey i = v.readKey i) →
        (∀ i, i < v.size → readChild i = v.readChild i) →
          routeBy readKey readChild v.size v.pageId order probe = v.route order probe := by
  refine ⟨fun probe hparts => ?_, fun _ hasc => ?_, fun probe => ⟨?_, ?_⟩⟩
  · exact ⟨passed_lt hkeys, route_passed hsize hkeys hparts⟩
  · have hparts : ∀ probe, Partitioned (v.outcomes order probe) := fun probe =>
      partitioned_of_pairwise probe hasc
    refine ⟨hparts, fun i hi hlt => ?_⟩
    rw [route_passed hsize hkeys (hparts (v.key i)), passed_key hasc hi hlt]
  · obtain ⟨i, hroute, hi⟩ := route_child hsize hkeys order probe
    exact ⟨i, hi, hroute⟩
  · intro readKey readChild hkey hchild
    rw [route_eq_routeBy, routeBy_congr hkey hchild]

/-- A node one slot past its threshold. -/
def four : Node UInt32 := ofSlots ⟨1⟩ ⟨0⟩ 3 [(0, ⟨10⟩), (10, ⟨11⟩), (20, ⟨12⟩), (30, ⟨13⟩)]

/-- Probes of four slots: one between two separators, one at a separator, and one that is answered
at random. -/
theorem route_scans_four :
    four.size ≤ capacity UInt32 ∧ 1 < four.size ∧ Ascending compare four.slots ∧
      Partitioned (four.outcomes compare 25) ∧ four.route compare 25 = .ok ⟨12⟩ ∧
      four.route compare 10 = .ok ⟨11⟩ ∧
      ∃ i, i < four.size ∧ four.route (fun _ x => if x = 20 then .lt else .gt) 5 =
        .ok (four.child i) := by
  have hslots : four.slots = [(0, ⟨10⟩), (10, ⟨11⟩), (20, ⟨12⟩), (30, ⟨13⟩)] :=
    (ofSlots_eq ⟨1⟩ ⟨0⟩ 3 _ (by decide) (by decide)).1
  have hsize : four.size = 4 := size_of_slots hslots
  have hin : four.size ≤ capacity UInt32 := by rw [hsize]; decide
  have hkeys : 1 < four.size := by rw [hsize]; decide
  have hasc : Ascending compare four.slots := by
    rw [Ascending, hslots]
    decide
  obtain ⟨hscan, hordered, -⟩ := route_scans hin hkeys compare
  obtain ⟨hparts, hself⟩ := hordered inferInstance hasc
  have hpassed : passed (four.outcomes compare 25) = 2 := by
    rw [outcomes, hslots]
    decide
  refine ⟨hin, hkeys, hasc, hparts 25, ?_, ?_, ?_⟩
  · have hslot : four.slot 2 = (20, ⟨12⟩) := slot_at (a := [(0, ⟨10⟩), (10, ⟨11⟩)]) hslots
    obtain ⟨-, hchild⟩ := Prod.mk.inj hslot
    rw [(hscan 25 (hparts 25)).2, hpassed, hchild]
  · have hslot : four.slot 1 = (10, ⟨11⟩) := slot_at (a := [(0, ⟨10⟩)]) hslots
    obtain ⟨hkey, hchild⟩ := Prod.mk.inj hslot
    have htie := hself 1 (Nat.le_refl 1) hkeys
    rwa [hkey, hchild] at htie
  · exact ((route_scans hin hkeys _).2.2 5).1

end Node

end PagedIndex
