import PagedIndex.Proofs.Node.Scanning
import PagedIndex.Proofs.Node.Neighbours

/-! # Splitting keeps the slots and the routes

`Split.moveHalf` cuts the list of slots in two; the first key of the upper half is the separator of
the halves.  In the node that key was looked at by a search, in the recipient it is a placeholder,
and the caller looks at it instead.  A scan of the separators shows that this makes no difference:
a probe below the separator does not get past it (`scan_left`), and any other probe gets past all
slots in front of it (`scan_right`).  `Split.moveHalf_conserves` puts this together with what the
cut leaves of the two nodes. -/

namespace PagedIndex

open Node

variable {K : Type}

/-! ### Scans of two lists -/

section Scans

variable {order : K → K → Ordering} {probe : K} {a b : List (K × PageId)} {e : K × PageId}

theorem separators_append_cons (ha : a ≠ []) :
    separators (a ++ e :: b) = separators a ++ e.1 :: b.map Prod.fst := by
  rw [separators_append, separators_concat ha, List.append_assoc, List.singleton_append]

theorem scan_left (ha : a ≠ []) (hlt : (order probe e.1).isLT) :
    scan order probe (a ++ e :: b) = scan order probe a := by
  have hpos := List.length_pos_iff.mpr ha
  have hno : ¬ (order probe e.1).isGE := by simpa using hlt
  have hstop : (separators (a ++ e :: b)).takeWhile (fun x => (order probe x).isGE) =
      (separators a).takeWhile fun x => (order probe x).isGE := by
    rw [separators_append_cons ha, List.takeWhile_append,
      List.takeWhile_cons_of_neg (p := fun x => (order probe x).isGE) hno, List.append_nil]
    split
    · next hall => exact ((List.takeWhile_prefix _).eq_of_length hall).symm
    · rfl
  have hcount := (List.takeWhile_prefix (l := separators a)
    fun x => (order probe x).isGE).length_le
  rw [length_separators] at hcount
  rw [scan, scan, hstop, List.map_append,
    List.getElem?_append_left (by rw [List.length_map]; omega)]

theorem scan_right [Std.TransCmp order] (ha : a ≠ []) (hasc : Ascending order (a ++ e :: b))
    (hge : (order probe e.1).isGE) :
    scan order probe (a ++ e :: b) = scan order probe (e :: b) := by
  have hpos := List.length_pos_iff.mpr ha
  have hpass : ∀ x ∈ separators a, (order probe x).isGE := by
    intro x hx
    rw [Ascending, separators_append_cons ha, List.pairwise_append] at hasc
    exact isGE_of_lt (hasc.2.2 x hx e.1 List.mem_cons_self) hge
  have hcount : (separators a).length + 1 = (a.map Prod.snd).length := by
    rw [length_separators, List.length_map]
    omega
  have hrest : separators (e :: b) = b.map Prod.fst := rfl
  rw [scan, scan, separators_append_cons ha, List.takeWhile_append_of_pos hpass,
    List.takeWhile_cons_of_pos (p := fun x => (order probe x).isGE) hge, List.length_append,
    List.length_cons, List.map_append, hrest]
  generalize ((b.map Prod.fst).takeWhile fun x => (order probe x).isGE).length = n
  rw [show (separators a).length + (n + 1) = (a.map Prod.snd).length + n by omega,
    List.getElem?_append_right (Nat.le_add_right _ _), Nat.add_sub_cancel_left]

end Scans

variable [Key K] {v recipient : Node K}

/-! ### Halves of a node -/

namespace Node

/-- Two nodes that share the slots of one lead every probe to the child that the one would lead it
to, once it is looked up on the right side of their first common key. -/
theorem route_halves {order : K → K → Ordering} [Std.TransCmp order] {left right : Node K}
    (hslots : left.slots ++ right.slots = v.slots) (hsize : v.size ≤ capacity K)
    (hl : 2 ≤ left.size) (hr : 2 ≤ right.size) (hasc : Ascending order v.slots) :
    ∃ separator, right.keyAt 0 = .ok separator ∧ ∀ probe, ∃ id, v.route order probe = .ok id ∧
      (if (order probe separator).isLT then left else right).route order probe = .ok id := by
  have hlen : left.size + right.size = v.size := by
    rw [← length_slots v, ← hslots, List.length_append, length_slots, length_slots]
  obtain ⟨e, y, b, hright⟩ := exists_cons_cons hr
  have hne : left.slots ≠ [] := by
    rw [← List.length_pos_iff, length_slots]
    omega
  have hascl : Ascending order left.slots := by
    refine hasc.sublist ?_
    rw [← hslots]
    simpa using separators_sublist left.slots [] right.slots
  have hascr : Ascending order right.slots := by
    refine hasc.sublist ?_
    rw [← hslots]
    simpa using separators_sublist right.slots left.slots []
  refine ⟨e.1, keyAt_at (a := []) (by omega) hright, fun probe => ?_⟩
  obtain ⟨id, hroute, hscan⟩ := route_scan probe hsize (by omega) hasc
  refine ⟨id, hroute, ?_⟩
  rw [← hslots, hright] at hscan hasc
  split
  · next hlt =>
      obtain ⟨id', hroute', hscan'⟩ := route_scan probe (by omega) (by omega) hascl
      rw [scan_left hne hlt, hscan'] at hscan
      rw [hroute', Option.some.inj hscan]
  · next hlt =>
      have hge : (order probe e.1).isGE := Ordering.ne_lt_iff_isGE.mp (by simpa using hlt)
      obtain ⟨id', hroute', hscan'⟩ := route_scan probe (by omega) (by omega) hascr
      rw [scan_right hne hasc hge, ← hright, hscan'] at hscan
      rw [hroute', Option.some.inj hscan]

end Node

/-- Splitting answers whenever the recipient is fresh and has room.  The node keeps the lower half
of its slots, the larger one if the halves are not equal, the recipient gets the others, and only
the sizes in the headers change.  If the keys ascend and both halves have a separator, then the
first key of the recipient tells where every probe is to be looked up. -/
theorem Split.moveHalf_conserves (hv : v.Sound) (hr : recipient.Sound) (hone : recipient.size = 1)
    (hfit : v.size / 2 ≤ recipient.maxSize) :
    ∃ lower upper, Split.moveHalf ⟨v, recipient⟩ = .ok () ⟨lower, upper⟩ ∧
      lower.slots = v.slots.take (v.size - v.size / 2) ∧
      upper.slots = v.slots.drop (v.size - v.size / 2) ∧ lower.slots ++ upper.slots = v.slots ∧
      Same v lower ∧ Same recipient upper ∧ lower.page.header = v.page.header ∧
      upper.page.header = recipient.page.header ∧
      (4 ≤ v.size → ∀ order, Std.TransCmp order → Ascending order v.slots →
        ∃ separator, upper.keyAt 0 = .ok separator ∧
          ∀ probe, ∃ id, v.route order probe = .ok id ∧
            (if (order probe separator).isLT then lower else upper).route order probe =
              .ok id) := by
  have hcapacity := hv.size_le_capacity
  have hmax := hr.maxSize_lt
  have hlower := slots_setSize v (show v.size - v.size / 2 ≤ v.size by omega) hcapacity
  have hupper := slots_filled (v := recipient) (u := v)
    (show v.size - v.size / 2 ≤ v.size by omega) (by omega)
  have hjoin : (v.setSize (v.size - v.size / 2)).slots ++
      (recipient.filled v (v.size - v.size / 2)).slots = v.slots := by
    rw [hlower, hupper, List.take_append_drop]
  refine ⟨_, _, moveHalf_eq hv hr hone hfit, hlower, hupper, hjoin, (Same.refl v).setSize _,
    same_filled _ _ _, pageHeader_setSize v _, by simp [filled], fun hfour order _ hasc => ?_⟩
  exact route_halves hjoin hcapacity (by rw [size_setSize (by omega)]; omega)
    (by rw [filled, size_setSize (by omega)]; omega) hasc

/-- The four slots are split in the middle: 20 becomes the separator, and probes on both sides of it
are led where they were. -/
theorem Split.moveHalf_conserves_four :
    ∃ lower upper, Split.moveHalf ⟨four, ofSlots ⟨5⟩ ⟨0⟩ 3 [(0, ⟨0⟩)]⟩ = .ok () ⟨lower, upper⟩ ∧
      lower.slots = [(0, ⟨10⟩), (10, ⟨11⟩)] ∧ upper.slots = [(20, ⟨12⟩), (30, ⟨13⟩)] ∧
      upper.pageId = ⟨5⟩ ∧ upper.keyAt 0 = .ok 20 ∧
      lower.route compare 15 = four.route compare 15 ∧
      upper.route compare 20 = four.route compare 20 := by
  have hslots : four.slots = [(0, ⟨10⟩), (10, ⟨11⟩), (20, ⟨12⟩), (30, ⟨13⟩)] :=
    (ofSlots_eq ⟨1⟩ ⟨0⟩ 3 _ (by decide) (by decide)).1
  have hsize : four.size = 4 := size_of_slots hslots
  have hasc : Ascending compare four.slots := by
    rw [Ascending, hslots]
    decide
  obtain ⟨hfresh, hmax, hid, -⟩ :=
    ofSlots_eq (K := UInt32) ⟨5⟩ ⟨0⟩ 3 [(0, ⟨0⟩)] (by decide) (by decide)
  have hsound : four.Sound := ofSlots_sound _ _ _ _ (by decide) (by decide)
  have hsound' : (ofSlots (K := UInt32) ⟨5⟩ ⟨0⟩ 3 [(0, ⟨0⟩)]).Sound :=
    ofSlots_sound _ _ _ _ (by decide) (by decide)
  obtain ⟨lower, upper, hrun, hlower, hupper, -, -, hsame, -, -, hroutes⟩ :=
    moveHalf_conserves hsound hsound' (size_of_slots hfresh) (by rw [hsize, hmax]; decide)
  obtain ⟨separator, hkey, hprobe⟩ := hroutes (by omega) compare inferInstance hasc
  rw [hsize, hslots] at hlower hupper
  have hseparator : upper.keyAt 0 = .ok 20 :=
    keyAt_at (a := []) (by rw [size_of_slots hupper]; decide) hupper
  obtain rfl : separator = 20 := Except.ok.inj (hkey.symm.trans hseparator)
  obtain ⟨id, hwhole, hhalf⟩ := hprobe 15
  obtain ⟨id', hwhole', hhalf'⟩ := hprobe 20
  exact ⟨lower, upper, hrun, hlower, hupper, hsame.pageId.trans hid, hseparator,
    hhalf.trans hwhole.symm, hhalf'.trans hwhole'.symm⟩

end PagedIndex
