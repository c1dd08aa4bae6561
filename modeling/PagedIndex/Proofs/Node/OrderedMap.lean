import Mathlib.Data.List.Sort
import Mathlib.Data.Set.Card
import PagedIndex.Key.Integer
import PagedIndex.Proofs.Node.Routing

/-! # A node as an ordered map

A run of updates inserts separators where a search puts them, and removes separators by their
places.  `remaining` is the set of pairs that were inserted and not removed.  Along every run the
slots behind the first one are the remaining pairs in ascending order (`Mapped`), a search finds
the greatest remaining key that is not above the probe, and the order of the updates leaves no
trace (`Run.maps`). -/

namespace PagedIndex.Node

open PagedIndex.Action

attribute [local irreducible] Ends

variable {K : Type}

/-- Insert a separator and the child behind it, or remove the separator of a slot. -/
inductive Update (K : Type) where
  | insert (key : K) (id : PageId)
  | erase (i : Nat)

/-! ### Remaining pairs -/

/-- An update of a run, and the node before it. -/
structure Entry (K : Type) where
  before : Node K
  update : Update K

section Runs

variable [Key K] {order : K → K → Ordering} {c : PageId} {v w : Node K} {S : Set (K × PageId)}

namespace Update

/-- Insertion goes behind the child that a search for the key leads to. -/
def task (order : K → K → Ordering) : Update K → Edit K Unit
  | insert key id => do
      let covering ← (← get).seek order key
      discard (Edit.insertAfter covering key id)
  | erase i => Edit.erase i

/-- A new key and a new child go into a node that is not overfull; the first slot stays. -/
def Offered (order : K → K → Ordering) (v : Node K) : Update K → Prop
  | insert key id => (∀ x ∈ separators v.slots, order key x ≠ .eq) ∧
      id ∉ v.slots.map Prod.snd ∧ v.size ≤ v.maxSize
  | erase i => 1 ≤ i ∧ i < v.size

/-- The pairs after an update of `v`. -/
def apply (v : Node K) (S : Set (K × PageId)) : Update K → Set (K × PageId)
  | insert key id => Insert.insert (key, id) S
  | erase i => S \ {v.slot i}

end Update

/-- The pairs that were inserted and not removed. -/
def remaining (h : List (Entry K)) : Set (K × PageId) :=
  h.foldl (fun S x => x.update.apply x.before S) ∅

theorem remaining_concat (h : List (Entry K)) (x : Entry K) :
    remaining (h ++ [x]) = x.update.apply x.before (remaining h) := by
  rw [remaining, List.foldl_append]
  rfl

/-- The updates that lead from one node to another, in order. -/
inductive Run (order : K → K → Ordering) (v : Node K) : List (Entry K) → Node K → Prop
  | start : Run order v [] v
  | step {h : List (Entry K)} {w w' : Node K} {u : Update K} :
      Run order v h w → u.Offered order w → u.task order w = .ok () w' →
        Run order v (h ++ [⟨w, u⟩]) w'

/-! ### One update -/

/-- The slots behind the first one are the given pairs in ascending order, and that one points at
`c`. -/
structure Mapped (order : K → K → Ordering) (c : PageId) (S : Set (K × PageId)) (v : Node K) :
    Prop where
  sound : v.Sound
  ascending : Ascending order v.slots
  distinct : (v.slots.map Prod.snd).Nodup
  parts : ∃ key l, v.slots = (key, c) :: l ∧ ∀ e, e ∈ l ↔ e ∈ S

namespace Mapped

theorem of_size_one (hv : v.Sound) (hone : v.size = 1) : Mapped order (v.child 0) ∅ v := by
  have hslots : v.slots = [v.slot 0] := by
    rw [slots_def, hone]
    rfl
  refine ⟨hv, ?_, ?_, v.key 0, [], hslots, fun e => by simp⟩
  · rw [Ascending, hslots]
    exact List.Pairwise.nil
  · rw [hslots]
    exact List.nodup_singleton _

theorem size_eq (h : Mapped order c S v) : v.size = S.ncard + 1 := by
  classical
  obtain ⟨k, l, hparts, hpairs⟩ := h.parts
  have hdistinct := h.distinct
  rw [hparts] at hdistinct
  have hnodup : l.Nodup := (List.Nodup.of_map Prod.snd hdistinct).of_cons
  have hset : S = l.toFinset := Set.ext fun e => by simp [hpairs]
  rw [size_of_slots hparts, hset, Set.ncard_coe_finset, List.toFinset_card_of_nodup hnodup]
  rfl

theorem offered_insert {key : K} {id : PageId} (h : Mapped order c S v) (hfirst : id ≠ c)
    (hnew : ∀ x ∈ S, order key x.1 ≠ .eq ∧ id ≠ x.2) (hfit : v.size ≤ v.maxSize) :
    (Update.insert key id).Offered order v := by
  obtain ⟨k, l, hparts, hpairs⟩ := h.parts
  refine ⟨fun x hx => ?_, fun hmem => ?_, hfit⟩
  · rw [hparts] at hx
    obtain ⟨e, he, rfl⟩ := List.mem_map.mp hx
    exact (hnew e ((hpairs e).mp he)).1
  · rw [hparts] at hmem
    rcases List.mem_cons.mp hmem with heq | hmem
    · exact hfirst heq
    · obtain ⟨e, he, heq⟩ := List.mem_map.mp hmem
      exact (hnew e ((hpairs e).mp he)).2 heq.symm

theorem perm_behind {α : Type} {a b l : List α} {e f : α} (h : a ++ e :: b = f :: l) (x : α) :
    ∃ l', a ++ e :: x :: b = f :: l' ∧ l'.Perm (x :: l) := by
  cases a with
  | nil =>
      obtain ⟨rfl, rfl⟩ := List.cons.inj h
      exact ⟨x :: b, rfl, List.Perm.refl _⟩
  | cons z a =>
      obtain ⟨rfl, rfl⟩ := List.cons.inj h
      refine ⟨a ++ e :: x :: b, rfl, ?_⟩
      have hperm : (a ++ [e] ++ x :: b).Perm (x :: (a ++ [e] ++ b)) := List.perm_middle
      rwa [List.append_assoc, List.append_assoc] at hperm

theorem insert_answers [Std.TransCmp order] {key : K} {id : PageId} (h : Mapped order c S v)
    (hu : (Update.insert key id).Offered order v) :
    ((Update.insert key id).task order).Answers v fun _ w =>
      Mapped order c ((Update.insert key id).apply v S) w := by
  obtain ⟨hkey, hid, hfit⟩ := hu
  obtain ⟨k, l, hparts, hpairs⟩ := h.parts
  obtain ⟨a, e, b, hslots, hseek, hcovers⟩ :=
    seek_covers key h.sound.size_le_capacity h.sound.size_pos h.ascending
  have hasc := h.ascending
  have hdistinct := h.distinct
  rw [hslots] at hkey hid hasc hdistinct
  have hfirst : e.2 ∉ a.map Prod.snd := by
    rw [List.map_append, List.map_cons] at hdistinct
    exact fun hmem => (List.nodup_append.mp hdistinct).2.2 _ hmem _ List.mem_cons_self rfl
  have hinsert : (Edit.insertAfter e.2 key id).Answers v fun n w =>
      n = v.size + 1 ∧ Same v w ∧ w.slots = a ++ e :: (key, id) :: b :=
    Edit.insertAfter_answers h.sound hfit hslots hfirst
  obtain ⟨l', hbehind, hperm⟩ := perm_behind (hslots ▸ hparts) (key, id)
  simp only [Update.task, answers_iff, ends_bind, ends_get, ends_answer hseek, ends_discard]
  refine hinsert.ends fun _ w hdone => ?_
  obtain ⟨-, hsame, hw⟩ := hdone
  have hlen := size_at hslots
  have hsize : w.size = v.size + 1 := by
    rw [size_of_slots hw, hlen, List.length_append, List.length_cons, List.length_cons]
    omega
  refine ⟨h.sound.of_same hsame (by omega) (by omega), ?_, ?_, k, l', ?_, fun x => ?_⟩
  · rw [hw]
    exact hcovers.ascending hasc hkey id
  · rw [← hslots, hparts, List.map_cons] at hid hdistinct
    have hswap := (hperm.map Prod.snd).cons c |>.trans (List.Perm.swap id c (l.map Prod.snd))
    rw [hw, hbehind, List.map_cons, hswap.nodup_iff]
    exact List.nodup_cons.mpr ⟨hid, hdistinct⟩
  · rw [hw, hbehind]
  · rw [hperm.mem_iff, List.mem_cons, hpairs]
    rfl

theorem erase_answers {i : Nat} (h : Mapped order c S v)
    (hu : (Update.erase i).Offered order v) :
    ((Update.erase i : Update K).task order).Answers v fun _ w =>
      Mapped order c ((Update.erase i).apply v S) w := by
  obtain ⟨hone, hlt⟩ := hu
  obtain ⟨j, rfl⟩ : ∃ j, i = j + 1 := ⟨i - 1, by omega⟩
  obtain ⟨k, l, hparts, hpairs⟩ := h.parts
  have hlen := size_of_slots hparts
  rw [List.length_cons] at hlen
  have hj : j < l.length := by omega
  have hslot : v.slot (j + 1) = l[j] := by
    rw [slot_of_slots hparts (by simpa using hj)]
    rfl
  have hsub : (l.eraseIdx j).Sublist l := List.eraseIdx_sublist l j
  have hasc := h.ascending
  have hdistinct := h.distinct
  rw [hparts] at hasc hdistinct
  have hnodup : l.Nodup := (List.Nodup.of_map Prod.snd hdistinct).of_cons
  refine (Edit.erase_answers h.sound hlt).mono fun _ w hdone => ?_
  obtain ⟨hsame, hw⟩ := hdone
  rw [hparts, List.eraseIdx_cons_succ] at hw
  have hsize := size_of_slots hw
  rw [List.length_cons, List.length_eraseIdx_of_lt hj] at hsize
  have hle := h.sound.size_le
  refine ⟨h.sound.of_same hsame (by omega) (by omega), ?_, ?_, k, _, hw, fun x => ?_⟩
  · rw [hw]
    exact List.Pairwise.sublist (hsub.map Prod.fst) hasc
  · rw [hw]
    exact hdistinct.sublist ((hsub.cons_cons _).map Prod.snd)
  · classical
    rw [← hnodup.erase_getElem j hj, hnodup.mem_erase_iff, hpairs, Update.apply, hslot,
      Set.mem_sdiff, Set.mem_singleton_iff, and_comm]

/-- Every update of a mapped node answers and leaves it mapped. -/
theorem task_answers [Std.TransCmp order] (h : Mapped order c S v) {u : Update K}
    (hu : u.Offered order v) :
    (u.task order).Answers v fun _ w => Mapped order c (u.apply v S) w := by
  cases u with
  | insert key id => exact h.insert_answers hu
  | erase i => exact h.erase_answers hu

/-! ### Search -/

/-- A search leads to the child of the greatest pair that is not above the probe, or else to the
first child. -/
theorem route_eq [Std.TransCmp order] (h : Mapped order c S v) (hkeys : 1 < v.size) (probe : K) :
    (∃ e ∈ S, (order e.1 probe).isLE ∧ (∀ x ∈ S, (order x.1 probe).isLE → (order x.1 e.1).isLE) ∧
      v.route order probe = .ok e.2) ∨
    (∀ x ∈ S, order probe x.1 = .lt) ∧ v.route order probe = .ok c := by
  obtain ⟨k, l, hparts, hpairs⟩ := h.parts
  obtain ⟨a, e, b, hslots, hseek, hcovers⟩ :=
    seek_covers probe h.sound.size_le_capacity h.sound.size_pos h.ascending
  rw [seek, if_pos hkeys] at hseek
  have hasc := h.ascending
  rw [hslots] at hasc
  have habove : ∀ x ∈ b, order probe x.1 = .lt := fun x hx =>
    hcovers.lt_of_mem hasc x.1 (List.mem_map_of_mem hx)
  rw [hslots] at hparts
  cases a with
  | nil =>
      obtain ⟨rfl, rfl⟩ := List.cons.inj hparts
      exact .inr ⟨fun x hx => habove x ((hpairs x).mpr hx), hseek⟩
  | cons z a =>
      obtain ⟨-, rfl⟩ := List.cons.inj hparts
      have hle : (order e.1 probe).isLE :=
        Std.OrientedCmp.isGE_iff_isLE.mp (hcovers.le (List.cons_ne_nil z a))
      refine .inl ⟨e, (hpairs e).mp (by simp), hle, fun x hx hxle => ?_, hseek⟩
      have hkeys : (a.map Prod.fst ++ e.1 :: b.map Prod.fst).Pairwise
          fun x y => order x y = .lt := by
        simpa [Ascending, separators] using hasc
      rcases List.mem_append.mp ((hpairs x).mpr hx) with hmem | hmem
      · have hlt := (List.pairwise_append.mp hkeys).2.2 x.1 (List.mem_map_of_mem hmem) e.1
          List.mem_cons_self
        rw [hlt]
        rfl
      · rcases List.mem_cons.mp hmem with rfl | hmem
        · exact Std.ReflCmp.isLE_rfl
        · have hlt := Std.OrientedCmp.gt_of_lt (habove x hmem)
          rw [hlt] at hxle
          cases hxle

theorem tail_eq [Std.TransCmp order] (h : Mapped order c S v) (h' : Mapped order c S w) :
    w.slots.tail = v.slots.tail := by
  have hself : ∀ x, order x x = .eq := fun _ => Std.ReflCmp.compare_self
  have : Std.Irrefl fun x y : K × PageId => order x.1 y.1 = .lt :=
    ⟨fun x hlt => nomatch hlt.symm.trans (hself x.1)⟩
  have : Std.Antisymm fun x y : K × PageId => order x.1 y.1 = .lt :=
    ⟨fun x y hlt hgt => nomatch hgt.symm.trans (Std.OrientedCmp.gt_of_lt hlt)⟩
  obtain ⟨k, l, hparts, hpairs⟩ := h.parts
  obtain ⟨k', l', hparts', hpairs'⟩ := h'.parts
  have hasc := h.ascending
  have hasc' := h'.ascending
  rw [hparts] at hasc ⊢
  rw [hparts'] at hasc' ⊢
  exact List.Pairwise.eq_of_mem_iff (List.pairwise_map.mp hasc') (List.pairwise_map.mp hasc)
    fun e => (hpairs' e).trans (hpairs e).symm

end Mapped

/-! ### Runs -/

theorem Run.mapped [Std.TransCmp order] {h : List (Entry K)} (hrun : Run order v h w)
    (hv : v.Sound) (hone : v.size = 1) : Mapped order (v.child 0) (remaining h) w := by
  induction hrun with
  | start => exact Mapped.of_size_one hv hone
  | step _ hu htask ih =>
      rw [remaining_concat]
      exact (answers_iff.mp (ih.task_answers hu)).of_ok htask

/-- From a node without separators, along every run of updates, each update that is offered
answers; the first child stays, and the slots behind it are the remaining pairs in ascending order.
Every probe leads to the child of the greatest remaining key that is not above it, or to the first
child.  Runs that leave the same pairs end with the same children and the same separators. -/
theorem Run.maps [Std.TransCmp order] (hv : v.Sound) (hone : v.size = 1) {h : List (Entry K)}
    (hrun : Run order v h w) :
    (∀ u : Update K, u.Offered order w → ∃ w', u.task order w = .ok () w') ∧
    w.child 0 = v.child 0 ∧ Ascending order w.slots ∧ {e | e ∈ w.slots.tail} = remaining h ∧
    (1 < w.size → ∀ probe,
      (∃ e ∈ remaining h, (order e.1 probe).isLE ∧
        (∀ x ∈ remaining h, (order x.1 probe).isLE → (order x.1 e.1).isLE) ∧
        w.route order probe = .ok e.2) ∨
      (∀ x ∈ remaining h, order probe x.1 = .lt) ∧ w.route order probe = .ok (v.child 0)) ∧
    ∀ (v' w' : Node K) (h' : List (Entry K)), v'.Sound → v'.size = 1 → v'.child 0 = v.child 0 →
      Run order v' h' w' → remaining h' = remaining h →
        w'.slots.map Prod.snd = w.slots.map Prod.snd ∧
          separators w'.slots = separators w.slots := by
  have hmapped := hrun.mapped hv hone
  obtain ⟨k, l, hparts, hpairs⟩ := hmapped.parts
  refine ⟨fun u hu => ?_, ?_, hmapped.ascending, ?_, fun hkeys => hmapped.route_eq hkeys, ?_⟩
  · obtain ⟨_, w', hw', _⟩ := hmapped.task_answers hu
    exact ⟨w', hw'⟩
  · have hslot : w.slot 0 = (k, v.child 0) := slot_at (a := []) hparts
    exact congrArg Prod.snd hslot
  · rw [hparts]
    exact Set.ext hpairs
  · intro v' w' h' hv' hone' hchild hrun' hsame
    have hmapped' := hrun'.mapped hv' hone'
    rw [hchild, hsame] at hmapped'
    obtain ⟨k', l', hparts', _⟩ := hmapped'.parts
    have htail := hmapped.tail_eq hmapped'
    rw [separators, separators, htail]
    rw [hparts, hparts', List.tail_cons, List.tail_cons] at htail
    rw [hparts, hparts', htail]
    exact ⟨rfl, rfl⟩

end Runs

/-- A node without separators. -/
def sole : Node UInt32 := ofSlots ⟨1⟩ ⟨0⟩ 3 [(0, ⟨10⟩)]

/-- Of two inserted pairs the first one is removed, and the other one is found. -/
theorem maps_three :
    sole.Sound ∧ sole.size = 1 ∧ ∃ h w, h.length = 3 ∧ Run compare sole h w ∧
      remaining h = {(10, ⟨11⟩)} ∧ {e | e ∈ w.slots.tail} = remaining h ∧
      w.route compare 15 = .ok ⟨11⟩ := by
  have hslots : sole.slots = [(0, ⟨10⟩)] :=
    (ofSlots_eq ⟨1⟩ ⟨0⟩ 3 _ (by decide) (by decide)).1
  have hone : sole.size = 1 := size_of_slots hslots
  have hv : sole.Sound := ofSlots_sound ⟨1⟩ ⟨0⟩ 3 _ (by decide) (by decide)
  have hchild : sole.child 0 = ⟨10⟩ := (Prod.mk.inj (slot_at (a := []) hslots)).2
  have hfirst : Mapped compare ⟨10⟩ ∅ sole := hchild ▸ Mapped.of_size_one hv hone
  have hinsert : (Update.insert 20 ⟨12⟩).Offered compare sole :=
    hfirst.offered_insert (by decide) (by simp) (by have := hv.two_le_maxSize; omega)
  obtain ⟨_, u, hu, hsingle⟩ := hfirst.insert_answers hinsert
  have hrun : Run compare sole [⟨sole, .insert 20 ⟨12⟩⟩] u := .step .start hinsert hu
  have hadded : (Update.insert 20 ⟨12⟩).apply sole ∅ = {(20, ⟨12⟩)} := by simp [Update.apply]
  rw [hadded] at hsingle
  have hslot : u.slot 1 = (20, ⟨12⟩) := by
    obtain ⟨k, l, hparts, hpairs⟩ := hsingle.parts
    have hlen := size_of_slots hparts
    rw [hsingle.size_eq, Set.ncard_singleton, List.length_cons] at hlen
    rw [slot_of_slots hparts (by simp; omega)]
    exact (hpairs _).mp (List.getElem_mem _)
  have herase : (Update.erase 1).Offered compare u :=
    ⟨Nat.le_refl 1, by rw [hsingle.size_eq, Set.ncard_singleton]; decide⟩
  obtain ⟨_, w, hw, hempty⟩ := hsingle.erase_answers herase
  have hrun := hrun.step herase hw
  have hremoved : (Update.erase 1).apply u {(20, ⟨12⟩)} = ∅ := by simp [Update.apply, hslot]
  rw [hremoved] at hempty
  have hreinsert : (Update.insert 10 ⟨11⟩).Offered compare w :=
    hempty.offered_insert (by decide) (by simp) (by
      have hmax := hempty.sound.two_le_maxSize
      rw [hempty.size_eq, Set.ncard_empty]
      omega)
  obtain ⟨_, x, hx, hlast⟩ := hempty.insert_answers hreinsert
  have hrun : Run compare sole
      [⟨sole, .insert 20 ⟨12⟩⟩, ⟨u, .erase 1⟩, ⟨w, .insert 10 ⟨11⟩⟩] x := hrun.step hreinsert hx
  have hremaining : remaining [⟨sole, .insert 20 ⟨12⟩⟩, ⟨u, .erase 1⟩, ⟨w, .insert 10 ⟨11⟩⟩] =
      {(10, ⟨11⟩)} := by
    simp only [remaining, List.foldl_cons, List.foldl_nil, hadded, hremoved]
    simp [Update.apply]
  have hkeys : 1 < x.size := by
    rw [(hrun.mapped hv hone).size_eq, hremaining, Set.ncard_singleton]
    decide
  obtain ⟨-, -, -, hpairs, hroute, -⟩ := Run.maps hv hone hrun
  refine ⟨hv, hone, _, x, rfl, hrun, hremaining, hpairs, ?_⟩
  rcases hroute hkeys 15 with ⟨e, he, -, -, hroute⟩ | ⟨habove, -⟩
  · rw [hremaining] at he
    rw [hroute, he]
  · exact absurd (habove (10, ⟨11⟩) (hremaining ▸ rfl)) (by decide)

end PagedIndex.Node
