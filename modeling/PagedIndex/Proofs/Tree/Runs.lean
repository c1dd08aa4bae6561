import PagedIndex.Key.Integer
import PagedIndex.Proofs.Tree.Moves

/-! # Routing along runs

Every step whose preconditions hold answers and keeps a family formed; in order it adds the slots
that it inserts and nothing else (`perform_grows`).  So along a whole run (`run_routes`) no key
and no child is lost, doubled or put out of place, and every search by the parent and then by a
child ends where a scan of all slots in order ends. -/

namespace PagedIndex.Tree

open PagedIndex.Action PagedIndex.Node PagedIndex.Node.Edit

attribute [local irreducible] Ends

variable {K : Type} [Key K] {order : K → K → Ordering}

/-- A formed family with some more slots in order, behind the same first one. -/
structure Grown (order : K → K → Ordering) (t : Tree K) (added : List (K × PageId))
    (u : Tree K) : Prop where
  formed : Formed order u
  perm : u.inorder.Perm (t.inorder ++ added)
  head : u.inorder.head? = t.inorder.head?
  settled : t.Settled → u.Settled

section Grown

variable {t u w : Tree K} {added more : List (K × PageId)}

theorem Grown.refl (h : Formed order t) : Grown order t [] t :=
  ⟨h, by rw [List.append_nil], rfl, id⟩

theorem Grown.trans (h : Grown order t added u) (h' : Grown order u more w) :
    Grown order t (added ++ more) w where
  formed := h'.formed
  perm := by
    rw [← List.append_assoc]
    exact h'.perm.trans (h.perm.append_right more)
  head := h'.head.trans h.head
  settled := fun hs => h'.settled (h.settled hs)

theorem Moved.grown (h : Moved order t u) : Grown order t [] u :=
  ⟨h.formed, by rw [List.append_nil, h.inorder], by rw [h.inorder], h.settled⟩

end Grown

variable {p c c' : Node K} {C D : List (Node K)} {key : K} {id : PageId}

/-! ### Insertions -/

/-- A slot behind the one that covers its key. -/
theorem Formed.grow [Std.TransCmp order] {P R a b : List (K × PageId)} {e x : K × PageId}
    (h : Formed order ⟨p, C ++ c :: D⟩) (hslots : p.slots = P ++ e :: R)
    (hP : P.map Prod.snd = C.map Node.pageId) (hc : c.slots = a ++ x :: b)
    (hcovers : Covers order key (row P C ++ hang e.1 a) (hungKey e.1 a x, x.2) (b ++ row R D))
    (hkey : ∀ y ∈ separators (inorder ⟨p, C ++ c :: D⟩), order key y ≠ .eq)
    (hid : id ∉ (inorder ⟨p, C ++ c :: D⟩).map Prod.snd) (hroom : c.size ≤ p.maxSize)
    (hsame : Same c c') (hc' : c'.slots = a ++ x :: (key, id) :: b) :
    Formed order ⟨p, C ++ c' :: D⟩ ∧
      (inorder ⟨p, C ++ c' :: D⟩).Perm (inorder ⟨p, C ++ c :: D⟩ ++ [(key, id)]) ∧
      (inorder ⟨p, C ++ c' :: D⟩).head? = (inorder ⟨p, C ++ c :: D⟩).head? := by
  have hsize := size_behind hc hc'
  have hasc := h.ascending
  have hapart := h.apart
  have hbefore := inorder_at (D := D) hslots hP hc
  have hafter := inorder_at (D := D) hslots hP hc'
  rw [hbefore] at hasc hapart hkey hid ⊢
  rw [hafter]
  have hperm : ((row P C ++ hang e.1 a) ++ (hungKey e.1 a x, x.2) :: (key, id) ::
      (b ++ row R D)).Perm ((key, id) :: ((row P C ++ hang e.1 a) ++ (hungKey e.1 a x, x.2) ::
      (b ++ row R D))) := by
    have hmiddle : ((row P C ++ hang e.1 a ++ [(hungKey e.1 a x, x.2)]) ++ (key, id) ::
        (b ++ row R D)).Perm _ := List.perm_middle
    simpa using hmiddle
  refine ⟨⟨h.parent, ?_, ?_, ?_, ?_, ?_⟩, ?_, ?_⟩
  · intro d hd
    rcases List.mem_append.mp hd with hd | hd
    · exact h.kin d (by simp [hd])
    · rcases List.mem_cons.mp hd with rfl | hd
      · have hkin : Kin p c := h.kin c (by simp)
        exact hkin.of_same hsame (by omega) (by omega)
      · exact h.kin d (by simp [hd])
  · have hpoints := h.points
    simp only [List.map_append, List.map_cons] at hpoints ⊢
    rw [hsame.pageId]
    exact hpoints
  · have hpages := h.pages
    simp only [pageIds, List.map_append, List.map_cons] at hpages ⊢
    rwa [hsame.pageId]
  · rw [hafter]
    exact hcovers.ascending hasc hkey id
  · rw [hafter]
    apply (hperm.map Prod.snd).nodup_iff.mpr
    exact List.nodup_cons.mpr ⟨hid, hapart⟩
  · exact hperm.trans (List.perm_append_singleton _ _).symm
  · cases row P C ++ hang e.1 a <;> rfl

theorem insert_grows [Std.TransCmp order] {t : Tree K} (h : Formed order t) {page : Page}
    {pageId : PageId} (hready : t.Ready order (.insert key id page pageId)) :
    (insert order key id page pageId).Answers t fun _ u => Grown order t [(key, id)] u := by
  obtain ⟨hkey, hid, hroom⟩ := hready
  obtain ⟨C, c, D, P, e, R, a, x, b, hchildren, hslots, hP, hc, hlocate, hcovers⟩ :=
    h.locate_covers key
  obtain ⟨p, children⟩ := t
  subst hchildren
  obtain ⟨hfit, hsplit⟩ : c.size ≤ p.maxSize ∧
      (c.size = p.maxSize → p.size ≤ p.maxSize ∧ pageId ∉ pageIds ⟨p, C ++ c :: D⟩) := by
    have hready := hroom C.length x.2 hlocate
    rwa [child_at] at hready
  have hkin : Kin p c := h.kin c (by simp)
  simp only [insert, answers_iff, ends_bind, ends_get, ends_discard, ends_onChild,
    ends_answer hlocate]
  refine (insertAfter_answers hkin.sound (by rwa [hkin.maxSize]) hc
    (h.notMem_before hc)).ends ?_
  intro _ c' hinsert
  obtain ⟨_, hsame, hc'⟩ := hinsert
  obtain ⟨hformed, hperm, hhead⟩ := h.grow hslots hP hc hcovers hkey hid hfit hsame hc'
  have hsize := size_behind hc hc'
  have hmax : c'.maxSize = p.maxSize := by rw [hsame.maxSize, hkin.maxSize]
  rw [child_at]
  by_cases hover : c'.isOverflowing
  · have hlt : c'.maxSize < c'.size := of_decide_eq_true hover
    obtain ⟨hparent, hnew⟩ := hsplit (by omega)
    have hnew' : pageId ∉ pageIds ⟨p, C ++ c' :: D⟩ := by
      simpa [pageIds, hsame.pageId] using hnew
    have hpos := hkin.sound.size_pos
    rw [if_pos hover]
    apply (split_formed hformed (by omega) hparent page hnew').ends
    intro _ u hu
    obtain ⟨hu, hinorder, hsettled⟩ := hu
    rw [← hinorder] at hperm hhead
    exact ⟨hu, hperm, hhead, fun hs => hsettled (Settled.without (D := [c]) hs)⟩
  · have hle : c'.size ≤ c'.maxSize := by
      simpa [isOverflowing] using hover
    rw [if_neg hover, ends_pure]
    refine ⟨hformed, hperm, hhead, fun hs d hd => ?_⟩
    rcases List.mem_append.mp hd with hd | hd
    · exact hs d (by simp [hd])
    · rcases List.mem_cons.mp hd with rfl | hd
      · rwa [hmax] at hle
      · exact hs d (by simp [hd])

/-! ### Steps and runs -/

omit [Key K] in
theorem exists_neighbours {t : Tree K} {i : Nat} (h : i + 1 < t.children.length) :
    ∃ C l r E, t.children = C ++ l :: r :: E ∧ C.length = i := by
  refine ⟨t.children.take i, t.children[i], t.children[i + 1], t.children.drop (i + 2), ?_, ?_⟩
  · rw [← List.drop_eq_getElem_cons h, ← List.drop_eq_getElem_cons (by omega),
      List.take_append_drop]
  · rw [List.length_take]
    omega

/-- A step whose preconditions hold answers, and adds in order what it inserts. -/
theorem perform_grows [Std.TransCmp order] {t : Tree K} (h : Formed order t) {s : Step K}
    (hready : t.Ready order s) :
    (perform order s).Answers t fun _ u => Grown order t s.added u := by
  cases s with
  | insert key id page pageId => exact insert_grows h hready
  | lendFirst i =>
      obtain ⟨hi, hlend, hroom⟩ := hready
      obtain ⟨C, l, r, E, hchildren, rfl⟩ := exists_neighbours hi
      obtain ⟨p, children⟩ := t
      subst hchildren
      rw [child_succ] at hlend
      rw [child_at] at hroom
      exact (lendFirst_moved h hlend hroom).mono fun _ _ hu => hu.grown
  | lendLast i =>
      obtain ⟨hi, hlend, hroom⟩ := hready
      obtain ⟨C, l, r, E, hchildren, rfl⟩ := exists_neighbours hi
      obtain ⟨p, children⟩ := t
      subst hchildren
      rw [child_at] at hlend
      rw [child_succ] at hroom
      exact (lendLast_moved h hlend hroom).mono fun _ _ hu => hu.grown
  | merge i =>
      obtain ⟨hi, hfit⟩ := hready
      obtain ⟨C, l, r, E, hchildren, rfl⟩ := exists_neighbours hi
      obtain ⟨p, children⟩ := t
      subst hchildren
      rw [child_at, child_succ] at hfit
      exact (merge_moved h hfit).mono fun _ _ hu => hu.grown

theorem run_grows [Std.TransCmp order] {ss : List (Step K)} :
    ∀ {t : Tree K}, Formed order t → Legal order t ss →
      (run order ss).Answers t fun _ u => Grown order t (ss.flatMap Step.added) u := by
  induction ss with
  | nil => exact fun h _ => ⟨(), _, rfl, Grown.refl h⟩
  | cons s ss ih =>
      intro t h hlegal
      rw [run]
      apply (perform_grows h hlegal.1).bind
      intro _ u hu hgrown
      have hrest := ih hgrown.formed (hlegal.2 u hu)
      exact hrest.mono fun _ _ hw => hgrown.trans hw

/-- Along every run of steps whose preconditions hold, the steps answer, and the family stays
formed with exactly the slots from before and the inserted ones in ascending order; every probe
is led by the parent and then by a child to where a scan of all slots in order ends. -/
theorem run_routes [Std.TransCmp order] {t : Tree K} (h : Formed order t) {ss : List (Step K)}
    (hlegal : Legal order t ss) :
    ∃ u, run order ss t = .ok () u ∧ Grown order t (ss.flatMap Step.added) u ∧
      ∀ probe, ∃ id, u.lookup order probe = .ok id ∧ scan order probe u.inorder = some id := by
  obtain ⟨_, u, hu, hgrown⟩ := run_grows h hlegal
  exact ⟨u, hu, hgrown, hgrown.formed.lookup_eq⟩

/-! ### An instance -/

/-- A parent of two full children. -/
def twins : Tree UInt32 where
  parent := ofSlots ⟨0⟩ PageId.invalid 2 [(0, ⟨1⟩), (20, ⟨2⟩)]
  children :=
    [ofSlots ⟨1⟩ ⟨0⟩ 2 [(0, ⟨10⟩), (10, ⟨11⟩)], ofSlots ⟨2⟩ ⟨0⟩ 2 [(0, ⟨12⟩), (30, ⟨13⟩)]]

theorem node_of_pair (pageId parentId : PageId) (x y : UInt32 × PageId) :
    (ofSlots pageId parentId 2 [x, y]).Sound ∧ (ofSlots pageId parentId 2 [x, y]).size = 2 ∧
      (ofSlots pageId parentId 2 [x, y]).slots = [x, y] ∧
      (ofSlots pageId parentId 2 [x, y]).maxSize = 2 ∧
      (ofSlots pageId parentId 2 [x, y]).pageId = pageId ∧
      (ofSlots pageId parentId 2 [x, y]).parentId = parentId := by
  have hmax : 2 ≤ 2 ∧ 2 < capacity UInt32 := by decide
  have heq := ofSlots_eq pageId parentId 2 [x, y] hmax.2 (show 2 ≤ capacity UInt32 by decide)
  exact ⟨ofSlots_sound pageId parentId 2 [x, y] hmax ⟨by simp, by simp⟩, size_of_slots heq.1, heq⟩

theorem twins_inorder : twins.inorder = [(0, ⟨10⟩), (10, ⟨11⟩), (20, ⟨12⟩), (30, ⟨13⟩)] := by
  simp only [twins, inorder, node_of_pair, row_cons, row_nil, hang]
  rfl

theorem twins_formed : Formed compare twins where
  parent := (node_of_pair ..).1
  kin := by
    simp only [twins, List.mem_cons, List.not_mem_nil, or_false]
    rintro c (rfl | rfl)
    · exact ⟨(node_of_pair ..).1, by simp only [node_of_pair], by simp only [node_of_pair]⟩
    · exact ⟨(node_of_pair ..).1, by simp only [node_of_pair], by simp only [node_of_pair]⟩
  points := by simp [twins, node_of_pair]
  pages := by
    simp only [twins, pageIds, List.map_cons, List.map_nil, node_of_pair]
    decide
  ascending := by
    rw [Ascending, twins_inorder]
    decide
  apart := by
    rw [twins_inorder]
    decide

/-- A slot is inserted into the first child of `twins`, which splits. -/
theorem twins_insert_routes :
    Formed compare twins ∧ Legal compare twins [.insert 15 ⟨14⟩ Page.zero ⟨3⟩] ∧
      ∃ u, run compare [.insert 15 ⟨14⟩ Page.zero ⟨3⟩] twins = .ok () u ∧
        Grown compare twins [(15, ⟨14⟩)] u ∧
        ∀ probe, ∃ id, u.lookup compare probe = .ok id ∧
          scan compare probe u.inorder = some id := by
  have hlegal : Legal compare twins [.insert 15 ⟨14⟩ Page.zero ⟨3⟩] := by
    refine ⟨⟨fun x hx => ?_, ?_, ?_⟩, fun _ _ => trivial⟩
    · simp only [twins_inorder, separators, List.tail_cons, List.map_cons, List.map_nil,
        List.mem_cons, List.not_mem_nil, or_false] at hx
      rcases hx with rfl | rfl | rfl <;> decide
    · rw [twins_inorder]
      decide
    · intro i old hi
      obtain ⟨C, c, D, _, _, _, _, _, _, hchildren, _, _, _, hlocate, _⟩ :=
        twins_formed.locate_covers 15
      rw [hlocate] at hi
      obtain rfl : C.length = i := congrArg Prod.fst (Except.ok.inj hi)
      have hchild : twins.child C.length = c := by simp [child, hchildren]
      have hsize : ∀ d ∈ twins.children, d.size = 2 := by simp [twins, node_of_pair]
      have hmax : twins.parent.maxSize = 2 := by simp only [twins, node_of_pair]
      have hparent : twins.parent.size = 2 := by simp only [twins, node_of_pair]
      have hnew : (⟨3⟩ : PageId) ∉ twins.pageIds := by
        simp only [twins, pageIds, List.map_cons, List.map_nil, node_of_pair]
        decide
      rw [hchild, hsize c (by rw [hchildren]; simp), hmax, hparent]
      exact ⟨Nat.le_refl 2, fun _ => ⟨Nat.le_refl 2, hnew⟩⟩
  exact ⟨twins_formed, hlegal, run_routes twins_formed hlegal⟩

end PagedIndex.Tree
