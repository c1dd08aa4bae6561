import PagedIndex.Proofs.Node.Neighbours
import PagedIndex.Proofs.Tree.Steps

/-! # Well-formed families

`Tree.Formed` is the invariant of a parent and its children: the parent's slots point at the
children in order, all pages are different, and the slots in order have ascending separators and
different children.  `Formed.replace` is how every step restores it: some neighbours are
replaced by others, with the slots of the parent above them. -/

namespace PagedIndex.Tree

open PagedIndex.Action PagedIndex.Node

variable {K : Type} [Key K]

/-! ### Rows -/

section Hanging

variable {K : Type} {key : K} {l m : List (K × PageId)} {e : K × PageId}

theorem hang_append (h : l ≠ []) : hang key (l ++ m) = hang key l ++ m := by
  cases l with
  | nil => exact absurd rfl h
  | cons e l => rfl

theorem separators_hang (key : K) (l : List (K × PageId)) :
    separators (hang key l) = separators l := by
  cases l <;> rfl

theorem map_snd_hang : (hang key l).map Prod.snd = l.map Prod.snd := by
  cases l <;> rfl

/-- The key that a slot counts under when slots stand in front of it. -/
def hungKey (key : K) (l : List (K × PageId)) (e : K × PageId) : K :=
  if l = [] then key else e.1

theorem hang_at (key : K) (l m : List (K × PageId)) (e : K × PageId) :
    hang key (l ++ e :: m) = hang key l ++ (hungKey key l e, e.2) :: m := by
  cases l <;> rfl

end Hanging

section Rows

variable {P Q : List (K × PageId)} {C D : List (Node K)}

@[simp] theorem row_nil : row ([] : List (K × PageId)) ([] : List (Node K)) = [] := rfl

@[simp] theorem row_cons (e : K × PageId) (c : Node K) :
    row (e :: P) (c :: C) = hang e.1 c.slots ++ row P C := rfl

theorem row_append (h : P.length = C.length) : row (P ++ Q) (C ++ D) = row P C ++ row Q D := by
  rw [row, List.zipWith_append h, List.flatten_append]
  rfl

theorem keys_sublist_row (hlen : P.length = C.length) (hC : ∀ c ∈ C, c.slots ≠ []) :
    (P.map Prod.fst).Sublist ((row P C).map Prod.fst) := by
  induction P generalizing C with
  | nil => exact List.nil_sublist _
  | cons e P ih =>
      cases C with
      | nil => exact absurd hlen (Nat.succ_ne_zero _)
      | cons c C =>
          have hrest := ih (Nat.succ.inj hlen) fun d hd => hC d (List.mem_cons_of_mem c hd)
          cases hc : c.slots with
          | nil => exact absurd hc (hC c List.mem_cons_self)
          | cons x l =>
              rw [row_cons, hc, hang, List.cons_append, List.map_cons, List.map_cons,
                List.map_append]
              exact (hrest.trans (List.sublist_append_right _ _)).cons_cons e.1

theorem separators_sublist_row (hlen : P.length = C.length) (hC : ∀ c ∈ C, c.slots ≠ []) :
    (separators P).Sublist (separators (row P C)) := by
  cases P with
  | nil => exact List.nil_sublist _
  | cons e P =>
      cases C with
      | nil => exact absurd hlen (Nat.succ_ne_zero _)
      | cons c C =>
          have hrest := keys_sublist_row (Nat.succ.inj hlen) fun d hd =>
            hC d (List.mem_cons_of_mem c hd)
          cases hc : c.slots with
          | nil => exact absurd hc (hC c List.mem_cons_self)
          | cons x l =>
              rw [row_cons, hc, hang, separators, separators, List.cons_append, List.tail_cons,
                List.tail_cons, List.map_append]
              exact hrest.trans (List.sublist_append_right _ _)

end Rows

/-! ### Families -/

/-- A child of the parent. -/
structure Kin (parent c : Node K) : Prop where
  sound : c.Sound
  maxSize : c.maxSize = parent.maxSize
  parentId : parent.pageId = c.parentId

/-- The parent points at its children in order; their slots ascend and lead to different pages. -/
structure Formed (order : K → K → Ordering) (t : Tree K) : Prop where
  parent : t.parent.Sound
  kin : ∀ c ∈ t.children, Kin t.parent c
  points : t.parent.slots.map Prod.snd = t.children.map Node.pageId
  pages : t.pageIds.Nodup
  ascending : Ascending order t.inorder
  apart : (t.inorder.map Prod.snd).Nodup

section Families

variable {order : K → K → Ordering} {p p' c : Node K} {P Q R S : List (K × PageId)}
variable {C D E F : List (Node K)}

theorem Kin.of_same {c' : Node K} (h : Kin p c) (hc : Same c c') (hpos : 1 ≤ c'.size)
    (hle : c'.size ≤ p.maxSize + 1) : Kin p c' where
  sound := h.sound.of_same hc hpos (by rwa [h.maxSize])
  maxSize := by rw [hc.maxSize, h.maxSize]
  parentId := by rw [hc.parentId, h.parentId]

theorem Kin.of_parent (h : Kin p c) (hp : Same p p') : Kin p' c where
  sound := h.sound
  maxSize := by rw [h.maxSize, hp.maxSize]
  parentId := by rw [hp.pageId, h.parentId]

theorem Kin.size_le (h : Kin p c) : c.size ≤ p.maxSize + 1 := by
  rw [← h.maxSize]
  exact h.sound.size_le

theorem inorder_parts (hp : p.slots = P ++ (Q ++ R)) (hP : P.map Prod.snd = C.map Node.pageId)
    (hQ : Q.map Prod.snd = D.map Node.pageId) :
    inorder ⟨p, C ++ (D ++ E)⟩ = row P C ++ (row Q D ++ row R E) := by
  have hlenP : P.length = C.length := by simpa using congrArg List.length hP
  have hlenQ : Q.length = D.length := by simpa using congrArg List.length hQ
  rw [inorder, hp, row_append hlenP, row_append hlenQ]

theorem Formed.length_eq {t : Tree K} (h : Formed order t) :
    t.parent.slots.length = t.children.length := by
  simpa using congrArg List.length h.points

/-- One child with what stands beside it, and the slots of the parent above. -/
theorem Formed.above_child (h : Formed order ⟨p, C ++ c :: D⟩) :
    ∃ P e R, p.slots = P ++ e :: R ∧ P.map Prod.snd = C.map Node.pageId ∧ e.2 = c.pageId ∧
      R.map Prod.snd = D.map Node.pageId := by
  obtain ⟨P, Q, hslots, hP, hQ⟩ := List.map_eq_append_iff.mp (h.points.trans List.map_append)
  obtain ⟨e, R, rfl, he, hR⟩ := List.map_eq_cons_iff.mp hQ
  exact ⟨P, e, R, hslots, hP, he, hR⟩

/-- Two neighbours with the slots of the parent above. -/
theorem Formed.above_two {r : Node K} (h : Formed order ⟨p, C ++ c :: r :: D⟩) :
    ∃ P x y R, p.slots = P ++ x :: y :: R ∧ P.map Prod.snd = C.map Node.pageId ∧
      x.2 = c.pageId ∧ y.2 = r.pageId := by
  obtain ⟨P, x, yR, hslots, hP, hx, hyR⟩ := h.above_child
  obtain ⟨y, R, rfl, hy, _⟩ := List.map_eq_cons_iff.mp hyR
  exact ⟨P, x, y, R, hslots, hP, hx, hy⟩

theorem row_child {P R : List (K × PageId)} {e : K × PageId}
    (hP : P.map Prod.snd = C.map Node.pageId) :
    row (P ++ e :: R) (C ++ c :: D) = row P C ++ hang e.1 c.slots ++ row R D := by
  rw [row_append (by simpa using congrArg List.length hP), row_cons, List.append_assoc]

/-! ### Searching -/

theorem Formed.parent_ascending {t : Tree K} (h : Formed order t) :
    Ascending order t.parent.slots :=
  h.ascending.sublist
    (separators_sublist_row h.length_eq fun c hc => (h.kin c hc).sound.slots_ne_nil)

theorem Formed.child_ascending (h : Formed order ⟨p, C ++ c :: D⟩) : Ascending order c.slots := by
  obtain ⟨P, e, R, hslots, hP, _, _⟩ := h.above_child
  refine h.ascending.sublist ?_
  rw [inorder, hslots, row_child hP, ← separators_hang e.1]
  exact separators_sublist _ _ _

theorem Formed.child_apart (h : Formed order ⟨p, C ++ c :: D⟩) : (c.slots.map Prod.snd).Nodup := by
  obtain ⟨P, e, R, hslots, hP, _, _⟩ := h.above_child
  have hapart := h.apart
  rw [inorder, hslots, row_child hP, List.map_append, List.map_append, map_snd_hang] at hapart
  exact (List.nodup_append.mp (List.nodup_append.mp hapart).1).2.1

theorem Formed.notMem_before {a b : List (K × PageId)} {x : K × PageId}
    (h : Formed order ⟨p, C ++ c :: D⟩) (hc : c.slots = a ++ x :: b) : x.2 ∉ a.map Prod.snd := by
  have hapart := h.child_apart
  rw [hc, List.map_append] at hapart
  exact fun hmem => (List.nodup_append.mp hapart).2.2 _ hmem _ (by simp) rfl

theorem Formed.pageId_notMem (h : Formed order ⟨p, C ++ c :: D⟩) :
    c.pageId ∉ C.map Node.pageId := by
  have hpages := (List.nodup_cons.mp h.pages).2
  simp only [List.map_append, List.map_cons] at hpages
  intro hmem
  exact (List.nodup_append.mp hpages).2.2 _ hmem _ List.mem_cons_self rfl

omit [Key K] in
theorem findIdx_pageId (h : c.pageId ∉ C.map Node.pageId) :
    (C ++ c :: D).findIdx (fun d => d.pageId = c.pageId) = C.length := by
  have hC : C.findIdx (fun d => decide (d.pageId = c.pageId)) = C.length := by
    rw [List.findIdx_eq_length]
    intro d hd
    exact decide_eq_false fun heq => h (heq ▸ List.mem_map_of_mem hd)
  rw [List.findIdx_append, hC, if_neg (Nat.lt_irrefl _), List.findIdx_cons]
  simp

omit [Key K] in
theorem child_at : (⟨p, C ++ c :: D⟩ : Tree K).child C.length = c := by
  simp [child]

/-- A search ends in a child at a slot which covers the probe there and in order. -/
theorem Formed.locate_covers [Std.TransCmp order] {t : Tree K} (h : Formed order t) (probe : K) :
    ∃ C c D P e R a x b, t.children = C ++ c :: D ∧ t.parent.slots = P ++ e :: R ∧
      P.map Prod.snd = C.map Node.pageId ∧ c.slots = a ++ x :: b ∧
      t.locate order probe = .ok (C.length, x.2) ∧
      Covers order probe (row P C ++ hang e.1 a) (hungKey e.1 a x, x.2) (b ++ row R D) := by
  obtain ⟨p, children⟩ := t
  obtain ⟨P, e, R, hslots, hseek, hparent⟩ :=
    seek_covers probe h.parent.size_le_capacity h.parent.size_pos h.parent_ascending
  have hpoints := h.points
  rw [hslots, List.map_append, List.map_cons] at hpoints
  obtain ⟨C, cD, rfl, hC, hcD⟩ := List.map_eq_append_iff.mp hpoints.symm
  obtain ⟨c, D, rfl, hc, hD⟩ := List.map_eq_cons_iff.mp hcD
  have hsound := (h.kin c (by simp)).sound
  obtain ⟨a, x, b, hslotsc, hseekc, hchild⟩ :=
    seek_covers probe hsound.size_le_capacity hsound.size_pos h.child_ascending
  refine ⟨C, c, D, P, e, R, a, x, b, rfl, hslots, hC.symm, hslotsc, ?_, ?_, ?_⟩
  · simp only [locate, hseek, ← hc, bind, Except.bind, findIdx_pageId h.pageId_notMem, child_at,
      hseekc]
    rfl
  · intro hne
    cases a with
    | nil =>
        refine hparent.le fun hP => hne ?_
        rw [hP, List.map_nil, List.map_eq_nil_iff] at hC
        rw [hP, hC]
        rfl
    | cons z a => exact hchild.le (List.cons_ne_nil z a)
  · intro z hz
    cases b with
    | cons y b => exact hchild.lt z hz
    | nil =>
        cases R with
        | nil => exact absurd hz (by simp [row])
        | cons r R =>
            obtain ⟨d, D, rfl, _, _⟩ := List.map_eq_cons_iff.mp hD
            have hd : d.slots ≠ [] := (h.kin d (by simp)).sound.slots_ne_nil
            cases hslotsd : d.slots with
            | nil => exact absurd hslotsd hd
            | cons y l =>
                have hhead : z = (r.1, y.2) := by simpa [hslotsd, hang, eq_comm] using hz
                rw [hhead]
                exact hparent.lt r rfl

theorem inorder_at {P R : List (K × PageId)} {e x : K × PageId} {a b : List (K × PageId)}
    (hslots : p.slots = P ++ e :: R) (hP : P.map Prod.snd = C.map Node.pageId)
    (hc : c.slots = a ++ x :: b) :
    inorder ⟨p, C ++ c :: D⟩ =
      (row P C ++ hang e.1 a) ++ (hungKey e.1 a x, x.2) :: (b ++ row R D) := by
  rw [inorder, hslots, row_child hP, hc, hang_at]
  simp

/-- A search in a formed family finds what a scan of all slots in order finds. -/
theorem Formed.lookup_eq [Std.TransCmp order] {t : Tree K} (h : Formed order t) (probe : K) :
    ∃ id, t.lookup order probe = .ok id ∧ scan order probe t.inorder = some id := by
  obtain ⟨C, c, D, P, e, R, a, x, b, hchildren, hslots, hP, hc, hlocate, hcovers⟩ :=
    h.locate_covers probe
  obtain ⟨p, children⟩ := t
  subst hchildren
  have hinorder := inorder_at (D := D) hslots hP hc
  have hasc := h.ascending
  rw [hinorder] at hasc ⊢
  exact ⟨x.2, by rw [lookup, hlocate]; rfl, hcovers.scan_eq hasc⟩

/-! ### Replacing children -/

/-- No child overflows. -/
def Settled (t : Tree K) : Prop := ∀ c ∈ t.children, c.size ≤ t.parent.maxSize

omit [Key K] in
theorem Settled.without (h : Settled ⟨p, C ++ (D ++ E)⟩) : Settled ⟨p, C ++ E⟩ := by
  intro c hc
  apply h c
  simp only [List.mem_append] at hc ⊢
  exact hc.imp_right .inr

/-- Some neighbours and the slots above them are replaced, and the slots in order stay.  The new
children do not overflow. -/
theorem Formed.replace (h : Formed order ⟨p, C ++ (D ++ E)⟩) (hslots : p.slots = P ++ (Q ++ R))
    (hP : P.map Prod.snd = C.map Node.pageId) (hQ : Q.map Prod.snd = D.map Node.pageId)
    (hp : Same p p') (hsize : p'.size ≤ p.maxSize + 1) (hslots' : p'.slots = P ++ (S ++ R))
    (hS : S.map Prod.snd = F.map Node.pageId) (hpos : 1 ≤ p'.size)
    (hkin : ∀ c ∈ F, Kin p c ∧ c.size ≤ p.maxSize)
    (hpages : (pageIds ⟨p, C ++ (F ++ E)⟩).Nodup) (hrow : row S F = row Q D) :
    Formed order ⟨p', C ++ (F ++ E)⟩ ∧
      inorder ⟨p', C ++ (F ++ E)⟩ = inorder ⟨p, C ++ (D ++ E)⟩ ∧
      (Settled ⟨p, C ++ E⟩ → Settled ⟨p', C ++ (F ++ E)⟩) := by
  have hinorder : inorder ⟨p', C ++ (F ++ E)⟩ = inorder ⟨p, C ++ (D ++ E)⟩ := by
    rw [inorder_parts hslots' hP hS, inorder_parts hslots hP hQ, hrow]
  have hR : R.map Prod.snd = E.map Node.pageId := by
    have hpoints := h.points
    simp only [hslots, List.map_append, hP, hQ, List.append_cancel_left_eq] at hpoints
    exact hpoints
  have hsplit : ∀ c ∈ C ++ (F ++ E), c ∈ F ∨ c ∈ C ++ E := by
    intro c hc
    simp only [List.mem_append] at hc ⊢
    rcases hc with hc | hc | hc
    · exact .inr (.inl hc)
    · exact .inl hc
    · exact .inr (.inr hc)
  have hold : ∀ c ∈ C ++ E, Kin p c := fun c hc => h.kin c (by
    simp only [List.mem_append] at hc ⊢
    exact hc.imp_right .inr)
  refine ⟨⟨h.parent.of_same hp hpos hsize, fun c hc => ?_, ?_, ?_, ?_, ?_⟩, hinorder, ?_⟩
  · have hkin' : Kin p c := (hsplit c hc).elim (fun hc => (hkin c hc).1) (hold c)
    exact hkin'.of_parent hp
  · simp only [hslots', List.map_append, hP, hS, hR]
  · unfold pageIds at hpages ⊢
    rwa [hp.pageId]
  · rw [hinorder]
    exact h.ascending
  · rw [hinorder]
    exact h.apart
  · intro hsettled c hc
    have hle : c.size ≤ p.maxSize := (hsplit c hc).elim (fun hc => (hkin c hc).2) (hsettled c)
    rwa [← hp.maxSize] at hle

end Families

end PagedIndex.Tree
