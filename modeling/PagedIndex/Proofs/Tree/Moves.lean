import PagedIndex.Proofs.Tree.Formed

/-! # Moves between neighbours

Splitting, borrowing and merging keep a family formed and its slots in order as they are.  None
of them leaves a child that overflows behind. -/

namespace PagedIndex.Tree

open PagedIndex.Action PagedIndex.Node PagedIndex.Node.Edit

-- The programs in these goals are opened by the lemmas about `Ends` alone.
attribute [local irreducible] Ends

variable {K : Type}

/-! ### Actions on neighbours -/

section Neighbours

variable {α : Type} {Q : α → Tree K → Prop} {F : Fault → Tree K → Prop}
variable {p l r c : Node K} {C E : List (Node K)}

theorem child_succ : (⟨p, C ++ l :: r :: E⟩ : Tree K).child (C.length + 1) = r := by
  simp [child]

theorem ends_onChild {x : Node.Edit K α} :
    Ends (onChild C.length x) ⟨p, C ++ c :: E⟩ Q F ↔
      Ends x c (fun a v => Q a ⟨p, C ++ v :: E⟩) fun e v => F e ⟨p, C ++ v :: E⟩ := by
  simp [onChild, child]

theorem ends_onSplit {x : Split.Edit K α} :
    Ends (onSplit C.length (C.length + 1) x) ⟨p, C ++ l :: r :: E⟩ Q F ↔
      Ends x ⟨l, r⟩ (fun a s => Q a ⟨p, C ++ s.node :: s.recipient :: E⟩)
        fun e s => F e ⟨p, C ++ s.node :: s.recipient :: E⟩ := by
  simp [onSplit, child]

theorem ends_rightward {x : Family.Edit K α} :
    Ends (onFamily C.length (C.length + 1) x) ⟨p, C ++ l :: r :: E⟩ Q F ↔
      Ends x ⟨l, r, p⟩ (fun a s => Q a ⟨s.parent, C ++ s.node :: s.recipient :: E⟩)
        fun e s => F e ⟨s.parent, C ++ s.node :: s.recipient :: E⟩ := by
  simp [onFamily, child]

theorem ends_leftward {x : Family.Edit K α} :
    Ends (onFamily (C.length + 1) C.length x) ⟨p, C ++ l :: r :: E⟩ Q F ↔
      Ends x ⟨r, l, p⟩ (fun a s => Q a ⟨s.parent, C ++ s.recipient :: s.node :: E⟩)
        fun e s => F e ⟨s.parent, C ++ s.recipient :: s.node :: E⟩ := by
  simp [onFamily, child]

end Neighbours

/-! ### What moves keep -/

variable [Key K] {order : K → K → Ordering}

/-- A formed family with the same slots in order. -/
structure Moved (order : K → K → Ordering) (t u : Tree K) : Prop where
  formed : Formed order u
  inorder : u.inorder = t.inorder
  settled : t.Settled → u.Settled

variable {p p' l l' r r' c : Node K} {C E : List (Node K)}

/-! ### Borrowing -/

/-- Two neighbours share their slots in another way, with another separator above. -/
theorem exchange_moved {P R : List (K × PageId)} {x y : K × PageId} {key : K}
    (h : Formed order ⟨p, C ++ l :: r :: E⟩) (hslots : p.slots = P ++ x :: y :: R)
    (hP : P.map Prod.snd = C.map Node.pageId) (hx : x.2 = l.pageId) (hy : y.2 = r.pageId)
    (hp : Same p p') (hl : Same l l') (hr : Same r r')
    (hslots' : p'.slots = P ++ x :: (key, y.2) :: R) (hl' : 1 ≤ l'.size ∧ l'.size ≤ p.maxSize)
    (hr' : 1 ≤ r'.size ∧ r'.size ≤ p.maxSize)
    (hrow : hang x.1 l'.slots ++ hang key r'.slots = hang x.1 l.slots ++ hang y.1 r.slots) :
    Moved order ⟨p, C ++ l :: r :: E⟩ ⟨p', C ++ l' :: r' :: E⟩ := by
  have hparent : p.Sound := h.parent
  have hkinl : Kin p l := h.kin l (by simp)
  have hkinr : Kin p r := h.kin r (by simp)
  have hsize : p'.size = p.size := by rw [size_of_slots hslots', size_of_slots hslots]; simp
  have hpos := hparent.size_pos
  have hle := hparent.size_le
  have hpages : (pageIds ⟨p, C ++ l' :: r' :: E⟩).Nodup := by
    simpa [pageIds, hl.pageId, hr.pageId] using h.pages
  have hkin : ∀ c ∈ [l', r'], Kin p c ∧ c.size ≤ p.maxSize := by
    intro c hc
    simp only [List.mem_cons, List.not_mem_nil, or_false] at hc
    rcases hc with rfl | rfl
    · exact ⟨hkinl.of_same hl hl'.1 (Nat.le_succ_of_le hl'.2), hl'.2⟩
    · exact ⟨hkinr.of_same hr hr'.1 (Nat.le_succ_of_le hr'.2), hr'.2⟩
  obtain ⟨hformed, hinorder, hsettled⟩ := h.replace (D := [l, r]) (Q := [x, y]) (F := [l', r'])
    (S := [x, (key, y.2)]) hslots hP (by simp [hx, hy]) hp (by omega) hslots'
    (by simp [hx, hy, hl.pageId, hr.pageId]) (by omega) hkin hpages (by simpa using hrow)
  exact ⟨hformed, hinorder, fun hs => hsettled (Settled.without (D := [l, r]) hs)⟩

theorem lendFirst_moved (h : Formed order ⟨p, C ++ l :: r :: E⟩) (hlend : 1 < r.size)
    (hroom : l.size < p.maxSize) :
    (onFamily (C.length + 1) C.length Family.lendFirst).Answers ⟨p, C ++ l :: r :: E⟩ fun _ u =>
      Moved order ⟨p, C ++ l :: r :: E⟩ u := by
  obtain ⟨P, x, y, R, hslots, hP, hx, hy⟩ := h.above_two
  have hl : Kin p l := h.kin l (by simp)
  have hr : Kin p r := h.kin r (by simp)
  obtain ⟨r₀, r₁, m, hr₁⟩ := exists_cons_cons hlend
  have hfirst : x.2 ∉ P.map Prod.snd := by
    rw [hx, hP]
    exact h.pageId_notMem
  rw [answers_iff, ends_leftward]
  refine (Family.lendFirst_answers hr.sound hl.sound h.parent (by rwa [hl.maxSize]) hl.parentId
    hslots hx hfirst hr₁).ends ?_
  intro _ s hs
  obtain ⟨v, q, p'⟩ := s
  obtain ⟨hv, hq, hp, hslotsv, hslotsq, hslotsp⟩ := hs
  have hsizer := size_of_slots hr₁
  have hsizev : v.size = m.length + 1 := size_of_slots hslotsv
  have hsizeq : q.size = l.size + 1 := by rw [size_of_slots hslotsq]; simp
  simp only [List.length_cons] at hsizer
  have hle := hr.size_le
  have hfitv : 1 ≤ v.size ∧ v.size ≤ p.maxSize := by omega
  have hfitq : 1 ≤ q.size ∧ q.size ≤ p.maxSize := by omega
  apply exchange_moved h hslots hP hx hy hp hq hv hslotsp hfitq hfitv
  rw [hslotsq, hslotsv, hr₁, hang_append hl.sound.slots_ne_nil, List.append_assoc]
  rfl

theorem lendLast_moved (h : Formed order ⟨p, C ++ l :: r :: E⟩) (hlend : 1 < l.size)
    (hroom : r.size < p.maxSize) :
    (onFamily C.length (C.length + 1) (Family.lendLast (C.length + 1))).Answers
      ⟨p, C ++ l :: r :: E⟩ fun _ u => Moved order ⟨p, C ++ l :: r :: E⟩ u := by
  obtain ⟨P, x, y, R, hslots, hP, hx, hy⟩ := h.above_two
  have hl : Kin p l := h.kin l (by simp)
  have hr : Kin p r := h.kin r (by simp)
  obtain ⟨m, s, hs⟩ := hl.sound.exists_snoc
  have hm : m ≠ [] := by
    rintro rfl
    rw [← length_slots, hs] at hlend
    exact absurd hlend (Nat.lt_irrefl 1)
  obtain ⟨r₀, n, hr₀⟩ := hr.sound.exists_cons
  have hlen : (P ++ [x]).length = C.length + 1 := by simpa using congrArg List.length hP
  have hslots₂ : p.slots = (P ++ [x]) ++ y :: R := by rw [hslots, List.append_cons]
  have hlend := Family.lendLast_answers hl.sound hr.sound h.parent (by rwa [hr.maxSize])
    hr.parentId hslots₂ hy hr₀ hm hs
  rw [hlen] at hlend
  rw [answers_iff, ends_rightward]
  apply hlend.ends
  intro _ s hs
  obtain ⟨v, q, p'⟩ := s
  obtain ⟨hv, hq, hp, hslotsv, hslotsq, hslotsp⟩ := hs
  have hsizel := size_of_slots hs
  have hsizer := size_of_slots hr₀
  have hsizev : v.size = m.length := size_of_slots hslotsv
  have hsizeq : q.size = n.length + 2 := size_of_slots hslotsq
  have hpos := List.length_pos_iff.mpr hm
  simp only [List.length_append, List.length_cons, List.length_nil] at hsizel hsizer
  have hle := hl.size_le
  rw [← List.append_cons] at hslotsp
  have hfitv : 1 ≤ v.size ∧ v.size ≤ p.maxSize := by omega
  have hfitq : 1 ≤ q.size ∧ q.size ≤ p.maxSize := by omega
  apply exchange_moved h hslots hP hx hy hp hv hq hslotsp hfitv hfitq
  rw [hslotsv, hslotsq, hs, hr₀, hang_append hm, List.append_assoc]
  rfl

/-! ### Splitting -/

/-- A child and a new one share its slots, with a separator between them. -/
theorem divide_formed {P R : List (K × PageId)} {e : K × PageId} {key : K}
    (h : Formed order ⟨p, C ++ c :: E⟩) (hslots : p.slots = P ++ e :: R)
    (hP : P.map Prod.snd = C.map Node.pageId) (he : e.2 = c.pageId)
    (hnew : r.pageId ∉ pageIds ⟨p, C ++ c :: E⟩) (hp : Same p p') (hl : Same c l)
    (hr : Kin p r) (hslots' : p'.slots = P ++ e :: (key, r.pageId) :: R)
    (hroom : p.size ≤ p.maxSize) (hfitl : 1 ≤ l.size ∧ l.size ≤ p.maxSize)
    (hfitr : r.size ≤ p.maxSize) (hsplit : l.slots ++ hang key r.slots = c.slots) :
    Formed order ⟨p', C ++ l :: r :: E⟩ ∧
      inorder ⟨p', C ++ l :: r :: E⟩ = inorder ⟨p, C ++ c :: E⟩ ∧
      (Settled ⟨p, C ++ E⟩ → Settled ⟨p', C ++ l :: r :: E⟩) := by
  have hc : Kin p c := h.kin c (by simp)
  have hkinl : Kin p l := hc.of_same hl hfitl.1 (Nat.le_succ_of_le hfitl.2)
  have hsize := size_behind hslots hslots'
  have hkin : ∀ d ∈ [l, r], Kin p d ∧ d.size ≤ p.maxSize := by
    intro d hd
    simp only [List.mem_cons, List.not_mem_nil, or_false] at hd
    rcases hd with rfl | rfl
    · exact ⟨hkinl, hfitl.2⟩
    · exact ⟨hr, hfitr⟩
  have hpages : (pageIds ⟨p, C ++ l :: r :: E⟩).Nodup := by
    have hmiddle : (C.map Node.pageId ++ [c.pageId] ++ r.pageId :: E.map Node.pageId).Perm
        (r.pageId :: (C.map Node.pageId ++ [c.pageId] ++ E.map Node.pageId)) := List.perm_middle
    have hlist := (hmiddle.cons p.pageId).trans (List.Perm.swap _ _ _)
    have hperm : (pageIds ⟨p, C ++ l :: r :: E⟩).Perm (r.pageId :: pageIds ⟨p, C ++ c :: E⟩) := by
      simpa [pageIds, hl.pageId] using hlist
    exact hperm.nodup_iff.mpr (List.nodup_cons.mpr ⟨hnew, h.pages⟩)
  have hrow : row [e, (key, r.pageId)] [l, r] = row [e] [c] := by
    simp only [row_cons, row_nil, List.append_nil]
    rw [← hang_append hkinl.sound.slots_ne_nil, hsplit]
  exact h.replace (D := [c]) (Q := [e]) (F := [l, r]) (S := [e, (key, r.pageId)]) hslots hP
    (by simp [he]) hp (by omega) hslots' (by simp [he, hl.pageId]) (by omega) hkin hpages hrow

/-- A split keeps the slots in order; it asks for room in the parent and a new page. -/
theorem split_formed (h : Formed order ⟨p, C ++ c :: E⟩) (hsize : 1 < c.size)
    (hroom : p.size ≤ p.maxSize) (page : Page) {pageId : PageId}
    (hnew : pageId ∉ pageIds ⟨p, C ++ c :: E⟩) :
    (split C.length page pageId).Answers ⟨p, C ++ c :: E⟩ fun _ u =>
      Formed order u ∧ u.inorder = inorder ⟨p, C ++ c :: E⟩ ∧
        (Settled ⟨p, C ++ E⟩ → u.Settled) := by
  obtain ⟨P, e, R, hslots, hP, he, _⟩ := h.above_child
  have hparent : p.Sound := h.parent
  have hc : Kin p c := h.kin c (by simp)
  have hle := hc.size_le
  obtain ⟨w, hformat, hw, hwsize, hwmax, hwpage, hwparent⟩ :=
    format_eq (K := K) page pageId p.pageId ⟨hparent.two_le_maxSize, hparent.maxSize_lt⟩
  simp only [split, answers_iff, ends_bind, ends_get, ends_discard, ends_modify, ends_onSplit,
    child_at, ends_answer hformat, insertIdx_behind]
  apply (Split.moveHalf_answers hc.sound hw hwsize (by omega)).ends
  intro _ s hs
  obtain ⟨v, q⟩ := s
  obtain ⟨hv, hq, hslotsv, hslotsq⟩ := hs
  have hsizev : v.size = c.size - c.size / 2 := by
    rw [size_of_slots hslotsv, List.length_take, length_slots]
    omega
  have hsizeq : q.size = c.size / 2 := by
    rw [size_of_slots hslotsq, List.length_drop, length_slots]
    omega
  have hkinq : Kin p q := Kin.of_same ⟨hw, hwmax, hwparent.symm⟩ hq (by omega) (by omega)
  obtain ⟨q₀, n, hq₀⟩ := hkinq.sound.exists_cons
  have hkey : q.keyAt 0 = .ok q₀.1 := keyAt_at (a := []) hkinq.sound.size_le_capacity hq₀
  have hpage : q.pageId = pageId := by rw [hq.pageId, hwpage]
  have hsplit : v.slots ++ hang q₀.1 q.slots = c.slots := by
    have hhang : hang q₀.1 q.slots = q.slots := by rw [hq₀, hang]
    rw [hhang, hslotsv, hslotsq, List.take_append_drop]
  have hfirst : e.2 ∉ P.map Prod.snd := by
    rw [he, hP]
    exact h.pageId_notMem
  simp only [child_succ, onParent, ends_answer hkey, ends_zoom, ← he]
  apply (insertAfter_answers hparent hroom hslots hfirst).ends
  intro _ p' hp'
  obtain ⟨_, hp, hslotsp⟩ := hp'
  rw [← hpage] at hnew hslotsp
  have hfitv : 1 ≤ v.size ∧ v.size ≤ p.maxSize := by omega
  exact divide_formed h hslots hP he hnew hp hv hkinq hslotsp hroom hfitv (by omega) hsplit

/-! ### Merging -/

/-- Two neighbours become one, without the slot above the right one. -/
theorem join_moved {P R : List (K × PageId)} {x y : K × PageId}
    (h : Formed order ⟨p, C ++ l :: r :: E⟩) (hslots : p.slots = P ++ x :: y :: R)
    (hP : P.map Prod.snd = C.map Node.pageId) (hx : x.2 = l.pageId) (hy : y.2 = r.pageId)
    (hp : Same p p') (hc : Same l c) (hslots' : p'.slots = P ++ x :: R)
    (hfit : c.size ≤ p.maxSize) (hjoin : c.slots = l.slots ++ hang y.1 r.slots) :
    Moved order ⟨p, C ++ l :: r :: E⟩ ⟨p', C ++ c :: E⟩ := by
  have hparent : p.Sound := h.parent
  have hl : Kin p l := h.kin l (by simp)
  have hsizel := hl.sound.size_pos
  have hpos : 1 ≤ c.size := by
    rw [size_of_slots hjoin, List.length_append, length_slots]
    omega
  have hle := hparent.size_le
  have hsize := size_behind hslots' hslots
  have hpos' : 1 ≤ p'.size := by
    rw [size_at hslots']
    omega
  have hkin : ∀ d ∈ [c], Kin p d ∧ d.size ≤ p.maxSize := by
    intro d hd
    rw [List.mem_singleton.mp hd]
    exact ⟨hl.of_same hc hpos (Nat.le_succ_of_le hfit), hfit⟩
  have hpages : (pageIds ⟨p, C ++ c :: E⟩).Nodup := by
    refine h.pages.sublist ?_
    unfold pageIds
    simp [hc.pageId]
  have hrow : row [x] [c] = row [x, y] [l, r] := by
    simp only [row_cons, row_nil, List.append_nil]
    rw [hjoin, hang_append hl.sound.slots_ne_nil]
  obtain ⟨hformed, hinorder, hsettled⟩ := h.replace (D := [l, r]) (Q := [x, y]) (F := [c])
    (S := [x]) hslots hP (by simp [hx, hy]) hp (by omega) hslots' (by simp [hx, hc.pageId])
    hpos' hkin hpages hrow
  exact ⟨hformed, hinorder, fun hs => hsettled (Settled.without (D := [l, r]) hs)⟩

theorem merge_moved (h : Formed order ⟨p, C ++ l :: r :: E⟩) (hfit : l.size + r.size ≤ p.maxSize) :
    (merge C.length).Answers ⟨p, C ++ l :: r :: E⟩ fun _ u =>
      Moved order ⟨p, C ++ l :: r :: E⟩ u := by
  obtain ⟨P, x, y, R, hslots, hP, hx, hy⟩ := h.above_two
  have hparent : p.Sound := h.parent
  have hl : Kin p l := h.kin l (by simp)
  have hr : Kin p r := h.kin r (by simp)
  obtain ⟨m, s, hs⟩ := hl.sound.exists_snoc
  obtain ⟨r₀, n, hr₀⟩ := hr.sound.exists_cons
  have hslots₂ : p.slots = (P ++ [x]) ++ y :: R := by rw [hslots, List.append_cons]
  have hlen : (P ++ [x]).length = C.length + 1 := by simpa using congrArg List.length hP
  have hsizel : l.size = m.length + 1 := size_at hs
  have hsizer : r.size = n.length + 1 := size_of_slots hr₀
  have hlast : l.childAt (l.size - 1) = .ok s.2 := by
    rw [hsizel, Nat.add_sub_cancel]
    exact childAt_at hl.sound.size_le_capacity hs
  have hseparator : p.keyAt (C.length + 1) = .ok y.1 := by
    rw [← hlen]
    exact keyAt_at hparent.size_le_capacity hslots₂
  have hfirst : r.childAt 0 = .ok r₀.2 := childAt_at (a := []) hr.sound.size_le_capacity hr₀
  simp only [merge, answers_iff, ends_bind, ends_get, ends_discard, ends_modify, ends_onChild,
    child_at, child_succ, ends_answer hlast, ends_answer hseparator, ends_answer hfirst]
  refine (insertAfter_answers hl.sound (by rw [hl.maxSize]; omega) hs
    (h.notMem_before hs)).ends ?_
  intro _ v hinsert
  obtain ⟨_, hv, hslotsv⟩ := hinsert
  have hsizev := size_behind hs hslotsv
  have hlv : Kin p v := hl.of_same hv (by omega) (by omega)
  have hmerge := Family.mergeInto_answers hr.sound hlv.sound h.parent
    (by rw [hlv.maxSize]; omega) hr.parentId hslots₂ hy
  rw [hlen] at hmerge
  rw [ends_leftward]
  apply hmerge.ends
  intro _ t ht
  obtain ⟨_, w, p'⟩ := t
  obtain ⟨_, hw, hp, _, hslotsw, hslotsp⟩ := ht
  have hjoin : w.slots = l.slots ++ hang y.1 r.slots := by
    rw [hslotsw, hslotsv, hs, hr₀]
    simp [hang]
  have hsizew : w.size = l.size + r.size := by
    rw [size_of_slots hjoin, hr₀, List.length_append, length_slots, hsizer]
    rfl
  rw [← List.append_cons] at hslotsp
  show Moved order _ ⟨p', (C ++ w :: _ :: E).eraseIdx (C.length + 1)⟩
  rw [eraseIdx_behind]
  exact join_moved h hslots hP hx hy hp (hv.trans hw) hslotsp (by omega) hjoin

end PagedIndex.Tree
