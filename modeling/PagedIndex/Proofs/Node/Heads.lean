import PagedIndex.Node.Siblings
import PagedIndex.Node.Text
import PagedIndex.Proofs.Action
import PagedIndex.Proofs.Node.Scanning

/-! # Nodes and the headers of their pages

A node leaves the header of its page alone.  `Node.graft` puts other bytes there.  An action is
`Blind` to a change of the state when it makes no difference whether the state is changed before the
action or behind it: the action answers alike or stops with the same cause, and it overwrites
nothing.  Every edit of a node and every operation on neighbours is blind to what is grafted on each
of the nodes. -/

namespace PagedIndex

/-! ### Blind actions -/

namespace Action

variable {ε σ τ α β : Type} {g : σ → σ} {x : Action ε σ α}

/-- It makes no difference to `x` whether `g` comes before or behind it. -/
def Blind (g : σ → σ) (x : Action ε σ α) : Prop :=
  ∀ s, x.result (g s) = Prod.map id g (x.result s)

theorem result_bind (x : Action ε σ α) (f : α → Action ε σ β) (s : σ) :
    (x >>= f).result s =
      match x.result s with
      | (.ok a, s') => (f a).result s'
      | (.error e, s') => (.error e, s') := by
  simp only [result, bind, EStateM.bind]
  cases x s <;> rfl

theorem blind_pure (a : α) : Blind g (pure a : Action ε σ α) := fun _ => rfl

theorem blind_liftM (r : Except ε α) : Blind g (liftM r : Action ε σ α) := fun _ => by
  cases r <;> rfl

theorem blind_bind {f : α → Action ε σ β} (hx : Blind g x) (hf : ∀ a, Blind g (f a)) :
    Blind g (x >>= f) := by
  intro s
  rw [result_bind, result_bind, hx s]
  rcases x.result s with ⟨e | a, t⟩
  · rfl
  · exact hf a t

/-- A check, or another computation without state, comes first. -/
theorem blind_check {r : Except ε β} {f : β → Action ε σ α} (hf : ∀ b, Blind g (f b)) :
    Blind g (liftM r >>= f) := blind_bind (blind_liftM r) hf

/-- An action that looks at the state first must not see `g` in it. -/
theorem blind_get {f : σ → Action ε σ α} (hseen : ∀ s, f (g s) = f s) (hf : ∀ s, Blind g (f s)) :
    Blind g (get >>= f) := by
  intro s
  have hget : ∀ t : σ, (get >>= f : Action ε σ α).result t = (f t).result t := fun _ => rfl
  rw [hget, hget, hseen, hf s s]

theorem blind_modify {f : σ → σ} (h : ∀ s, f (g s) = g (f s)) :
    Blind g (modify f : Action ε σ Unit) := fun s => by
  have hmodify : ∀ t, (modify f : Action ε σ Unit).result t = (.ok (), f t) := fun _ => rfl
  rw [hmodify, hmodify, h]
  rfl

theorem blind_map {f : α → β} (hx : Blind g x) : Blind g (f <$> x) := by
  have hmap : ∀ t, (f <$> x).result t = Prod.map (Except.map f) id (x.result t) := by
    intro t
    simp only [result, Functor.map, EStateM.map]
    cases x t <;> rfl
  intro s
  rw [hmap, hmap, hx s]
  rfl

/-- What a part of the state does not see, the whole does not see either. -/
theorem blind_zoom {x : Action ε τ α} {g' : τ → τ} {get : σ → τ} {put : σ → τ → σ}
    (hx : Blind g' x) (hget : ∀ s, get (g s) = g' (get s))
    (hput : ∀ s t, put (g s) (g' t) = g (put s t)) : Blind g (zoom get put x) := by
  have hzoom : ∀ s, (zoom get put x).result s = Prod.map id (put s) (x.result (get s)) := by
    intro s
    simp only [result, zoom]
    cases x (get s) <;> rfl
  intro s
  rw [hzoom, hzoom, hget, hx (get s)]
  exact Prod.ext rfl (hput s _)

end Action

open PagedIndex.Action

/-- The bytes of a page header. -/
abbrev Head := {bs : List UInt8 // bs.length = PageHeader.width}

namespace Page

variable {p : Page} {start : Nat} {bs : List UInt8} (a : Head)

/-- The page with other bytes in its header. -/
def graft (a : Head) (p : Page) : Page := p.write 0 a.val

theorem read_graft (h : PageHeader.width ≤ start) (len : Nat) :
    (graft a p).read start len = p.read start len :=
  Buffer.read_write_of_disjoint p 0 a.val start len (.inr (by rw [a.property]; omega))

theorem u32_graft (h : PageHeader.width ≤ start) : (graft a p).u32 start = p.u32 start :=
  Buffer.u32_write_of_disjoint p a.val (.inr (by rw [a.property]; omega))

theorem write_graft (h : PageHeader.width ≤ start) :
    (graft a p).write start bs = graft a (p.write start bs) := by
  have hlen := a.property
  apply Buffer.ext_byte
  intro i _
  unfold graft
  rw [Buffer.byte_write, Buffer.byte_write, Buffer.byte_write, Buffer.byte_write]
  by_cases hi : start ≤ i
  · have hhead : ¬ (0 ≤ i ∧ i < 0 + a.val.length ∧ i < pageSize) := by omega
    rw [if_neg hhead, if_neg hhead]
  · have hrun : ¬ (start ≤ i ∧ i < start + bs.length ∧ i < pageSize) := by omega
    rw [if_neg hrun, if_neg hrun]

end Page

namespace Node

variable {K : Type} (v : Node K) (a : Head)

/-- The node in a page with another header. -/
def graft (a : Head) (v : Node K) : Node K := ⟨Page.graft a v.page⟩

/-! ### Reading -/

@[simp] theorem size_graft : (graft a v).size = v.size :=
  congrArg UInt32.toNat (Page.u32_graft a (by decide))

@[simp] theorem maxSize_graft : (graft a v).maxSize = v.maxSize :=
  congrArg UInt32.toNat (Page.u32_graft a (by decide))

@[simp] theorem pageId_graft : (graft a v).pageId = v.pageId :=
  congrArg PageId.mk (Page.u32_graft a (by decide))

@[simp] theorem parentId_graft : (graft a v).parentId = v.parentId :=
  congrArg PageId.mk (Page.u32_graft a (by decide))

@[simp] theorem minSize_graft : (graft a v).minSize = v.minSize := by
  rw [minSize, minSize, maxSize_graft]

@[simp] theorem isRoot_graft : (graft a v).isRoot = v.isRoot := by
  rw [isRoot, isRoot, parentId_graft]

@[simp] theorem isOverflowing_graft : (graft a v).isOverflowing = v.isOverflowing := by
  rw [isOverflowing, isOverflowing, maxSize_graft, size_graft]

@[simp] theorem parentText_graft : (graft a v).parentText = v.parentText := by
  rw [parentText, parentText, isRoot_graft, parentId_graft]

@[simp] theorem requireSlot_graft (i : Nat) : (graft a v).requireSlot i = v.requireSlot i := by
  rw [requireSlot, requireSlot, size_graft, pageId_graft]

variable [Key K]

@[simp] theorem readKey_graft : (graft a v).readKey = v.readKey := by
  funext i
  rw [readKey, readKey, key, key, graft, Page.read_graft a (width_le_slotStart i)]

@[simp] theorem readChild_graft : (graft a v).readChild = v.readChild := by
  funext i
  rw [readChild, readChild, child, child, graft, Page.u32_graft a (width_le_childStart i)]

@[simp] theorem readSlots_graft : (graft a v).readSlots = v.readSlots := by
  funext start stop
  rw [readSlots, readSlots, graft, Page.read_graft a (width_le_slotStart start)]

@[simp] theorem keyAt_graft : (graft a v).keyAt = v.keyAt := by
  funext i
  rw [keyAt, keyAt, requireSlot_graft, readKey_graft]

@[simp] theorem childAt_graft : (graft a v).childAt = v.childAt := by
  funext i
  rw [childAt, childAt, requireSlot_graft, readChild_graft]

theorem findChild_graft (id : PageId) (i count : Nat) :
    (graft a v).findChild id i count = v.findChild id i count := by
  induction count generalizing i with
  | zero => rfl
  | succ count ih => simp only [findChild, readChild_graft, ih]

@[simp] theorem childIndex_graft : (graft a v).childIndex = v.childIndex := by
  funext id
  rw [childIndex, childIndex, size_graft, findChild_graft]

@[simp] theorem route_graft : (graft a v).route = v.route := by
  funext order probe
  rw [route_eq_routeBy, route_eq_routeBy, readKey_graft, readChild_graft, size_graft, pageId_graft]

@[simp] theorem entries_graft : (graft a v).entries = v.entries := by
  rw [entries, entries, readKey_graft, readChild_graft, size_graft]

section Text

variable [KeyText K]

@[simp] theorem render_graft : (graft a v).render = v.render := by
  funext long
  simp only [render, slotText, separatorText, entries_graft, readKey_graft, size_graft,
    pageId_graft, parentText_graft]

@[simp] theorem debugText_graft : (graft a v).debugText = v.debugText := by
  simp only [debugText, entries_graft, pageId_graft, parentId_graft, size_graft, maxSize_graft]

end Text

/-! ### Edits -/

omit [Key K] in
theorem setSize_graft (size : Nat) : (graft a v).setSize size = graft a (v.setSize size) :=
  congrArg Node.mk (Page.write_graft a (show PageHeader.width ≤ NodeHeader.sizeAt by decide))

omit [Key K] in
theorem setParent_graft (parent : PageId) :
    (graft a v).setParent parent = graft a (v.setParent parent) :=
  congrArg Node.mk (Page.write_graft a (show PageHeader.width ≤ NodeHeader.parentIdAt by decide))

namespace Edit

variable {start : Nat}

omit [Key K] in
theorem put_blind (h : PageHeader.width ≤ start) (bs : List UInt8) :
    Blind (graft a) (put start bs : Edit K Unit) :=
  blind_check fun _ => blind_modify fun _ => congrArg Node.mk (Page.write_graft a h)

theorem putKey_blind (i : Nat) (key : K) : Blind (graft a) (putKey i key) :=
  put_blind a (width_le_slotStart i) _

theorem putChild_blind (i : Nat) (id : PageId) : Blind (graft a) (putChild i id : Edit K Unit) :=
  put_blind a (width_le_childStart i) _

theorem shift_blind (start stop dest : Nat) :
    Blind (graft a) (shift start stop dest : Edit K Unit) := by
  refine blind_get (fun v => ?_) fun v => ?_
  · rw [readSlots_graft]
  · exact blind_check fun _ => put_blind a (width_le_slotStart dest) _

omit [Key K] in
theorem resize_blind (size : Nat) : Blind (graft a) (resize size : Edit K Unit) :=
  blind_modify fun v => setSize_graft v a size

theorem setKey_blind (i : Nat) (key : K) : Blind (graft a) (setKey i key) := by
  refine blind_get (fun v => by rw [requireSlot_graft]) fun v => ?_
  exact blind_check fun _ => putKey_blind a i key

theorem setChild_blind (i : Nat) (id : PageId) :
    Blind (graft a) (setChild i id : Edit K Unit) := by
  refine blind_get (fun v => by rw [requireSlot_graft]) fun v => ?_
  exact blind_check fun _ => putChild_blind a i id

omit [Key K] in
theorem setParent_blind (parent : PageId) :
    Blind (graft a) (setParent parent : Edit K Unit) :=
  blind_modify fun v => setParent_graft v a parent

theorem erase_blind (i : Nat) : Blind (graft a) (erase i : Edit K Unit) := by
  refine blind_get (fun v => by rw [requireSlot_graft, size_graft]) fun v => ?_
  refine blind_check fun _ => ?_
  exact blind_bind (shift_blind a _ _ _) fun _ => resize_blind a _

theorem insertAfter_blind (old : PageId) (key : K) (id : PageId) :
    Blind (graft a) (insertAfter old key id) := by
  refine blind_get (fun v => ?_) fun v => ?_
  · simp only [size_graft, maxSize_graft, pageId_graft, childIndex_graft]
  refine blind_check fun _ => ?_
  refine blind_check fun i => ?_
  refine blind_check fun _ => ?_
  refine blind_bind (shift_blind a _ _ _) fun _ => ?_
  refine blind_bind (putKey_blind a _ _) fun _ => ?_
  refine blind_bind (putChild_blind a _ _) fun _ => ?_
  exact blind_bind (resize_blind a _) fun _ => blind_pure _

theorem plant_blind (old : PageId) (key : K) (id : PageId) :
    Blind (graft a) (plant old key id) := by
  refine blind_get (fun v => by simp only [size_graft, pageId_graft]) fun v => ?_
  refine blind_check fun _ => ?_
  refine blind_bind (putChild_blind a _ _) fun _ => ?_
  refine blind_bind (putKey_blind a _ _) fun _ => ?_
  exact blind_bind (putChild_blind a _ _) fun _ => resize_blind a _

theorem collapse_blind : Blind (graft a) (collapse : Edit K PageId) := by
  refine blind_get (fun v => by simp only [size_graft, pageId_graft]) fun v => ?_
  refine blind_check fun _ => ?_
  refine blind_bind (resize_blind a _) fun _ => ?_
  exact blind_get (fun v => by rw [readChild_graft]) fun _ => blind_liftM _

theorem fill_blind (items : List UInt8) (count : Nat) :
    Blind (graft a) (fill items count : Edit K Unit) := by
  refine blind_get (fun v => ?_) fun v => ?_
  · simp only [size_graft, maxSize_graft, pageId_graft]
  refine blind_check fun _ => ?_
  refine blind_check fun _ => ?_
  refine blind_check fun _ => ?_
  exact blind_bind (put_blind a (width_le_slotStart 0) _) fun _ => resize_blind a _

theorem append_blind (items : List UInt8) (count : Nat) :
    Blind (graft a) (append items count : Edit K Unit) := by
  refine blind_get (fun v => ?_) fun v => ?_
  · simp only [size_graft, maxSize_graft, pageId_graft]
  refine blind_check fun _ => ?_
  refine blind_check fun _ => ?_
  refine blind_check fun _ => ?_
  exact blind_bind (put_blind a (width_le_slotStart _) _) fun _ => resize_blind a _

end Edit

end Node

/-! ### Operations on neighbours -/

open Node (size_graft maxSize_graft pageId_graft parentId_graft)
open Node.Edit

variable {K α : Type} (a b c : Head)

namespace Split

def graft (a b : Head) (q : Split K) : Split K := ⟨q.node.graft a, q.recipient.graft b⟩

theorem onNode_blind {x : Node.Edit K α} (hx : Blind (Node.graft a) x) :
    Blind (graft a b) (onNode x) := blind_zoom hx (fun _ => rfl) fun _ _ => rfl

theorem onRecipient_blind {x : Node.Edit K α} (hx : Blind (Node.graft b) x) :
    Blind (graft a b) (onRecipient x) := blind_zoom hx (fun _ => rfl) fun _ _ => rfl

theorem moveHalf_blind [Key K] : Blind (graft a b) (moveHalf : Edit K Unit) := by
  refine blind_get (fun q => ?_) fun q => ?_
  · simp only [graft, size_graft, Node.readSlots_graft]
  refine blind_check fun _ => ?_
  refine blind_bind (onRecipient_blind a b (fill_blind b _ _)) fun _ => ?_
  exact onNode_blind a b (resize_blind a _)

end Split

namespace Pair

def graft (a b : Head) (q : Pair K) : Pair K := ⟨q.node.graft a, q.parent.graft b⟩

theorem onNode_blind {x : Node.Edit K α} (hx : Blind (Node.graft a) x) :
    Blind (graft a b) (onNode x) := blind_zoom hx (fun _ => rfl) fun _ _ => rfl

theorem onParent_blind {x : Node.Edit K α} (hx : Blind (Node.graft b) x) :
    Blind (graft a b) (onParent x) := blind_zoom hx (fun _ => rfl) fun _ _ => rfl

variable [Key K]

theorem takeLast_blind (key : K) (id : PageId) : Blind (graft a b) (takeLast key id) := by
  refine blind_get (fun ⟨v, parent⟩ => ?_) fun ⟨v, parent⟩ => ?_
  · simp only [graft, size_graft, maxSize_graft, pageId_graft, parentId_graft,
      Node.childIndex_graft, Node.readKey_graft]
  refine blind_check fun _ => ?_
  refine blind_check fun _ => ?_
  refine blind_check fun i => ?_
  refine blind_check fun _ => ?_
  refine blind_check fun separator => ?_
  refine blind_bind (onNode_blind a b ?_) fun _ => onParent_blind a b (putKey_blind b _ _)
  refine blind_bind (putKey_blind a _ _) fun _ => ?_
  exact blind_bind (putChild_blind a _ _) fun _ => resize_blind a _

theorem takeFirst_blind (key : K) (id : PageId) (i : Nat) :
    Blind (graft a b) (takeFirst key id i) := by
  refine blind_get (fun ⟨v, parent⟩ => ?_) fun ⟨v, parent⟩ => ?_
  · simp only [graft, size_graft, maxSize_graft, pageId_graft, parentId_graft,
      Node.requireSlot_graft, Node.childAt_graft, Node.readKey_graft]
  refine blind_check fun _ => ?_
  refine blind_check fun _ => ?_
  refine blind_check fun _ => ?_
  refine blind_check fun child => ?_
  refine blind_check fun _ => ?_
  refine blind_check fun separator => ?_
  refine blind_bind (onParent_blind a b (putKey_blind b _ _)) fun _ => onNode_blind a b ?_
  refine blind_bind (shift_blind a _ _ _) fun _ => ?_
  refine blind_bind (putKey_blind a _ _) fun _ => ?_
  exact blind_bind (putChild_blind a _ _) fun _ => resize_blind a _

end Pair

namespace Family

def graft (a b c : Head) (q : Family K) : Family K :=
  ⟨q.node.graft a, q.recipient.graft b, q.parent.graft c⟩

theorem onNode_blind {x : Node.Edit K α} (hx : Blind (Node.graft a) x) :
    Blind (graft a b c) (onNode x) := blind_zoom hx (fun _ => rfl) fun _ _ => rfl

theorem onRecipient_blind {x : Node.Edit K α} (hx : Blind (Node.graft b) x) :
    Blind (graft a b c) (onRecipient x) := blind_zoom hx (fun _ => rfl) fun _ _ => rfl

theorem onParent_blind {x : Node.Edit K α} (hx : Blind (Node.graft c) x) :
    Blind (graft a b c) (onParent x) := blind_zoom hx (fun _ => rfl) fun _ _ => rfl

theorem onReceivers_blind {x : Pair.Edit K α} (hx : Blind (Pair.graft b c) x) :
    Blind (graft a b c) (onReceivers x) := blind_zoom hx (fun _ => rfl) fun _ _ => rfl

variable [Key K]

theorem mergeInto_blind (i : Nat) : Blind (graft a b c) (mergeInto i : Edit K Unit) := by
  refine blind_get (fun ⟨v, recipient, parent⟩ => ?_) fun ⟨v, recipient, parent⟩ => ?_
  · simp only [graft, size_graft, maxSize_graft, pageId_graft, parentId_graft,
      Node.requireSlot_graft, Node.childAt_graft, Node.readSlots_graft]
  refine blind_check fun _ => ?_
  refine blind_check fun _ => ?_
  refine blind_check fun _ => ?_
  refine blind_check fun _ => ?_
  refine blind_check fun child => ?_
  refine blind_check fun _ => ?_
  refine blind_check fun items => ?_
  refine blind_bind (onRecipient_blind a b c (append_blind b _ _)) fun _ => ?_
  refine blind_bind (onParent_blind a b c (erase_blind c i)) fun _ => ?_
  exact onNode_blind a b c (resize_blind a 1)

theorem lendFirst_blind : Blind (graft a b c) (lendFirst : Edit K Unit) := by
  refine blind_get (fun q => ?_) fun q => ?_
  · simp only [graft, size_graft, pageId_graft, Node.readKey_graft, Node.readChild_graft]
  refine blind_check fun _ => ?_
  refine blind_check fun key => ?_
  refine blind_check fun id => ?_
  refine blind_bind (onReceivers_blind a b c (Pair.takeLast_blind b c key id)) fun _ => ?_
  refine onNode_blind a b c (blind_get (fun v => by rw [Node.readChild_graft]) fun v => ?_)
  refine blind_check fun _ => ?_
  exact blind_bind (putChild_blind a _ _) fun _ => erase_blind a 1

theorem lendLast_blind (i : Nat) : Blind (graft a b c) (lendLast i : Edit K Unit) := by
  refine blind_get (fun q => ?_) fun q => ?_
  · simp only [graft, size_graft, pageId_graft, Node.readKey_graft, Node.readChild_graft]
  refine blind_check fun _ => ?_
  refine blind_check fun key => ?_
  refine blind_check fun id => ?_
  refine blind_bind (onReceivers_blind a b c (Pair.takeFirst_blind b c key id i)) fun _ => ?_
  exact onNode_blind a b c (resize_blind a _)

end Family

end PagedIndex
