import PagedIndex.Key.Integer
import PagedIndex.Pool.Nodes
import PagedIndex.Proofs.Node.Calls
import PagedIndex.Proofs.Node.Contracts
import PagedIndex.Proofs.Node.Heads
import PagedIndex.Proofs.Page.Stamp

/-! # Restamped pages

On its way to the file a page is stamped, which changes the header of the page behind the kind.  Two
pages that differ at most there are `Alike`.  A `Query` is any operation on nodes with all that it
answers.  Along every row of queries, nodes in pages that are alike answer alike and stop at the
same queries with the same causes; the pages stay alike, and each keeps its own header
(`Nodes.restamping_invisible`). -/

namespace PagedIndex

open PagedIndex.Action

/-- The pages have the same kind and the same bytes behind the header. -/
def Page.Alike (p q : Page) : Prop :=
  p.byte 0 = q.byte 0 ∧ ∀ i, PageHeader.width ≤ i → p.byte i = q.byte i

namespace Node

/-! ### Answers -/

/-- A field of the header, or what follows from one. -/
inductive Field where
  | size
  | maxSize
  | minSize
  | pageId
  | parentId
  | isRoot
  | isOverflowing

/-- A field of a node, or an operation on nodes. -/
inductive Query (ι K : Type) where
  | field (node : ι) (f : Field)
  | call (c : Call ι K)

section Replies

variable {ι K : Type} [DecidableEq ι] [Key K] [KeyText K]

def Field.reply (v : Node K) : Field → Reply K
  | size => .count v.size
  | maxSize => .count v.maxSize
  | minSize => .count v.minSize
  | pageId => .page v.pageId
  | parentId => .page v.parentId
  | isRoot => .flag v.isRoot
  | isOverflowing => .flag v.isOverflowing

def Query.respond : Query ι K → Nodes.Edit ι K (Reply K)
  | field node f => Nodes.onNode node do return f.reply (← get)
  | call c => c.respond

end Replies

end Node

/-! ### Blind queries -/

namespace Nodes

open Function

variable {ι K α : Type} [DecidableEq ι] (a : ι → Head)

/-- Every node in a page with another header. -/
def graft (a : ι → Head) (s : Nodes ι K) : Nodes ι K := fun j => (s j).graft (a j)

theorem graft_update (s : Nodes ι K) (node : ι) (v : Node K) :
    update (graft a s) node (v.graft (a node)) = graft a (update s node v) :=
  funext fun j => (apply_update (fun i => Node.graft (a i)) s node v j).symm

theorem onNode_blind {x : Node.Edit K α} {node : ι} (hx : Blind (Node.graft (a node)) x) :
    Blind (graft a) (onNode node x) :=
  blind_zoom hx (fun _ => rfl) fun s v => graft_update a s node v

theorem onSplit_blind {x : Split.Edit K α} {node recipient : ι}
    (hx : Blind (Split.graft (a node) (a recipient)) x) :
    Blind (graft a) (onSplit node recipient x) := by
  refine blind_zoom hx (fun _ => rfl) fun s q => ?_
  simp only [Split.graft, graft_update]

theorem onPair_blind {x : Pair.Edit K α} {node parent : ι}
    (hx : Blind (Pair.graft (a node) (a parent)) x) :
    Blind (graft a) (onPair node parent x) := by
  refine blind_zoom hx (fun _ => rfl) fun s q => ?_
  simp only [Pair.graft, graft_update]

theorem onFamily_blind {x : Family.Edit K α} {node recipient parent : ι}
    (hx : Blind (Family.graft (a node) (a recipient) (a parent)) x) :
    Blind (graft a) (onFamily node recipient parent x) := by
  refine blind_zoom hx (fun _ => rfl) fun s q => ?_
  simp only [Family.graft, graft_update]

end Nodes

namespace Node

variable {ι K : Type} [DecidableEq ι] [Key K] [KeyText K] (a : Head)

omit [Key K] [KeyText K] in
theorem Field.reply_graft (v : Node K) (f : Field) :
    (f.reply (v.graft a) : Reply K) = f.reply v := by
  cases f <;> simp only [reply, size_graft, maxSize_graft, minSize_graft, pageId_graft,
    parentId_graft, isRoot_graft, isOverflowing_graft]

theorem Look.respond_blind (l : Look K) : Blind (graft a) l.respond := by
  refine blind_get (fun v => ?_) fun v => blind_liftM _
  cases l <;> simp only [reply, keyAt_graft, childAt_graft, childIndex_graft, route_graft,
    entries_graft, render_graft, debugText_graft]

omit [KeyText K] in
theorem Change.respond_blind (c : Change K) : Blind (graft a) c.respond := by
  cases c with
  | setKey i key => exact blind_map (Edit.setKey_blind a i key)
  | setChild i id => exact blind_map (Edit.setChild_blind a i id)
  | setParent id => exact blind_map (Edit.setParent_blind a id)
  | plant old key id => exact blind_map (Edit.plant_blind a old key id)
  | insertAfter old key id => exact blind_map (Edit.insertAfter_blind a old key id)
  | fill items count => exact blind_map (Edit.fill_blind a items count)
  | erase i => exact blind_map (Edit.erase_blind a i)
  | collapse => exact blind_map (Edit.collapse_blind a)
  | append items count => exact blind_map (Edit.append_blind a items count)

theorem Call.respond_blind (a : ι → Head) (c : Call ι K) : Blind (Nodes.graft a) c.respond := by
  cases c with
  | look node l => exact Nodes.onNode_blind a (l.respond_blind _)
  | change node c => exact Nodes.onNode_blind a (c.respond_blind _)
  | moveHalf node recipient =>
      exact blind_map (Nodes.onSplit_blind a (Split.moveHalf_blind _ _))
  | takeLast node parent key id =>
      exact blind_map (Nodes.onPair_blind a (Pair.takeLast_blind _ _ key id))
  | takeFirst node parent key id i =>
      exact blind_map (Nodes.onPair_blind a (Pair.takeFirst_blind _ _ key id i))
  | mergeInto node recipient parent i =>
      exact blind_map (Nodes.onFamily_blind a (Family.mergeInto_blind _ _ _ i))
  | lendFirst node recipient parent =>
      exact blind_map (Nodes.onFamily_blind a (Family.lendFirst_blind _ _ _))
  | lendLast node recipient parent i =>
      exact blind_map (Nodes.onFamily_blind a (Family.lendLast_blind _ _ _ i))

theorem Query.respond_blind (a : ι → Head) (q : Query ι K) : Blind (Nodes.graft a) q.respond := by
  cases q with
  | field node f =>
      refine Nodes.onNode_blind a (blind_get (fun v => ?_) fun v => blind_pure _)
      rw [Field.reply_graft]
  | call c => exact c.respond_blind a

end Node

namespace Nodes

open Node

variable {ι K : Type} [DecidableEq ι] [Key K] [KeyText K]

/-- The answers and causes of a row of queries, and the nodes behind it. -/
def answer (s : Nodes ι K) : List (Query ι K) → List (Except Fault (Reply K)) × Nodes ι K
  | [] => ([], s)
  | q :: qs =>
    let (r, t) := q.respond.result s
    let (rs, u) := answer t qs
    (r :: rs, u)

theorem answer_cons (s : Nodes ι K) (q : Query ι K) (qs : List (Query ι K)) :
    s.answer (q :: qs) = ((q.respond.result s).1 :: ((q.respond.result s).2.answer qs).1,
      ((q.respond.result s).2.answer qs).2) := rfl

/-- A row of queries does not see what is grafted on the nodes, and leaves it there. -/
theorem answer_graft (a : ι → Head) (s : Nodes ι K) (qs : List (Query ι K)) :
    (graft a s).answer qs = ((s.answer qs).1, graft a (s.answer qs).2) := by
  induction qs generalizing s with
  | nil => rfl
  | cons q qs ih =>
      rw [answer_cons, answer_cons, q.respond_blind a s, Prod.map_snd, ih]
      rfl

end Nodes

/-! ### Pages that are alike -/

namespace Page

variable {p q : Page} {i : Nat}

/-- The header of a page. -/
def head (p : Page) : Head := ⟨p.read 0 PageHeader.width, Buffer.length_read ..⟩

theorem byte_graft_of_lt (h : i < PageHeader.width) : (graft q.head p).byte i = q.byte i := by
  have hpage : PageHeader.width ≤ pageSize := by decide
  have hlen : q.head.val.length = PageHeader.width := q.head.property
  have hread : i < (q.read 0 PageHeader.width).length := by rwa [Buffer.length_read]
  rw [graft, Buffer.byte_write, if_pos (by omega), Nat.sub_zero, List.getD_eq_getElem?_getD, head,
    List.getElem?_eq_getElem hread, Option.getD_some, Buffer.getElem_read, Nat.zero_add]

theorem byte_graft_of_ge (a : Head) (h : PageHeader.width ≤ i) :
    (graft a p).byte i = p.byte i :=
  Buffer.byte_write_of_ge p a.val (by rw [a.property]; omega)

/-- A page is any page that it is alike, under its own header. -/
theorem Alike.graft_eq (h : Alike p q) : graft q.head p = q := by
  refine Buffer.ext_byte fun i _ => ?_
  rcases Nat.lt_or_ge i PageHeader.width with hi | hi
  · exact byte_graft_of_lt hi
  · rw [byte_graft_of_ge _ hi, h.2 i hi]

theorem Alike.refl (p : Page) : Alike p p := ⟨rfl, fun _ _ => rfl⟩

theorem alike_stamped (p : Page) : Alike p p.stamped := by
  have hagrees := agrees_stamped p
  refine ⟨hagrees.tag.symm, fun i hi => (hagrees i fun hfield => ?_).symm⟩
  have hwidth : PageHeader.width = 13 := rfl
  omega

theorem Alike.kind (h : Alike p q) : p.kind = q.kind := congrArg PageKind.ofTag h.1

end Page

namespace Node

variable {K : Type} [Key K] {v w : Node K}

/-- Pages that are alike open alike, or are refused with the same error. -/
theorem ofPage_alike (h : v.page.Alike w.page) :
    ∃ r : Except Error Unit,
      ofPage v.page = r.map (fun _ => v) ∧ ofPage w.page = r.map fun _ => w := by
  have hw : v.graft w.page.head = w := Node.ext h.graft_eq
  have heq := ofPage_eq w
  rw [← h.kind] at heq
  rw [ofPage_eq v, heq, ← hw]
  simp only [size_graft, maxSize_graft, pageId_graft]
  split
  · split
    · split
      · exact ⟨.ok (), rfl, rfl⟩
      · exact ⟨.error _, rfl, rfl⟩
    · exact ⟨.error _, rfl, rfl⟩
  · exact ⟨.error _, rfl, rfl⟩

theorem queueSlots_graft {n : Nat} (v : Node K) (a : Head) (i count : Nat) :
    (Visit.queueSlots (v.graft a) i count : Visit.Task n Unit) = Visit.queueSlots v i count := by
  induction count generalizing i with
  | zero => rfl
  | succ count ih => simp only [Visit.queueSlots, readChild_graft, ih]

theorem queueChildren_alike {n : Nat} (h : v.page.Alike w.page) :
    (Visit.queueChildren v : Visit.Task n Unit) = Visit.queueChildren w := by
  have hw : v.graft w.page.head = w := Node.ext h.graft_eq
  rw [Visit.queueChildren, Visit.queueChildren, ← hw, size_graft, queueSlots_graft]

end Node

namespace Nodes

open Node

variable {ι K : Type} [DecidableEq ι] [Key K] [KeyText K]

theorem answer_head (s : Nodes ι K) (qs : List (Query ι K)) (j : ι) {i : Nat}
    (h : i < PageHeader.width) : ((s.answer qs).2 j).page.byte i = (s j).page.byte i := by
  have hself : graft (fun j => (s j).page.head) s = s :=
    funext fun j => Node.ext (Page.Alike.refl (s j).page).graft_eq
  have hkept := congrArg (fun r => (r.2 j).page.byte i)
    (answer_graft (fun j => (s j).page.head) s qs)
  rw [hself] at hkept
  exact hkept.trans (Page.byte_graft_of_lt h)

/-- Let any nodes lie in pages that are alike.  A row of queries is answered alike on both sides and
stopped at the same queries with the same causes.  It leaves pages that are alike, each with the
header that it had, which open alike and from which a traversal goes on alike. -/
theorem restamping_invisible {s t : Nodes ι K} (h : ∀ j, (s j).page.Alike (t j).page)
    (qs : List (Query ι K)) :
    (t.answer qs).1 = (s.answer qs).1 ∧
    ∀ j, ((s.answer qs).2 j).page.Alike ((t.answer qs).2 j).page ∧
      (∀ i, i < PageHeader.width → ((s.answer qs).2 j).page.byte i = (s j).page.byte i ∧
        ((t.answer qs).2 j).page.byte i = (t j).page.byte i) ∧
      (∃ r : Except Error Unit,
        ofPage ((s.answer qs).2 j).page = r.map (fun _ => (s.answer qs).2 j) ∧
        ofPage ((t.answer qs).2 j).page = r.map fun _ => (t.answer qs).2 j) ∧
      ∀ n, (Visit.queueChildren ((s.answer qs).2 j) : Visit.Task n Unit) =
        Visit.queueChildren ((t.answer qs).2 j) := by
  have hother : graft (fun j => (t j).page.head) s = t :=
    funext fun j => Node.ext (h j).graft_eq
  have hanswer := answer_graft (fun j => (t j).page.head) s qs
  rw [hother] at hanswer
  have hreplies : (t.answer qs).1 = (s.answer qs).1 := by rw [hanswer]
  have halike : ∀ j, ((s.answer qs).2 j).page.Alike ((t.answer qs).2 j).page := by
    intro j
    have hwidth : 0 < PageHeader.width := by decide
    refine ⟨?_, fun i hi => ?_⟩
    · rw [answer_head s qs j hwidth, answer_head t qs j hwidth, (h j).1]
    · rw [hanswer]
      exact (Page.byte_graft_of_ge _ hi).symm
  exact ⟨hreplies, fun j => ⟨halike j,
    fun i hi => ⟨answer_head s qs j hi, answer_head t qs j hi⟩,
    ofPage_alike (halike j), fun n => queueChildren_alike (halike j)⟩⟩

/-- The nodes in the pages that go to the file. -/
def stamped (s : Nodes ι K) : Nodes ι K := fun j => ⟨(s j).page.stamped⟩

omit [DecidableEq ι] [Key K] [KeyText K] in
theorem alike_stamped (s : Nodes ι K) (j : ι) : (s j).page.Alike (s.stamped j).page :=
  Page.alike_stamped (s j).page

/-- Stamped copies of three nodes answer like the nodes. -/
theorem restamping_invisible_three :
    (∀ j, (fullNodes j).page.Alike (stamped fullNodes j).page) ∧
      (answer (stamped fullNodes)
        [.field 0 .size, .call (.change 1 (.setParent ⟨7⟩)), .field 1 .parentId]).1 =
          [.ok (.count 2), .ok .done, .ok (.page ⟨7⟩)] := by
  have hown : (answer fullNodes
      [.field 0 .size, .call (.change 1 (.setParent ⟨7⟩)), .field 1 .parentId]).1 =
        [.ok (.count (fullNodes 0).size), .ok .done,
          .ok (.page ((fullNodes 1).setParent ⟨7⟩).parentId)] := rfl
  have hsize : (fullNodes 0).size = 2 := by
    obtain ⟨hslots, _⟩ := ofSlots_eq (K := UInt32) ⟨UInt32.ofNat (0 : Fin 3)⟩ ⟨0⟩ 2
      [(0, ⟨10⟩), (10, ⟨11⟩)] (by decide) (by decide)
    exact size_of_slots hslots
  have hparent : ((fullNodes 1).setParent ⟨7⟩).parentId = ⟨7⟩ :=
    congrArg PageId.mk (Buffer.u32_setU32_self _ _ (by decide))
  rw [hsize, hparent] at hown
  exact ⟨alike_stamped fullNodes,
    (restamping_invisible (alike_stamped fullNodes) _).1.trans hown⟩

end Nodes

end PagedIndex
