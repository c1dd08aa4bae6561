import Mathlib.Logic.Function.Basic
import PagedIndex.Proofs.Node.Bounds

/-! # Calls on nodes

`Nodes ι K` are any number of nodes, and a `Call` is an operation on some of them, with any
arguments.  A node is named by its index; a caller holds the nodes of a call apart, so none is
named twice, but nothing here depends on that.  `Call.respond` is the call with all that it
answers, and `Call.task` is the same call where nobody listens.

On bounded nodes a call has two ways to end (`Call.ends`): it answers, and leaves in each node the
number of slots given by `Call.sizes`, or one of its checks stops it and all nodes are as before.
So along any row of calls, stopped ones included, each node keeps kind, threshold and identifier
and goes at most one slot past its threshold (`after_edited`). -/

namespace PagedIndex

open PagedIndex.Action

attribute [local irreducible] Ends

namespace Node

/-- An operation that looks at a node.  The fields of the header, which lie in every page, can be
looked at without one. -/
inductive Look (K : Type) where
  | keyAt (i : Nat)
  | childAt (i : Nat)
  | childIndex (id : PageId)
  | route (order : K → K → Ordering) (key : K)
  | entries
  | render (long : Bool)
  | debugText

/-- An operation that changes a node. -/
inductive Change (K : Type) where
  | setKey (i : Nat) (key : K)
  | setChild (i : Nat) (id : PageId)
  | setParent (id : PageId)
  | plant (old : PageId) (key : K) (id : PageId)
  | insertAfter (old : PageId) (key : K) (id : PageId)
  | fill (items : List UInt8) (count : Nat)
  | erase (i : Nat)
  | collapse
  | append (items : List UInt8) (count : Nat)

/-- An operation on the nodes with the given indices. -/
inductive Call (ι K : Type) where
  | look (node : ι) (l : Look K)
  | change (node : ι) (c : Change K)
  | moveHalf (node recipient : ι)
  | takeLast (node parent : ι) (key : K) (id : PageId)
  | takeFirst (node parent : ι) (key : K) (id : PageId) (i : Nat)
  | mergeInto (node recipient parent : ι) (i : Nat)
  | lendFirst (node recipient parent : ι)
  | lendLast (node recipient parent : ι) (i : Nat)

/-- What an operation answers. -/
inductive Reply (K : Type) where
  | done
  | flag (b : Bool)
  | count (n : Nat)
  | page (id : PageId)
  | key (k : K)
  | slots (l : List (K × PageId))
  | text (s : String)

variable {ι K α : Type} [Key K] {v w : Node K}

/-! ### Looks and changes -/

def Look.reply [KeyText K] (v : Node K) : Look K → Except Fault (Reply K)
  | keyAt i => .key <$> v.keyAt i
  | childAt i => .page <$> v.childAt i
  | childIndex id => .count <$> v.childIndex id
  | route order key => .page <$> v.route order key
  | entries => .slots <$> v.entries
  | render long => .text <$> v.render long
  | debugText => .text <$> v.debugText

def Look.respond [KeyText K] (l : Look K) : Edit K (Reply K) := do l.reply (← get)

def Change.respond : Change K → Edit K (Reply K)
  | setKey i key => (fun _ => .done) <$> Edit.setKey i key
  | setChild i id => (fun _ => .done) <$> Edit.setChild i id
  | setParent id => (fun _ => .done) <$> Edit.setParent id
  | plant old key id => (fun _ => .done) <$> Edit.plant old key id
  | insertAfter old key id => .count <$> Edit.insertAfter old key id
  | fill items count => (fun _ => .done) <$> Edit.fill items count
  | erase i => (fun _ => .done) <$> Edit.erase i
  | collapse => .page <$> Edit.collapse
  | append items count => (fun _ => .done) <$> Edit.append items count

/-- The slots that a change leaves in a node. -/
def Change.count (v : Node K) : Change K → Nat
  | setKey .. | setChild .. | setParent _ => v.size
  | plant .. => 2
  | insertAfter .. => v.size + 1
  | fill _ count => count
  | erase _ => v.size - 1
  | collapse => 1
  | append _ count => v.size + count

section Looks

variable [KeyText K] {l : Look K}

theorem Look.ends_answer {f : α → Reply K} {r : Except Fault α} (hreply : l.reply v = f <$> r)
    (h : ∃ a, r = .ok a) : l.respond.Ends v (fun _ w => w = v) (Checked v) := by
  obtain ⟨a, rfl⟩ := h
  simp only [respond, ends_bind, ends_get, ends_liftM, hreply]
  exact trivial

theorem Look.ends_check {cause : Fault} (h : l.reply v = .error cause)
    (hcause : cause.isChecked = true) : l.respond.Ends v (fun _ w => w = v) (Checked v) := by
  simp only [respond, ends_bind, ends_get, ends_liftM, h]
  exact ⟨hcause, rfl⟩

/-- A look changes nothing; only what is not there cannot be seen. -/
theorem Look.ends (hv : v.Bounded) (l : Look K) :
    l.respond.Ends v (fun _ w => w = v) (Checked v) := by
  have hsize := hv.size_le_capacity
  cases l with
  | keyAt i =>
      by_cases hi : i < v.size
      · exact ends_answer rfl ⟨_, keyAt_eq hsize hi⟩
      · exact ends_check (by rw [reply, Node.keyAt, requireSlot, require, if_neg hi]; rfl) rfl
  | childAt i =>
      by_cases hi : i < v.size
      · exact ends_answer rfl ⟨_, childAt_eq hsize hi⟩
      · exact ends_check (by rw [reply, Node.childAt, requireSlot, require, if_neg hi]; rfl) rfl
  | childIndex id => exact ends_answer rfl (childIndex_total hsize id)
  | route order key =>
      by_cases hkeys : 1 < v.size
      · obtain ⟨i, hi, _⟩ := route_child hsize hkeys order key
        exact ends_answer rfl ⟨_, hi⟩
      · exact ends_check (by rw [reply, Node.route, require, if_neg hkeys]; rfl) rfl
  | entries => exact ends_answer rfl ⟨_, entries_eq hsize⟩
  | render long => exact ends_answer rfl (render_total hsize long)
  | debugText => exact ends_answer rfl (debugText_total hsize)

end Looks

/-- A change that answers leaves a bounded node; only a slot that is there can be erased. -/
theorem Change.ends (hv : v.Bounded) (c : Change K) :
    c.respond.Ends v (fun _ w => Edited v w (c.count v)) (Checked v) := by
  cases c with
  | setKey i key => exact ends_map.mpr (Edit.setKey_ends hv)
  | setChild i id => exact ends_map.mpr (Edit.setChild_ends hv)
  | setParent id => exact ends_map.mpr (Edit.setParent_ends hv)
  | plant old key id => exact ends_map.mpr (Edit.plant_ends hv)
  | insertAfter old key id => exact ends_map.mpr (Edit.insertAfter_ends hv)
  | fill items count => exact ends_map.mpr (Edit.fill_ends hv)
  | erase i =>
      exact ends_map.mpr ((Edit.erase_ends hv).mono (fun _ _ h => h) fun _ _ h => h.2)
  | collapse => exact ends_map.mpr (Edit.collapse_ends hv)
  | append items count =>
      exact ends_map.mpr ((Edit.append_ends hv).mono (fun _ _ h => h) fun _ _ h => h.2)

end Node

/-! ### Several nodes -/

/-- Nodes with indices. -/
abbrev Nodes (ι K : Type) := ι → Node K

namespace Nodes

variable {ι K α : Type} [DecidableEq ι]

/-- Actions on nodes. -/
abbrev Edit (ι K : Type) := Action Fault (Nodes ι K)

def onNode (node : ι) : Node.Edit K α → Edit ι K α :=
  Action.zoom (fun s => s node) fun s v => Function.update s node v

def onSplit (node recipient : ι) : Split.Edit K α → Edit ι K α :=
  Action.zoom (fun s => ⟨s node, s recipient⟩) fun s q =>
    Function.update (Function.update s node q.node) recipient q.recipient

def onPair (node parent : ι) : Pair.Edit K α → Edit ι K α :=
  Action.zoom (fun s => ⟨s node, s parent⟩) fun s q =>
    Function.update (Function.update s node q.node) parent q.parent

def onFamily (node recipient parent : ι) : Family.Edit K α → Edit ι K α :=
  Action.zoom (fun s => ⟨s node, s recipient, s parent⟩) fun s q =>
    Function.update (Function.update (Function.update s node q.node) recipient q.recipient)
      parent q.parent

end Nodes

namespace Node

open Function Nodes

variable {ι K : Type} [DecidableEq ι] [Key K] {s t : Nodes ι K} {counts : ι → Nat}

namespace Call

/-- A call, with what it answers. -/
def respond [KeyText K] : Call ι K → Nodes.Edit ι K (Reply K)
  | look node l => onNode node l.respond
  | change node c => onNode node c.respond
  | moveHalf node recipient => (fun _ => .done) <$> onSplit node recipient Split.moveHalf
  | takeLast node parent key id =>
    (fun _ => .done) <$> onPair node parent (Pair.takeLast key id)
  | takeFirst node parent key id i =>
    (fun _ => .done) <$> onPair node parent (Pair.takeFirst key id i)
  | mergeInto node recipient parent i =>
    (fun _ => .done) <$> onFamily node recipient parent (Family.mergeInto i)
  | lendFirst node recipient parent =>
    (fun _ => .done) <$> onFamily node recipient parent Family.lendFirst
  | lendLast node recipient parent i =>
    (fun _ => .done) <$> onFamily node recipient parent (Family.lendLast i)

/-- A call, whatever it answers. -/
def task [KeyText K] (c : Call ι K) : Nodes.Edit ι K Unit := discard c.respond

/-- The slots that a call leaves in each of the nodes. -/
def sizes (s : Nodes ι K) : Call ι K → ι → Nat
  | look .. => fun j => (s j).size
  | change node c => update (fun j => (s j).size) node (c.count (s node))
  | moveHalf node recipient =>
    update (update (fun j => (s j).size) node ((s node).size - (s node).size / 2)) recipient
      ((s node).size / 2)
  | takeLast node parent .. | takeFirst node parent .. =>
    update (update (fun j => (s j).size) node ((s node).size + 1)) parent (s parent).size
  | mergeInto node recipient parent _ =>
    update (update (update (fun j => (s j).size) node 1) recipient
      ((s recipient).size + ((s node).size - 1))) parent ((s parent).size - 1)
  | lendFirst node recipient parent | lendLast node recipient parent _ =>
    update (update (update (fun j => (s j).size) node ((s node).size - 1)) recipient
      ((s recipient).size + 1)) parent (s parent).size

/-- The calls that ask for a slot to lend find one. -/
def Lends (s : Nodes ι K) : Call ι K → Prop
  | lendFirst node .. | lendLast node .. => 1 < (s node).size
  | _ => True

end Call

omit [Key K] in
theorem edited_update (h : ∀ j, Edited (s j) (t j) (counts j)) {node : ι} {w : Node K} {m : Nat}
    (hw : Edited (s node) w m) (j : ι) :
    Edited (s j) (update t node w j) (update counts node m j) := by
  by_cases hj : j = node
  · subst hj
    rw [update_self, update_self]
    exact hw
  · rw [update_of_ne hj, update_of_ne hj]
    exact h j

section Rules

variable {α σ : Type} {node recipient parent : ι} {m₁ m₂ m₃ : Nat}

omit [DecidableEq ι] [Key K] in
theorem zoom_ends {view : Nodes ι K → σ} {store : Nodes ι K → σ → Nodes ι K} {x : Action Fault σ α}
    {Q : α → Nodes ι K → Prop} (hself : store s (view s) = s)
    (hx : x.Ends (view s) (fun a q => Q a (store s q)) (Checked (view s))) :
    (Action.zoom view store x).Ends s Q (Checked s) := by
  rw [ends_zoom]
  refine hx.mono (fun _ _ hq => hq) fun _ q hq => ⟨hq.1, ?_⟩
  rw [hq.2, hself]

theorem onNode_ends {x : Node.Edit K α} (hs : ∀ j, (s j).Bounded)
    (hx : x.Ends (s node) (fun _ w => Edited (s node) w m₁) (Checked (s node))) :
    (onNode node x).Ends s
      (fun _ t => ∀ j, Edited (s j) (t j) (update (fun j => (s j).size) node m₁ j))
      (Checked s) := by
  apply zoom_ends
  · exact update_eq_self node s
  · refine hx.mono (fun _ w hw => ?_) fun _ _ h => h
    exact edited_update (fun j => (hs j).edited) hw

theorem onSplit_ends {x : Split.Edit K α} (hs : ∀ j, (s j).Bounded)
    (hx : x.Ends ⟨s node, s recipient⟩
      (fun _ q => Edited (s node) q.node m₁ ∧ Edited (s recipient) q.recipient m₂)
      (Checked ⟨s node, s recipient⟩)) :
    (onSplit node recipient x).Ends s
      (fun _ t => ∀ j, Edited (s j) (t j)
        (update (update (fun j => (s j).size) node m₁) recipient m₂ j))
      (Checked s) := by
  apply zoom_ends
  · rw [update_eq_self, update_eq_self]
  · refine hx.mono (fun _ q hq => ?_) fun _ _ h => h
    exact edited_update (edited_update (fun j => (hs j).edited) hq.1) hq.2

theorem onPair_ends {x : Pair.Edit K α} (hs : ∀ j, (s j).Bounded)
    (hx : x.Ends ⟨s node, s parent⟩
      (fun _ q => Edited (s node) q.node m₁ ∧ Edited (s parent) q.parent m₂)
      (Checked ⟨s node, s parent⟩)) :
    (onPair node parent x).Ends s
      (fun _ t => ∀ j, Edited (s j) (t j)
        (update (update (fun j => (s j).size) node m₁) parent m₂ j))
      (Checked s) := by
  apply zoom_ends
  · rw [update_eq_self, update_eq_self]
  · refine hx.mono (fun _ q hq => ?_) fun _ _ h => h
    exact edited_update (edited_update (fun j => (hs j).edited) hq.1) hq.2

theorem onFamily_ends {x : Family.Edit K α} (hs : ∀ j, (s j).Bounded)
    (hx : x.Ends ⟨s node, s recipient, s parent⟩
      (fun _ q => Edited (s node) q.node m₁ ∧ Edited (s recipient) q.recipient m₂ ∧
        Edited (s parent) q.parent m₃) (Checked ⟨s node, s recipient, s parent⟩)) :
    (onFamily node recipient parent x).Ends s
      (fun _ t => ∀ j, Edited (s j) (t j)
        (update (update (update (fun j => (s j).size) node m₁) recipient m₂) parent m₃ j))
      (Checked s) := by
  apply zoom_ends
  · rw [update_eq_self, update_eq_self, update_eq_self]
  · refine hx.mono (fun _ q hq => ?_) fun _ _ h => h
    have hnode := edited_update (fun j => (hs j).edited) hq.1
    exact edited_update (edited_update hnode hq.2.1) hq.2.2

end Rules

namespace Call

variable [KeyText K]

/-- A call on bounded nodes that answers leaves the stated slots; one of its checks stops it
otherwise, and then nothing has changed. -/
theorem ends (hs : ∀ j, (s j).Bounded) (c : Call ι K) :
    c.task.Ends s (fun _ t => ∀ j, Edited (s j) (t j) (c.sizes s j)) (Checked s) := by
  refine ends_discard.mpr ?_
  cases c with
  | look node l =>
      have hself := update_eq_self node fun j => (s j).size
      rw [sizes, ← hself]
      exact onNode_ends hs ((l.ends (hs node)).mono (fun _ _ hw => hw ▸ (hs node).edited)
        fun _ _ hw => hw)
  | change node c => exact onNode_ends hs (c.ends (hs node))
  | moveHalf node recipient =>
      exact ends_map.mpr (onSplit_ends hs (Split.moveHalf_ends (hs node) (hs recipient)))
  | takeLast node parent key id =>
      exact ends_map.mpr (onPair_ends hs (Pair.takeLast_ends (hs node) (hs parent)))
  | takeFirst node parent key id i =>
      exact ends_map.mpr (onPair_ends hs (Pair.takeFirst_ends (hs node) (hs parent)))
  | mergeInto node recipient parent i =>
      have hends := Family.mergeInto_ends (i := i) (hs node) (hs recipient) (hs parent)
      exact ends_map.mpr (onFamily_ends hs hends)
  | lendFirst node recipient parent =>
      have hends := Family.lendFirst_ends (hs node) (hs recipient) (hs parent)
      exact ends_map.mpr (onFamily_ends hs (hends.mono (fun _ _ h => h.2) fun _ _ h => h))
  | lendLast node recipient parent i =>
      have hends := Family.lendLast_ends (i := i) (hs node) (hs recipient) (hs parent)
      exact ends_map.mpr (onFamily_ends hs (hends.mono (fun _ _ h => h.2) fun _ _ h => h))

theorem lends (hs : ∀ j, (s j).Bounded) (c : Call ι K) :
    c.task.Ends s (fun _ _ => c.Lends s) fun _ _ => True := by
  have hends := ends hs c
  cases c with
  | lendFirst node recipient parent =>
      rw [task, ends_discard, respond, ends_map, onFamily, ends_zoom]
      exact (Family.lendFirst_ends (hs node) (hs recipient) (hs parent)).mono (fun _ _ h => h.1)
        fun _ _ _ => trivial
  | lendLast node recipient parent i =>
      rw [task, ends_discard, respond, ends_map, onFamily, ends_zoom]
      exact (Family.lendLast_ends (hs node) (hs recipient) (hs parent)).mono (fun _ _ h => h.1)
        fun _ _ _ => trivial
  | _ => exact hends.mono (fun _ _ _ => trivial) fun _ _ _ => trivial

/-- The nodes after a call, answered or stopped. -/
def after (s : Nodes ι K) (c : Call ι K) : Nodes ι K := (c.task.result s).2

end Call

end Node

namespace Nodes

open Node

variable {ι K : Type} [DecidableEq ι] [Key K] [KeyText K] {s : Nodes ι K}

/-- The nodes after a row of calls. -/
def after (s : Nodes ι K) (cs : List (Call ι K)) : Nodes ι K := cs.foldl Call.after s

theorem after_cons (s : Nodes ι K) (c : Call ι K) (cs : List (Call ι K)) :
    s.after (c :: cs) = (c.after s).after cs := rfl

theorem after_append (s : Nodes ι K) (cs cs' : List (Call ι K)) :
    s.after (cs ++ cs') = (s.after cs).after cs' := List.foldl_append

/-- A call edits the nodes, or it is stopped and changes nothing. -/
theorem call_after (hs : ∀ j, (s j).Bounded) (c : Call ι K) :
    (c.task s = .ok () (c.after s) ∧ (∀ j, Edited (s j) (c.after s j) (c.sizes s j)) ∧ c.Lends s) ∨
      (¬ ∃ t, c.task s = .ok () t) ∧ c.after s = s := by
  have hends := (c.ends hs).and (c.lends hs)
  unfold Call.after Action.result
  cases hc : c.task s with
  | ok a t => exact .inl ⟨rfl, hends.of_ok hc⟩
  | error f t => exact .inr ⟨nofun, (hends.of_error hc).1.2⟩

/-- What a row of calls leaves of bounded nodes. -/
theorem after_edited (hs : ∀ j, (s j).Bounded) (cs : List (Call ι K)) (j : ι) :
    Edited (s j) (s.after cs j) (s.after cs j).size := by
  induction cs generalizing s with
  | nil => exact (hs j).edited
  | cons c cs ih =>
      rw [after_cons]
      rcases call_after hs c with ⟨-, hedited, -⟩ | ⟨-, hsame⟩
      · exact (hedited j).trans (ih fun i => (hedited i).bounded (hs i))
      · rw [hsame]
        exact ih hs

end Nodes

end PagedIndex
