import PagedIndex.Proofs.Disk.Run
import PagedIndex.Proofs.Pool.Effects
import PagedIndex.Proofs.Pool.Victims

/-! # Flushing every page

The table is enumerated in an order that nobody knows, and a flush stops at the first entry that is
refused.  Neither matters.  Every page in the table has a place in the file (`Filed`), so no entry
is refused and a flush is a fold over its entries (`flushEntries_eq`).  No two entries share a page
or a frame (`Apart`), so two of them can change places in the fold (`flushedAt_comm`), and every
order leaves the same pool.  `Flushed` says what that pool is, and `Run.flushes` that all of this
holds in every session of a run over a file that nobody else changes.  Afterwards there is nothing
left to write, which a second flush shows by leaving any store as it is. -/

namespace PagedIndex.Pool

open PagedIndex.Action

variable {n : Nat}

/-! ### One entry for each page -/

/-- The table has one entry for each of its pages. -/
def Keyed (s : Pool n) : Prop := (s.table.map Prod.fst).Nodup

section Calls

variable {s : Pool n} {guards : List (Guard n)} {f : Fin n} {id : PageId}

theorem Keyed.forgotten (h : Keyed s) (id : PageId) : Keyed (s.forgotten id) :=
  h.sublist (List.filter_sublist.map _)

theorem Keyed.recorded (h : Keyed s) (id : PageId) (f : Fin n) : Keyed (s.recorded id f) := by
  refine List.nodup_cons.mpr ⟨fun hmem => ?_, h.forgotten id⟩
  obtain ⟨e, he, heq⟩ := List.mem_map.mp hmem
  simp [heq] at he

theorem writeBack_keyed (h : Keyed s) :
    (writeBack f id).Ends s (fun _ s' => Keyed s') fun _ s' => Keyed s' :=
  writeBack_ends (fun _ => h) (fun _ _ => h) (fun _ _ _ => h) fun _ _ _ _ => h

theorem acquire_keyed (h : Keyed s) :
    acquire.Ends s (fun _ s' => Keyed s') fun _ s' => Keyed s' := by
  refine acquire_ends (fun _ _ _ => h) (fun f rest _ _ => ?_) fun _ _ => h
  refine vacate_ends (fun _ => h) fun old _ => ?_
  have h' : Keyed { s with lru := ⟨rest⟩ } := h
  exact (writeBack_keyed h').mono (fun _ _ h' => h'.forgotten old) fun _ _ h' => h'

theorem fetch_keyed (ha : Accounted s guards []) (h : Keyed s) (access : Access) :
    (fetch id access).Ends s (fun _ s' => Keyed s') (Kept Keyed True) := by
  refine fetch_ends (pinPage_ends (fun _ => h) (fun _ _ _ _ => h) (fun _ _ _ _ _ => trivial) ?_)
  intro _ _
  refine ((acquire_accounted (L := True) ha).and (acquire_keyed h)).mono ?_
    fun _ _ h' => .intro h'.2
  rintro f s' ⟨⟨ha', -⟩, h'⟩
  exact ⟨ha'.unpinned (.inr (.inr List.mem_cons_self)), fun _ _ => h'.recorded id f, fun _ _ => h'⟩

theorem newPage_keyed (ha : Accounted s guards []) (h : Keyed s) :
    newPage.Ends s (fun _ s' => Keyed s') (Kept Keyed True) := by
  refine newPage_ends (((acquire_accounted (L := True) ha).and (acquire_keyed h)).mono ?_
    fun _ _ h' => .intro h'.2)
  rintro f s' ⟨⟨ha', -⟩, h'⟩
  exact ⟨ha'.unpinned (.inr (.inr List.mem_cons_self)), fun id _ _ => h'.recorded id f,
    fun _ _ => h'.recorded _ f, fun _ _ _ => trivial, fun _ _ _ _ => h'⟩

theorem deletePage_keyed (h : Keyed s) :
    (deletePage id).Ends s (fun _ s' => Keyed s') (Kept Keyed True) := by
  have hdisk : ∀ {s' : Pool n}, Keyed s' →
      (onDisk ((Disk.deallocate id).mapCause Stop.refused)).Ends s' (fun _ s' => Keyed s')
        (Kept Keyed True) := fun h' =>
    deallocate_ends (fun _ _ _ => h') (fun _ _ => h') (fun _ _ => h') fun _ _ _ => h'
  exact deletePage_ends (fun _ _ _ => h) (fun _ _ _ => hdisk (h.forgotten id)) fun _ => hdisk h

theorem flushPage_keyed (h : Keyed s) :
    (flushPage id).Ends s (fun _ s' => Keyed s') (Kept Keyed True) :=
  flushPage_ends (fun _ => h) fun _ _ =>
    (writeBack_keyed h).mono (fun _ _ h' => h') fun _ _ => .intro

theorem flushEntries_keyed (h : Keyed s) (entries : List (PageId × Fin n)) :
    (flushEntries entries).Ends s (fun _ s' => Keyed s') (Kept Keyed True) :=
  flushEntries_ends h fun _ _ _ h' =>
    (writeBack_keyed h').mono (fun _ _ h'' => h'') fun _ _ => .intro

end Calls

theorem Event.keyed {t : Session n} {e : Event n} (ha : Accounted t.pool t.guards [])
    (h : Keyed t.pool) (he : e.Offered t) :
    e.task.Ends t.pool (fun _ s => Keyed s) (Kept Keyed True) := by
  cases e with
  | newPage => exact ends_map.mpr (newPage_keyed ha h)
  | fetch id access => exact ends_map.mpr (fetch_keyed ha h access)
  | deletePage id => exact ends_map.mpr (deletePage_keyed h)
  | flushPage id => exact ends_map.mpr (flushPage_keyed h)
  | flushAll order => exact ends_map.mpr (flushEntries_keyed h order)
  | release g => exact ends_map.mpr (release_ends (ha.pins_ne_zero he) (fun _ => h) fun _ => h)
  | update g p => exact ends_map.mpr (update_ends h)
  | tamper file => exact h

theorem Step.keyed {t u : Session n} {e : Event n} {o : Outcome n}
    (ha : Accounted t.pool t.guards []) (h : Keyed t.pool) (hs : Step t e o u) : Keyed u.pool := by
  cases hs with
  | answered he hx => exact (e.keyed ha h he).of_ok hx
  | refused he hx => exact (e.keyed ha h he).of_error hx

theorem Run.keyed {disk : Disk} {s : Pool n} {h : List (Entry n)} {t : Session n}
    (hs : Pool.ofDisk n disk = .ok s) (hrun : Run ⟨s, []⟩ h t) : Keyed t.pool := by
  induction hrun with
  | start =>
      rw [Keyed, (ofDisk_parts hs).2.1]
      exact List.nodup_nil
  | step hrun hstep ih => exact hstep.keyed (hrun.accounted hs) ih

/-- No two entries share a page or a frame. -/
def Apart (entries : List (PageId × Fin n)) : Prop :=
  entries.Pairwise fun x y => x.1 ≠ y.1 ∧ x.2 ≠ y.2

/-- A frame holds one page only, so entries for different pages are for different frames. -/
theorem Accounted.apart {s : Pool n} {guards : List (Guard n)} (ha : Accounted s guards [])
    (h : Keyed s) : Apart s.table := by
  refine (List.pairwise_map.mp h).imp_of_mem fun {x y} hx hy hne => ⟨hne, fun hframe => hne ?_⟩
  have hpage := ha.tabled x hx
  rw [hframe, ha.tabled y hy] at hpage
  exact (Option.some.inj hpage).symm

/-! ### One entry after the other -/

/-- The pool after an entry of the table has been written back. -/
def flushedAt (s : Pool n) (e : PageId × Fin n) : Pool n :=
  if (s.frame e.2).dirty then s.written e.2 e.1 else s

/-- The pool after some entries have been written back, in order. -/
def flushed (s : Pool n) (entries : List (PageId × Fin n)) : Pool n := entries.foldl flushedAt s

section Entries

variable {s : Pool n} {e x y : PageId × Fin n} {f g : Fin n} {id other : PageId}
  {entries order : List (PageId × Fin n)}

theorem flushedAt_of_clean (h : (s.frame e.2).dirty = false) : s.flushedAt e = s :=
  if_neg (by simp [h])

theorem flushedAt_of_dirty (h : (s.frame e.2).dirty = true) : s.flushedAt e = s.written e.2 e.1 :=
  if_pos h

theorem flushedAt_same (s : Pool n) (e : PageId × Fin n) :
    (s.flushedAt e).table = s.table ∧ (s.flushedAt e).free = s.free ∧ (s.flushedAt e).lru = s.lru ∧
      (s.flushedAt e).disk.free = s.disk.free ∧
      (s.flushedAt e).disk.pageCount = s.disk.pageCount := by
  unfold flushedAt
  split <;> exact ⟨rfl, rfl, rfl, rfl, rfl⟩

theorem holds_flushedAt : (s.flushedAt e).disk.Holds id ↔ s.disk.Holds id := by
  rw [Disk.Holds, Disk.Holds, (flushedAt_same s e).2.2.2.2]

theorem sound_flushedAt (hd : s.disk.Sound) : (s.flushedAt e).disk.Sound := by
  unfold flushedAt
  split
  · exact hd.put
  · exact hd

theorem reliable_flushedAt (hr : s.disk.Reliable) : (s.flushedAt e).disk.Reliable := by
  unfold flushedAt
  split
  · exact hr.tail rfl
  · exact hr

theorem frame_flushedAt_self : (s.flushedAt e).frame e.2 = { s.frame e.2 with dirty := false } := by
  cases h : (s.frame e.2).dirty with
  | true =>
      rw [flushedAt_of_dirty h]
      exact frame_setAt_self s e.2 _
  | false =>
      rw [flushedAt_of_clean h, ← h]

theorem frame_flushedAt_ne (h : f ≠ e.2) : (s.flushedAt e).frame f = s.frame f := by
  unfold flushedAt
  split
  · exact frame_setAt_ne s e.2 _ h
  · rfl

theorem block_flushedAt_ne {k : Nat} (h : (s.frame e.2).dirty → e.1.toNat ≠ k) :
    (s.flushedAt e).disk.file.block k = s.disk.file.block k := by
  unfold flushedAt
  split
  · next hdirty => exact if_neg (h hdirty).symm
  · rfl

theorem length_flushedAt (hd : s.disk.Sound) (hid : s.disk.Holds e.1) :
    (s.flushedAt e).disk.file.length = s.disk.file.length := by
  unfold flushedAt
  split
  · exact Disk.length_put hd hid _
  · rfl

theorem writeBack_eq (hr : s.disk.Reliable) (hid : s.disk.Holds e.1) :
    writeBack e.2 e.1 s = .ok () (s.flushedAt e) :=
  Ends.eq_ok (writeBack_ends (fun h => ⟨rfl, (flushedAt_of_clean h).symm⟩)
    (fun h _ => ⟨rfl, (flushedAt_of_dirty h).symm⟩) (fun _ hno => absurd hid hno)
    fun b _ _ hb => absurd hb (hr.not_fails b))

/-- A flush whose pages have places in the file goes through. -/
theorem flushEntries_eq (hr : s.disk.Reliable) (he : ∀ e ∈ entries, s.disk.Holds e.1) :
    flushEntries entries s = .ok () (s.flushed entries) := by
  induction entries generalizing s with
  | nil => rfl
  | cons e rest ih =>
      rw [List.forall_mem_cons] at he
      have hrest := ih (reliable_flushedAt hr) fun x hx =>
        holds_flushedAt (e := e).mpr (he.2 x hx)
      have hfirst := writeBack_eq hr he.1
      simp only [flushEntries, Bind.bind, EStateM.bind, hfirst]
      exact hrest

/-- A clean frame is not written, whatever the store. -/
theorem writeBack_idle (h : (s.frame f).dirty = false) : writeBack f id s = .ok () s := by
  have hclean : ¬ s.frames[f].dirty = true := Bool.eq_false_iff.mp h
  refine Ends.eq_ok ?_
  unfold writeBack
  rw [ends_bind, ends_get, if_neg hclean]
  exact ⟨rfl, rfl⟩

theorem flushEntries_idle (h : ∀ e ∈ entries, (s.frame e.2).dirty = false) :
    flushEntries entries s = .ok () s := by
  refine Ends.eq_ok ((flushEntries_ends (I := (· = s)) rfl ?_).mono (fun _ _ hs => ⟨rfl, hs⟩)
    fun _ _ => id)
  rintro e he s' rfl
  exact (ends_of_eq (writeBack_idle (h e he))).mpr rfl

/-! ### Any order -/

theorem written_written (s : Pool n) (h : g ≠ f) :
    (s.written f id).written g other =
      { (s.setAt f { s.frame f with dirty := false }).setAt g { s.frame g with dirty := false } with
        disk := (s.disk.put id (s.frame f).page).put other (s.frame g).page } := by
  have hg : (s.written f id).frame g = s.frame g := frame_setAt_ne s f _ h
  rw [← hg]
  rfl

theorem written_comm (s : Pool n) (hf : f ≠ g) (hid : id ≠ other) :
    (s.written f id).written g other = (s.written g other).written f id := by
  rw [written_written s hf.symm, written_written s hf, setAt_comm s f _ _ hf,
    s.disk.put_comm _ _ hid]

theorem flushedAt_comm (s : Pool n) (h : x.1 ≠ y.1 ∧ x.2 ≠ y.2) :
    (s.flushedAt x).flushedAt y = (s.flushedAt y).flushedAt x := by
  have hx : ((s.flushedAt y).frame x.2).dirty = (s.frame x.2).dirty :=
    congrArg Frame.dirty (frame_flushedAt_ne h.2)
  have hy : ((s.flushedAt x).frame y.2).dirty = (s.frame y.2).dirty :=
    congrArg Frame.dirty (frame_flushedAt_ne h.2.symm)
  cases hdx : (s.frame x.2).dirty with
  | false => rw [flushedAt_of_clean hdx, flushedAt_of_clean (hx.trans hdx)]
  | true =>
      cases hdy : (s.frame y.2).dirty with
      | false => rw [flushedAt_of_clean hdy, flushedAt_of_clean (hy.trans hdy)]
      | true =>
          rw [flushedAt_of_dirty (hx.trans hdx), flushedAt_of_dirty (hy.trans hdy),
            flushedAt_of_dirty hdx, flushedAt_of_dirty hdy, written_comm s h.2 h.1]

theorem flushed_perm (s : Pool n) (h : Apart entries) (horder : order.Perm entries) :
    s.flushed order = s.flushed entries := by
  have : Std.Symm fun x y : PageId × Fin n =>
      ∀ s : Pool n, (s.flushedAt x).flushedAt y = (s.flushedAt y).flushedAt x :=
    ⟨fun _ _ hxy s => (hxy s).symm⟩
  have hswap := (h.imp fun hxy s => flushedAt_comm s hxy).forall_of_forall fun _ _ _ => rfl
  exact (horder.symm.foldl_eq' hswap s).symm

end Entries

/-! ### What a flush leaves -/

/-- The entries of the pool `s` have been written back, which left the pool `s'`. -/
structure Flushed (entries : List (PageId × Fin n)) (s s' : Pool n) : Prop where
  /-- A page that was dirty is in the file as it was in memory, but for its checksum. -/
  stored : ∀ e ∈ entries, (s.frame e.2).dirty →
    s'.disk.file.readPage? e.1.toNat = some (s.frame e.2).page.stamped ∧
      (s.frame e.2).page.stamped.Agrees (s.frame e.2).page
  /-- Nothing else is written. -/
  others : ∀ k, (∀ e ∈ entries, (s.frame e.2).dirty → e.1.toNat ≠ k) →
    s'.disk.file.block k = s.disk.file.block k
  length : s'.disk.file.length = s.disk.file.length
  /-- The frames of the entries lose their marks, and nothing but these. -/
  clean : ∀ e ∈ entries, s'.frame e.2 = { s.frame e.2 with dirty := false }
  outside : ∀ f, (∀ e ∈ entries, e.2 ≠ f) → s'.frame f = s.frame f
  table : s'.table = s.table
  free : s'.free = s.free
  lru : s'.lru = s.lru
  released : s'.disk.free = s.disk.free
  pageCount : s'.disk.pageCount = s.disk.pageCount

namespace Flushed

variable {s s' : Pool n} {e : PageId × Fin n} {entries : List (PageId × Fin n)}

theorem nil (s : Pool n) : Flushed [] s s :=
  ⟨nofun, fun _ _ => rfl, rfl, nofun, fun _ _ => rfl, rfl, rfl, rfl, rfl, rfl⟩

/-- An entry that shares neither page nor frame with the later ones is left as its turn left it. -/
theorem cons (hd : s.disk.Sound) (hid : s.disk.Holds e.1) (hapart : Apart (e :: entries))
    (h : Flushed entries (s.flushedAt e) s') : Flushed (e :: entries) s s' := by
  obtain ⟨htable, hfree, hlru, hreleased, hcount⟩ := flushedAt_same s e
  have hfirst := (List.pairwise_cons.mp hapart).1
  have hframe : ∀ x ∈ entries, (s.flushedAt e).frame x.2 = s.frame x.2 := fun x hx =>
    frame_flushedAt_ne (hfirst x hx).2.symm
  have hself : s'.frame e.2 = { s.frame e.2 with dirty := false } :=
    (h.outside e.2 fun x hx => (hfirst x hx).2.symm).trans frame_flushedAt_self
  have hlength := h.length.trans (length_flushedAt hd hid)
  constructor
  case stored =>
    refine List.forall_mem_cons.mpr ⟨fun hdirty => ?_, fun x hx => ?_⟩
    · refine ⟨?_, Page.agrees_stamped _⟩
      have hblock := h.others e.1.toNat fun x hx _ he =>
        (hfirst x hx).1 (PageId.toNat_injective he).symm
      rw [File.readPage?, hblock, h.length, ← File.readPage?, flushedAt_of_dirty hdirty]
      exact File.readPage?_writePage _ _ _
    · rw [← hframe x hx]
      exact h.stored x hx
  case others =>
    intro k hk
    rw [List.forall_mem_cons] at hk
    refine (h.others k fun x hx => ?_).trans (block_flushedAt_ne hk.1)
    rw [hframe x hx]
    exact hk.2 x hx
  case length => exact hlength
  case clean =>
    refine List.forall_mem_cons.mpr ⟨hself, fun x hx => ?_⟩
    rw [← hframe x hx]
    exact h.clean x hx
  case outside =>
    intro f hf
    rw [List.forall_mem_cons] at hf
    exact (h.outside f hf.2).trans (frame_flushedAt_ne hf.1.symm)
  case table => exact h.table.trans htable
  case free => exact h.free.trans hfree
  case lru => exact h.lru.trans hlru
  case released => exact h.released.trans hreleased
  case pageCount => exact h.pageCount.trans hcount

end Flushed

theorem flushed_flushed {s : Pool n} {entries : List (PageId × Fin n)} (hd : s.disk.Sound)
    (he : ∀ e ∈ entries, s.disk.Holds e.1) (h : Apart entries) :
    Flushed entries s (s.flushed entries) := by
  induction entries generalizing s with
  | nil => exact .nil s
  | cons e rest ih =>
      rw [List.forall_mem_cons] at he
      have hrest := ih (sound_flushedAt (e := e) hd)
        (fun x hx => holds_flushedAt.mpr (he.2 x hx)) (List.pairwise_cons.mp h).2
      exact .cons hd he.1 h hrest

/-! ### Runs -/

/-- In every session of a run over a file that nobody else changes, all pages can be flushed, in
every order of the table, and the order leaves no trace.  The dirty pages are then in the file,
with new checksums where they carry any; nothing else of the file has changed, and nothing of the
pool but the marks of the frames in the table, which are gone.  So another flush writes nothing: it
goes through over any store, and leaves it as it is.  Whoever holds guards meanwhile does not
matter, except that a write guard keeps the flush waiting. -/
theorem Run.flushes {file : Option File} {d disk : Disk} {calls : List Disk.Entry} {s : Pool n}
    {h : List (Entry n)} {t : Session n} (hopen : Disk.openOrCreate file = .ok d)
    (hcalls : Disk.Run d calls disk) (hs : Pool.ofDisk n disk = .ok s) (hrun : Run ⟨s, []⟩ h t)
    (hfile : ∀ x ∈ h, ∀ other, x.event ≠ .tamper other) :
    (∀ e ∈ t.pool.table, t.pool.disk.Holds e.1) ∧
    ∃ s', flushAll t.pool = .ok () s' ∧
      (∀ order, order.Perm t.pool.table → flushEntries order t.pool = .ok () s') ∧
      Flushed t.pool.table t.pool s' ∧
      ∀ order store, order.Perm s'.table →
        flushEntries order { s' with disk := store } = .ok () { s' with disk := store } := by
  have hr₀ := Disk.openOrCreate_reliable hopen
  have hsound : disk.Sound := hcalls.sound hr₀ (Disk.openOrCreate_sound hopen)
  have hdisk : s.disk.Reliable := (ofDisk_parts hs).2.2.2.2 ▸ hcalls.reliable hr₀
  have hr := hrun.reliable (ofDisk_accounted hs) hdisk
  have hacc := hrun.accounted hs
  have hapart := hacc.apart (hrun.keyed hs)
  have hholds : ∀ e ∈ t.pool.table, t.pool.disk.Holds e.1 := fun e he =>
    (hrun.ranked hdisk hsound hs).1.resident e.2 e.1 (hacc.tabled e he)
  have hflushed := flushed_flushed (hrun.sound hsound hs hfile) hholds hapart
  refine ⟨hholds, _, flushEntries_eq hr hholds, fun order horder => ?_, hflushed, ?_⟩
  · have hentries : ∀ e ∈ order, t.pool.disk.Holds e.1 := fun e he =>
      hholds e (horder.mem_iff.mp he)
    rw [flushEntries_eq hr hentries, flushed_perm _ hapart horder]
  · intro order store horder
    refine flushEntries_idle fun e he => ?_
    rw [hflushed.table] at horder
    exact congrArg Frame.dirty (hflushed.clean e (horder.mem_iff.mp he))

/-- Two pages of a new file, one of them a data page, are both in the file after a flush in either
order of the table. -/
theorem flushes_two :
    ∃ (s : Pool 2) (h : List (Entry 2)) (t : Session 2) (s' : Pool 2),
      Disk.openOrCreate none = .ok ⟨.empty, 0, [], []⟩ ∧ Pool.ofDisk 2 ⟨.empty, 0, [], []⟩ = .ok s ∧
      Run ⟨s, []⟩ h t ∧ (∀ x ∈ h, ∀ other, x.event ≠ .tamper other) ∧
      t.pool.table = [(⟨1⟩, 1), (⟨0⟩, 0)] ∧ (∀ f, (t.pool.frame f).dirty = true) ∧
      flushAll t.pool = .ok () s' ∧ flushEntries [(⟨0⟩, 0), (⟨1⟩, 1)] t.pool = .ok () s' ∧
      s'.disk.file.readPage? 0 = some (Page.zero.setHeader (PageHeader.fresh .data)).stamped ∧
      s'.disk.file.readPage? 1 = some Page.zero.stamped ∧
      s'.frame 0 = { t.pool.frame 0 with dirty := false } := by
  generalize Page.zero.setHeader (PageHeader.fresh .data) = p
  let a : Guard 2 := ⟨0, ⟨0⟩, .write⟩
  let b : Guard 2 := ⟨1, ⟨1⟩, .write⟩
  let file : File := File.empty.writePage 0 Page.zero
  let file' : File := file.writePage 1 Page.zero
  let table : List (PageId × Fin 2) := [(⟨1⟩, 1), (⟨0⟩, 0)]
  let s : Pool 2 := ⟨#v[.empty, .empty], [], [0, 1], ⟨[]⟩, ⟨.empty, 0, [], []⟩⟩
  let s₁ : Pool 2 :=
    ⟨#v[⟨Page.zero, some ⟨0⟩, 1, false⟩, .empty], [(⟨0⟩, 0)], [1], ⟨[]⟩, ⟨file, 1, [], []⟩⟩
  let s₂ : Pool 2 := ⟨#v[⟨p, some ⟨0⟩, 1, false⟩, .empty], [(⟨0⟩, 0)], [1], ⟨[]⟩, ⟨file, 1, [], []⟩⟩
  let s₃ : Pool 2 := ⟨#v[⟨p, some ⟨0⟩, 0, true⟩, .empty], [(⟨0⟩, 0)], [1], ⟨[0]⟩, ⟨file, 1, [], []⟩⟩
  let s₄ : Pool 2 :=
    ⟨#v[⟨p, some ⟨0⟩, 0, true⟩, ⟨Page.zero, some ⟨1⟩, 1, false⟩], table, [], ⟨[0]⟩,
      ⟨file', 2, [], []⟩⟩
  let s₅ : Pool 2 :=
    ⟨#v[⟨p, some ⟨0⟩, 0, true⟩, ⟨Page.zero, some ⟨1⟩, 0, true⟩], table, [], ⟨[0, 1]⟩,
      ⟨file', 2, [], []⟩⟩
  have h₁ : Step ⟨s, []⟩ .newPage (.ok (some a)) ⟨s₁, [a]⟩ := .answered trivial rfl
  have h₂ : Step ⟨s₁, [a]⟩ (.update a p) (.ok none) ⟨s₂, [a]⟩ :=
    .answered ⟨List.mem_cons_self, rfl⟩ rfl
  have h₃ : Step ⟨s₂, [a]⟩ (.release a) (.ok none) ⟨s₃, []⟩ :=
    .answered List.mem_cons_self (by with_unfolding_all rfl)
  have h₄ : Step ⟨s₃, []⟩ .newPage (.ok (some b)) ⟨s₄, [b]⟩ := .answered trivial rfl
  have h₅ : Step ⟨s₄, [b]⟩ (.release b) (.ok none) ⟨s₅, []⟩ :=
    .answered List.mem_cons_self (by with_unfolding_all rfl)
  have hrun : Run ⟨s, []⟩ _ ⟨s₅, []⟩ := .step (.step (.step (.step (.step .start h₁) h₂) h₃) h₄) h₅
  have hopen : Disk.openOrCreate none = .ok ⟨.empty, 0, [], []⟩ := rfl
  obtain ⟨-, s', hflush, hall, hflushed, -⟩ := Run.flushes hopen .start rfl hrun (by simp)
  have hframe : s₅.frame 0 = ⟨p, some ⟨0⟩, 0, true⟩ := rfl
  have hframe' : s₅.frame 1 = ⟨Page.zero, some ⟨1⟩, 0, true⟩ := rfl
  have hdata := (hflushed.stored (⟨0⟩, 0) (by simp [s₅, table]) rfl).1
  have hzero := (hflushed.stored (⟨1⟩, 1) (by simp [s₅, table]) rfl).1
  rw [hframe] at hdata
  rw [hframe'] at hzero
  refine ⟨s, _, ⟨s₅, []⟩, s', hopen, rfl, hrun, by simp, rfl, ?_, hflush, hall _ ?_, hdata, hzero,
    hflushed.clean (⟨0⟩, 0) (by simp [s₅, table])⟩
  · intro f
    match f with
    | 0 => rfl
    | 1 => rfl
  · exact .swap _ _ []

end PagedIndex.Pool
