import PagedIndex.Proofs.Disk.Changes

/-! # Opening a file again

The stack of released pages is not stored.  A store that is opened over the file of another one
has as many pages when the file ends with the last of them (`Exact`), and it takes for released
whatever page carries the mark: `mem_free_reopened` and `live_reopened` say what becomes of the two
kinds of pages, and `ascending_reopened` in which order the stack comes back.  A store whose
released pages carry the mark (`Marked`) finds all of them again. -/

namespace PagedIndex.Disk

variable {d : Disk} {id : PageId} {rest : List PageId}

/-! ### The end of the file -/

/-- The file ends with its last page. -/
def Exact (d : Disk) : Prop := d.file.length = d.pageCount.toNat * pageSize

namespace Exact

theorem overwritten (h : d.Exact) (hid : d.Holds id) (p : Page) :
    (d.file.writePage id.toNat p).length = d.file.length := by
  have hlt : id.toNat < d.pageCount.toNat := UInt32.lt_iff_toNat_lt.mp hid.2
  refine Nat.max_eq_left ?_
  rw [h]
  exact Nat.mul_le_mul_right pageSize hlt

theorem put (h : d.Exact) (hid : d.Holds id) (p : Page) : (d.put id p).Exact :=
  (h.overwritten hid p.stamped).trans h

theorem reused (h : d.Exact) (hid : d.Holds id) : (d.reused id rest).Exact :=
  (h.overwritten hid Page.zero).trans h

theorem released (h : d.Exact) (hid : d.Holds id) : (d.released id).Exact :=
  h.put hid Page.tombstone

theorem grown (h : d.Exact) (hvalid : (⟨d.pageCount⟩ : PageId).isValid) : d.grown.Exact := by
  unfold Exact
  rw [toNat_grown hvalid]
  refine Nat.max_eq_right ?_
  rw [h]
  exact Nat.mul_le_mul_right pageSize (Nat.le_succ _)

end Exact

/-! ### Released pages -/

theorem mem_releasedPages {file : File} {count : Nat} (hcount : count ≤ UInt32.size) :
    id ∈ releasedPages file count ↔ id.toNat < count ∧ (file.block id.toNat).kind = .free := by
  induction count with
  | zero => simp [releasedPages]
  | succ count ih =>
      have hval : (UInt32.ofNat count).toNat = count := UInt32.toNat_ofNat_of_lt' hcount
      have hlast : id = ⟨UInt32.ofNat count⟩ ↔ id.toNat = count :=
        ⟨fun h => by rw [h]; exact hval, fun h => PageId.toNat_injective (h.trans hval.symm)⟩
      unfold releasedPages
      split
      · next hfree =>
          rw [List.mem_cons, ih (by omega), hlast]
          constructor
          · rintro (h | ⟨hlt, hkind⟩)
            · exact ⟨by omega, h ▸ hfree⟩
            · exact ⟨by omega, hkind⟩
          · rintro ⟨hlt, hkind⟩
            rcases Nat.lt_succ_iff_lt_or_eq.mp hlt with h | h
            · exact .inr ⟨h, hkind⟩
            · exact .inl h
      · next hfree =>
          rw [ih (by omega)]
          constructor
          · exact fun ⟨hlt, hkind⟩ => ⟨by omega, hkind⟩
          · rintro ⟨hlt, hkind⟩
            refine ⟨Nat.lt_of_le_of_ne (Nat.le_of_lt_succ hlt) fun h => hfree ?_, hkind⟩
            rwa [← h]

theorem releasedPages_descending {file : File} {count : Nat} (hcount : count ≤ UInt32.size) :
    (releasedPages file count).Pairwise fun a b => b.val < a.val := by
  induction count with
  | zero => exact .nil
  | succ count ih =>
      unfold releasedPages
      split
      · refine List.pairwise_cons.mpr ⟨fun id hid => ?_, ih (by omega)⟩
        have hlt := ((mem_releasedPages (by omega)).mp hid).1
        rw [UInt32.lt_iff_toNat_lt, UInt32.toNat_ofNat_of_lt' hcount]
        exact hlt
      · exact ih (by omega)

/-! ### The reopened store -/

/-- The store found in the file. -/
def reopened (d : Disk) : Disk :=
  { d with free := releasedPages d.file d.pageCount.toNat, device := [] }

theorem Exact.ofFile_eq (h : d.Exact) : ofFile d.file = d.reopened := by
  have hcount : UInt32.ofNat (d.file.length / pageSize) = d.pageCount := by
    rw [h, Nat.mul_div_cancel _ (by decide), UInt32.ofNat_toNat]
  simp only [ofFile, hcount]
  rfl

theorem openExisting_file (h : d.Exact) : openExisting (some d.file) = .ok d.reopened :=
  congrArg Except.ok h.ofFile_eq

theorem mem_free_reopened :
    id ∈ d.reopened.free ↔ d.Holds id ∧ (d.image id).kind = .free := by
  refine (mem_releasedPages (Nat.le_of_lt d.pageCount.toNat_lt)).trans (and_congr_left' ?_)
  exact ⟨fun h => holds_of_lt (UInt32.lt_iff_toNat_lt.mpr h),
    fun h => UInt32.lt_iff_toNat_lt.mp h.2⟩

theorem live_reopened : d.reopened.Live id ↔ d.Holds id ∧ (d.image id).kind ≠ .free := by
  have hholds : d.reopened.Holds id ↔ d.Holds id := Iff.rfl
  unfold Live
  rw [mem_free_reopened, hholds, not_and]
  exact and_congr_right fun hid => ⟨fun h => h hid, fun h _ => h⟩

/-- From the bottom of the stack to its top the identifiers ascend. -/
theorem ascending_reopened : d.reopened.free.reverse.Pairwise fun a b => a.val < b.val :=
  List.pairwise_reverse.mpr (releasedPages_descending (Nat.le_of_lt d.pageCount.toNat_lt))

/-- The store of any file has a stack of released pages in order, and all of its pages. -/
theorem Sound.ofFile (file : File) : (Disk.ofFile file).Sound where
  nodup := by
    refine (releasedPages_descending (Nat.le_of_lt (UInt32.toNat_lt _))).imp ?_
    rintro a b hlt rfl
    exact UInt32.lt_irrefl _ hlt
  listed id hid := by
    have hlt := ((mem_releasedPages (Nat.le_of_lt (UInt32.toNat_lt _))).mp hid).1
    exact holds_of_lt (UInt32.lt_iff_toNat_lt.mpr hlt)
  room := by
    have hcount : (UInt32.ofNat (file.length / pageSize)).toNat ≤ file.length / pageSize :=
      Nat.mod_le _ _
    exact Nat.le_trans (Nat.mul_le_mul_right pageSize hcount) (Nat.div_mul_le_self _ _)

theorem openOrCreate_reliable {file : Option File} (h : openOrCreate file = .ok d) :
    d.Reliable := by
  cases file with
  | none =>
      obtain rfl : d = ⟨.empty, 0, [], []⟩ := (Except.ok.inj h).symm
      rfl
  | some file =>
      obtain rfl : ofFile file = d := Except.ok.inj h
      rfl

theorem create_reliable (hd : create none = .ok d) : d.Reliable := by
  have hopen : openOrCreate none = .ok d := hd
  exact openOrCreate_reliable hopen

theorem openOrCreate_sound {file : Option File} (h : openOrCreate file = .ok d) : d.Sound := by
  cases file with
  | none =>
      obtain rfl : d = ⟨.empty, 0, [], []⟩ := (Except.ok.inj h).symm
      exact ⟨List.nodup_nil, nofun, Nat.zero_le _⟩
  | some file =>
      obtain rfl : ofFile file = d := Except.ok.inj h
      exact .ofFile file

theorem Sound.reopened (h : d.Exact) : d.reopened.Sound := by
  rw [← h.ofFile_eq]
  exact .ofFile d.file

/-! ### Marks -/

/-- Every released page carries the mark of one, so that it is found again. -/
structure Marked (d : Disk) : Prop where
  sound : d.Sound
  exact : d.Exact
  marked : ∀ id ∈ d.free, (d.image id).kind = .free

theorem create_marked (h : create none = .ok d) : d.Marked := by
  obtain rfl : d = ⟨.empty, 0, [], []⟩ := (Except.ok.inj h).symm
  exact ⟨⟨List.nodup_nil, nofun, Nat.zero_le _⟩, rfl, nofun⟩

namespace Marked

variable {p : Page}

theorem put (h : d.Marked) (hid : d.Live id) (p : Page) : (d.put id p).Marked where
  sound := h.sound.put
  exact := h.exact.put hid.1 p
  marked other ho := by
    have hne : other ≠ id := by
      rintro rfl
      exact hid.2 ho
    rw [image_put_ne hne]
    exact h.marked other ho

theorem reused (h : d.Marked) (hfree : d.free = id :: rest) : (d.reused id rest).Marked where
  sound := h.sound.reused hfree
  exact := h.exact.reused (h.sound.listed id (hfree ▸ List.mem_cons_self))
  marked other ho := by
    have hne : other ≠ id := by
      rintro rfl
      exact (List.nodup_cons.mp (hfree ▸ h.sound.nodup)).1 ho
    rw [image_reused, if_neg hne]
    exact h.marked other (hfree ▸ List.mem_cons_of_mem _ ho)

theorem grown (h : d.Marked) (hfree : d.free = []) (hvalid : (⟨d.pageCount⟩ : PageId).isValid) :
    d.grown.Marked where
  sound := h.sound.grown hfree hvalid
  exact := h.exact.grown hvalid
  marked other ho := by
    have hnil : other ∈ d.free := ho
    rw [hfree] at hnil
    cases hnil

theorem released (h : d.Marked) (hid : d.Live id) : (d.released id).Marked where
  sound := h.sound.released hid
  exact := h.exact.released hid.1
  marked other ho := by
    by_cases hne : other = id
    · have himage : (d.released id).image other = Page.tombstone.stamped := by
        rw [hne]
        exact image_put_self
      rw [himage, Page.stamped_kind, Page.kind_tombstone]
    · have himage : (d.released id).image other = d.image other := image_put_ne hne
      rw [himage]
      exact h.marked other ((List.mem_cons.mp ho).resolve_left hne)

theorem reopened (h : d.Exact) : d.reopened.Marked where
  sound := .reopened h
  exact := h
  marked _ hid := (mem_free_reopened.mp hid).2

end Marked

end PagedIndex.Disk
