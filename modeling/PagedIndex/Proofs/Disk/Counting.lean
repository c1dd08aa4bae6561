import PagedIndex.Proofs.Disk.Run

/-! # Counting pages

A store counts its pages in one word, and a file of `maxFileSize` bytes has one page more than the
word can tell.  The store of a shorter file counts all of its whole pages, and so does every store
that is reached from it (`Run.counted`).  As long as it does, an allocation touches no page in use,
unless every identifier is taken and no page is released: then the file has grown before the count
runs over (`allocatesSafely_iff`).  The longest file opens as an empty one, and the first page that
is handed out there is its first page (`longest_file_uncounted`). -/

namespace PagedIndex.Disk

open PagedIndex.Action

/-! ### The count -/

/-- The store counts every whole page of its file. -/
def Counted (d : Disk) : Prop := d.pageCount.toNat = d.file.length / pageSize

theorem counted_ofFile_iff (file : File) : (ofFile file).Counted ↔ file.length < maxFileSize := by
  have hcount : (ofFile file).pageCount.toNat = file.length / pageSize % UInt32.size :=
    UInt32.toNat_ofNat'
  unfold Counted
  rw [hcount]
  show file.length / pageSize % UInt32.size = file.length / pageSize ↔ _
  rw [Nat.mod_eq_iff_lt (by decide), Nat.div_lt_iff_lt_mul (by decide)]
  rfl

section Steps

variable {d d' : Disk}

namespace Counted

theorem of_length (h : d.Counted) (hcount : d'.pageCount = d.pageCount)
    (hlen : d'.file.length = d.file.length) : d'.Counted := by
  unfold Counted
  rw [hcount, hlen]
  exact h

theorem length_lt (h : d.Counted) : d.file.length < (d.pageCount.toNat + 1) * pageSize := by
  refine (Nat.div_lt_iff_lt_mul (by decide)).mp ?_
  rw [← h]
  exact Nat.lt_succ_self _

theorem grown (h : d.Counted) (hvalid : (⟨d.pageCount⟩ : PageId).isValid) : d.grown.Counted := by
  have hlen : d.grown.file.length = (d.pageCount.toNat + 1) * pageSize :=
    Nat.max_eq_right (Nat.le_of_lt h.length_lt)
  unfold Counted
  rw [toNat_grown hvalid, hlen]
  exact (Nat.mul_div_cancel (d.pageCount.toNat + 1) (by decide)).symm

/-- A store that counts its pages counts them when it is opened again. -/
theorem reopened (h : d.Counted) : (ofFile d.file).Counted := by
  refine (counted_ofFile_iff d.file).mpr ((Nat.div_lt_iff_lt_mul (by decide)).mp ?_)
  rw [← h]
  exact d.pageCount.toNat_lt

end Counted

theorem Effect.counted {e : Event} {o : Outcome} (hd : d.Sound) (h : d.Counted)
    (he : Effect d e o d') : d'.Counted := by
  cases he with
  | @reused id rest hfree =>
      have hid := hd.listed id (hfree ▸ List.mem_cons_self)
      exact h.of_length rfl (length_put hd hid Page.zero)
  | grown hfree hvalid => exact h.grown hvalid
  | released hid => exact h.of_length rfl (length_put hd hid.1 _)
  | written hid => exact h.of_length rfl (length_put hd hid _)
  | opened => exact h.reopened
  | spared _ _ | shown _ | refused _ _ | damaged _ _ => exact h

theorem Run.counted {l : List Entry} (hr : d.Reliable) (hd : d.Sound) (h : d.Counted)
    (hrun : Run d l d') : d'.Counted := by
  induction hrun with
  | start => exact h
  | step hrun hs ih => exact (hrun.effect hr hs).counted (hrun.sound hr hd) ih

end Steps

/-! ### Allocation -/

/-- Every whole page of the file that is not released is counted afterwards, with the bytes that it
had. -/
def Keeps (d d' : Disk) : Prop :=
  ∀ k < d.file.length / pageSize, (∀ id ∈ d.free, id.toNat ≠ k) →
    k < d'.pageCount.toNat ∧ d'.file.block k = d.file.block k

/-- An allocation hands out a released page or the one behind the last, or it leaves the file as it
was; in either case no page in use is lost. -/
def AllocatesSafely (d : Disk) : Prop :=
  allocate.Ends d
    (fun id d' => id.isValid ∧ (id ∈ d.free ∨ id = ⟨d.pageCount⟩) ∧ Keeps d d')
    fun _ d' => d'.file = d.file ∧ Keeps d d'

section Allocation

variable {d : Disk}

theorem atLimit_iff :
    Event.AtLimit d .allocate ↔ d.free = [] ∧ ¬ (⟨d.pageCount⟩ : PageId).isValid := by
  simp [Event.AtLimit, PageId.isValid, PageId.ext_iff]

theorem Counted.allocatesSafely (h : d.Counted) (hr : d.Reliable) (hd : d.Sound)
    (hlimit : ¬ Event.AtLimit d .allocate) : d.AllocatesSafely := by
  refine allocate_ends (fun id rest hfree => ?_) (fun hfree hvalid => ?_)
    (fun _ hfree hvalid => absurd (atLimit_iff.mpr ⟨hfree, hvalid⟩) hlimit)
    fun b _ hb => absurd hb (hr.not_fails b)
  · have hmem : id ∈ d.free := hfree ▸ List.mem_cons_self
    refine ⟨(hd.listed id hmem).1, .inl hmem, fun k hk hused => ⟨h ▸ hk, ?_⟩⟩
    exact if_neg fun he => hused id hmem he.symm
  · refine ⟨hvalid, .inr rfl, fun k hk _ => ?_⟩
    rw [← h] at hk
    exact ⟨by rw [toNat_grown hvalid]; omega, if_neg (Nat.ne_of_lt hk)⟩

theorem allocate_atLimit (hr : d.Reliable) (h : Event.AtLimit d .allocate) :
    allocate d = .error (.broken .outOfRange)
      { d with
        file := d.file.writePage (PageId.toNat ⟨d.pageCount⟩) Page.zero
        device := d.device.tail } := by
  obtain ⟨hfree, hvalid⟩ := atLimit_iff.mp h
  refine Ends.eq_error ?_
  unfold allocate
  simp only [ends_bind, ends_get, hfree, ends_mapCause]
  refine store_ends ?_ fun b hb => absurd hb (hr.not_fails b)
  simp only [ends_require]
  exact ⟨fun h => hvalid h, fun _ => ⟨trivial, by rw [hfree]⟩⟩

/-- A store that counts its pages allocates safely exactly as long as there is an identifier left
or a page released. -/
theorem Counted.allocatesSafely_iff (h : d.Counted) (hr : d.Reliable) (hd : d.Sound) :
    d.AllocatesSafely ↔ ¬ Event.AtLimit d .allocate := by
  refine ⟨fun hsafe hlimit => ?_, h.allocatesSafely hr hd⟩
  have hfile := (hsafe.of_error (allocate_atLimit hr hlimit)).1
  have hcount : d.pageCount.toNat = 4294967295 := congrArg UInt32.toNat hlimit.2.2
  have hlen : max d.file.length ((d.pageCount.toNat + 1) * pageSize) = d.file.length :=
    congrArg File.length hfile
  have hlt := h.length_lt
  omega

/-- A store that does not count all pages of its file loses the last of them. -/
theorem not_allocatesSafely (hd : d.Sound) (hlen : maxFileSize ≤ d.file.length) :
    ¬ d.AllocatesSafely := by
  intro hsafe
  have hwhole : 4294967296 ≤ d.file.length / pageSize :=
    (Nat.le_div_iff_mul_le (by decide)).mpr hlen
  -- No word counts the page with this number.
  have hlost : ∀ d', ¬ Keeps d d' := fun d' hkeeps => by
    have hlt := d'.pageCount.toNat_lt
    have hlast := (hkeeps 4294967295 (by omega) fun id hid he => ?_).1
    · omega
    · have hid := UInt32.lt_iff_toNat_lt.mp (hd.listed id hid).2
      have hcount := d.pageCount.toNat_lt
      unfold PageId.toNat at he
      omega
  unfold AllocatesSafely Ends at hsafe
  cases hx : allocate d with
  | ok id d' => rw [hx] at hsafe; exact hlost d' hsafe.2.2
  | error c d' => rw [hx] at hsafe; exact hlost d' hsafe.2

end Allocation

/-- A file that is opened has all its whole pages counted exactly when it is shorter than
`maxFileSize`, and then allocation is safe exactly when an identifier is left or a page released;
and so it is in every store that is reached from there. -/
theorem Run.counts_pages (file : File) :
    ∃ d₀, openExisting (some file) = .ok d₀ ∧
      (d₀.Counted ↔ file.length < maxFileSize) ∧
      (d₀.AllocatesSafely ↔ file.length < maxFileSize ∧ ¬ Event.AtLimit d₀ .allocate) ∧
      ∀ h d, Run d₀ h d → file.length < maxFileSize →
        d.Counted ∧ (d.AllocatesSafely ↔ ¬ Event.AtLimit d .allocate) := by
  have hsound := Sound.ofFile file
  have hcounted := counted_ofFile_iff file
  have hr : (ofFile file).Reliable := rfl
  refine ⟨ofFile file, rfl, hcounted, ?_, fun h d hrun hlen => ?_⟩
  · by_cases hlen : file.length < maxFileSize
    · rw [(hcounted.mpr hlen).allocatesSafely_iff hr hsound, and_iff_right hlen]
    · exact iff_of_false (not_allocatesSafely hsound (Nat.not_lt.mp hlen)) fun h => hlen h.1
  · have hd := hrun.counted hr hsound (hcounted.mpr hlen)
    exact ⟨hd, hd.allocatesSafely_iff (hrun.reliable hr) (hrun.sound hr hsound)⟩

/-- A file of one page and a rest: a page is allocated, and the rest of the file goes into it. -/
theorem counts_pages_rest :
    ∃ (d₀ d : Disk) (h : List Entry), openExisting (some (File.empty.setLength 5000)) = .ok d₀ ∧
      Run d₀ h d ∧ d₀.pageCount = 1 ∧ d.pageCount = 2 ∧ d.file.length = 8192 ∧ d.Counted ∧
      d.AllocatesSafely := by
  let file := File.empty.setLength 5000
  have hlen : file.length < maxFileSize := by decide
  have hfree : releasedPages file 1 = [] :=
    if_neg fun hkind => absurd (Page.kind_zero.symm.trans hkind) (by decide)
  have hstep : Step ⟨file, 1, [], []⟩ .allocate (.ok (.page ⟨1⟩)) (grown ⟨file, 1, [], []⟩) :=
    .answered rfl
  obtain ⟨d₀, hopen, -, -, hrun⟩ := Run.counts_pages file
  have hcount : UInt32.ofNat (file.length / pageSize) = 1 := by decide
  have hfile : ofFile file = ⟨file, 1, [], []⟩ := by
    rw [ofFile, hcount]
    exact congrArg (fun free => (⟨file, 1, free, []⟩ : Disk)) hfree
  obtain rfl : d₀ = ⟨file, 1, [], []⟩ := (Except.ok.inj hopen).symm.trans hfile
  obtain ⟨hcounted, hsafe⟩ := hrun _ _ (.step .start hstep) hlen
  refine ⟨_, _, _, hopen, .step .start hstep, rfl, rfl, by decide, hcounted, hsafe.mpr ?_⟩
  exact fun hlimit => absurd hlimit.2.2 (by decide)

/-- The longest file has its first page in use, and it opens as a store without pages, which hands
that page out and overwrites it with zeros. -/
theorem longest_file_uncounted :
    ∃ (file : File) (d₀ d : Disk), file.length = maxFileSize ∧
      file.length / pageSize = 4294967296 ∧ (file.block 0).kind ≠ .free ∧
      (file.block 0).byte 0 = 0xaa ∧ openExisting (some file) = .ok d₀ ∧ d₀.pageCount = 0 ∧
      ¬ d₀.Counted ∧ allocate d₀ = .ok ⟨0⟩ d ∧ (d.file.block 0).byte 0 = 0 ∧
      ¬ d₀.AllocatesSafely := by
  let file := (File.empty.patch 0 0 [0xaa]).setLength maxFileSize
  have hbyte : (file.block 0).byte 0 = 0xaa :=
    (Buffer.byte_write Page.zero 0 [0xaa] 0).trans (if_pos (by decide))
  have hkind : (file.block 0).kind ≠ .free := by
    rw [Page.kind, hbyte]
    decide
  have hlen : file.length = maxFileSize := by decide
  have hcount : UInt32.ofNat (file.length / pageSize) = 0 := by decide
  have hfile : ofFile file = ⟨file, 0, [], []⟩ := by
    rw [ofFile, hcount]
    rfl
  have hopen : openExisting (some file) = .ok ⟨file, 0, [], []⟩ := congrArg Except.ok hfile
  refine ⟨file, ⟨file, 0, [], []⟩, grown ⟨file, 0, [], []⟩, hlen, by decide, hkind, hbyte, hopen,
    rfl, ?_, rfl, Page.byte_zero 0, ?_⟩
  · rw [← hfile, counted_ofFile_iff, hlen]
    exact Nat.lt_irrefl _
  · exact not_allocatesSafely (hfile ▸ .ofFile file) (Nat.le_of_eq hlen.symm)

end PagedIndex.Disk
