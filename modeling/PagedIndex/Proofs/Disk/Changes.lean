import PagedIndex.Disk.Basic
import PagedIndex.Proofs.Page.Stamp

/-! # What happens to a store

The changes that a pool makes to its store, and what they do to the pages there: `image` is the
block of a page, `Live` says that a page is in use, and `Sound` that the stack of released pages
and the length of the file are in order.  Where the device gives up, the page is `torn`, and an
allocation is `Aborted`; over a `Reliable` device neither happens. -/

namespace PagedIndex

theorem PageId.toNat_injective {a b : PageId} (h : a.toNat = b.toNat) : a = b :=
  PageId.ext (UInt32.toNat_inj.mp h)

theorem File.readPage?_writePage (f : File) (k : Nat) (p : Page) :
    (f.writePage k p).readPage? k = some p :=
  (if_pos (Nat.le_max_right _ _)).trans (congrArg some (if_pos rfl))

/-- Different blocks can be replaced in any order. -/
theorem File.writePage_comm (f : File) {j k : Nat} (p q : Page) (h : j ≠ k) :
    (f.writePage j p).writePage k q = (f.writePage k q).writePage j p := by
  refine File.ext (by simp only [writePage]; omega) (funext fun i => ?_)
  show replaceBlock (replaceBlock f.block j p) k q i = replaceBlock (replaceBlock f.block k q) j p i
  unfold replaceBlock
  by_cases hij : i = j
  · rw [if_pos hij, if_neg (hij ▸ h), if_pos hij]
  · rw [if_neg hij, if_neg hij]

namespace Disk

/-- The identifier names a page of the file. -/
def Holds (d : Disk) (id : PageId) : Prop := id.isValid ∧ id.val < d.pageCount

instance (d : Disk) (id : PageId) : Decidable (d.Holds id) :=
  inferInstanceAs (Decidable (_ ∧ _))

/-- A page goes into the file. -/
def put (d : Disk) (id : PageId) (p : Page) : Disk :=
  { d with file := d.file.writePage id.toNat p.stamped, device := d.device.tail }

/-- The last released page is handed out again. -/
def reused (d : Disk) (id : PageId) (rest : List PageId) : Disk :=
  { d with
    file := d.file.writePage id.toNat Page.zero
    free := rest
    device := d.device.tail }

/-- The file grows by one page. -/
def grown (d : Disk) : Disk :=
  { d with
    file := d.file.writePage (PageId.toNat ⟨d.pageCount⟩) Page.zero
    pageCount := d.pageCount + 1
    device := d.device.tail }

/-- A page is released. -/
def released (d : Disk) (id : PageId) : Disk :=
  { d.put id Page.tombstone with free := id :: d.free }

/-- The device gives up on a page. -/
def torn (d : Disk) (id : PageId) (p : Page) (b : Breakdown) : Disk :=
  { d with file := d.file.writePart id.toNat p b.reached, device := d.device.tail }

/-- The device gives up on a new page.  A page that was released before is lost: it is neither on
the stack any more nor handed out. -/
inductive Aborted (d : Disk) (b : Breakdown) : Disk → Prop
  | reuse {id : PageId} {rest : List PageId} : d.free = id :: rest →
      Aborted d b { d.torn id Page.zero b with free := rest }
  | grow : d.free = [] → Aborted d b (d.torn ⟨d.pageCount⟩ Page.zero b)

/-- The device gives up the next store. -/
def Fails (d : Disk) (b : Breakdown) : Prop := d.device.head? = some (some b)

/-- The device never gives up. -/
def Reliable (d : Disk) : Prop := d.device = []

theorem Reliable.not_fails {d : Disk} (h : d.Reliable) (b : Breakdown) : ¬ d.Fails b := by
  unfold Fails
  rw [show d.device = [] from h]
  nofun

/-- Stores that go through leave the rest of the device. -/
theorem Reliable.tail {d d' : Disk} (h : d.Reliable) (hd : d'.device = d.device.tail) :
    d'.Reliable :=
  hd.trans (congrArg List.tail h)

theorem requirePage_ok {d : Disk} {id : PageId} (h : d.Holds id) : d.requirePage id = .ok () := by
  unfold requirePage require
  rw [if_pos h.1, if_pos h.2]
  rfl

/-- Why an identifier that names no page is refused. -/
def refusal (id : PageId) : Error :=
  if id.isValid then .pageNotFound id else .invalidPageId id

theorem refusal_ne_noFreeFrames (id : PageId) : refusal id ≠ .noFreeFrames := by
  unfold refusal
  split <;> nofun

theorem requirePage_refused {d : Disk} {id : PageId} (h : ¬ d.Holds id) :
    d.requirePage id = .error (refusal id) := by
  unfold requirePage require refusal
  by_cases hvalid : id.isValid
  · have hcount : ¬ id.val < d.pageCount := fun hc => h ⟨hvalid, hc⟩
    rw [if_pos hvalid, if_neg hcount, if_pos hvalid]
    rfl
  · rw [if_neg hvalid, if_neg hvalid]
    rfl

theorem read_refused {d : Disk} {id : PageId} (h : ¬ d.Holds id) :
    d.read id = .error (refusal id) := by
  unfold read
  rw [requirePage_refused h]
  rfl

theorem read_of_holds {d : Disk} {id : PageId} {p : Page} (h : d.Holds id)
    (hp : d.file.readPage? id.toNat = some p) :
    d.read id = if p.intact then .ok p else .error (.checksumMismatch id) := by
  unfold read
  rw [requirePage_ok h, hp]
  by_cases hin : p.intact
  · simp only [require, if_pos hin]
    rfl
  · simp only [require, if_neg hin]
    rfl

/-- Why a page is not read. -/
theorem read_error {d : Disk} {id : PageId} {e : Error} (hid : id.isValid)
    (h : d.read id = .error e) :
    e ∈ [.pageNotFound id, .file .shortRead, .checksumMismatch id] := by
  simp only [List.mem_cons, List.not_mem_nil, or_false]
  by_cases hholds : d.Holds id
  · cases hp : d.file.readPage? id.toNat with
    | none =>
        simp only [read, requirePage_ok hholds, hp] at h
        exact .inr (.inl (Except.error.inj h).symm)
    | some p =>
        rw [read_of_holds hholds hp] at h
        split at h
        · cases h
        · exact .inr (.inr (Except.error.inj h).symm)
  · rw [read_refused hholds, refusal, if_pos hid] at h
    exact .inl (Except.error.inj h).symm

theorem read_ne_noFreeFrames (d : Disk) (id : PageId) : d.read id ≠ .error .noFreeFrames := by
  by_cases hid : d.Holds id
  · cases hp : d.file.readPage? id.toNat with
    | none =>
        unfold read
        rw [requirePage_ok hid, hp]
        exact fun h => nomatch Except.error.inj h
    | some p =>
        rw [read_of_holds hid hp]
        split
        · nofun
        · exact fun h => nomatch Except.error.inj h
  · rw [read_refused hid]
    exact fun h => refusal_ne_noFreeFrames id (Except.error.inj h)

theorem holds_of_read {d : Disk} {id : PageId} {p : Page} (h : d.read id = .ok p) : d.Holds id := by
  refine Decidable.not_not.mp fun hid => ?_
  rw [read_refused hid] at h
  cases h

/-! ### Pages in use -/

/-- The block of a page. -/
def image (d : Disk) (id : PageId) : Page := d.file.block id.toNat

/-- The page is in use. -/
def Live (d : Disk) (id : PageId) : Prop := d.Holds id ∧ id ∉ d.free

/-- The stack of released pages is in order and the file has room for every page. -/
structure Sound (d : Disk) : Prop where
  nodup : d.free.Nodup
  listed : ∀ id ∈ d.free, d.Holds id
  room : d.pageCount.toNat * pageSize ≤ d.file.length

section Changes

variable {d d' : Disk} {id other : PageId} {rest : List PageId} {p : Page}

theorem holds_of_lt (h : id.val < d.pageCount) : d.Holds id := by
  refine ⟨?_, h⟩
  have hval : id.val.toNat < d.pageCount.toNat := UInt32.lt_iff_toNat_lt.mp h
  have hcount := d.pageCount.toNat_lt
  unfold PageId.isValid
  refine decide_eq_true fun hid => ?_
  rw [hid] at hval
  have hmax : PageId.invalid.val.toNat = 4294967295 := rfl
  omega

theorem not_live_top (hfree : d.free = id :: rest) : ¬ d.Live id := fun hlive =>
  hlive.2 (hfree ▸ List.mem_cons_self)

theorem not_live_next (d : Disk) : ¬ d.Live ⟨d.pageCount⟩ := fun hlive =>
  UInt32.lt_irrefl _ hlive.1.2

theorem Live.popped (h : d.Live other) (hfree : d.free = id :: rest) :
    Live { d with free := rest } other :=
  ⟨h.1, fun hrest => h.2 (hfree ▸ List.mem_cons_of_mem _ hrest)⟩

/-- The file has the block of every page. -/
theorem readPage?_image (hd : d.Sound) (hid : d.Holds id) :
    d.file.readPage? id.toNat = some (d.image id) := by
  have hlt : id.toNat < d.pageCount.toNat := UInt32.lt_iff_toNat_lt.mp hid.2
  have hroom := Nat.mul_le_mul_right pageSize (Nat.succ_le_of_lt hlt)
  exact if_pos (Nat.le_trans hroom hd.room)

theorem read_image (hd : d.Sound) (hid : d.Holds id) (h : (d.image id).intact = true) :
    d.read id = .ok (d.image id) := by
  rw [read_of_holds hid (readPage?_image hd hid), if_pos h]

theorem block_writePage_ne (f : File) {id other : PageId} {p : Page} (h : other ≠ id) :
    (f.writePage id.toNat p).block other.toNat = f.block other.toNat :=
  if_neg fun he => h (PageId.toNat_injective he)

theorem image_put_self : (d.put id p).image id = p.stamped := if_pos rfl

theorem image_put_ne (h : other ≠ id) : (d.put id p).image other = d.image other :=
  block_writePage_ne d.file h

theorem put_comm (d : Disk) (p q : Page) (h : id ≠ other) :
    (d.put id p).put other q = (d.put other q).put id p := by
  have hfile := d.file.writePage_comm p.stamped q.stamped fun he => h (PageId.toNat_injective he)
  exact congrArg (fun file => { d with file, device := d.device.tail.tail }) hfile

theorem length_put (hd : d.Sound) (hid : d.Holds id) (p : Page) :
    (d.put id p).file.length = d.file.length := by
  have hlt : id.toNat < d.pageCount.toNat := UInt32.lt_iff_toNat_lt.mp hid.2
  exact Nat.max_eq_left (Nat.le_trans (Nat.mul_le_mul_right pageSize hlt) hd.room)

theorem image_torn_ne {b : Breakdown} (h : other ≠ id) :
    (d.torn id p b).image other = d.image other := by
  unfold image torn File.writePart
  split
  · rfl
  · exact if_neg fun he => h (PageId.toNat_injective he)

/-- However far a store gets, the file does not become shorter. -/
theorem length_le_torn (d : Disk) (id : PageId) (p : Page) (b : Breakdown) :
    d.file.length ≤ (d.torn id p b).file.length := by
  unfold torn File.writePart
  split
  · exact Nat.le_refl _
  · exact Nat.le_max_left _ _

theorem image_reused : (d.reused id rest).image other =
    if other = id then Page.zero else d.image other := by
  split
  · next ho => exact if_pos (congrArg PageId.toNat ho)
  · next ho => exact block_writePage_ne d.file ho

theorem image_grown : d.grown.image other =
    if other = ⟨d.pageCount⟩ then Page.zero else d.image other := by
  split
  · next ho => exact if_pos (congrArg PageId.toNat ho)
  · next ho => exact block_writePage_ne d.file ho

theorem Sound.withDevice (hd : d.Sound) (device : Device) : Sound { d with device } :=
  ⟨hd.nodup, hd.listed, hd.room⟩

theorem Sound.put (hd : d.Sound) : (d.put id p).Sound :=
  ⟨hd.nodup, hd.listed, Nat.le_trans hd.room (Nat.le_max_left _ _)⟩

theorem Sound.torn (hd : d.Sound) {b : Breakdown} : (d.torn id p b).Sound :=
  ⟨hd.nodup, hd.listed, Nat.le_trans hd.room (length_le_torn d id p b)⟩

/-- A page that is read is the block of the file, and its checksum is in order. -/
theorem image_of_read (h : d.read id = .ok p) : d.image id = p ∧ p.intact = true := by
  have hid := holds_of_read h
  cases hp : d.file.readPage? id.toNat with
  | none =>
      simp only [read, requirePage_ok hid, hp] at h
      cases h
  | some q =>
      rw [read_of_holds hid hp] at h
      split at h
      · next hin =>
          obtain rfl : q = p := Except.ok.inj h
          unfold File.readPage? at hp
          split at hp
          · exact ⟨Option.some.inj hp, hin⟩
          · cases hp
      · cases h

/-- A page written is a page read. -/
theorem read_put (hd : d.Sound) (hid : d.Holds id) : (d.put id p).read id = .ok p.stamped := by
  have himage : (d.put id p).image id = p.stamped := image_put_self
  rw [read_image hd.put hid (himage ▸ Page.intact_stamped p), himage]

theorem Sound.popped (hd : d.Sound) (hfree : d.free = id :: rest) :
    Sound { d with free := rest } :=
  ⟨(List.nodup_cons.mp (hfree ▸ hd.nodup)).2,
    fun other ho => hd.listed other (hfree ▸ List.mem_cons_of_mem _ ho), hd.room⟩

theorem Sound.reused (hd : d.Sound) (hfree : d.free = id :: rest) : (d.reused id rest).Sound := by
  have hpopped := hd.popped hfree
  exact ⟨hpopped.nodup, hpopped.listed, Nat.le_trans hd.room (Nat.le_max_left _ _)⟩

theorem Sound.aborted (hd : d.Sound) {b : Breakdown} (h : Aborted d b d') : d'.Sound := by
  cases h with
  | reuse hfree => exact (hd.popped hfree).torn
  | grow hfree => exact hd.torn

theorem live_reused (hd : d.Sound) (hfree : d.free = id :: rest) :
    (d.reused id rest).Live other ↔ other = id ∨ d.Live other := by
  have hid : d.Holds id := hd.listed id (hfree ▸ List.mem_cons_self)
  have hnotin : id ∉ rest := (List.nodup_cons.mp (hfree ▸ hd.nodup)).1
  unfold Live
  rw [hfree, List.mem_cons, not_or]
  constructor
  · rintro ⟨hholds, hrest⟩
    by_cases ho : other = id
    · exact .inl ho
    · exact .inr ⟨hholds, ho, hrest⟩
  · rintro (rfl | ⟨hholds, -, hrest⟩)
    · exact ⟨hid, hnotin⟩
    · exact ⟨hholds, hrest⟩

theorem toNat_grown (h : (⟨d.pageCount⟩ : PageId).isValid) :
    d.grown.pageCount.toNat = d.pageCount.toNat + 1 := by
  have hne : d.pageCount.toNat ≠ 4294967295 := fun he => by
    have hinvalid : (⟨d.pageCount⟩ : PageId) = PageId.invalid := PageId.toNat_injective he
    rw [hinvalid] at h
    exact absurd h (by decide)
  have hlt := d.pageCount.toNat_lt
  show (d.pageCount + 1).toNat = _
  rw [UInt32.toNat_add, UInt32.toNat_one]
  omega

theorem Sound.grown (hd : d.Sound) (hfree : d.free = []) (h : (⟨d.pageCount⟩ : PageId).isValid) :
    d.grown.Sound := by
  refine ⟨hd.nodup, ?_, ?_⟩
  · intro other ho
    have hnil : other ∈ d.free := ho
    rw [hfree] at hnil
    cases hnil
  · rw [toNat_grown h]
    exact Nat.le_max_right _ _

theorem holds_grown (h : (⟨d.pageCount⟩ : PageId).isValid) :
    d.grown.Holds other ↔ other = ⟨d.pageCount⟩ ∨ d.Holds other := by
  have hlt : other.val < d.grown.pageCount ↔ other = ⟨d.pageCount⟩ ∨ other.val < d.pageCount := by
    rw [UInt32.lt_iff_toNat_lt, UInt32.lt_iff_toNat_lt, toNat_grown h, PageId.ext_iff,
      ← UInt32.toNat_inj]
    simp only
    omega
  exact ⟨fun hholds => (hlt.mp hholds.2).imp_right holds_of_lt,
    fun ho => holds_of_lt (hlt.mpr (ho.imp_right And.right))⟩

theorem live_grown (hfree : d.free = []) (h : (⟨d.pageCount⟩ : PageId).isValid) :
    d.grown.Live other ↔ other = ⟨d.pageCount⟩ ∨ d.Live other := by
  have hnil : ∀ id, id ∉ d.free := by simp [hfree]
  exact ⟨fun hlive => ((holds_grown h).mp hlive.1).imp_right fun hholds => ⟨hholds, hnil other⟩,
    fun ho => ⟨(holds_grown h).mpr (ho.imp_right And.left), hnil other⟩⟩

theorem Sound.released (hd : d.Sound) (hid : d.Live id) : (d.released id).Sound := by
  refine ⟨List.nodup_cons.mpr ⟨hid.2, hd.nodup⟩, ?_, Nat.le_trans hd.room (Nat.le_max_left _ _)⟩
  intro other ho
  rcases List.mem_cons.mp ho with rfl | ho
  · exact hid.1
  · exact hd.listed other ho

theorem live_released : (d.released id).Live other ↔ other ≠ id ∧ d.Live other := by
  have hfree : other ∉ (d.released id).free ↔ other ≠ id ∧ other ∉ d.free := by
    rw [← not_or]
    exact not_congr List.mem_cons
  exact ⟨fun ⟨hholds, ho⟩ => ⟨(hfree.mp ho).1, hholds, (hfree.mp ho).2⟩,
    fun ⟨hne, hholds, ho⟩ => ⟨hholds, hfree.mpr ⟨hne, ho⟩⟩⟩

end Changes

end Disk

end PagedIndex
