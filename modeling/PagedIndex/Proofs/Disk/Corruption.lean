import PagedIndex.Node.Basic
import PagedIndex.Proofs.Crc32
import PagedIndex.Proofs.Disk.Run

/-! # Small corruptions

A page with a checksum that is changed in the file is noticed when it is read, if the change is
small: `Page.Damage` lists the small changes, to the tag, to the checksum field, or within four
bytes in a row behind it.  The only way around the checksum is a tag of no kind that carries one,
and such a page is no node (`read_damaged_node`). -/

namespace PagedIndex

namespace Buffer

variable {n : Nat}

theorem getElem?_toList (b : Buffer n) (i : Nat) :
    b.toList[i]? = if i < n then some (b.byte i) else none := by
  unfold toList byte
  by_cases hi : i < n
  · simp [hi]
  · simp [hi]

variable {p q : Buffer n}

theorem byte_setU32_congr {start i : Nat} (x : UInt32)
    (h : ¬ (start ≤ i ∧ i < start + 4) → p.byte i = q.byte i) :
    (p.setU32 start x).byte i = (q.setU32 start x).byte i := by
  by_cases hi : start ≤ i ∧ i < start + 4
  · unfold setU32
    rw [byte_write, byte_write, LittleEndian.length_encode]
    split
    · rfl
    · rw [byte_of_le (by omega), byte_of_le (by omega)]
  · rw [byte_setU32 p x hi, byte_setU32 q x hi, h hi]

theorem setU32_congr {start : Nat} (x : UInt32)
    (h : ∀ i, ¬ (start ≤ i ∧ i < start + 4) → p.byte i = q.byte i) :
    p.setU32 start x = q.setU32 start x :=
  ext_byte fun i _ => byte_setU32_congr x (h i)

/-- Buffers that differ in a byte that counts, but only within four bytes in a row, have different
checksums. -/
theorem checksum_ne_of_burst {start j : Nat} (hj : ¬ (1 ≤ j ∧ j < 5)) (hne : p.byte j ≠ q.byte j)
    (hout : ∀ i, ¬ (start ≤ i ∧ i < start + 4) → p.byte i = q.byte i) :
    p.checksum ≠ q.checksum := by
  have hlength : ∀ b : Buffer n, b.toList.length = n := fun b => b.bytes.length_toList
  refine Crc32.ofList_ne_of_burst start ((hlength _).trans (hlength _).symm) ?_ fun heq => ?_
  · intro i hi
    rw [getElem?_toList, getElem?_toList, byte_setU32_congr 0 fun _ => hout i (by omega)]
  · have hbyte := congrArg (·[j]?) heq
    simp only [getElem?_toList, byte_setU32 _ 0 hj] at hbyte
    by_cases hjn : j < n
    · rw [if_pos hjn, if_pos hjn] at hbyte
      exact hne (Option.some.inj hbyte)
    · exact hne (by rw [byte_of_le (Nat.not_lt.mp hjn), byte_of_le (Nat.not_lt.mp hjn)])

end Buffer

namespace Page

/-- The second page is the first one with a small change. -/
inductive Damage (p q : Page) : Prop
  | tag : (∀ i, i ≠ 0 → p.byte i = q.byte i) → Damage p q
  | field : (∀ i, ¬ (1 ≤ i ∧ i < 5) → p.byte i = q.byte i) → Damage p q
  | burst (start : Nat) : 5 ≤ start → start + 4 ≤ pageSize →
      (∀ i, ¬ (start ≤ i ∧ i < start + 4) → p.byte i = q.byte i) → Damage p q

theorem verifyChecksum_iff (p : Page) : p.verifyChecksum = true ↔ p.u32 1 = p.checksum :=
  decide_eq_true_iff

theorem exists_byte_ne {p q : Page} (h : p ≠ q) : ∃ i, p.byte i ≠ q.byte i := by
  refine Classical.byContradiction fun hno => h (Buffer.ext_byte fun i _ => ?_)
  exact Classical.byContradiction fun hne => hno ⟨i, hne⟩

/-- The stored checksum of a page gives a small change away. -/
theorem Damage.verifyChecksum_eq_false {p q : Page} (hdamage : Damage p q) (hne : p ≠ q)
    (hp : p.verifyChecksum = true) : q.verifyChecksum = false := by
  have hfield : ∀ start : Nat, (start = 0 ∨ 5 ≤ start) →
      (∀ i, ¬ (start ≤ i ∧ i < start + 4) → p.byte i = q.byte i) →
      (∀ i, 1 ≤ i ∧ i < 5 → p.byte i = q.byte i) → q.verifyChecksum = false := by
    intro start hstart hout hsame
    obtain ⟨j, hj⟩ := exists_byte_ne hne
    have hsum : p.checksum ≠ q.checksum :=
      Buffer.checksum_ne_of_burst (fun hin => hj (hsame j hin)) hj hout
    have hstored : p.u32 1 = q.u32 1 :=
      Buffer.u32_congr fun i hlo hhi => hsame i ⟨hlo, hhi⟩
    rw [verifyChecksum_iff] at hp
    rw [← Bool.not_eq_true, verifyChecksum_iff, ← hstored, hp]
    exact hsum
  cases hdamage with
  | tag hout =>
      refine hfield 0 (.inl rfl) (fun i hi => hout i ?_) fun i hi => hout i ?_
      · rintro rfl
        omega
      · omega
  | field hout =>
      have hsum : p.checksum = q.checksum := by
        unfold Buffer.checksum
        rw [Buffer.setU32_congr 0 hout]
      rw [verifyChecksum_iff] at hp
      rw [← Bool.not_eq_true, verifyChecksum_iff]
      intro hq
      apply hne
      rw [← Buffer.setU32_u32 p 1, ← Buffer.setU32_u32 q 1, hp, hq, hsum]
      exact Buffer.setU32_congr _ hout
  | burst start hlow hhigh hout =>
      exact hfield start (.inr hlow) hout fun i hi => hout i (by omega)

end Page

namespace Disk

theorem write_ok {d d' : Disk} {id : PageId} {p : Page} (h : write id p d = .ok () d') :
    d' = d.put id p := by
  have hends : (write id p).Ends d (fun _ d' => d' = d.put id p) fun _ _ => True :=
    write_ends (fun _ => rfl) (fun _ => trivial) fun _ _ _ => trivial
  exact hends.of_ok h

/-- A stored node that is changed in the file, in its tag, in its checksum field or within four
bytes in a row behind it, is never opened as a node: reading it fails, unless its tag has become
one of no kind with a checksum, and then it is refused for its kind. -/
theorem read_damaged_node {d d' e : Disk} {id : PageId} {p q : Page} (hp : p.kind = .inner)
    (hwrite : write id p d = .ok () d') (hne : d'.image id ≠ q)
    (hdamage : Page.Damage (d'.image id) q) (hfile : e.file = d'.file.writePage id.toNat q)
    (hid : e.Holds id) :
    ((1 ≤ q.byte 0 ∧ q.byte 0 ≤ 4) ∧ e.read id = .error (.checksumMismatch id)) ∨
    (¬ (1 ≤ q.byte 0 ∧ q.byte 0 ≤ 4) ∧ (d'.image id).byte 0 ≠ q.byte 0 ∧ e.read id = .ok q ∧
      ∀ (K : Type) [Key K], (Node.ofPage q : Except Error (Node K)) =
        .error (.wrongKind (⟨q⟩ : Node K).pageId .inner .blank)) := by
  obtain rfl := write_ok hwrite
  have himage : (d.put id p).image id = p.updateChecksum := by
    rw [image_put_self, Page.stamped, hp]
    rfl
  rw [himage] at hne hdamage ⊢
  have hpage : e.file.readPage? id.toNat = some q := by rw [hfile, File.readPage?_writePage]
  have hread := read_of_holds hid hpage
  have htag := PageKind.isChecksummed_ofTag (q.byte 0)
  by_cases hchecked : q.kind.isChecksummed = true
  · have hverify := hdamage.verifyChecksum_eq_false hne (Page.verifyChecksum_updateChecksum p)
    have hin : ¬ q.intact = true := by simp [Page.intact, hchecked, hverify]
    rw [if_neg hin] at hread
    exact .inl ⟨htag.mp hchecked, hread⟩
  · have hin : q.intact = true := by simp [Page.intact, hchecked]
    have hblank : q.kind = .blank := by simpa [PageKind.isChecksummed] using hchecked
    rw [if_pos hin] at hread
    refine .inr ⟨fun hq => hchecked (htag.mpr hq), fun hsame => ?_, hread, fun K _ => ?_⟩
    · have hkind : p.updateChecksum.kind = q.kind := congrArg PageKind.ofTag hsame
      rw [Page.updateChecksum_kind, hp, hblank] at hkind
      cases hkind
    · simp only [Node.ofPage, require, hblank]
      rfl

/-- A node with one byte changed behind its header cannot be read. -/
theorem damaged_node_one :
    ∃ (d d' e : Disk) (p : Page), p.kind = .inner ∧ write ⟨0⟩ p d = .ok () d' ∧
      e.file = d'.file.writePage 0 ((d'.image ⟨0⟩).setByte 500 0xEE) ∧
      e.read ⟨0⟩ = .error (.checksumMismatch ⟨0⟩) := by
  let p : Page := Page.zero.setHeader (PageHeader.fresh .inner)
  let d : Disk := ⟨File.empty.writePage 0 Page.zero, 1, [], []⟩
  let s : Page := (d.put ⟨0⟩ p).image ⟨0⟩
  let q : Page := s.setByte 500 0xEE
  let e : Disk := ⟨(d.put ⟨0⟩ p).file.writePage 0 q, 1, [], []⟩
  have hbyte : ∀ i, q.byte i = if 500 = i ∧ i < pageSize then 0xEE else s.byte i :=
    fun i => Buffer.byte_setByte s 500 0xEE i
  have hkind : p.kind = .inner := by
    rw [Page.kind, Page.byte_setHeader_zero]
    rfl
  have hold : s.byte 500 = 0 := by
    have hstored : s.byte 500 = p.byte 500 := by
      show ((d.put ⟨0⟩ p).image ⟨0⟩).byte 500 = p.byte 500
      rw [image_put_self]
      exact Page.agrees_stamped p 500 (by omega)
    rw [hstored]
    show (Page.zero.setHeader (PageHeader.fresh .inner)).byte 500 = 0
    rw [Page.setHeader, PageHeader.store, Buffer.setU64, Buffer.setU32,
      Buffer.byte_write_of_ge _ _ (by decide), Buffer.byte_write_of_ge _ _ (by decide),
      Buffer.byte_setByte, if_neg (by decide), Page.byte_zero]
  have hne : s ≠ q := by
    intro h
    have hchanged := congrArg (Buffer.byte · 500) h
    simp only [hbyte, hold] at hchanged
    exact absurd hchanged (by decide)
  have hdamage : Page.Damage s q := by
    refine .burst 500 (by decide) (by decide) fun i hi => ?_
    rw [hbyte, if_neg (by omega)]
  have htag : q.byte 0 = 2 := by
    have hzero : s.byte 0 = p.byte 0 := by
      show ((d.put ⟨0⟩ p).image ⟨0⟩).byte 0 = p.byte 0
      rw [image_put_self]
      exact (Page.agrees_stamped p).tag
    rw [hbyte, if_neg (by decide), hzero, Page.byte_setHeader_zero]
    rfl
  refine ⟨d, d.put ⟨0⟩ p, e, p, hkind, rfl, rfl, ?_⟩
  rcases read_damaged_node hkind (d := d) (e := e) rfl hne hdamage rfl ⟨rfl, by decide⟩ with h | h
  · exact h.2
  · exact absurd ⟨by rw [htag]; decide, by rw [htag]; decide⟩ h.1

end Disk

end PagedIndex
