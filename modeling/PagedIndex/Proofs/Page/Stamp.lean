import PagedIndex.Proofs.Page.Header

/-! # Stamping

A page of a kind that carries a checksum is stamped on its way to the file.  The stamp verifies,
and it touches nothing but the checksum field: `Page.Agrees` says that two pages differ at most
there, and `agrees_stamped` and `intact_stamped` are the two facts about a page in the file that
the pool relies on. -/

namespace PagedIndex

/-- The checksum does not depend on the one that is stored. -/
theorem Buffer.checksum_setU32 {n : Nat} (b : Buffer n) (x : UInt32) :
    (b.setU32 1 x).checksum = b.checksum := by
  rw [checksum, checksum, setU32_setU32]

/-- The kinds that carry a checksum are those with the tags 1 to 4. -/
theorem PageKind.isChecksummed_ofTag (t : UInt8) :
    (PageKind.ofTag t).isChecksummed = true ↔ 1 ≤ t ∧ t ≤ 4 := by
  have hcases : (1 ≤ t ∧ t ≤ 4) ↔ t = 1 ∨ t = 2 ∨ t = 3 ∨ t = 4 := by
    simp only [UInt8.le_iff_toNat_le, ← UInt8.toNat_inj, UInt8.reduceToNat]
    omega
  rw [hcases]
  by_cases h : t = 1 ∨ t = 2 ∨ t = 3 ∨ t = 4
  · rcases h with rfl | rfl | rfl | rfl <;> decide
  · obtain ⟨h₁, h₂, h₃, h₄⟩ : t ≠ 1 ∧ t ≠ 2 ∧ t ≠ 3 ∧ t ≠ 4 := by simpa using h
    unfold ofTag
    rw [if_neg h₁, if_neg h₂, if_neg h₃, if_neg h₄]
    exact ⟨fun hb => absurd hb (by decide), fun ht => absurd ht h⟩

namespace Page

/-- Two pages with the same bytes, a stored checksum aside. -/
def Agrees (p q : Page) : Prop :=
  ∀ i, ¬ (1 ≤ q.byte 0 ∧ q.byte 0 ≤ 4 ∧ 1 ≤ i ∧ i < 5) → p.byte i = q.byte i

theorem Agrees.refl (p : Page) : Agrees p p := fun _ _ => rfl

theorem Agrees.tag {p q : Page} (h : Agrees p q) : p.byte 0 = q.byte 0 := h 0 (by omega)

theorem Agrees.trans {p q r : Page} (h : Agrees p q) (h' : Agrees q r) : Agrees p r := by
  intro i hi
  rw [← h' i hi]
  apply h i
  rwa [h'.tag]

theorem Agrees.kind {p q : Page} (h : Agrees p q) : p.kind = q.kind := congrArg PageKind.ofTag h.tag

theorem updateChecksum_byte (p : Page) {i : Nat} (h : ¬ (1 ≤ i ∧ i < 5)) :
    p.updateChecksum.byte i = p.byte i := Buffer.byte_setU32 p _ h

@[simp] theorem updateChecksum_kind (p : Page) : p.updateChecksum.kind = p.kind :=
  congrArg PageKind.ofTag (updateChecksum_byte p (by omega))

theorem verifyChecksum_updateChecksum (p : Page) : p.updateChecksum.verifyChecksum = true := by
  have hstored : p.updateChecksum.header.checksum = p.checksum :=
    Buffer.u32_setU32_self p _ (by decide)
  rw [verifyChecksum, hstored, updateChecksum, Buffer.checksum_setU32, decide_eq_true_eq]

theorem header_updateChecksum (p : Page) :
    p.updateChecksum.header = { p.header with checksum := p.checksum } := by
  have hchecksum : p.updateChecksum.u32 1 = p.checksum := Buffer.u32_setU32_self p _ (by decide)
  have hlsn : p.updateChecksum.u64 5 = p.u64 5 :=
    Buffer.u64_congr fun i hi _ => updateChecksum_byte p (by omega)
  rw [header, header, PageHeader.ofBuffer, PageHeader.ofBuffer, hchecksum, hlsn,
    updateChecksum_byte p (by omega)]

theorem updateChecksum_updateChecksum (p : Page) :
    p.updateChecksum.updateChecksum = p.updateChecksum := by
  have hchecksum : p.updateChecksum.checksum = p.checksum := Buffer.checksum_setU32 p _
  rw [updateChecksum, hchecksum]
  exact Buffer.setU32_setU32 p 1 _ _

theorem agrees_stamped (p : Page) : Agrees p.stamped p := by
  unfold stamped
  split
  · next hk =>
      intro i hi
      refine updateChecksum_byte p fun hfield => hi ?_
      obtain ⟨hlow, hhigh⟩ := (PageKind.isChecksummed_ofTag _).mp hk
      exact ⟨hlow, hhigh, hfield⟩
  · exact Agrees.refl p

@[simp] theorem stamped_kind (p : Page) : p.stamped.kind = p.kind := (agrees_stamped p).kind

theorem intact_stamped (p : Page) : p.stamped.intact = true := by
  unfold stamped intact
  split
  · rw [verifyChecksum_updateChecksum, Bool.or_true]
  · next hk => simp [hk]

/-- The stamp of a page that is intact is the one it carries. -/
theorem stamped_of_intact {p : Page} (h : p.intact = true) : p.stamped = p := by
  unfold stamped
  split
  · next hk =>
      rw [intact, hk, Bool.not_true, Bool.false_or, verifyChecksum, decide_eq_true_eq] at h
      rw [updateChecksum, ← h]
      exact Buffer.setU32_u32 p 1
  · rfl

theorem byte_setHeader_zero (p : Page) (h : PageHeader) : (p.setHeader h).byte 0 = h.kind.tag :=
  PageHeader.byte_store_zero h p (by decide)

theorem kind_tombstone : tombstone.kind = .free := by
  rw [kind, tombstone, byte_setHeader_zero]
  rfl

theorem kind_zero : zero.kind = .blank := by
  rw [kind, byte_zero]
  rfl

theorem intact_zero : zero.intact = true := by
  rw [intact, kind_zero]
  rfl

end Page

end PagedIndex
