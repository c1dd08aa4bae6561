import PagedIndex.Proofs.Action
import PagedIndex.Proofs.Disk.Changes

/-! # What each call of a store does

One rule for every call, in the form of `Action.Ends`: a call ends well if each of the stores it
can leave is good.  The stores are written with the changes `put`, `reused`, `grown` and
`released`, and with `torn` and `Aborted` where the device gives up; no later proof opens a call. -/

namespace PagedIndex.Disk

open PagedIndex.Action

variable {d : Disk} {id : PageId} {p : Page} {Q : Unit → Disk → Prop} {E : Error → Disk → Prop}

/-- The bytes of a page go into the file, or the device gives up. -/
theorem store_ends
    (hok : Q () { d with file := d.file.writePage id.toNat p, device := d.device.tail })
    (hfails : ∀ b, d.Fails b → E (.file b.cause) (d.torn id p b)) : (store id p).Ends d Q E := by
  unfold store
  rw [ends_bind, ends_get]
  split
  · next b hb =>
      rw [ends_bind, ends_modify, ends_throw]
      exact hfails b hb
  · exact hok

theorem write_ends (hok : d.Holds id → Q () (d.put id p))
    (hrefused : ¬ d.Holds id → E (refusal id) d)
    (hfails : ∀ b, d.Holds id → d.Fails b → E (.file b.cause) (d.torn id p.stamped b)) :
    (write id p).Ends d Q E := by
  unfold write
  simp only [ends_bind, ends_get, ends_liftM]
  by_cases hid : d.Holds id
  · rw [requirePage_ok hid]
    exact store_ends (hok hid) fun b => hfails b hid
  · rw [requirePage_refused hid]
    exact hrefused hid

theorem deallocate_ends (hfree : d.Holds id → id ∈ d.free → Q () d)
    (hused : d.Live id → Q () (d.released id)) (hrefused : ¬ d.Holds id → E (refusal id) d)
    (hfails : ∀ b, d.Live id → d.Fails b →
      E (.file b.cause) (d.torn id Page.tombstone.stamped b)) :
    (deallocate id).Ends d Q E := by
  unfold deallocate
  simp only [ends_bind, ends_get, ends_liftM]
  by_cases hid : d.Holds id
  · rw [requirePage_ok hid]
    by_cases hmem : id ∈ d.free
    · simp only [List.contains_iff_mem, if_pos hmem, ends_pure]
      exact hfree hid hmem
    · simp only [List.contains_iff_mem, if_neg hmem, ends_bind]
      exact write_ends (fun _ => hused ⟨hid, hmem⟩) (fun hno => absurd hid hno)
        fun b _ => hfails b ⟨hid, hmem⟩
  · rw [requirePage_refused hid]
    exact hrefused hid

/-- The page released last is handed out, or else the file grows, until there is no identifier
left. -/
theorem allocate_ends {Q : PageId → Disk → Prop} {E : Stop → Disk → Prop}
    (hreuse : ∀ id rest, d.free = id :: rest → Q id (d.reused id rest))
    (hgrow : d.free = [] → (⟨d.pageCount⟩ : PageId).isValid → Q ⟨d.pageCount⟩ d.grown)
    (hlimit : ∀ d', d.free = [] → ¬ (⟨d.pageCount⟩ : PageId).isValid → E (.broken .outOfRange) d')
    (hfails : ∀ b d', d.Fails b → Aborted d b d' → E (.refused (.file b.cause)) d') :
    allocate.Ends d Q E := by
  unfold allocate
  simp only [ends_bind, ends_get]
  cases hfree : d.free with
  | cons id rest =>
      simp only [ends_bind, ends_modify, ends_mapCause, ends_pure]
      exact store_ends (hreuse id rest hfree) fun b hb => hfails b _ hb (.reuse hfree)
  | nil =>
      simp only [ends_bind, ends_get, ends_mapCause]
      refine store_ends ?_ fun b hb => hfails b _ hb (.grow hfree)
      simp only [ends_require, ends_modify, ends_pure]
      exact ⟨hgrow hfree, hlimit _ hfree⟩

end PagedIndex.Disk
