import Mathlib.Data.List.Dedup
import Mathlib.Data.List.Induction
import Mathlib.Data.Set.Card
import PagedIndex.Pool.Lru
import PagedIndex.Proofs.Pool.Calls
import PagedIndex.Proofs.Pool.Run

/-! # Recency

Things happen one after another, and each of them may happen again.  Told by their latest times, the
one that is `Earliest` stands in the row of all that happened with every other one behind it.  An
order of candidates without repetitions, kept as a part of that row told by latest times, always has
the earliest one in front (`earliest_of_sublist`).  The replacer keeps such an order of its releases
(`Lru.Ordered.evicts`); in a run of a pool the row is that of the frames in the order in which
their pins fell to zero (`falls`). -/

namespace PagedIndex

/-! ### Latest times -/

section Latest

variable {α : Type} {l order : List α} {p : α → Prop} {a : α}

/-- Among all that satisfy `p`, it is longest ago that `a` was there in the row `l` for the last
time. -/
def Earliest (l : List α) (p : α → Prop) (a : α) : Prop :=
  p a ∧ ∃ before behind, l = before ++ a :: behind ∧ a ∉ behind ∧ ∀ b, p b → b ≠ a → b ∈ behind

variable [DecidableEq α]

/-- The last one in a row comes last when the row is told by latest times. -/
theorem dedup_concat (l : List α) (a : α) : (l ++ [a]).dedup = l.dedup.erase a ++ [a] := by
  induction l with
  | nil => rfl
  | cons x l ih =>
      rw [List.cons_append]
      by_cases hx : x ∈ l
      · rw [List.dedup_cons_of_mem (List.mem_append_left _ hx), List.dedup_cons_of_mem hx, ih]
      · rw [List.dedup_cons_of_notMem hx]
        by_cases hxa : x = a
        · subst hxa
          rw [List.dedup_cons_of_mem (by simp), ih, List.erase_cons_head,
            List.erase_of_not_mem (by simpa using hx)]
        · rw [List.dedup_cons_of_notMem (by simp [hx, hxa]), ih,
            List.erase_cons_tail (by simpa using hxa)]
          rfl

/-- What stands behind `a` among the latest times happened after `a`. -/
theorem exists_latest {before behind : List α} (h : l.dedup = before ++ a :: behind) :
    ∃ l₁ l₂, l = l₁ ++ a :: l₂ ∧ a ∉ l₂ ∧ l₂.dedup = behind := by
  induction l generalizing before with
  | nil => cases before <;> cases h
  | cons x l ih =>
      by_cases hx : x ∈ l
      · rw [List.dedup_cons_of_mem hx] at h
        obtain ⟨l₁, l₂, rfl, ha, hl₂⟩ := ih h
        exact ⟨x :: l₁, l₂, rfl, ha, hl₂⟩
      · rw [List.dedup_cons_of_notMem hx] at h
        cases before with
        | nil =>
            obtain ⟨rfl, rfl⟩ := List.cons.inj h
            exact ⟨[], l, rfl, hx, rfl⟩
        | cons y before =>
            obtain ⟨rfl, htail⟩ := List.cons.inj h
            obtain ⟨l₁, l₂, rfl, ha, hl₂⟩ := ih htail
            exact ⟨x :: l₁, l₂, rfl, ha, hl₂⟩

/-- The first candidate is the earliest one, if the candidates are told by latest times. -/
theorem earliest_of_sublist {rest : List α} (h : (a :: rest).Sublist l.dedup) (ha : p a)
    (hall : ∀ b, p b → b ∈ a :: rest) : Earliest l p a := by
  obtain ⟨before, behind, heq, hmem, hrest⟩ := List.cons_sublist_iff.mp h
  obtain ⟨b₁, b₂, rfl⟩ := List.append_of_mem hmem
  rw [List.append_assoc, List.cons_append] at heq
  obtain ⟨l₁, l₂, hl, hlast, hl₂⟩ := exists_latest heq
  refine ⟨ha, l₁, l₂, hl, hlast, fun b hb hba => ?_⟩
  have hbehind : b ∈ behind := hrest.subset (List.mem_of_ne_of_mem hba (hall b hb))
  rw [← List.mem_dedup, hl₂]
  exact List.mem_append_right _ hbehind

end Latest

/-! ### The replacer -/

namespace Lru

variable {α : Type} [DecidableEq α]

/-- What a replacer is asked for. -/
inductive Request (α : Type) where
  | setEvictable (a : α) (evictable : Bool)
  | remove (a : α)
  | evict

/-- Serve a request, answering the candidate that is evicted. -/
def serve (q : Lru α) : Request α → Option α × Lru α
  | .setEvictable a true => (none, q.release a)
  | .setEvictable a false => (none, q.remove a)
  | .remove a => (none, q.remove a)
  | .evict =>
    match q.evict? with
    | none => (none, q)
    | some (a, rest) => (some a, rest)

/-- A request with its answer. -/
abbrev Served (α : Type) := Request α × Option α

/-- The candidates after a request: a candidate stays one until it is withdrawn, removed or
evicted. -/
def track (S : Set α) : Served α → Set α
  | (.setEvictable a true, _) => insert a S
  | (.setEvictable a false, _) => S \ {a}
  | (.remove a, _) => S \ {a}
  | (.evict, o) => {a ∈ S | o ≠ some a}

/-- The candidates after a row of requests. -/
def tracked (h : List (Served α)) : Set α := h.foldl track ∅

/-- The releases among a row of requests. -/
def releases (h : List (Served α)) : List α :=
  h.filterMap fun
    | (.setEvictable a true, _) => some a
    | _ => none

/-- Requests to a new replacer with their answers, and the replacer behind them. -/
def serveAll (rs : List (Request α)) : List (Served α) × Lru α :=
  rs.foldl (fun x r => (x.1 ++ [(r, (x.2.serve r).1)], (x.2.serve r).2)) ([], Lru.empty)

section Runs

variable {h : List (Served α)} {q : Lru α}

omit [DecidableEq α] in
theorem tracked_concat (h : List (Served α)) (x : Served α) :
    tracked (h ++ [x]) = track (tracked h) x := by
  rw [tracked, List.foldl_append]
  rfl

/-- The order has the candidates, each once, by their latest releases. -/
structure Ordered (h : List (Served α)) (q : Lru α) : Prop where
  sublist : q.order.Sublist (releases h).dedup
  mem_iff : ∀ a, a ∈ q.order ↔ a ∈ tracked h

namespace Ordered

theorem nodup (hq : Ordered h q) : q.order.Nodup := (List.nodup_dedup _).sublist hq.sublist

theorem release (hq : Ordered h q) (a : α) (o : Option α) :
    Ordered (h ++ [(.setEvictable a true, o)]) (q.release a) := by
  refine ⟨?_, fun b => ?_⟩
  · have hreleases : releases (h ++ [(.setEvictable a true, o)]) = releases h ++ [a] := by
      rw [releases, List.filterMap_append]
      rfl
    rw [hreleases, dedup_concat]
    exact (hq.sublist.erase a).append (List.Sublist.refl [a])
  · rw [tracked_concat, Lru.release, List.mem_append, List.mem_singleton, hq.nodup.mem_erase_iff,
      hq.mem_iff]
    show (b ≠ a ∧ b ∈ tracked h) ∨ b = a ↔ b = a ∨ b ∈ tracked h
    tauto

theorem shrink (hq : Ordered h q) {x : Served α} {q' : Lru α} (hx : releases [x] = [])
    (hsub : q'.order.Sublist q.order) (hmem : ∀ a, a ∈ q'.order ↔ a ∈ track {b | b ∈ q.order} x) :
    Ordered (h ++ [x]) q' := by
  have hset : {b | b ∈ q.order} = tracked h := Set.ext hq.mem_iff
  refine ⟨?_, fun a => ?_⟩
  · have hreleases : releases (h ++ [x]) = releases h := by
      rw [releases, List.filterMap_append]
      exact (congrArg (releases h ++ ·) hx).trans (List.append_nil _)
    rw [hreleases]
    exact hsub.trans hq.sublist
  · rw [hmem, tracked_concat, hset]

theorem serve (hq : Ordered h q) (r : Request α) :
    Ordered (h ++ [(r, (q.serve r).1)]) (q.serve r).2 := by
  have hremove : ∀ a b, b ∈ (q.remove a).order ↔ b ∈ q.order ∧ b ≠ a := fun a b => by
    rw [Lru.remove, hq.nodup.mem_erase_iff, and_comm]
  cases r with
  | setEvictable a evictable =>
      cases evictable with
      | true => exact hq.release a none
      | false => exact hq.shrink rfl List.erase_sublist (hremove a)
  | remove a => exact hq.shrink rfl List.erase_sublist (hremove a)
  | evict =>
      have hnodup := hq.nodup
      obtain ⟨order⟩ := q
      cases order with
      | nil => exact hq.shrink rfl (List.Sublist.refl _) fun a => by simp [Lru.serve, evict?, track]
      | cons a rest =>
          obtain ⟨ha, -⟩ := List.nodup_cons.mp hnodup
          refine hq.shrink rfl (List.sublist_cons_self a rest) fun b => ?_
          show b ∈ rest ↔ b ∈ a :: rest ∧ some a ≠ some b
          rw [List.mem_cons, ne_eq, Option.some.injEq]
          constructor
          · rintro hb
            exact ⟨.inr hb, fun hab => ha (hab ▸ hb)⟩
          · rintro ⟨rfl | hb, hne⟩
            · exact absurd rfl hne
            · exact hb

end Ordered

theorem ordered_serveAll (rs : List (Request α)) : Ordered (serveAll rs).1 (serveAll rs).2 := by
  induction rs using List.reverseRecOn with
  | nil => exact ⟨List.nil_sublist _, fun a => by simp [serveAll, Lru.empty, tracked]⟩
  | append_singleton rs r ih =>
      rw [serveAll, List.foldl_append]
      exact ih.serve r

/-- After any requests, the candidate that is evicted is the one whose latest release is the
earliest; there is none only if there are no candidates; and the size is their number. -/
theorem Ordered.evicts (hq : Ordered h q) :
    (∀ a, (q.serve .evict).1 = some a → Earliest (releases h) (· ∈ tracked h) a) ∧
      ((q.serve .evict).1 = none ↔ tracked h = ∅) ∧
      (tracked h).Finite ∧ q.size = (tracked h).ncard := by
  have hset : tracked h = {a | a ∈ q.order} := Set.ext fun a => (hq.mem_iff a).symm
  have hfinset : tracked h = q.order.toFinset := by simp [hset]
  refine ⟨?_, ?_, ?_, ?_⟩
  · intro a he
    obtain ⟨order⟩ := q
    cases order with
    | nil => cases he
    | cons b order =>
        obtain rfl : b = a := Option.some.inj he
        refine earliest_of_sublist hq.sublist ((hq.mem_iff b).mp List.mem_cons_self) fun c hc => ?_
        exact (hq.mem_iff c).mpr hc
  · rw [hset]
    obtain ⟨order⟩ := q
    cases order with
    | nil => simp [Lru.serve, evict?]
    | cons a order =>
        have hmem : a ∈ {b | b ∈ a :: order} := List.mem_cons_self
        exact ⟨nofun, fun hempty => absurd (hempty ▸ hmem) (Set.notMem_empty a)⟩
  · rw [hfinset]
    exact Finset.finite_toSet _
  · rw [hfinset, Set.ncard_coe_finset, List.toFinset_card_of_nodup hq.nodup]
    rfl

end Runs

end Lru

/-! ### Pins that fall to zero -/

namespace Pool

variable {n : Nat}

/-- The frames whose pins are gone in `s'`. -/
def fallen (s s' : Pool n) : List (Fin n) :=
  (List.finRange n).filter fun f => (s.frame f).pins ≠ 0 ∧ (s'.frame f).pins = 0

/-- The frames in the order in which their pins fell to zero. -/
def falls : List (Session n) → List (Fin n)
  | t :: u :: l => fallen t.pool u.pool ++ falls (u :: l)
  | _ => []

/-- The sessions of a run, the last one included. -/
def path (h : List (Entry n)) (t : Session n) : List (Session n) := h.map Entry.before ++ [t]

theorem falls_concat (l : List (Session n)) (t u : Session n) :
    falls (l ++ [t, u]) = falls (l ++ [t]) ++ fallen t.pool u.pool := by
  induction l with
  | nil => simp [falls]
  | cons x l ih =>
      cases l with
      | nil => simp [falls]
      | cons y l =>
          simp only [List.cons_append, falls] at ih ⊢
          rw [ih, List.append_assoc]

theorem falls_step (h : List (Entry n)) (t u : Session n) (e : Event n) (o : Outcome n) :
    falls (path (h ++ [⟨t, e, o⟩]) u) = falls (path h t) ++ fallen t.pool u.pool := by
  rw [path, List.map_append, List.append_assoc]
  exact falls_concat (h.map Entry.before) t u

end Pool

end PagedIndex
