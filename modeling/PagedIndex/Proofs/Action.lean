import PagedIndex.Action

/-! # Where actions end

`x.Ends s Q E` says how the action `x` ends when it is run from the state `s`: it answers with an
answer and a state that satisfy `Q`, or it stops with a cause and a state that satisfy `E`.  The
equations below push `Ends` through the ways in which actions are put together, so a fact about a
whole action is proved from facts about its parts; `Ends.mono` puts a known fact about a part in
its place. -/

namespace PagedIndex.Action

variable {ε ε' σ τ α β : Type}

/-- Run from `s`, the action answers in `Q` or stops in `E`. -/
def Ends (x : Action ε σ α) (s : σ) (Q : α → σ → Prop) (E : ε → σ → Prop) : Prop :=
  match x s with
  | .ok a s' => Q a s'
  | .error e s' => E e s'

/-- Run from `s`, the action answers, in `Q`. -/
def Answers (x : Action ε σ α) (s : σ) (Q : α → σ → Prop) : Prop :=
  ∃ a s', x s = .ok a s' ∧ Q a s'

variable {x : Action ε σ α} {s s' : σ} {Q Q' : α → σ → Prop} {E E' : ε → σ → Prop}

theorem Ends.mono (h : x.Ends s Q E) (hQ : ∀ a s', Q a s' → Q' a s')
    (hE : ∀ e s', E e s' → E' e s') : x.Ends s Q' E' := by
  unfold Ends at h ⊢
  cases hx : x s with
  | ok a s' => rw [hx] at h; exact hQ a s' h
  | error e s' => rw [hx] at h; exact hE e s' h

theorem Ends.and (h : x.Ends s Q E) (h' : x.Ends s Q' E') :
    x.Ends s (fun a s' => Q a s' ∧ Q' a s') (fun e s' => E e s' ∧ E' e s') := by
  unfold Ends at h h' ⊢
  cases hx : x s <;> rw [hx] at h h' <;> exact ⟨h, h'⟩

theorem Ends.of_ok {a : α} (h : x.Ends s Q E) (hx : x s = .ok a s') : Q a s' := by
  rwa [Ends, hx] at h

theorem Ends.of_error {e : ε} (h : x.Ends s Q E) (hx : x s = .error e s') : E e s' := by
  rwa [Ends, hx] at h

/-- An action ends well if all its answers and all its causes are good. -/
theorem ends_iff : x.Ends s Q E ↔
    (∀ a s', x s = .ok a s' → Q a s') ∧ ∀ e s', x s = .error e s' → E e s' := by
  refine ⟨fun h => ⟨fun _ _ => h.of_ok, fun _ _ => h.of_error⟩, fun h => ?_⟩
  unfold Ends
  cases hx : x s with
  | ok a s' => exact h.1 a s' hx
  | error e s' => exact h.2 e s' hx

/-- An action that stops nowhere answers. -/
theorem Ends.answers (h : x.Ends s Q fun _ _ => False) : x.Answers s Q := by
  unfold Ends at h
  cases hx : x s with
  | ok a s' => rw [hx] at h; exact ⟨a, s', hx, h⟩
  | error e s' => rw [hx] at h; exact h.elim

theorem Answers.ends (h : x.Answers s Q) (hQ : ∀ a s', Q a s' → Q' a s') : x.Ends s Q' E := by
  obtain ⟨a, s', hx, ha⟩ := h
  unfold Ends
  rw [hx]
  exact hQ a s' ha

theorem answers_iff : x.Answers s Q ↔ x.Ends s Q fun _ _ => False :=
  ⟨fun h => h.ends fun _ _ ha => ha, Ends.answers⟩

theorem Answers.mono (h : x.Answers s Q) (hQ : ∀ a s', Q a s' → Q' a s') : x.Answers s Q' :=
  answers_iff.mpr (h.ends hQ)

theorem Answers.bind {f : α → Action ε σ β} {R : β → σ → Prop} (h : x.Answers s Q)
    (hf : ∀ a s', x s = .ok a s' → Q a s' → (f a).Answers s' R) : (x >>= f).Answers s R := by
  obtain ⟨a, s', hx, ha⟩ := h
  obtain ⟨b, s'', hb, hR⟩ := hf a s' hx ha
  refine ⟨b, s'', ?_, hR⟩
  simp only [Bind.bind, EStateM.bind, hx, hb]

theorem Ends.eq_ok {a : α} (h : x.Ends s (fun b t => b = a ∧ t = s') fun _ _ => False) :
    x s = .ok a s' := by
  obtain ⟨_, _, hx, rfl, rfl⟩ := h.answers
  exact hx

theorem Ends.eq_error {e : ε} (h : x.Ends s (fun _ _ => False) fun c t => c = e ∧ t = s') :
    x s = .error e s' := by
  unfold Ends at h
  cases hx : x s with
  | ok a t => rw [hx] at h; exact h.elim
  | error c t => rw [hx] at h; rw [h.1, h.2]

theorem ends_of_eq {a : α} (h : x s = .ok a s') : x.Ends s Q E ↔ Q a s' := by
  rw [Ends, h]

/-- An action that answers when `p` holds, and only then. -/
theorem Ends.ok_iff {p : Prop} (h : x.Ends s (fun _ _ => p) fun _ _ => ¬ p) :
    (∃ a s', x s = .ok a s') ↔ p := by
  unfold Ends at h
  cases hx : x s with
  | ok a s' =>
      rw [hx] at h
      exact ⟨fun _ => h, fun _ => ⟨a, s', rfl⟩⟩
  | error e s' =>
      rw [hx] at h
      exact ⟨nofun, fun hp => absurd hp h⟩

/-- An action that stops with `c` when `p` holds, and only then. -/
theorem Ends.stops_iff {c : ε} {p : Prop} (h : x.Ends s (fun _ _ => ¬ p) fun e _ => e = c ↔ p) :
    (∃ s', x s = .error c s') ↔ p := by
  unfold Ends at h
  cases hx : x s with
  | ok a s' =>
      rw [hx] at h
      exact ⟨nofun, fun hp => absurd hp h⟩
  | error e s' =>
      rw [hx] at h
      exact ⟨fun ⟨_, he⟩ => h.mp (EStateM.Result.error.inj he).1, fun hp => ⟨s', by rw [h.mpr hp]⟩⟩

/-- An action that stops with `c` when `p` holds, and only then, and that has changed nothing when
it does. -/
theorem Ends.stops_unchanged_iff {c : ε} {p : Prop}
    (h : x.Ends s (fun _ _ => ¬ p) fun e _ => e = c ↔ p)
    (hsame : x.Ends s (fun _ _ => True) fun e t => e = c → t = s) :
    x s = .error c s' ↔ s' = s ∧ p := by
  refine ⟨fun hx => ⟨hsame.of_error hx rfl, h.stops_iff.mp ⟨s', hx⟩⟩, ?_⟩
  rintro ⟨rfl, hp⟩
  obtain ⟨t, hx⟩ := h.stops_iff.mpr hp
  rwa [hsame.of_error hx rfl] at hx

/-! ### Single actions -/

@[simp] theorem ends_pure (a : α) : Ends (pure a : Action ε σ α) s Q E ↔ Q a s := Iff.rfl

@[simp] theorem ends_throw (e : ε) : Ends (throw e : Action ε σ α) s Q E ↔ E e s := Iff.rfl

@[simp] theorem ends_get {Q : σ → σ → Prop} : Ends (get : Action ε σ σ) s Q E ↔ Q s s := Iff.rfl

@[simp] theorem ends_modify (f : σ → σ) {Q : Unit → σ → Prop} :
    Ends (modify f : Action ε σ Unit) s Q E ↔ Q () (f s) := Iff.rfl

theorem ends_liftM (r : Except ε α) :
    Ends (liftM r : Action ε σ α) s Q E ↔
      match r with
      | .ok a => Q a s
      | .error e => E e s := by
  cases r <;> rfl

theorem ends_answer {r : Except ε α} {a : α} (h : r = .ok a) :
    Ends (liftM r : Action ε σ α) s Q E ↔ Q a s := by
  rw [h, ends_liftM]

@[simp] theorem ends_require (p : Prop) [Decidable p] (e : ε) {Q : Unit → σ → Prop} :
    Ends (liftM (require p e) : Action ε σ Unit) s Q E ↔ (p → Q () s) ∧ (¬ p → E e s) := by
  rw [ends_liftM, require]
  by_cases hp : p <;> simp [hp]

theorem require_bind (p : Prop) [Decidable p] (e : ε) (f : Unit → Except ε α) :
    (require p e >>= f) = if p then f () else .error e := by
  unfold require
  split <;> rfl

/-! ### Actions put together -/

@[simp] theorem ends_bind {f : α → Action ε σ β} {Q : β → σ → Prop} :
    Ends (x >>= f) s Q E ↔ Ends x s (fun a s' => Ends (f a) s' Q E) E := by
  simp only [Ends, bind, EStateM.bind]
  cases x s <;> rfl

@[simp] theorem ends_map {f : α → β} {Q : β → σ → Prop} :
    Ends (f <$> x) s Q E ↔ Ends x s (fun a s' => Q (f a) s') E := by
  simp only [Ends, Functor.map, EStateM.map]
  cases x s <;> rfl

@[simp] theorem ends_discard {Q : Unit → σ → Prop} :
    Ends (discard x) s Q E ↔ Ends x s (fun _ s' => Q () s') E :=
  ends_map (f := Function.const α ())

@[simp] theorem ends_zoom {x : Action ε τ α} {get : σ → τ} {put : σ → τ → σ} :
    Ends (zoom get put x) s Q E ↔
      Ends x (get s) (fun a t => Q a (put s t)) (fun e t => E e (put s t)) := by
  simp only [Ends, zoom]
  cases x (get s) <;> rfl

@[simp] theorem ends_mapCause {f : ε → ε'} {E : ε' → σ → Prop} :
    Ends (x.mapCause f) s Q E ↔ Ends x s Q (fun e s' => E (f e) s') := by
  simp only [Ends, mapCause]
  cases x s <;> rfl

@[simp] theorem ends_orCleanup {cleanup : ε → Action ε σ Unit} :
    Ends (x.orCleanup cleanup) s Q E ↔
      Ends x s Q (fun e s' => Ends (cleanup e) s' (fun _ s'' => E e s'') E) := by
  have hcatch : x.orCleanup cleanup s =
      match x s with
      | .error e s' => (do cleanup e; throw e : Action ε σ α) s'
      | .ok a s' => .ok a s' := by
    show EStateM.tryCatch x (fun e => do cleanup e; throw e) s = _
    delta EStateM.tryCatch
    cases x s <;> rfl
  unfold Ends
  rw [hcatch]
  cases x s with
  | ok a s' => rfl
  | error e s' =>
      simp only [bind, EStateM.bind]
      cases cleanup e s' <;> rfl

end PagedIndex.Action
