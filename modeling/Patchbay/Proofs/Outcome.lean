/-! # Steps that can fail

A sequence of steps succeeds when each step does, on what the step before it gave. -/

namespace Patchbay.Outcome

variable {ε δ σ α β : Type}

theorem bind_eq_ok_iff {x : Except ε α} {f : α → Except ε β} {b : β} :
    x >>= f = .ok b ↔ ∃ a, x = .ok a ∧ f a = .ok b := by
  cases x with
  | error cause => simp [bind, Except.bind]
  | ok a => simp [bind, Except.bind]

theorem bind_eq_error_iff {x : Except ε α} {f : α → Except ε β} {cause : ε} :
    x >>= f = .error cause ↔ x = .error cause ∨ ∃ a, x = .ok a ∧ f a = .error cause := by
  cases x with
  | error first => simp [bind, Except.bind]
  | ok a => simp [bind, Except.bind]

theorem map_eq_ok_iff {x : Except ε α} {f : α → β} {b : β} :
    x.map f = .ok b ↔ ∃ a, x = .ok a ∧ f a = b := by
  cases x <;> simp [Except.map]

theorem mapError_error (f : ε → δ) (first : ε) :
    (Except.error first : Except ε α).mapError f = .error (f first) := rfl

theorem mapError_ok (f : ε → δ) (a : α) : (Except.ok a : Except ε α).mapError f = .ok a := rfl

theorem mapError_eq_ok_iff {x : Except ε α} {f : ε → δ} {a : α} :
    x.mapError f = .ok a ↔ x = .ok a := by
  cases x <;> simp [mapError_error, mapError_ok]

theorem mapError_eq_error_iff {x : Except ε α} {f : ε → δ} {cause : δ} :
    x.mapError f = .error cause ↔ ∃ first, x = .error first ∧ f first = cause := by
  cases x <;> simp [mapError_error, mapError_ok]

theorem run_bind_eq_ok_iff {x : EStateM ε σ α} {f : α → EStateM ε σ β} {s t : σ} {b : β} :
    (x >>= f) s = .ok b t ↔ ∃ a u, x s = .ok a u ∧ f a u = .ok b t := by
  change EStateM.bind x f s = .ok b t ↔ _
  unfold EStateM.bind
  cases x s with
  | error cause u => simp
  | ok a u => exact ⟨fun h => ⟨a, u, rfl, h⟩, by rintro ⟨_, _, ⟨⟩, h⟩; exact h⟩

theorem run_bind_of_ok {x : EStateM ε σ α} {f : α → EStateM ε σ β} {s t : σ} {a : α}
    (h : x s = .ok a t) : (x >>= f) s = f a t := by
  change EStateM.bind x f s = f a t
  unfold EStateM.bind
  rw [h]

theorem run_adaptExcept_eq_ok_iff {x : EStateM ε σ α} {f : ε → δ} {s t : σ} {a : α} :
    x.adaptExcept f s = .ok a t ↔ x s = .ok a t := by
  unfold EStateM.adaptExcept
  cases x s <;> simp

theorem mapM_cons_eq_ok_iff {f : α → Except ε β} {a : α} {l : List α} {bs : List β} :
    (a :: l).mapM f = .ok bs ↔ ∃ b rest, f a = .ok b ∧ l.mapM f = .ok rest ∧ bs = b :: rest := by
  rw [List.mapM_cons, bind_eq_ok_iff]
  refine exists_congr fun b => ?_
  rw [bind_eq_ok_iff, ← exists_and_left]
  refine exists_congr fun rest => and_congr_right fun _ => and_congr_right fun _ => ?_
  exact ⟨fun h => (Except.ok.inj h).symm, fun h => congrArg Except.ok h.symm⟩

theorem exists_of_mapM_eq_error {f : α → Except ε β} {l : List α} {cause : ε}
    (h : l.mapM f = .error cause) : ∃ a ∈ l, f a = .error cause := by
  induction l with
  | nil => exact nomatch h
  | cons a l ih =>
      rw [List.mapM_cons] at h
      rcases bind_eq_error_iff.mp h with hfirst | ⟨b, _, h⟩
      · exact ⟨a, List.mem_cons_self, hfirst⟩
      rcases bind_eq_error_iff.mp h with hrest | ⟨bs, _, h⟩
      · obtain ⟨c, hc, hfault⟩ := ih hrest
        exact ⟨c, List.mem_cons_of_mem _ hc, hfault⟩
      · exact nomatch h

/-- What each element of a list gives goes with it into another order. -/
theorem exists_mapM_perm {f : α → Except ε β} {l l' : List α} (hperm : l'.Perm l) {bs : List β}
    (h : l.mapM f = .ok bs) : ∃ bs', l'.mapM f = .ok bs' ∧ (l'.zip bs').Perm (l.zip bs) := by
  induction hperm generalizing bs with
  | nil => exact ⟨bs, h, .refl _⟩
  | cons a _ ih =>
      obtain ⟨b, rest, hb, hrest, rfl⟩ := mapM_cons_eq_ok_iff.mp h
      obtain ⟨rest', hrest', hzip⟩ := ih hrest
      exact ⟨b :: rest', mapM_cons_eq_ok_iff.mpr ⟨b, rest', hb, hrest', rfl⟩, hzip.cons _⟩
  | swap a c l =>
      obtain ⟨b, rest, hb, hrest, rfl⟩ := mapM_cons_eq_ok_iff.mp h
      obtain ⟨d, more, hd, hmore, rfl⟩ := mapM_cons_eq_ok_iff.mp hrest
      refine ⟨d :: b :: more, ?_, .swap ..⟩
      exact mapM_cons_eq_ok_iff.mpr ⟨d, b :: more, hd,
        mapM_cons_eq_ok_iff.mpr ⟨b, more, hb, hmore, rfl⟩, rfl⟩
  | trans _ _ ihfirst ihlast =>
      obtain ⟨cs, hcs, hlast⟩ := ihlast h
      obtain ⟨ds, hds, hfirst⟩ := ihfirst hcs
      exact ⟨ds, hds, hfirst.trans hlast⟩

/-- What each step preserves, all of them do. -/
theorem foldlM_preserves {I : β → Prop} {f : β → α → Except ε β}
    (hstep : ∀ {b a b'}, I b → f b a = .ok b' → I b') {l : List α} {b b' : β} (hb : I b)
    (h : l.foldlM f b = .ok b') : I b' := by
  induction l generalizing b with
  | nil =>
      cases h
      exact hb
  | cons a l ih =>
      rw [List.foldlM_cons] at h
      obtain ⟨_, hfirst, hrest⟩ := bind_eq_ok_iff.mp h
      exact ih (hstep hb hfirst) hrest

theorem length_of_mapM {f : α → Except ε β} {l : List α} {bs : List β} (h : l.mapM f = .ok bs) :
    bs.length = l.length := by
  induction l generalizing bs with
  | nil =>
      cases h
      rfl
  | cons a l ih =>
      obtain ⟨b, rest, _, hrest, rfl⟩ := mapM_cons_eq_ok_iff.mp h
      rw [List.length_cons, List.length_cons, ih hrest]

/-! ## Faults of steps -/

variable {P : ε → Prop}

/-- When it fails, whatever the state, it fails like this. -/
def Faults (P : ε → Prop) (act : EStateM ε σ α) : Prop :=
  ∀ s cause t, act s = .error cause t → P cause

theorem faults_pure (a : α) : Faults P (pure a : EStateM ε σ α) := by
  intro s cause t h
  exact nomatch h

theorem faults_bind {x : EStateM ε σ α} {f : α → EStateM ε σ β} (hx : Faults P x)
    (hf : ∀ a, Faults P (f a)) : Faults P (x >>= f) := by
  intro s cause t h
  change EStateM.bind x f s = .error cause t at h
  unfold EStateM.bind at h
  split at h
  next a u _ => exact hf a u cause t h
  next first u hfirst =>
    cases h
    exact hx s cause t hfirst

theorem faults_adaptExcept {x : EStateM δ σ α} {f : δ → ε} (h : ∀ cause, P (f cause)) :
    Faults P (x.adaptExcept f) := by
  intro s cause t hfault
  unfold EStateM.adaptExcept at hfault
  split at hfault
  next first u _ =>
    cases hfault
    exact h first
  next => exact nomatch hfault

end Patchbay.Outcome
