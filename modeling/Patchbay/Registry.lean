/-!
# Registries

Things under aliases, sorted by alias.  An alias stands for one thing at most.
-/

namespace Patchbay

structure Registry (α : Type) where
  entries : List (String × α)
  sorted : (entries.map Prod.fst).Pairwise (· < ·)

namespace Registry

variable {α σ ε : Type}

def empty : Registry α := ⟨[], .nil⟩

def aliases (r : Registry α) : List String := r.entries.map Prod.fst

def values (r : Registry α) : List α := r.entries.map Prod.snd

def size (r : Registry α) : Nat := r.entries.length

def find? (r : Registry α) (name : String) : Option α := r.entries.lookup name

/-! ## Adding -/

/-- Puts an entry in its place, instead of an entry of the same alias. -/
def place (name : String) (a : α) : List (String × α) → List (String × α)
  | [] => [(name, a)]
  | (other, o) :: rest =>
    if name < other then (name, a) :: (other, o) :: rest
    else if name = other then (name, a) :: rest
    else (other, o) :: place name a rest

theorem mem_place {name : String} {a : α} {l : List (String × α)} {k : String}
    (h : k ∈ (place name a l).map Prod.fst) : k = name ∨ k ∈ l.map Prod.fst := by
  induction l with
  | nil => simpa [place] using h
  | cons entry rest ih =>
      obtain ⟨other, o⟩ := entry
      simp only [place] at h
      split at h
      · simpa using h
      · split at h
        · simp only [List.map_cons, List.mem_cons] at h ⊢
          exact h.imp_right .inr
        · simp only [List.map_cons, List.mem_cons] at h ⊢
          rcases h with h | h
          · exact .inr (.inl h)
          · exact (ih h).imp_right .inr

theorem place_sorted (name : String) (a : α) {l : List (String × α)}
    (h : (l.map Prod.fst).Pairwise (· < ·)) :
    ((place name a l).map Prod.fst).Pairwise (· < ·) := by
  induction l with
  | nil => exact List.pairwise_singleton _ _
  | cons entry rest ih =>
      obtain ⟨other, o⟩ := entry
      simp only [List.map_cons, List.pairwise_cons] at h
      simp only [place]
      split
      next hlt =>
        simp only [List.map_cons, List.pairwise_cons, List.mem_cons]
        refine ⟨?_, h⟩
        rintro k (rfl | hk)
        · exact hlt
        · exact String.lt_trans hlt (h.1 k hk)
      next hge =>
        split
        next heq =>
          subst heq
          simpa only [List.map_cons, List.pairwise_cons] using h
        next hne =>
          simp only [List.map_cons, List.pairwise_cons]
          refine ⟨fun k hk => ?_, ih h.2⟩
          rcases mem_place hk with rfl | hk
          · exact Decidable.byContradiction fun hnot =>
              hne (String.le_antisymm (String.not_lt.mp hnot) (String.not_lt.mp hge))
          · exact h.1 k hk

/-- Registers a thing under an alias. -/
def insert (r : Registry α) (name : String) (a : α) : Registry α :=
  ⟨place name a r.entries, place_sorted name a r.sorted⟩

def ofList (l : List (String × α)) : Registry α :=
  l.foldl (fun r (name, a) => r.insert name a) empty

/-! ## Changing -/

/-- Changes the thing under an alias, if there is one. -/
def modify (r : Registry α) (name : String) (f : α → α) : Registry α where
  entries := r.entries.map fun entry => if entry.1 = name then (entry.1, f entry.2) else entry
  sorted := by
    have h : (r.entries.map fun entry : String × α =>
        if entry.1 = name then (entry.1, f entry.2) else entry).map Prod.fst
          = r.entries.map Prod.fst := by
      simp only [List.map_map]
      apply List.map_congr_left
      intro entry _
      simp only [Function.comp]
      split <;> rfl
    rw [h]
    exact r.sorted

/-- Passes a state through all entries in order. -/
def passList (f : α → σ → α × σ) : List (String × α) → σ → List (String × α) × σ
  | [], s => ([], s)
  | (name, a) :: rest, s =>
    let (a, s) := f a s
    let (rest, s) := passList f rest s
    ((name, a) :: rest, s)

theorem aliases_passList (f : α → σ → α × σ) (l : List (String × α)) (s : σ) :
    (passList f l s).1.map Prod.fst = l.map Prod.fst := by
  induction l generalizing s with
  | nil => rfl
  | cons entry rest ih => simp [passList, ih]

/-- Passes a state through all things in order of their aliases. -/
def pass (f : α → σ → α × σ) (r : Registry α) (s : σ) : Registry α × σ :=
  (⟨(passList f r.entries s).1, by rw [aliases_passList]; exact r.sorted⟩,
    (passList f r.entries s).2)

/-- Passes a state through the entries in order, up to the first fault. -/
def tryList (f : α → σ → Except ε Unit × α × σ) :
    List (String × α) → σ → Except ε Unit × List (String × α) × σ
  | [], s => (.ok (), [], s)
  | (name, a) :: rest, s =>
    match f a s with
    | (.error cause, a, s) => (.error cause, (name, a) :: rest, s)
    | (.ok (), a, s) =>
      let (result, rest, s) := tryList f rest s
      (result, (name, a) :: rest, s)

theorem aliases_tryList (f : α → σ → Except ε Unit × α × σ) (l : List (String × α)) (s : σ) :
    (tryList f l s).2.1.map Prod.fst = l.map Prod.fst := by
  induction l generalizing s with
  | nil => rfl
  | cons entry rest ih =>
      simp only [tryList]
      split <;> simp [ih]

/-- Passes a state through the things in order of their aliases, up to the first fault. -/
def tryPass (f : α → σ → Except ε Unit × α × σ) (r : Registry α) (s : σ) :
    Except ε Unit × Registry α × σ :=
  let passed := tryList f r.entries s
  (passed.1, ⟨passed.2.1, by rw [aliases_tryList]; exact r.sorted⟩, passed.2.2)

end Registry

end Patchbay
