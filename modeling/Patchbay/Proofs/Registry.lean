import Mathlib.Data.List.Nodup
import Mathlib.Data.List.Perm.Basic
import Mathlib.Data.Set.Function
import Patchbay.Registry

/-! # Registering

A new alias adds its entry to those that are there, wherever its place is. -/

namespace Patchbay.Registry

variable {α σ ε : Type}

theorem place_perm {name : String} (a : α) {l : List (String × α)} (h : l.lookup name = none) :
    (place name a l).Perm ((name, a) :: l) := by
  induction l with
  | nil => exact .refl _
  | cons entry rest ih =>
      obtain ⟨other, o⟩ := entry
      rw [List.lookup_eq_none_iff] at h ih
      have hne : name ≠ other := by simpa using h (other, o) (List.mem_cons_self ..)
      have hrest := ih fun e he => h e (List.mem_cons_of_mem _ he)
      simp only [place, if_neg hne]
      split
      · exact .refl _
      · exact (hrest.cons (other, o)).trans (.swap ..)

/-- Under a new alias nothing that was registered is lost. -/
theorem insert_values_perm (r : Registry α) {name : String} (a : α) (h : r.find? name = none) :
    (r.insert name a).values.Perm (a :: r.values) :=
  (place_perm a h).map Prod.snd

theorem insert_aliases_perm (r : Registry α) {name : String} (a : α) (h : r.find? name = none) :
    (r.insert name a).aliases.Perm (name :: r.aliases) :=
  (place_perm a h).map Prod.fst

/-- Aliases are sorted, so only which they are matters. -/
theorem aliases_eq_of_perm {β : Type} {r : Registry α} {r' : Registry β}
    (h : r.aliases.Perm r'.aliases) : r.aliases = r'.aliases :=
  h.eq_of_pairwise (fun _ _ _ _ hlt hgt => absurd (String.lt_trans hlt hgt) (String.lt_irrefl _))
    r.sorted r'.sorted

theorem nodup_aliases (r : Registry α) : r.aliases.Nodup := by
  refine r.sorted.imp fun {a b} hlt => ?_
  rintro rfl
  exact String.lt_irrefl a hlt

/-- The entries are sorted too, so only which they are matters. -/
theorem eq_of_perm {r r' : Registry α} (h : r.entries.Perm r'.entries) : r = r' := by
  obtain ⟨entries, sorted⟩ := r
  obtain ⟨entries', sorted'⟩ := r'
  have heq : entries = entries' := by
    refine h.eq_of_pairwise (fun _ _ _ _ hlt hgt => ?_) (List.pairwise_map.mp sorted)
      (List.pairwise_map.mp sorted')
    exact absurd (String.lt_trans hlt hgt) (String.lt_irrefl _)
  subst heq
  rfl

/-! ## Finding -/

theorem find?_eq_none_iff {r : Registry α} {name : String} :
    r.find? name = none ↔ name ∉ r.aliases := by
  rw [find?, List.lookup_eq_none_iff, aliases, List.mem_map]
  constructor
  · rintro h ⟨entry, hentry, rfl⟩
    simpa using h entry hentry
  · intro h entry hentry
    exact bne_iff_ne.mpr fun heq => h ⟨entry, hentry, heq.symm⟩

theorem find?_eq_some_iff {r : Registry α} {name : String} {a : α} :
    r.find? name = some a ↔ (name, a) ∈ r.entries := by
  obtain ⟨entries, sorted⟩ := r
  change entries.lookup name = some a ↔ _
  induction entries with
  | nil => simp
  | cons entry rest ih =>
      obtain ⟨other, o⟩ := entry
      rw [List.map_cons, List.pairwise_cons] at sorted
      rw [List.lookup_cons, List.mem_cons]
      by_cases hname : name = other
      · subst hname
        have hrest : (name, a) ∉ rest := fun hmem =>
          String.lt_irrefl _ (sorted.1 name (List.mem_map_of_mem hmem))
        simp [hrest, eq_comm]
      · simpa [beq_false_of_ne hname, hname] using ih sorted.2

/-- Aliases that are new, and different from one that is registered now, are new after it too. -/
theorem not_mem_aliases_insert {r : Registry α} {name : String} {names : List String}
    (hname : name ∉ names) (hnew : ∀ other ∈ name :: names, other ∉ r.aliases) (a : α) :
    ∀ other ∈ names, other ∉ (r.insert name a).aliases := by
  intro other hother hmem
  rcases mem_place hmem with rfl | hmem
  · exact hname hother
  · exact hnew other (List.mem_cons_of_mem _ hother) hmem

/-- What is registered one after another under different aliases is there afterwards. -/
theorem entries_foldl_insert_perm {r : Registry α} {l : List (String × α)}
    (hl : (l.map Prod.fst).Nodup) (hnew : ∀ name ∈ l.map Prod.fst, name ∉ r.aliases) :
    (l.foldl (fun r (name, a) => r.insert name a) r).entries.Perm (r.entries ++ l) := by
  induction l generalizing r with
  | nil => rw [List.foldl_nil, List.append_nil]
  | cons entry rest ih =>
      obtain ⟨name, a⟩ := entry
      rw [List.map_cons, List.nodup_cons] at hl
      have hfind : r.find? name = none := find?_eq_none_iff.mpr (hnew name List.mem_cons_self)
      have hplaced : (r.insert name a).entries.Perm ((name, a) :: r.entries) := place_perm a hfind
      refine (ih hl.2 (not_mem_aliases_insert hl.1 hnew a)).trans ?_
      exact (hplaced.append_right rest).trans List.perm_middle.symm

theorem entries_ofList_perm {l : List (String × α)} (hl : (l.map Prod.fst).Nodup) :
    (ofList l).entries.Perm l :=
  entries_foldl_insert_perm hl fun _ _ hmem => nomatch hmem

/-! ## Changing -/

theorem aliases_modify (r : Registry α) (name : String) (f : α → α) :
    (r.modify name f).aliases = r.aliases := by
  simp only [aliases, modify, List.map_map]
  refine List.map_congr_left fun entry _ => ?_
  dsimp only [Function.comp]
  split <;> rfl

/-- Two changes of one thing are one change. -/
theorem modify_modify (r : Registry α) (name : String) (f g : α → α) :
    (r.modify name f).modify name g = r.modify name fun a => g (f a) := by
  simp only [modify, mk.injEq, List.map_map]
  refine List.map_congr_left fun entry _ => ?_
  by_cases h : entry.1 = name <;> simp [h]

/-- Things under different aliases may be changed in any order. -/
theorem modify_comm (r : Registry α) {name other : String} (h : name ≠ other) (f g : α → α) :
    (r.modify name f).modify other g = (r.modify other g).modify name f := by
  simp only [modify, mk.injEq, List.map_map]
  refine List.map_congr_left fun entry _ => ?_
  by_cases hname : entry.1 = name
  · simp [hname, h]
  · by_cases hother : entry.1 = other <;> simp [hname, hother, Ne.symm h]

/-- A pass leaves alone what each of its steps does. -/
theorem pass_keeps {κ : Type} {part : σ → κ} {f : α → σ → α × σ}
    (hf : ∀ a s, part (f a s).2 = part s) (r : Registry α) (s : σ) :
    part (r.pass f s).2 = part s := by
  change part (passList f r.entries s).2 = part s
  induction r.entries generalizing s with
  | nil => rfl
  | cons entry rest ih => exact (ih (f entry.2 s).2).trans (hf entry.2 s)

/-- A pass has no fault when no step has one. -/
theorem tryList_cons_eq_ok_iff {f : α → σ → Except ε Unit × α × σ} {name : String} {a : α}
    {rest after : List (String × α)} {s t : σ} :
    tryList f ((name, a) :: rest) s = (.ok (), after, t) ↔
      ∃ a₁ s₁ rest₁, f a s = (.ok (), a₁, s₁) ∧ tryList f rest s₁ = (.ok (), rest₁, t) ∧
        after = (name, a₁) :: rest₁ := by
  rw [tryList]
  constructor
  · intro h
    split at h
    next => cases h
    next a₁ s₁ hstep =>
      simp only [Prod.mk.injEq] at h
      obtain ⟨hresult, rfl, rfl⟩ := h
      exact ⟨a₁, s₁, _, hstep, Prod.ext hresult rfl, rfl⟩
  · rintro ⟨a₁, s₁, rest₁, hstep, hrest, rfl⟩
    simp only [hstep, hrest]

theorem tryPass_eq_iff {f : α → σ → Except ε Unit × α × σ} {r r' : Registry α} {s t : σ}
    {result : Except ε Unit} :
    r.tryPass f s = (result, r', t) ↔ tryList f r.entries s = (result, r'.entries, t) := by
  obtain ⟨entries', sorted'⟩ := r'
  simp only [tryPass, Prod.ext_iff, mk.injEq]

/-! ## Under other aliases -/

/-- Everything under another alias. -/
def rename (f : String → String) (r : Registry α) : Registry α :=
  ofList (r.entries.map (Prod.map f id))

section Rename

variable {r : Registry α} {f : String → String} (hf : Set.InjOn f {name | name ∈ r.aliases})

include hf

/-- As long as no two aliases become one, nothing is lost. -/
theorem entries_rename_perm : (r.rename f).entries.Perm (r.entries.map (Prod.map f id)) := by
  have hnodup : (r.aliases.map f).Nodup := r.nodup_aliases.map_on fun a ha b hb => hf ha hb
  exact entries_ofList_perm (by simpa [aliases, Function.comp_def] using hnodup)

theorem aliases_rename_perm : (r.rename f).aliases.Perm (r.aliases.map f) := by
  simpa [aliases, Function.comp_def] using (entries_rename_perm hf).map Prod.fst

theorem find?_rename {name : String} {a : α} (h : r.find? name = some a) :
    (r.rename f).find? (f name) = some a :=
  find?_eq_some_iff.mpr ((entries_rename_perm hf).symm.subset
    (List.mem_map_of_mem (f := Prod.map f id) (find?_eq_some_iff.mp h)))

/-- What is under an alias is changed under the other. -/
theorem modify_rename {name : String} (hname : name ∈ r.aliases) (g : α → α) :
    (r.rename f).modify (f name) g = (r.modify name g).rename f := by
  have hf' : Set.InjOn f {other | other ∈ (r.modify name g).aliases} := by rwa [aliases_modify]
  refine eq_of_perm (((entries_rename_perm hf).map _).trans ?_)
  refine List.Perm.trans ?_ (entries_rename_perm hf').symm
  simp only [modify, List.map_map]
  refine .of_eq (List.map_congr_left fun entry hentry => ?_)
  have hmem : entry.1 ∈ r.aliases := List.mem_map_of_mem hentry
  by_cases h : entry.1 = name
  · simp [h]
  · have hne : f entry.1 ≠ f name := fun heq => h (hf hmem hname heq)
    simp [h, hne]

end Rename

end Patchbay.Registry
