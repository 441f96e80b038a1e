import Patchbay.Proofs.Output.Keeping
import Patchbay.Proofs.Rig.Parts

/-! # Taking turns

Inputs are polled, and outputs built and stepped, in the order of their aliases.  On benches that
are the same but for notes, polls find the same.  Under other aliases outputs may come in another
order; no two of them share a pin, so each does the same as before. -/

namespace Patchbay

open Bench (SameAt)
open Registry (tryList)

variable {b b' b₁ : Bench} {f : String → String}

/-! ## Polls -/

theorem Button.poll_same (o : Button) (hb : SameAt .univ b b') :
    (o.poll b').1 = (o.poll b).1 ∧ SameAt .univ (o.poll b).2 (o.poll b').2 := by
  have hactive : o.pin.isActive b' = o.pin.isActive b := by
    unfold InputPin.isActive
    rw [hb.line _ trivial]
  unfold poll
  rw [hactive]
  refine ⟨rfl, ?_⟩
  dsimp only
  split
  · exact hb
  · exact hb.journals _ _

theorem Gamepad.Controller.poll_same {c c' : Controller} {result : Except ProtocolError Unit}
    (h : c.poll b = (result, c', b₁)) (hb : SameAt .univ b b') :
    ∃ b₁', c.poll b' = (result, c', b₁') ∧ SameAt .univ b₁ b₁' := by
  have hread := hb.setQueue c.id []
  unfold poll Bench.drain at h ⊢
  rw [Bench.queue_of_outside hb.outside]
  dsimp only at h ⊢
  by_cases hempty : (b.queue c.id).isEmpty
  · simp only [hempty, if_true] at h ⊢
    cases h
    exact ⟨_, rfl, hread⟩
  · simp only [hempty] at h ⊢
    cases hdecode : c.snapshot.decode (b.queue c.id) with
    | error cause s =>
        simp only [hdecode] at h ⊢
        cases h
        exact ⟨_, rfl, hread⟩
    | ok n s =>
        simp only [hdecode] at h ⊢
        cases h
        exact ⟨_, rfl, hread.journals _ _⟩

theorem Input.poll_same {i i' : Input} {result : Except RigError Unit}
    (h : i.poll b = (result, i', b₁)) (hb : SameAt .univ b b') :
    ∃ b₁', i.poll b' = (result, i', b₁') ∧ SameAt .univ b₁ b₁' := by
  cases i with
  | button o =>
      obtain ⟨hfst, hsnd⟩ := o.poll_same hb
      have hpolled : (.ok (), button (o.poll b).1, (o.poll b).2) = (result, i', b₁) := h
      simp only [Prod.mk.injEq] at hpolled
      obtain ⟨rfl, rfl, rfl⟩ := hpolled
      refine ⟨(o.poll b').2, ?_, hsnd⟩
      rw [← hfst]
      rfl
  | controller c =>
      cases h
      obtain ⟨b₁', hpoll, hb₁⟩ := Gamepad.Controller.poll_same rfl hb
      exact ⟨b₁', by rw [poll, hpoll], hb₁⟩

theorem tryList_poll_same {entries after : List (String × Input)} {result : Except RigError Unit}
    (h : tryList Input.poll entries b = (result, after, b₁)) (hb : SameAt .univ b b') :
    ∃ b₁', tryList Input.poll entries b' = (result, after, b₁') ∧ SameAt .univ b₁ b₁' := by
  induction entries generalizing b b' after with
  | nil =>
      cases h
      exact ⟨b', rfl, hb⟩
  | cons entry rest ih =>
      obtain ⟨name, i⟩ := entry
      rcases hpoll : i.poll b with ⟨first, i', b₂⟩
      obtain ⟨c, hpoll', hc⟩ := Input.poll_same hpoll hb
      rw [tryList, hpoll] at h
      rw [tryList, hpoll']
      cases first with
      | error cause =>
          cases h
          exact ⟨c, rfl, hc⟩
      | ok _ =>
          cases h
          obtain ⟨c₁, hrest, hc₁⟩ := ih rfl hc
          exact ⟨c₁, by simp only [hrest], hc₁⟩

/-! ## Steps -/

namespace Registry

variable {r : Registry Output}

/-- No two outputs share a pin. -/
def Apart (r : Registry Output) : Prop :=
  (r.entries.map fun entry => entry.2.numbers).Pairwise List.Disjoint

theorem runs_passList (l : List (String × Output)) (b : Bench) :
    Runs (fun o => (modifyGet o.step : EStateM Empty Bench Output)) l b
      (passList Output.step l b).1 (passList Output.step l b).2 := by
  induction l generalizing b with
  | nil => exact .nil b
  | cons entry rest ih => exact .cons rfl (ih _)

theorem pass_rename (hf : Set.InjOn f {name | name ∈ r.aliases}) (hapart : r.Apart)
    (hb : SameAt .univ b b') :
    ((r.rename f).pass Output.step b').1 = (r.pass Output.step b).1.rename f ∧
      SameAt .univ (r.pass Output.step b).2 ((r.rename f).pass Output.step b').2 := by
  have hf' : Set.InjOn f {name | name ∈ (r.pass Output.step b).1.aliases} := by
    rwa [show (r.pass Output.step b).1.aliases = r.aliases from aliases_passList ..]
  obtain ⟨done, c, hruns, hdone, hc⟩ := (runs_passList r.entries b).renamed
    (fun o => .of_keeps o.keeps_step) (entries_rename_perm hf) hapart hb
  obtain ⟨rfl, rfl⟩ := hruns.deterministic (runs_passList (r.rename f).entries b')
  exact ⟨eq_of_perm (hdone.trans (entries_rename_perm hf').symm), hc⟩

namespace Apart

theorem of_numbers {r' : Registry Output} (h : r.Apart)
    (hsame : r'.entries.map (fun entry => entry.2.numbers) =
      r.entries.map fun entry => entry.2.numbers) : r'.Apart := by
  rwa [Apart, hsame]

theorem pass (h : r.Apart) (b : Bench) : (r.pass Output.step b).1.Apart := by
  have hnumbers (l : List (String × Output)) (b : Bench) :
      (passList Output.step l b).1.map (fun entry => entry.2.numbers) =
        l.map fun entry => entry.2.numbers := by
    induction l generalizing b with
    | nil => rfl
    | cons entry rest ih => exact congrArg₂ List.cons (entry.2.numbers_step b) (ih _)
  exact h.of_numbers (hnumbers r.entries b)

theorem modify (h : r.Apart) (name : String) (t : Target) (v : Float32) :
    (r.modify name fun o => o.write t v).Apart := by
  refine h.of_numbers ?_
  rw [Registry.modify, List.map_map]
  refine List.map_congr_left fun entry _ => ?_
  dsimp only [Function.comp]
  split
  · exact entry.2.numbers_write t v
  · rfl

end Apart

end Registry

/-! ## Building -/

namespace Rig

variable {r r' : Rig} {entries : List (String × Config.OutputConfig)}
  {done : List (String × Output)}

/-- The rig with more outputs. -/
def withOutputs (r : Rig) (done : List (String × Output)) : Rig :=
  { r with outputs := done.foldl (fun outputs (name, o) => outputs.insert name o) r.outputs }

/-- Outputs are built one after another and registered, and nothing else changes. -/
theorem runs_of_extend
    (h : extend (fun r (name, c) => r.buildOutput name c) r entries b = .ok r' b') :
    ∃ done b₁, Runs Output.ofConfig entries b done b₁ ∧ SameAt .univ b₁ b' ∧
      r' = r.withOutputs done := by
  induction entries generalizing r b with
  | nil =>
      cases h
      exact ⟨[], _, .nil _, .refl _ _, rfl⟩
  | cons entry rest ih =>
      obtain ⟨name, c⟩ := entry
      obtain ⟨r₁, b₁, hfirst, hrest⟩ := extend_cons_eq_ok_iff.mp h
      obtain ⟨o, b₂, hact, -, rfl, rfl⟩ := buildOutput_eq_ok_iff.mp hfirst
      obtain ⟨done, b₃, hruns, hb, rfl⟩ := ih hrest
      obtain ⟨b₄, hruns', hb'⟩ := hruns.same Output.local_ofConfig (SameAt.journal b₂ _).symm
      exact ⟨(name, o) :: done, b₄, .cons hact hruns', hb'.symm.trans hb, rfl⟩

/-- Under new aliases all outputs can be registered that can be built. -/
theorem exists_extend_of_runs (h : Runs Output.ofConfig entries b done b₁) (hb : SameAt .univ b b')
    (hnodup : (entries.map Prod.fst).Nodup)
    (hnew : ∀ name ∈ entries.map Prod.fst, name ∉ r.outputs.aliases) :
    ∃ b₁', extend (fun r (name, c) => r.buildOutput name c) r entries b' =
        .ok (r.withOutputs done) b₁' ∧ SameAt .univ b₁ b₁' := by
  induction h generalizing r b' with
  | nil b => exact ⟨b', rfl, hb⟩
  | @cons name c rest b b₁ b₂ o done hact _ ih =>
      rw [List.map_cons, List.nodup_cons] at hnodup
      have hfind : r.outputs.find? name = none :=
        Registry.find?_eq_none_iff.mpr (hnew name List.mem_cons_self)
      obtain ⟨c₁, hact', hc₁⟩ :=
        (Output.local_ofConfig c).same_of_subset (Set.subset_univ _) hb hact
      have hfirst := buildOutput_eq_ok_iff.mpr ⟨o, c₁, hact', hfind, rfl, rfl⟩
      obtain ⟨c₂, hrest, hc₂⟩ := ih (r := { r with outputs := r.outputs.insert name o })
        (hc₁.trans (.journal c₁ _)) hnodup.2 (Registry.not_mem_aliases_insert hnodup.1 hnew o)
      exact ⟨c₂, extend_cons_eq_ok_iff.mpr ⟨_, _, hfirst, hrest⟩, hc₂⟩

end Rig

end Patchbay
