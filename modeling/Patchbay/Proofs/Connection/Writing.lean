import Mathlib.Data.List.Perm.Basic
import Patchbay.Connection
import Patchbay.Proofs.Output.Writing
import Patchbay.Proofs.Registry

/-! # What connections write

A connection changes its target and nothing else.  So the order of connections matters only to those
that write a common parameter. -/

namespace Patchbay

/-! ## Steps in another order -/

section Steps

variable {σ α : Type} {step : σ → α → σ} {clash : α → α → Prop}

/-- A step that clashes with none of those before it may come first. -/
theorem foldl_bubble (hstep : ∀ s a b, ¬ clash a b → step (step s a) b = step (step s b) a)
    {front : List α} {a : α} (hfront : ∀ b ∈ front, ¬ clash a b) (back : List α) (s : σ) :
    (front ++ a :: back).foldl step s = (a :: (front ++ back)).foldl step s := by
  induction front generalizing s with
  | nil => rfl
  | cons b front ih =>
      have hb := hstep s a b (hfront b List.mem_cons_self)
      have hrest := ih (fun c hc => hfront c (List.mem_cons_of_mem _ hc)) (step s b)
      simpa only [List.cons_append, List.foldl_cons, hb] using hrest

/-- Steps, each with its place, may be taken in any order that keeps the places of those that
clash. -/
theorem foldl_placed (hstep : ∀ s a b, ¬ clash a b → step (step s a) b = step (step s b) a)
    {placed ordered : List (α × Nat)} (hperm : placed.Perm ordered)
    (hordered : ordered.Pairwise fun a b => a.2 < b.2)
    (hplaced : placed.Pairwise fun a b => clash a.1 b.1 → a.2 < b.2) (s : σ) :
    (placed.map Prod.fst).foldl step s = (ordered.map Prod.fst).foldl step s := by
  induction placed generalizing ordered s with
  | nil => rw [hperm.nil_eq]
  | cons a placed ih =>
      obtain ⟨front, back, rfl⟩ := List.append_of_mem (hperm.subset List.mem_cons_self)
      have hrest : placed.Perm (front ++ back) := (hperm.trans List.perm_middle).cons_inv
      obtain ⟨hfirst, hplaced⟩ := List.pairwise_cons.mp hplaced
      -- What came before `a` and now comes after it cannot clash with it.
      have hfront : ∀ b ∈ front.map Prod.fst, ¬ clash a.1 b := by
        rintro _ hmem hclash
        obtain ⟨b, hb, rfl⟩ := List.mem_map.mp hmem
        have hbefore := (List.pairwise_append.mp hordered).2.2 b hb a List.mem_cons_self
        have hafter := hfirst b (hrest.symm.subset (List.mem_append_left _ hb)) hclash
        exact Nat.lt_asymm hbefore hafter
      have hsub : (front ++ back).Sublist (front ++ a :: back) :=
        (List.sublist_cons_self ..).append_left _
      have hih := ih hrest (hordered.sublist hsub) hplaced (step s a.1)
      calc
        ((a :: placed).map Prod.fst).foldl step s =
            ((front ++ back).map Prod.fst).foldl step (step s a.1) := hih
        _ = (a.1 :: (front.map Prod.fst ++ back.map Prod.fst)).foldl step s := by
          rw [List.map_append, List.foldl_cons]
        _ = ((front ++ a :: back).map Prod.fst).foldl step s := by
          rw [← foldl_bubble hstep hfront, List.map_append, List.map_cons]

end Steps

/-! ## Connections -/

/-- A value on its way to a target of an output. -/
structure Write where
  output : String
  target : Target
  value : Float32
deriving DecidableEq

/-- The value arrives. -/
def Write.run (outputs : Registry Output) (w : Write) : Registry Output :=
  outputs.modify w.output fun o => o.write w.target w.value

namespace Connection

/-- What a connection writes when the inputs are as they are. -/
def write (inputs : Registry Input) (c : Connection) : Write :=
  ⟨c.output, c.target, c.result inputs⟩

/-- The two connections write a common parameter. -/
def Clashes (c d : Connection) : Prop := c.output = d.output ∧ ¬ c.target.Apart d.target

instance (c d : Connection) : Decidable (c.Clashes d) :=
  inferInstanceAs (Decidable (c.output = d.output ∧ ¬ c.target.Apart d.target))

/-- Connections that do not clash may change places. -/
theorem run_comm (inputs : Registry Input) (outputs : Registry Output) {c d : Connection}
    (h : ¬ c.Clashes d) :
    d.run inputs (c.run inputs outputs) = c.run inputs (d.run inputs outputs) := by
  unfold run
  by_cases hout : c.output = d.output
  · have hapart : c.target.Apart d.target := Decidable.not_not.mp fun hnot => h ⟨hout, hnot⟩
    rw [hout, Registry.modify_modify, Registry.modify_modify]
    congr 1
    funext o
    exact o.write_comm _ _ hapart
  · exact Registry.modify_comm outputs hout _ _

/-- The connections `before` in the order `after`: each keeps the number of its place, and those
that clash come in the order of these numbers. -/
def Reordered (before after : List Connection) : Prop :=
  ∃ placed : List (Connection × Nat), placed.Perm before.zipIdx ∧ placed.map Prod.fst = after ∧
    placed.Pairwise fun c d => c.1.Clashes d.1 → c.2 < d.2

theorem Reordered.foldl_run {before after : List Connection} (h : Reordered before after)
    (inputs : Registry Input) (outputs : Registry Output) :
    after.foldl (run inputs) outputs = before.foldl (run inputs) outputs := by
  obtain ⟨placed, hperm, rfl, hplaced⟩ := h
  have hordered : before.zipIdx.Pairwise fun c d => c.2 < d.2 := by
    rw [← List.pairwise_map, List.zipIdx_map_snd]
    exact List.pairwise_lt_range'
  have hstep : ∀ outputs (c d : Connection), ¬ c.Clashes d →
      d.run inputs (c.run inputs outputs) = c.run inputs (d.run inputs outputs) :=
    fun outputs c d => run_comm inputs outputs
  rw [foldl_placed hstep hperm hordered hplaced, List.zipIdx_map_fst]

end Connection

end Patchbay
