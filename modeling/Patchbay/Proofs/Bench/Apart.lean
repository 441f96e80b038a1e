import Mathlib.Data.List.Lattice
import Mathlib.Data.List.Nodup
import Patchbay.Proofs.Bench.Attempt
import Patchbay.Proofs.Bench.Queues
import Patchbay.Proofs.Outcome
import Patchbay.Proofs.Output.Stepping

/-! # Acts at lines of their own

An act that keeps to some pins looks at no other lines and drives no other lines, so it goes the
same way on all benches that are the same at these pins.  Acts that keep to different pins may be
done in any order. -/

namespace Patchbay

namespace Bench

/-- The lines of some pins are the same on both benches, and so is all but lines and notes. -/
structure SameAt (pins : Set UInt8) (b b' : Bench) : Prop where
  line : ∀ p ∈ pins, b'.line p = b.line p
  outside : b'.outside = b.outside
  power : b'.power = b.power

namespace SameAt

variable {pins more : Set UInt8} {b b' b'' c c' : Bench}

theorem refl (pins : Set UInt8) (b : Bench) : SameAt pins b b := ⟨fun _ _ => rfl, rfl, rfl⟩

theorem symm (h : SameAt pins b b') : SameAt pins b' b :=
  ⟨fun p hp => (h.line p hp).symm, h.outside.symm, h.power.symm⟩

theorem trans (h : SameAt pins b b') (h' : SameAt pins b' b'') : SameAt pins b b'' :=
  ⟨fun p hp => (h'.line p hp).trans (h.line p hp), h'.outside.trans h.outside,
    h'.power.trans h.power⟩

theorem mono (h : SameAt more b b') (hs : pins ⊆ more) : SameAt pins b b' :=
  ⟨fun p hp => h.line p (hs hp), h.outside, h.power⟩

theorem clock (h : SameAt pins b b') : b'.clock = b.clock := clock_of_outside h.outside

/-- What is the same at some pins and at the others is the same everywhere. -/
theorem union (h : SameAt pins b b') (h' : SameAt pinsᶜ b b') : SameAt .univ b b' :=
  ⟨fun p _ => (em (p ∈ pins)).elim (h.line p) (h'.line p), h.outside, h.power⟩

/-- Notes make no difference. -/
theorem journal (b : Bench) (journal : Array Note) : SameAt pins b { b with journal } :=
  ⟨fun _ _ => rfl, rfl, rfl⟩

theorem journals (h : SameAt pins b b') (journal journal' : Array Note) :
    SameAt pins { b with journal } { b' with journal := journal' } :=
  (SameAt.journal b journal).symm.trans (h.trans (.journal b' journal'))

theorem foldl_addNote (notes : List Note) (b : Bench) :
    SameAt pins b (notes.foldl addNote b) := by
  induction notes generalizing b with
  | nil => exact .refl pins b
  | cons n notes ih => exact (journal b _).trans (ih (b.addNote n))

/-- A line is changed in the same way. -/
theorem setLine (h : SameAt pins b b') {pin : UInt8} {l l' : Line} (hl : pin ∈ pins → l' = l) :
    SameAt pins (b.setLine pin l) (b'.setLine pin l') := by
  refine ⟨fun p hp => ?_, h.outside, h.power⟩
  rw [line_setLine, line_setLine]
  split
  next heq => exact hl (heq ▸ hp)
  next => exact h.line p hp

/-- Other lines are not changed. -/
theorem setLine_of_not_mem {pin : UInt8} (hpin : pin ∉ pins) (b : Bench) (l : Line) :
    SameAt pins b (b.setLine pin l) := by
  refine ⟨fun p hp => ?_, rfl, rfl⟩
  have hne : pin ≠ p := by
    rintro rfl
    exact hpin hp
  rw [line_setLine, if_neg hne]

/-! What comes in comes to both benches. -/

theorem setQueue (h : SameAt pins b b') (id : String) (bytes : List UInt8) :
    SameAt pins (b.setQueue id bytes) (b'.setQueue id bytes) :=
  ⟨h.line, congrArg (fun out => ((id, bytes) :: out.1.filter (·.1 ≠ id), out.2)) h.outside,
    h.power⟩

theorem receive (h : SameAt .univ b b') (a : Arrival) :
    SameAt .univ (b.receive a) (b'.receive a) := by
  cases a with
  | bytes id bytes =>
      rw [Bench.receive, Bench.receive, feed, feed, queue_of_outside h.outside]
      exact h.setQueue id _
  | level pin high => exact h.setLine fun _ => by rw [h.line pin trivial]

theorem advance (h : SameAt pins b b') (span : Nat) :
    SameAt pins (b.advance span) (b'.advance span) :=
  ⟨h.line, congrArg (fun out => (out.1, out.2.1 + span, out.2.2)) h.outside, h.power⟩

end SameAt

end Bench

open Bench (SameAt)

variable {α β κ ε δ : Type} {pins more : List UInt8}

/-! ## Steps -/

/-- A step that keeps to the lines of some pins. -/
structure Keeps (pins : List UInt8) (step : Bench → α × Bench) : Prop where
  others : ∀ b, SameAt {p | p ∈ pins}ᶜ b (step b).2
  same : ∀ {b b'}, SameAt {p | p ∈ pins} b b' →
    (step b').1 = (step b).1 ∧ SameAt {p | p ∈ pins} (step b).2 (step b').2

namespace Keeps

variable {s : Bench → α × Bench}

theorem pure (a : α) : Keeps pins fun b => (a, b) :=
  ⟨fun b => .refl _ b, fun h => ⟨rfl, h⟩⟩

theorem bind {t : α → Bench → β × Bench} (hs : Keeps pins s) (ht : ∀ a, Keeps pins (t a)) :
    Keeps pins fun b => t (s b).1 (s b).2 where
  others b := (hs.others b).trans ((ht _).others _)
  same h := by
    obtain ⟨hfst, hsnd⟩ := hs.same h
    rw [hfst]
    exact (ht _).same hsnd

theorem map (hs : Keeps pins s) (f : α → β) : Keeps pins fun b => (f (s b).1, (s b).2) :=
  hs.bind fun a => .pure (f a)

/-- A step may look at the clock and at how powers are raised. -/
theorem of_bench {t : ℕ → (Float32 → Float32 → Float32) → Bench → α × Bench}
    (ht : ∀ now power, Keeps pins (t now power)) : Keeps pins fun b => t b.clock b.power b where
  others b := (ht _ _).others b
  same h := by
    rw [h.clock, h.power]
    exact (ht _ _).same h

/-- A step may make notes first. -/
theorem up_to_notes {t : Bench → α × Bench} (hs : Keeps pins s)
    (h : ∀ b, ∃ journal, t b = s { b with journal }) : Keeps pins t where
  others b := by
    obtain ⟨journal, hstep⟩ := h b
    rw [hstep]
    exact (SameAt.journal b journal).trans (hs.others _)
  same {b b'} hb := by
    obtain ⟨journal, hstep⟩ := h b
    obtain ⟨journal', hstep'⟩ := h b'
    rw [hstep, hstep']
    exact hs.same (hb.journals journal journal')

theorem after_note (hs : Keeps pins s) (level : Note.Level) (text : String) :
    Keeps pins fun b => s (b.note level text) :=
  hs.up_to_notes fun _ => ⟨_, rfl⟩

/-- What keeps to some pins keeps to more. -/
theorem mono (hs : Keeps pins s) (hsub : pins ⊆ more) : Keeps more s where
  others b := (hs.others b).mono fun p hp hmem => hp (hsub hmem)
  same {b b'} h := by
    obtain ⟨hfst, hsnd⟩ := hs.same (h.mono fun p hp => hsub hp)
    refine ⟨hfst, ⟨fun p hp => ?_, hsnd.outside, hsnd.power⟩⟩
    by_cases hmem : p ∈ pins
    · exact hsnd.line p hmem
    · rw [(hs.others b).line p hmem, (hs.others b').line p hmem, h.line p hp]

end Keeps

/-! ## Acts -/

/-- An act that keeps to the lines of some pins, when it succeeds. -/
structure Local (pins : List UInt8) (act : EStateM ε Bench α) : Prop where
  others : ∀ {b a b₁}, act b = .ok a b₁ → SameAt {p | p ∈ pins}ᶜ b b₁
  same : ∀ {b b' a b₁}, SameAt {p | p ∈ pins} b b' → act b = .ok a b₁ →
    ∃ b₁', act b' = .ok a b₁' ∧ SameAt {p | p ∈ pins} b₁ b₁'

namespace Local

open Outcome

variable {act : EStateM ε Bench α}

theorem of_keeps {s : Bench → α × Bench} (hs : Keeps pins s) :
    Local pins (modifyGet s : EStateM ε Bench α) where
  others {b _ _} h := by
    cases h
    exact hs.others b
  same {b b' _ _} hb h := by
    cases h
    obtain ⟨hfst, hsnd⟩ := hs.same hb
    exact ⟨(s b').2, congrArg (EStateM.Result.ok · (s b').2) hfst, hsnd⟩

theorem pure (a : α) : Local pins (Pure.pure a : EStateM ε Bench α) := of_keeps (.pure a)

theorem throw (cause : ε) : Local pins (MonadExcept.throw cause : EStateM ε Bench α) :=
  ⟨fun h => (nomatch h), fun _ h => (nomatch h)⟩

/-- What would come after a fault does not matter. -/
theorem throw_bind (cause : ε) (f : α → EStateM ε Bench β) :
    Local pins ((MonadExcept.throw cause : EStateM ε Bench α) >>= f) :=
  ⟨fun h => (nomatch h), fun _ h => (nomatch h)⟩

theorem bind {f : α → EStateM ε Bench β} (ha : Local pins act) (hf : ∀ a, Local pins (f a)) :
    Local pins (act >>= f) where
  others h := by
    obtain ⟨a, b₁, hact, hrest⟩ := run_bind_eq_ok_iff.mp h
    exact (ha.others hact).trans ((hf a).others hrest)
  same hb h := by
    obtain ⟨a, b₁, hact, hrest⟩ := run_bind_eq_ok_iff.mp h
    obtain ⟨c₁, hact', hb₁⟩ := ha.same hb hact
    obtain ⟨c₂, hrest', hb₂⟩ := (hf a).same hb₁ hrest
    exact ⟨c₂, run_bind_eq_ok_iff.mpr ⟨a, c₁, hact', hrest'⟩, hb₂⟩

/-- Faults do not matter. -/
theorem congr {act' : EStateM δ Bench α} (ha : Local pins act)
    (h : ∀ b a b₁, act' b = .ok a b₁ ↔ act b = .ok a b₁) : Local pins act' where
  others hok := ha.others ((h _ _ _).mp hok)
  same hb hok := by
    obtain ⟨c, hact, hc⟩ := ha.same hb ((h _ _ _).mp hok)
    exact ⟨c, (h _ _ _).mpr hact, hc⟩

theorem adaptExcept (ha : Local pins act) (f : ε → δ) : Local pins (act.adaptExcept f) :=
  ha.congr fun _ _ _ => run_adaptExcept_eq_ok_iff

/-- An act may make a note. -/
theorem note (level : Note.Level) (text : String) :
    Local pins (modify fun b => b.note level text : EStateM ε Bench Unit) :=
  of_keeps ((Keeps.pure ()).after_note level text)

/-- An act may look at the clock. -/
theorem get_bind {f : Bench → EStateM ε Bench β}
    (hclock : ∀ {b b' : Bench}, b'.clock = b.clock → f b' = f b) (hf : ∀ b, Local pins (f b)) :
    Local pins (get >>= f) where
  others {b _ _} h := by
    obtain ⟨_, _, hget, hrest⟩ := run_bind_eq_ok_iff.mp h
    cases hget
    exact (hf _).others hrest
  same {b b' _ _} hb h := by
    obtain ⟨_, _, hget, hrest⟩ := run_bind_eq_ok_iff.mp h
    cases hget
    obtain ⟨c, hrest', hc⟩ := (hf _).same hb hrest
    rw [← hclock hb.clock] at hrest'
    exact ⟨c, run_bind_eq_ok_iff.mpr ⟨b', b', rfl, hrest'⟩, hc⟩

/-- Lines that were the same elsewhere are the same afterwards too. -/
theorem same_of_subset (ha : Local pins act) {all : Set UInt8} {b b' b₁ : Bench} {a : α}
    (hsub : {p | p ∈ pins} ⊆ all) (hb : SameAt all b b') (h : act b = .ok a b₁) :
    ∃ b₁', act b' = .ok a b₁' ∧ SameAt all b₁ b₁' := by
  obtain ⟨b₁', hact, hown⟩ := ha.same (hb.mono hsub) h
  refine ⟨b₁', hact, ⟨fun p hp => ?_, hown.outside, hown.power⟩⟩
  by_cases hmem : p ∈ pins
  · exact hown.line p hmem
  · rw [(ha.others h).line p hmem, (ha.others hact).line p hmem, hb.line p hp]

theorem mono (ha : Local pins act) (hsub : pins ⊆ more) : Local more act where
  others h := (ha.others h).mono fun _ hp hmem => hp (hsub hmem)
  same hb h := ha.same_of_subset (fun _ hp => hsub hp) hb h

/-- Two acts that keep to different pins may change places. -/
theorem swap {act' : EStateM ε Bench β} (ha : Local pins act) (ha' : Local more act')
    (hapart : pins.Disjoint more) {b b₁ b₂ : Bench} {x : α} {y : β} (h : act b = .ok x b₁)
    (h' : act' b₁ = .ok y b₂) :
    ∃ c₁ c₂, act' b = .ok y c₁ ∧ act c₁ = .ok x c₂ ∧ SameAt .univ b₂ c₂ := by
  have hfirst := ha.others h
  obtain ⟨c₁, hc, hsecond⟩ := ha'.same (hfirst.mono fun _ hp hmem => hapart hmem hp).symm h'
  have hbefore := ha'.others hc
  obtain ⟨c₂, hc', hlast⟩ := ha.same (hbefore.mono fun _ hp hmem => hapart hp hmem) h
  refine ⟨c₁, c₂, hc, hc', SameAt.union ?own (SameAt.trans ?others (ha.others hc'))⟩
  case own => exact ((ha'.others h').mono fun _ hp hmem => hapart hp hmem).symm.trans hlast
  case others =>
    refine ⟨fun p hp => ?_, hsecond.outside, hsecond.power⟩
    by_cases hmem : p ∈ more
    · exact hsecond.line p hmem
    · rw [hbefore.line p hmem, (ha'.others h').line p hmem, hfirst.line p hp]

end Local

/-! ## Acts in another order -/

/-- An act is done on one thing after another, and gives something under the same alias. -/
inductive Runs (act : κ → EStateM ε Bench α) :
    List (String × κ) → Bench → List (String × α) → Bench → Prop
  | nil (b : Bench) : Runs act [] b [] b
  | cons {name : String} {k : κ} {rest : List (String × κ)} {b b₁ b₂ : Bench} {a : α}
      {done : List (String × α)} (h : act k b = .ok a b₁) (hrest : Runs act rest b₁ done b₂) :
      Runs act ((name, k) :: rest) b ((name, a) :: done) b₂

namespace Runs

variable {act : κ → EStateM ε Bench α} {footprint : κ → List UInt8} {l l' : List (String × κ)}
  {b b₁ c : Bench} {done : List (String × α)}

theorem aliases (h : Runs act l b done b₁) : done.map Prod.fst = l.map Prod.fst := by
  induction h with
  | nil => rfl
  | cons _ _ ih => rw [List.map_cons, List.map_cons, ih]

theorem deterministic {done' : List (String × α)} {b₂ : Bench} (h : Runs act l b done b₁)
    (h' : Runs act l b done' b₂) : done' = done ∧ b₂ = b₁ := by
  induction h generalizing done' with
  | nil b =>
      cases h'
      exact ⟨rfl, rfl⟩
  | cons hact _ ih =>
      cases h' with
      | cons hact' hrest' =>
          cases hact.symm.trans hact'
          obtain ⟨rfl, rfl⟩ := ih hrest'
          exact ⟨rfl, rfl⟩

/-- Aliases make no difference. -/
theorem rename (h : Runs act l b done b₁) (f : String → String) :
    Runs act (l.map (Prod.map f id)) b (done.map (Prod.map f id)) b₁ := by
  induction h with
  | nil b => exact .nil b
  | cons hact _ ih => exact .cons hact ih

/-- On a bench that is the same everywhere, acts give the same. -/
theorem same (hlocal : ∀ k, Local (footprint k) (act k)) (h : Runs act l b done b₁)
    (hb : SameAt .univ b c) : ∃ c₁, Runs act l c done c₁ ∧ SameAt .univ b₁ c₁ := by
  induction h generalizing c with
  | nil b => exact ⟨c, .nil c, hb⟩
  | @cons name k rest b b₁ b₂ a done hact hrest ih =>
      obtain ⟨c₁, hact', hc₁⟩ := (hlocal k).same_of_subset (Set.subset_univ _) hb hact
      obtain ⟨c₂, hrest', hc₂⟩ := ih hc₁
      exact ⟨c₂, .cons hact' hrest', hc₂⟩

/-- Acts that keep to different pins may be done in any order. -/
theorem perm (hlocal : ∀ k, Local (footprint k) (act k)) (hperm : l.Perm l')
    (hapart : (l.map fun entry => footprint entry.2).Pairwise List.Disjoint)
    (h : Runs act l b done b₁) :
    ∃ done' b₁', Runs act l' b done' b₁' ∧ done'.Perm done ∧ SameAt .univ b₁ b₁' := by
  induction hperm generalizing b done b₁ with
  | nil =>
      cases h
      exact ⟨[], _, .nil _, .refl _, .refl _ _⟩
  | @cons entry l l' hperm ih =>
      cases h with
      | cons hact hrest =>
          obtain ⟨done', b₁', hrest', hdone, hb⟩ := ih hapart.of_cons hrest
          exact ⟨_, b₁', .cons hact hrest', hdone.cons _, hb⟩
  | swap entry entry' l =>
      cases h with
      | cons hact hrest =>
          cases hrest with
          | cons hact' hrest =>
              have hfirst := List.rel_of_pairwise_cons hapart List.mem_cons_self
              obtain ⟨c₁, c₂, hc₁, hc₂, hb⟩ := (hlocal _).swap (hlocal _) hfirst hact hact'
              obtain ⟨c, hrest', hc⟩ := hrest.same hlocal hb
              exact ⟨_, c, .cons hc₁ (.cons hc₂ hrest'), .swap .., hc⟩
  | trans hfirst _ ih ih' =>
      obtain ⟨done₁, c₁, h₁, hdone₁, hc₁⟩ := ih hapart h
      have hapart' := ((hfirst.map _).pairwise_iff List.Disjoint.symm).mp hapart
      obtain ⟨done₂, c₂, h₂, hdone₂, hc₂⟩ := ih' hapart' h₁
      exact ⟨done₂, c₂, h₂, hdone₂.trans hdone₁, hc₁.trans hc₂⟩

/-- Nor does it matter that things have other aliases, which may put them in another order. -/
theorem renamed (hlocal : ∀ k, Local (footprint k) (act k)) {f : String → String}
    (hperm : l'.Perm (l.map (Prod.map f id)))
    (hapart : (l.map fun entry => footprint entry.2).Pairwise List.Disjoint)
    (h : Runs act l b done b₁) (hb : SameAt .univ b c) :
    ∃ done' c₁, Runs act l' c done' c₁ ∧ done'.Perm (done.map (Prod.map f id)) ∧
      SameAt .univ b₁ c₁ := by
  obtain ⟨b₂, hsame, hb₂⟩ := (h.rename f).same hlocal hb
  obtain ⟨done', c₁, hruns, hdone, hc₁⟩ := hsame.perm hlocal hperm.symm
    (by simpa [Function.comp_def] using hapart)
  exact ⟨done', c₁, hruns, hdone, hb₂.trans hc₁⟩

end Runs

end Patchbay
