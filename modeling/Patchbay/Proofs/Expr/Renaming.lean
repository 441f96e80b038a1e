import Mathlib.Data.List.Nodup
import Mathlib.Data.List.Perm.Basic
import Patchbay.Expr.Group

/-! # Arguments under other numbers

A tree refers to its arguments by their places in the list of parameters.  With the parameters in
another order the reader finds the same tree with other places, and with the values in that order
too it has the same value. -/

namespace Patchbay.Expr

/-! ## Other places for the arguments -/

/-- The tree whose argument `i` is the argument `place i`. -/
def rename (place : Nat → Nat) : Expr → Expr
  | number value => .number value
  | argument index => .argument (place index)
  | binary op lhs rhs => .binary op (lhs.rename place) (rhs.rename place)

theorem eval_rename {place : Nat → Nat} {args args' : List Float32}
    (h : ∀ i, args'.getD (place i) 0.0 = args.getD i 0.0) (e : Expr) :
    (e.rename place).eval args' = e.eval args := by
  induction e with
  | number value => rfl
  | argument index => exact h index
  | binary op lhs rhs ihl ihr => simp only [rename, eval, ihl, ihr]

/-! ## Reading -/

section Reading

variable (place : Nat → Nat)

/-- A chain with other places for the arguments. -/
def renameLinks (links : Links) : Links := links.map fun link => (link.1, link.2.rename place)

theorem tightest_renameLinks (links : Links) :
    tightest (renameLinks place links) = tightest links := by
  simp only [tightest, renameLinks, List.map_map, List.findIdx_map, Function.comp_def]

theorem contract_rename (n : Nat) (x : Expr) (links : Links) :
    contract n (x.rename place) (renameLinks place links) =
      ((contract n x links).1.rename place, renameLinks place (contract n x links).2) := by
  induction links generalizing n x with
  | nil => cases n <;> rfl
  | cons link rest ih =>
      cases n with
      | zero => rfl
      | succ n =>
          have hrest := ih n link.2
          simp only [renameLinks] at hrest ⊢
          simp only [List.map_cons, contract, hrest]

/-- Which operator is the tightest does not depend on the operands. -/
theorem reduce_rename (x : Expr) (links : Links) :
    reduce (x.rename place) (renameLinks place links) = (reduce x links).rename place := by
  fun_induction reduce x links with
  | case1 x => simp [renameLinks, reduce]
  | case2 x link rest next ih =>
      rw [← ih]
      have hcons : renameLinks place (link :: rest) =
        (link.1, link.2.rename place) :: renameLinks place rest := rfl
      rw [hcons, reduce, ← hcons, tightest_renameLinks, contract_rename]

/-- A level with other places for the arguments. -/
def Level.rename (level : Level) : Level :=
  { level with operands := level.operands.map (Expr.rename place) }

theorem Level.rename_push (level : Level) (x : Expr) :
    (level.push x).rename place = (level.rename place).push (x.rename place) := by
  simp [Level.rename, Level.push]

theorem Level.close_rename (level : Level) :
    (level.rename place).close = level.close.map (Expr.rename place) := by
  unfold Level.close Level.rename
  cases level.operands with
  | nil => rfl
  | cons x rest =>
      have hzip : level.ops.zip (rest.map (Expr.rename place)) =
          renameLinks place (level.ops.zip rest) := by
        rw [List.zip_map_right]
        rfl
      simp only [List.map_cons, List.length_map, hzip, reduce_rename]
      split <;> rfl

/-- With the same names at other places the reader finds the same tree with other places. -/
theorem read_rename {params params' : List String}
    (h : ∀ text, params'.idxOf? text = (params.idxOf? text).map place)
    (tokens : List Lexeme) (level : Level) (outer : List Level) :
    read params' tokens (level.rename place) (outer.map (Level.rename place)) =
      (read params tokens level outer).map (Expr.rename place) := by
  fun_induction read params tokens level outer with
  | case1 level => exact level.close_rename place
  | case2 => rfl
  | case3 offset rest level outer ih => exact ih
  | case4 => rfl
  | case5 offset rest level parent outer ih =>
      rw [List.map_cons, read, Level.close_rename]
      cases level.close with
      | error cause => rfl
      | ok group =>
          simp only [Except.map, Except.bind]
          rw [← Level.rename_push]
          exact ih group
  | case6 value offset rest level outer ih =>
      rw [read, ← ih, Level.rename_push]
      rfl
  | case7 text offset rest level outer index hindex ih =>
      rw [read, h, hindex, ← ih, Level.rename_push]
      rfl
  | case8 text offset rest level outer hindex =>
      rw [read, h, hindex]
      rfl
  | case9 op offset rest level outer hdue =>
      rw [read, if_pos (by simpa [Level.rename] using hdue)]
      rfl
  | case10 op offset rest level outer hdue ih =>
      rw [read, if_neg (by simpa [Level.rename] using hdue), ← ih]
      rfl

theorem ofTokens_rename {params params' : List String}
    (h : ∀ text, params'.idxOf? text = (params.idxOf? text).map place) (tokens : List Lexeme) :
    ofTokens params' tokens = (ofTokens params tokens).map (Expr.rename place) :=
  read_rename place h tokens {} []

end Reading

/-! ## Names and values in another order -/

theorem idxOf?_eq_some_iff_getElem? {names : List String} (h : names.Nodup) {name : String}
    {i : Nat} : names.idxOf? name = some i ↔ names[i]? = some name := by
  rw [List.idxOf?_eq_some_iff, List.getElem?_eq_some_iff]
  constructor
  · rintro ⟨hi, hname, _⟩
    exact ⟨hi, hname⟩
  · rintro ⟨hi, rfl⟩
    refine ⟨hi, rfl, fun j hj heq => ?_⟩
    exact Nat.ne_of_lt hj ((List.Nodup.getElem_inj_iff h).mp heq)

/-- Named values. -/
abbrev Scope := List (String × Float32)

def Scope.names (scope : Scope) : List String := scope.map Prod.fst

def Scope.values (scope : Scope) : List Float32 := scope.map Prod.snd

section Moving

variable {before after : Scope}

/-- Where the argument `i` of one scope is in another; a place without argument stays one. -/
def place (before after : Scope) (i : Nat) : Nat :=
  ((before[i]?).bind fun named => after.names.idxOf? named.1).getD i

/-- A name with its value has a place in the other scope. -/
theorem getElem?_place (hperm : after.Perm before) (hnodup : before.names.Nodup) {i : Nat}
    {named : String × Float32} (h : before[i]? = some named) :
    after[place before after i]? = some named := by
  have hafter : after.names.Nodup := (hperm.map Prod.fst).nodup_iff.mpr hnodup
  have hmem : named ∈ after := hperm.symm.subset (List.mem_of_getElem? h)
  obtain ⟨j, hj⟩ := List.mem_iff_getElem?.mp hmem
  have hname : after.names[j]? = some named.1 := by simp [Scope.names, hj]
  have hplace : place before after i = j := by
    simp [place, h, (idxOf?_eq_some_iff_getElem? hafter).mpr hname]
  rw [hplace, hj]

theorem idxOf?_place (hperm : after.Perm before) (hnodup : before.names.Nodup) (name : String) :
    after.names.idxOf? name = (before.names.idxOf? name).map (place before after) := by
  have hafter : after.names.Nodup := (hperm.map Prod.fst).nodup_iff.mpr hnodup
  cases hindex : before.names.idxOf? name with
  | none =>
      rw [List.idxOf?_eq_none_iff] at hindex
      exact List.idxOf?_eq_none_iff.mpr fun hmem => hindex ((hperm.map Prod.fst).subset hmem)
  | some i =>
      rw [idxOf?_eq_some_iff_getElem? hnodup, Scope.names, List.getElem?_map,
        Option.map_eq_some_iff] at hindex
      obtain ⟨named, hnamed, rfl⟩ := hindex
      rw [Option.map_some, idxOf?_eq_some_iff_getElem? hafter, Scope.names, List.getElem?_map,
        getElem?_place hperm hnodup hnamed, Option.map_some]

theorem getD_place (hperm : after.Perm before) (hnodup : before.names.Nodup) (i : Nat) :
    after.values.getD (place before after i) 0.0 = before.values.getD i 0.0 := by
  simp only [Scope.values, List.getD_eq_getElem?_getD, List.getElem?_map]
  cases h : before[i]? with
  | some named => rw [getElem?_place hperm hnodup h]
  | none =>
      have hout : after[place before after i]? = none := by
        rw [List.getElem?_eq_none_iff] at h ⊢
        simpa [place, List.getElem?_eq_none h, hperm.length_eq] using h
      rw [hout]

/-- The value of what is read depends on which value has which name, not on their order. -/
theorem eval_ofTokens_perm (hperm : after.Perm before) (hnodup : before.names.Nodup)
    (tokens : List Lexeme) :
    (ofTokens after.names tokens).map (eval after.values) =
      (ofTokens before.names tokens).map (eval before.values) := by
  rw [ofTokens_rename (place before after) (idxOf?_place hperm hnodup)]
  cases ofTokens before.names tokens with
  | error cause => rfl
  | ok e => exact congrArg Except.ok (eval_rename (getD_place hperm hnodup) e)

end Moving

end Patchbay.Expr
