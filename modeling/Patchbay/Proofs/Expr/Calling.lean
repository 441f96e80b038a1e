import Patchbay.Expr.Cells
import Patchbay.Proofs.Expr.Compiling

/-! # Calling

The arguments that a compiled function refers to are its parameters, so a call finds all of them in
its cells.  It has written these before it looks, and nobody else writes them, so of calls in any
order each has the value that its own function has on its own arguments. -/

namespace Patchbay

namespace Expr

variable {arity : Nat}

/-! ## Arguments that there are -/

/-- Exactly over enough cells there is a value, and it is the value on what is in them. -/
theorem evalIn?_eq_some_iff {cells : List Float32} {e : Expr} {value : Float32} :
    e.evalIn? cells = some value ↔ e.Within cells.length ∧ value = e.eval cells := by
  induction e generalizing value with
  | number v => simp [evalIn?, Within, eval, eq_comm]
  | argument index =>
      rw [evalIn?, Within, eval, List.getElem?_eq_some_iff]
      constructor
      · rintro ⟨h, rfl⟩
        exact ⟨h, by simp [h]⟩
      · rintro ⟨h, rfl⟩
        exact ⟨h, by simp [h]⟩
  | binary op lhs rhs ihl ihr =>
      simp only [evalIn?, Option.bind_eq_bind, Option.bind_eq_some_iff, ihl, ihr, Within, eval]
      constructor
      · rintro ⟨_, ⟨hl, rfl⟩, _, ⟨hr, rfl⟩, hvalue⟩
        exact ⟨⟨hl, hr⟩, (Option.some.inj hvalue).symm⟩
      · rintro ⟨⟨hl, hr⟩, rfl⟩
        exact ⟨_, ⟨hl, rfl⟩, _, ⟨hr, rfl⟩, rfl⟩

theorem contract_within (place : Nat) {x : Expr} {links : Links} (hx : x.Within arity)
    (hlinks : ∀ link ∈ links, link.2.Within arity) :
    (contract place x links).1.Within arity ∧
      ∀ link ∈ (contract place x links).2, link.2.Within arity := by
  fun_induction contract place x links with
  | case1 => exact ⟨hx, hlinks⟩
  | case2 x op y rest =>
      rw [List.forall_mem_cons] at hlinks
      exact ⟨⟨hx, hlinks.1⟩, hlinks.2⟩
  | case3 place x op y rest y' rest' hcontract ih =>
      rw [List.forall_mem_cons] at hlinks
      rw [hcontract] at ih
      obtain ⟨hy, hrest⟩ := ih hlinks.1 hlinks.2
      exact ⟨hx, List.forall_mem_cons.mpr ⟨hy, hrest⟩⟩

theorem reduce_within {x : Expr} {links : Links} (hx : x.Within arity)
    (hlinks : ∀ link ∈ links, link.2.Within arity) : (reduce x links).Within arity := by
  fun_induction reduce x links with
  | case1 => exact hx
  | case2 x link rest next ih =>
      obtain ⟨hfirst, hothers⟩ := contract_within (tightest (link :: rest)) hx hlinks
      exact ih hfirst hothers

theorem Level.close_within {level : Level} {x : Expr}
    (hlevel : ∀ operand ∈ level.operands, operand.Within arity) (h : level.close = .ok x) :
    x.Within arity := by
  obtain ⟨first, others, hoperands, _, rfl⟩ := Level.close_eq_ok_iff.mp h
  rw [hoperands, List.forall_mem_cons] at hlevel
  exact reduce_within hlevel.1 fun link hlink => hlevel.2 _ (List.of_mem_zip hlink).2

/-- The arguments in a level are parameters. -/
theorem Collects.within {params : List String} {ts : List Token} {level : Level}
    (h : Collects params ts level) : ∀ operand ∈ level.operands, operand.Within params.length := by
  have hpush {level : Level} {x : Expr} (hx : x.Within params.length)
      (hlevel : ∀ operand ∈ level.operands, operand.Within params.length) :
      ∀ operand ∈ (level.push x).operands, operand.Within params.length := by
    simpa [Level.push, or_imp, forall_and] using ⟨hlevel, hx⟩
  induction h with
  | nil => simp
  | number value _ ih => exact hpush trivial ih
  | name _ hindex ih =>
      obtain ⟨hlt, _⟩ := List.idxOf?_eq_some_iff.mp hindex
      exact hpush hlt ih
  | group _ _ hclose ih ihinner => exact hpush (Level.close_within ihinner hclose) ih
  | op _ _ _ ih => exact ih

theorem ofTokens_within {params : List String} {tokens : List Lexeme} {e : Expr}
    (h : ofTokens params tokens = .ok e) : e.Within params.length := by
  obtain ⟨level, hcollects, hclose⟩ := ofTokens_eq_ok_iff.mp h
  exact Level.close_within hcollects.within hclose

end Expr

theorem Function.compile_within {arity : Nat} {definition : String} {f : Function}
    (h : compile arity definition = .ok f) : f.arity = arity ∧ f.body.Within arity := by
  obtain ⟨harity, _, params, tokens, hreads, htree⟩ := compile_eq_ok_iff.mp h
  exact ⟨harity, hreads.params_length ▸ Expr.ofTokens_within htree⟩

/-! ## One call -/

namespace Callable

variable {c : Callable} {args : List Float32}

theorem toList_cells_load (h : args.length = c.function.arity) :
    (c.load args).cells.toList = args := by
  refine List.ext_getElem (by simp [load, h]) fun i hi hargs => ?_
  simp [load, hargs]

/-- With an argument for each parameter, what was in the cells does not matter. -/
theorem call_eq (hwithin : c.function.body.Within c.function.arity)
    (h : args.length = c.function.arity) :
    c.call args = (some (c.function.call args), c.load args) := by
  have hvalue : c.function.body.evalIn? (c.load args).cells.toList =
      some (c.function.call args) := by
    rw [toList_cells_load h]
    exact Expr.evalIn?_eq_some_iff.mpr ⟨h ▸ hwithin, rfl⟩
  exact congrArg (·, c.load args) hvalue

end Callable

/-! ## Many calls -/

namespace Call

/-- The call is one of a function in the list, with an argument for each parameter. -/
def Fits (fs : List Function) (k : Call) : Prop :=
  ∃ f, fs[k.place]? = some f ∧ k.args.length = f.arity

/-- The value is that of the call's own function on the call's own arguments. -/
def Answered (fs : List Function) (k : Call) (value : Option Float32) : Prop :=
  ∃ f, fs[k.place]? = some f ∧ value = some (f.call k.args)

variable {fs : List Function} {k : Call} {functions : List Callable}

/-- A call leaves all functions what they are, and the cells of all but its own. -/
theorem answer_spec (hwithin : ∀ f ∈ fs, f.body.Within f.arity)
    (hfunctions : functions.map Callable.function = fs) (hfits : k.Fits fs) :
    k.Answered fs (k.answer functions).1 ∧
      (k.answer functions).2.map Callable.function = fs ∧
      ∀ place, ((k.answer functions).2[place]?).map (·.cells.toList) =
        if k.place = place then some k.args else (functions[place]?).map (·.cells.toList) := by
  obtain ⟨f, hf, hlength⟩ := hfits
  rw [← hfunctions, List.getElem?_map, Option.map_eq_some_iff] at hf
  obtain ⟨c, hc, rfl⟩ := hf
  have hmem : c.function ∈ fs :=
    hfunctions ▸ List.mem_map_of_mem (List.mem_of_getElem? hc)
  have hanswer : k.answer functions =
      (some (c.function.call k.args), functions.set k.place (c.load k.args)) := by
    simp only [answer, hc, Callable.call_eq (hwithin _ hmem) hlength]
  have hlt := (List.getElem?_eq_some_iff.mp hc).1
  have hplace : fs[k.place]? = some c.function := by rw [← hfunctions, List.getElem?_map, hc]; rfl
  rw [hanswer]
  refine ⟨⟨c.function, hplace, rfl⟩, ?_, fun place => ?_⟩
  · rw [List.map_set, hfunctions]
    exact List.ext_getElem? fun place => by grind [Callable.load]
  · by_cases h : k.place = place
    · subst h
      rw [List.getElem?_set_self hlt, if_pos rfl, Option.map_some,
        Callable.toList_cells_load hlength]
    · rw [List.getElem?_set_ne h, if_neg h]

/-- Each call of many has its own value, and leaves its arguments in the cells of its function until
the next call of that function. -/
theorem answers_spec (hwithin : ∀ f ∈ fs, f.body.Within f.arity)
    (hfunctions : functions.map Callable.function = fs) {calls : List Call}
    (hfits : ∀ k ∈ calls, k.Fits fs) :
    List.Forall₂ (Answered fs) calls (answers calls functions).1 ∧
      (answers calls functions).2.map Callable.function = fs ∧
      ∀ place, ((answers calls functions).2[place]?).map (·.cells.toList) =
        ((calls.filter (·.place = place)).getLast?).elim
          ((functions[place]?).map (·.cells.toList)) (some ·.args) := by
  induction calls generalizing functions with
  | nil => exact ⟨.nil, hfunctions, fun place => rfl⟩
  | cons k rest ih =>
      rw [List.forall_mem_cons] at hfits
      obtain ⟨hvalue, hsame, hcells⟩ := answer_spec hwithin hfunctions hfits.1
      obtain ⟨hvalues, hlast, hrest⟩ := ih hsame hfits.2
      refine ⟨.cons hvalue hvalues, hlast, fun place => ?_⟩
      rw [answers, hrest, hcells, List.filter_cons]
      by_cases h : k.place = place
      · simp only [h, decide_true, if_true, List.getLast?_cons]
        cases (rest.filter (·.place = place)).getLast? <;> rfl
      · simp only [h, decide_false, if_false, Bool.false_eq_true]

/-- No compiled function refers to a parameter that it does not have.  Of calls of compiled
functions, in any order, each has the value of its own function on its own arguments, whatever the
cells held before; in the end the cells hold the arguments of the last call of each function. -/
theorem answers_of_compiled :
    (∀ {arity : Nat} {definition : String} {f : Function},
      Function.compile arity definition = .ok f → f.arity = arity ∧ f.body.Within arity) ∧
    ∀ (functions : List Callable) (calls : List Call),
      (∀ c ∈ functions, ∃ arity definition, Function.compile arity definition = .ok c.function) →
      (∀ k ∈ calls, k.Fits (functions.map Callable.function)) →
        List.Forall₂ (Answered (functions.map Callable.function)) calls
          (answers calls functions).1 ∧
        (answers calls functions).2.map Callable.function = functions.map Callable.function ∧
        ∀ place, ((answers calls functions).2[place]?).map (·.cells.toList) =
          ((calls.filter (·.place = place)).getLast?).elim
            ((functions[place]?).map (·.cells.toList)) (some ·.args) := by
  refine ⟨Function.compile_within, fun functions calls hcompiled hfits => ?_⟩
  refine answers_spec (fun f hf => ?_) rfl hfits
  obtain ⟨c, hc, rfl⟩ := List.mem_map.mp hf
  obtain ⟨arity, definition, hcompile⟩ := hcompiled c hc
  obtain ⟨harity, hwithin⟩ := Function.compile_within hcompile
  exact harity ▸ hwithin

/-- Two functions in turn; the second keeps its argument while the first is called again. -/
theorem answers_of_compiled_in_turn :
    let difference : Function := ⟨2, "(x,y)\x7bx-y\x7d", .binary .sub (.argument 0) (.argument 1)⟩
    let same : Function := ⟨1, "(x)\x7bx\x7d", .argument 0⟩
    let functions : List Callable := [⟨difference, #v[0.0, 0.0]⟩, ⟨same, #v[0.0]⟩]
    let calls : List Call := [⟨0, [3.0, 1.0]⟩, ⟨1, [5.0]⟩, ⟨0, [1.0, 3.0]⟩]
    ((∀ c ∈ functions, ∃ arity definition, Function.compile arity definition = .ok c.function) ∧
      ∀ k ∈ calls, k.Fits [difference, same]) ∧
    List.Forall₂ (Answered [difference, same]) calls (answers calls functions).1 ∧
    ((answers calls functions).2[1]?).map (·.cells.toList) = some ([5.0] : List Float32) := by
  intro difference same functions calls
  have hcompiled :
      ∀ c ∈ functions, ∃ arity definition, Function.compile arity definition = .ok c.function := by
    have hdifference : Function.compile 2 "(x, y) \x7b x - y \x7d" = .ok difference := by decide +kernel
    have hsame : Function.compile 1 "(x)\x7bx\x7d" = .ok same := by decide +kernel
    simpa [functions] using And.intro ⟨_, _, hdifference⟩ ⟨_, _, hsame⟩
  have hfits : ∀ k ∈ calls, k.Fits [difference, same] := by
    simp [calls, Fits, difference, same]
  obtain ⟨hvalues, -, hcells⟩ := answers_of_compiled.2 functions calls hcompiled hfits
  exact ⟨⟨hcompiled, hfits⟩, hvalues, hcells 1⟩

end Call

end Patchbay
