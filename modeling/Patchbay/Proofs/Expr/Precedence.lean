import Patchbay.Proofs.Expr.Infix

/-! # Precedence

The grammar with one stratum per priority, a parser that goes over the tokens once with a stack of
pending operators, and the contraction of the tightest operator first: on infix expressions all
three find the same tree. -/

namespace Patchbay

theorem Op.priority_pos (o : Op) : 0 < o.priority := by
  cases o <;> decide

theorem Op.priority_le (o : Op) : o.priority ≤ 3 := by
  cases o <;> decide

namespace Expr

variable {params : List String} {ts us : List Token}

/-! ## The stratified grammar -/

/-- Stratum 1 has sums, 2 products, 3 powers and 4 values.  Each is left-recursive: its operator
takes a right operand of the next stratum. -/
inductive Stratum (params : List String) : Nat → List Token → Expr → Prop
  | number (value : Float32) : Stratum params 4 [.number value] (.number value)
  | name {text index} (h : params.idxOf? text = some index) :
      Stratum params 4 [.name text] (.argument index)
  | group {ts e} (h : Stratum params 1 ts e) :
      Stratum params 4 (.opening :: (ts ++ [.closing])) e
  | link {ts us x y} (o : Op) (hleft : Stratum params o.priority ts x)
      (hright : Stratum params (o.priority + 1) us y) :
      Stratum params o.priority (ts ++ .op o :: us) (.binary o x y)
  | tighter {p ts e} (h : Stratum params (p + 1) ts e) : Stratum params p ts e

theorem Stratum.mono {p q : Nat} {e : Expr} (h : Stratum params q ts e) (hpq : p ≤ q) :
    Stratum params p ts e := by
  obtain ⟨d, rfl⟩ := Nat.exists_eq_add_of_le hpq
  induction d with
  | zero => exact h
  | succ d ih => exact ih h.tighter (Nat.le_add_right p d)

/-- The numbers and arguments of a tree from left to right. -/
def leaves : Expr → List Expr
  | .binary _ x y => x.leaves ++ y.leaves
  | leaf => [leaf]

/-- The tree of an operand of one token; a name stands for its place among the parameters. -/
def leafOf? (params : List String) : Token → Option Expr
  | .number value => some (.number value)
  | .name text => (params.idxOf? text).map .argument
  | _ => none

theorem Stratum.leaves_eq {p : Nat} {e : Expr} (h : Stratum params p ts e) :
    e.leaves = ts.filterMap (leafOf? params) := by
  induction h with
  | number value => rfl
  | name h => simp [leaves, leafOf?, h]
  | group _ ih => simp [ih, leafOf?, List.filterMap_cons]
  | link o _ _ ihleft ihright => simp [leaves, ihleft, ihright, leafOf?, List.filterMap_cons]
  | tighter _ ih => exact ih

/-! ## One pass -/

/-- What waits on the stack: an operator for its right operand, or an open parenthesis. -/
inductive Pending
  | link (lhs : Expr) (op : Op)
  | opening

/-- Gives `x` to the pending operators that bind at least as tightly as `priority`. -/
def settle (priority : Nat) : List Pending → Expr → Expr × List Pending
  | .link lhs op :: stack, x =>
    if priority ≤ op.priority then settle priority stack (.binary op lhs x)
    else (x, .link lhs op :: stack)
  | stack, x => (x, stack)

/-- Goes over the tokens once; the last argument is the operand that has just ended, if any. -/
def onePass (params : List String) : List Token → List Pending → Option Expr → Option Expr
  | [], stack, some x =>
    match settle 0 stack x with
    | (e, []) => some e
    | _ => none
  | .number value :: rest, stack, none => onePass params rest stack (some (.number value))
  | .name text :: rest, stack, none =>
    match params.idxOf? text with
    | some index => onePass params rest stack (some (.argument index))
    | none => none
  | .opening :: rest, stack, none => onePass params rest (.opening :: stack) none
  | .closing :: rest, stack, some x =>
    match settle 0 stack x with
    | (e, .opening :: stack) => onePass params rest stack (some e)
    | _ => none
  | .op o :: rest, stack, some x =>
    let (lhs, stack) := settle o.priority stack x
    onePass params rest (.link lhs o :: stack) none
  | _, _, _ => none

/-- No pending operator before the last open parenthesis binds as tightly as `priority`. -/
def Rests (priority : Nat) : List Pending → Prop
  | .link _ op :: _ => op.priority < priority
  | _ => True

theorem settle_of_rests {priority : Nat} {stack : List Pending} (h : Rests priority stack)
    (x : Expr) : settle priority stack x = (x, stack) := by
  cases stack with
  | nil => rfl
  | cons top stack =>
      cases top with
      | link lhs op => exact if_neg (Nat.not_le.mpr h)
      | opening => rfl

theorem Rests.mono {p q : Nat} {stack : List Pending} (h : Rests p stack) (hpq : p ≤ q) :
    Rests q stack := by
  cases stack with
  | nil => trivial
  | cons top stack =>
      cases top with
      | link lhs op => exact Nat.lt_of_lt_of_le h hpq
      | opening => trivial

/-- The pass over a phrase of stratum `p` leaves operators behind that settle to its tree. -/
theorem Stratum.onePass_append {p : Nat} {e : Expr} (h : Stratum params p ts e)
    {stack : List Pending} (hrests : Rests p stack) (rest : List Token) :
    ∃ stack' x, onePass params (ts ++ rest) stack none = onePass params rest stack' (some x) ∧
      ∀ q ≤ p, settle q stack' x = settle q stack e := by
  induction h generalizing stack rest with
  | number value => exact ⟨stack, _, rfl, fun _ _ => rfl⟩
  | name h => exact ⟨stack, _, by simp [onePass, h], fun _ _ => rfl⟩
  | @group ts e _ ih =>
      have hopen : Rests 1 (.opening :: stack) := trivial
      obtain ⟨stack', x, hpass, hsettle⟩ := ih hopen (.closing :: rest)
      refine ⟨stack, e, ?_, fun _ _ => rfl⟩
      have hclosed : settle 0 stack' x = (e, .opening :: stack) := hsettle 0 (Nat.zero_le 1)
      rw [List.cons_append, List.append_assoc, onePass, List.singleton_append, hpass, onePass,
        hclosed]
  | @link ts us e₁ e₂ o _ _ ihleft ihright =>
      obtain ⟨stack₁, x, hpass₁, hsettle₁⟩ := ihleft hrests (.op o :: (us ++ rest))
      have hlhs : settle o.priority stack₁ x = (e₁, stack) := by
        rw [hsettle₁ _ (Nat.le_refl _), settle_of_rests hrests]
      have hlink : Rests (o.priority + 1) (.link e₁ o :: stack) := Nat.lt_succ_self _
      obtain ⟨stack₂, y, hpass₂, hsettle₂⟩ := ihright hlink rest
      refine ⟨stack₂, y, ?_, ?_⟩
      · rw [List.append_assoc, List.cons_append, hpass₁, onePass, hlhs]
        exact hpass₂
      · intro q hq
        rw [hsettle₂ q (Nat.le_succ_of_le hq), settle, if_pos hq]
  | tighter _ ih =>
      obtain ⟨stack', x, hpass, hsettle⟩ := ih (hrests.mono (Nat.le_succ _)) rest
      exact ⟨stack', x, hpass, fun q hq => hsettle q (Nat.le_succ_of_le hq)⟩

theorem Stratum.onePass_eq {e : Expr} (h : Stratum params 1 ts e) :
    onePass params ts [] none = some e := by
  have hempty : Rests 1 [] := trivial
  obtain ⟨stack, x, hpass, hsettle⟩ := h.onePass_append hempty []
  have hdone : settle 0 stack x = (e, []) := hsettle 0 (Nat.zero_le 1)
  rw [List.append_nil] at hpass
  rw [hpass, onePass, hdone]

/-- The grammar is unambiguous. -/
theorem Stratum.unique {e e' : Expr} (h : Stratum params 1 ts e) (h' : Stratum params 1 ts e') :
    e = e' :=
  Option.some.inj (h.onePass_eq.symm.trans h'.onePass_eq)

/-! ## The tightest operator first -/

/-- The tightest operator, with the looser ones before it and none tighter after it. -/
theorem tightest_split {links : Links} (h : links ≠ []) :
    ∃ before o y after, links = before ++ (o, y) :: after ∧ tightest links = before.length ∧
      (∀ link ∈ before, link.1.priority < o.priority) ∧
      ∀ link ∈ after, link.1.priority ≤ o.priority := by
  obtain ⟨top, htop⟩ : ∃ top, (links.map (·.1.priority)).max? = some top := by
    cases hmax : (links.map (·.1.priority)).max? with
    | none => simp [h] at hmax
    | some top => exact ⟨top, rfl⟩
  obtain ⟨hmem, hle⟩ := List.max?_eq_some_iff.mp htop
  obtain ⟨link, hlink, htopeq⟩ := List.mem_map.mp hmem
  obtain ⟨⟨o, y⟩, hfind⟩ : ∃ found, links.find? (fun l => l.1.priority = top) = some found :=
    Option.isSome_iff_exists.mp (List.find?_isSome.mpr ⟨link, hlink, by simpa using htopeq⟩)
  obtain ⟨hfound, before, after, rfl, hbefore⟩ := List.find?_eq_some_iff_append.mp hfind
  obtain rfl : o.priority = top := by simpa using hfound
  have hne : ∀ l ∈ before, l.1.priority ≠ o.priority := by simpa using hbefore
  refine ⟨before, o, y, after, rfl, ?_, ?_, ?_⟩
  · rw [tightest, htop, List.findIdx_append, List.findIdx_eq_length_of_false,
      if_neg (Nat.lt_irrefl _)]
    · simp [List.findIdx_cons]
    · intro l hl
      simpa using hne l hl
  · intro l hl
    exact Nat.lt_of_le_of_ne (hle _ (List.mem_map_of_mem (List.mem_append_left _ hl))) (hne l hl)
  · intro l hl
    exact hle _ (List.mem_map_of_mem (List.mem_append_right _ (List.mem_cons_of_mem _ hl)))

theorem Level.close_chain (x : Expr) (links : Links) :
    Level.close ⟨x :: links.map Prod.snd, links.map Prod.fst⟩ = .ok (x.reduce links) := by
  refine Level.close_eq_ok_iff.mpr ⟨x, links.map Prod.snd, rfl, by simp, ?_⟩
  exact congrArg x.reduce (List.zip_of_prod rfl rfl)

/-- The tokens read as a chain whose first operand follows an operator of priority `bound`, and each
operand fits between its two operators: its stratum is above the one before and not below the one
after. -/
inductive Fits (params : List String) : Nat → List Token → Expr → Links → Prop
  | last {bound p ts x} (h : Stratum params p ts x) (hbound : bound < p) : Fits params bound ts x []
  | cons {bound p ts us x o y rest} (h : Stratum params p ts x) (hbound : bound < p)
      (hop : o.priority ≤ p) (hrest : Fits params o.priority us y rest) :
      Fits params bound (ts ++ .op o :: us) x ((o, y) :: rest)

/-- Contracting the leftmost of the tightest operators keeps a chain that fits. -/
theorem Fits.contract {before after : Links} {bound : Nat} {x y : Expr} {o : Op}
    (h : Fits params bound ts x (before ++ (o, y) :: after)) (hbound : bound < o.priority)
    (hbefore : ∀ link ∈ before, link.1.priority < o.priority)
    (hafter : ∀ link ∈ after, link.1.priority ≤ o.priority) :
    Fits params bound ts (Expr.contract before.length x (before ++ (o, y) :: after)).1
      (Expr.contract before.length x (before ++ (o, y) :: after)).2 := by
  induction before generalizing bound ts x with
  | nil =>
      cases h with
      | @cons _ p ts us _ _ _ _ hx _ hop hrest =>
          cases hrest with
          | last hy hlt => exact .last (.link o (hx.mono hop) (hy.mono hlt)) hbound
          | @cons _ q vs ws _ o' _ _ hy hlt _ hrest =>
              have hnext : o'.priority ≤ o.priority := hafter _ List.mem_cons_self
              have hlink := Stratum.link o (hx.mono hop) (hy.mono hlt)
              rw [← List.cons_append, ← List.append_assoc]
              exact .cons hlink hbound hnext hrest
  | cons link before ih =>
      cases h with
      | cons hx hlt hop hrest =>
          have hrest := ih hrest (hbefore _ List.mem_cons_self)
            fun l hl => hbefore l (List.mem_cons_of_mem _ hl)
          exact .cons hx hlt hop hrest

theorem Fits.reduce {x : Expr} {links : Links} (h : Fits params 0 ts x links) :
    Stratum params 1 ts (x.reduce links) := by
  fun_induction Expr.reduce x links with
  | case1 x =>
      cases h with
      | last hx hlt => exact hx.mono hlt
  | case2 x link rest next ih =>
      obtain ⟨before, o, y, after, hsplit, hplace, hbefore, hafter⟩ :=
        tightest_split (List.cons_ne_nil link rest)
      apply ih
      rw [hsplit] at h hplace
      simp only [next, hsplit, hplace]
      exact h.contract o.priority_pos hbefore hafter

/-! ## Infix expressions -/

mutual
/-- An infix expression fills a level with a chain of values. -/
theorem Infix.fits : ∀ {us : List Token}, Infix params us → ∃ x links,
    (∀ bound < 4, Fits params bound us x links) ∧ ∀ {ts : List Token} {level : Level},
      Collects params ts level → level.operands.length = level.ops.length →
      Collects params (ts ++ us) ⟨level.operands ++ x :: links.map Prod.snd,
        level.ops ++ links.map Prod.fst⟩
  | _, .operand h => by
      obtain ⟨x, hx, hcollects⟩ := h.value
      refine ⟨x, [], fun bound hbound => .last hx hbound, fun hlevel _ => ?_⟩
      simpa [Level.push] using hcollects hlevel
  | _, .link h o hrest => by
      obtain ⟨x, hx, hcollects⟩ := h.value
      obtain ⟨y, links, hfits, hlinks⟩ := hrest.fits
      have hop : o.priority < 4 := Nat.lt_succ_of_le o.priority_le
      refine ⟨x, (o, y) :: links,
        fun bound hbound => .cons hx hbound (Nat.le_of_lt hop) (hfits _ hop), fun hlevel hdue => ?_⟩
      have hpushed := (hcollects hlevel).op o (by simp [Level.push, hdue])
      simpa [Level.push] using hlinks hpushed (by simp [Level.push, hdue])

theorem Operand.value : ∀ {us : List Token}, Operand params us → ∃ x, Stratum params 4 us x ∧
    ∀ {ts : List Token} {level : Level}, Collects params ts level →
      Collects params (ts ++ us) (level.push x)
  | _, .number value => ⟨_, .number value, fun hlevel => hlevel.number value⟩
  | _, .name h => by
      obtain ⟨index, hindex⟩ := exists_idxOf?_iff.mpr h
      exact ⟨_, .name hindex, fun hlevel => hlevel.name hindex⟩
  | _, .group h => by
      obtain ⟨x, links, hfits, hcollects⟩ := h.fits
      have hinner := hcollects .nil rfl
      have hclose := Level.close_chain x links
      exact ⟨_, .group (hfits 0 (by decide)).reduce, fun hlevel => hlevel.group hinner hclose⟩
end

/-- An infix expression has one tree: that of the stratified grammar, which the one pass finds too.
Its leaves are the operands in reading order, names as places of parameters. -/
theorem ofTokens_infix (params : List String) (tokens : List Lexeme)
    (h : Infix params (tokens.map Lexeme.token)) :
    ∃ e, ofTokens params tokens = .ok e ∧
      (∀ e', Stratum params 1 (tokens.map Lexeme.token) e' ↔ e' = e) ∧
      onePass params (tokens.map Lexeme.token) [] none = some e ∧
      e.leaves = (tokens.map Lexeme.token).filterMap (leafOf? params) := by
  obtain ⟨x, links, hfits, hcollects⟩ := h.fits
  have htree := (hfits 0 (by decide)).reduce
  refine ⟨x.reduce links, ?_, ?_, htree.onePass_eq, htree.leaves_eq⟩
  · exact ofTokens_eq_ok_iff.mpr ⟨_, hcollects .nil rfl, Level.close_chain x links⟩
  · intro e'
    constructor
    · intro h'
      exact h'.unique htree
    · rintro rfl
      exact htree

/-- `a-b*(c+a)^b^c`: the product is subtracted, and powers group from the left. -/
theorem ofTokens_infix_nested :
    let params := ["a", "b", "c"]
    let tokens : List Lexeme := [.name "a", .op .sub, .name "b", .op .mul, .opening, .name "c",
      .op .add, .name "a", .closing, .op .pow, .name "b", .op .pow, .name "c"].map (⟨·, 0⟩)
    Infix params (tokens.map Lexeme.token) ∧ ofTokens params tokens =
      .ok (.binary .sub (.argument 0) (.binary .mul (.argument 1) (.binary .pow (.binary .pow
        (.binary .add (.argument 2) (.argument 0)) (.argument 1)) (.argument 2)))) := by
  intro params tokens
  have h : Infix params (tokens.map Lexeme.token) :=
    infix_iff_counted_and_apart.mpr ⟨exists_ofTokens_iff_counted.mp ⟨_, rfl⟩, by decide⟩
  obtain ⟨e, hread, _, hpass, _⟩ := ofTokens_infix params tokens h
  cases hpass
  exact ⟨h, hread⟩

end Expr

end Patchbay
