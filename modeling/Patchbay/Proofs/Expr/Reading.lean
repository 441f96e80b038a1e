import Patchbay.Expr.Group

/-! # What a level collects

The reader keeps a stack of unfinished levels.  The rules below build one finished level at a time
and do not invoke the reader; the two agree on every list of tokens. -/

namespace Patchbay.Expr

/-! ## Finished levels -/

/-- Reading the tokens takes an empty level to `level`. -/
inductive Collects (params : List String) : List Token → Level → Prop
  | nil : Collects params [] {}
  | number {ts level} (value : Float32) (h : Collects params ts level) :
      Collects params (ts ++ [.number value]) (level.push (.number value))
  | name {ts level text index} (h : Collects params ts level)
      (hindex : params.idxOf? text = some index) :
      Collects params (ts ++ [.name text]) (level.push (.argument index))
  | group {ts level us inner x} (h : Collects params ts level) (hinner : Collects params us inner)
      (hclose : inner.close = .ok x) :
      Collects params (ts ++ .opening :: (us ++ [.closing])) (level.push x)
  | op {ts level} (o : Op) (h : Collects params ts level)
      (hdue : level.ops.length < level.operands.length) :
      Collects params (ts ++ [.op o]) { level with ops := level.ops ++ [o] }

theorem Collects.ops_length_le {params : List String} {ts : List Token} {level : Level}
    (h : Collects params ts level) : level.ops.length ≤ level.operands.length := by
  induction h with
  | nil => exact Nat.le_refl _
  | number value _ ih => simpa [Level.push] using Nat.le_succ_of_le ih
  | name _ _ ih => simpa [Level.push] using Nat.le_succ_of_le ih
  | group _ _ _ ih _ => simpa [Level.push] using Nat.le_succ_of_le ih
  | op o _ hdue _ => simpa using Nat.succ_le_of_lt hdue

theorem Level.close_eq_ok_iff {level : Level} {x : Expr} :
    level.close = .ok x ↔ ∃ first others, level.operands = first :: others ∧
      others.length = level.ops.length ∧ x = reduce first (level.ops.zip others) := by
  unfold Level.close
  cases level.operands with
  | nil => simp
  | cons first others =>
      by_cases hlen : others.length = level.ops.length
      · simp [hlen, and_assoc, eq_comm (a := x)]
      · simp [hlen, and_assoc]

theorem Level.exists_close_iff {level : Level} :
    (∃ x, level.close = .ok x) ↔ level.operands.length = level.ops.length + 1 := by
  simp only [Level.close_eq_ok_iff]
  constructor
  · rintro ⟨_, first, others, hoperands, hlen, _⟩
    simp [hoperands, hlen]
  · intro hlen
    cases hoperands : level.operands with
    | nil => simp [hoperands] at hlen
    | cons first others => exact ⟨_, first, others, rfl, by simpa [hoperands] using hlen, rfl⟩

/-! ## Running the rules -/

theorem Collects.execution {params : List String} {ts : List Token} {level : Level}
    (h : Collects params ts level) {lexemes : List Lexeme}
    (hts : lexemes.map Lexeme.token = ts) (rest : List Lexeme) (outer : List Level) :
    read params (lexemes ++ rest) {} outer = read params rest level outer := by
  induction h generalizing lexemes rest outer with
  | nil =>
      obtain rfl := List.map_eq_nil_iff.mp hts
      rfl
  | number value _ ih =>
      obtain ⟨front, last, rfl, hfront, hlast⟩ := List.map_eq_append_iff.mp hts
      obtain ⟨⟨_, offset⟩, rfl, rfl⟩ := List.map_eq_singleton_iff.mp hlast
      rw [List.append_assoc, ih hfront]
      simp [read]
  | name _ hindex ih =>
      obtain ⟨front, last, rfl, hfront, hlast⟩ := List.map_eq_append_iff.mp hts
      obtain ⟨⟨_, offset⟩, rfl, rfl⟩ := List.map_eq_singleton_iff.mp hlast
      rw [List.append_assoc, ih hfront]
      simp [read, hindex]
  | group _ _ hclose ih ihinner =>
      obtain ⟨front, last, rfl, hfront, hlast⟩ := List.map_eq_append_iff.mp hts
      obtain ⟨⟨_, offset⟩, tail, rfl, rfl, htail⟩ := List.map_eq_cons_iff.mp hlast
      obtain ⟨inside, last, rfl, hinside, hlast⟩ := List.map_eq_append_iff.mp htail
      obtain ⟨⟨_, offset'⟩, rfl, rfl⟩ := List.map_eq_singleton_iff.mp hlast
      rw [List.append_assoc, ih hfront, List.cons_append, read, List.append_assoc,
        ihinner hinside]
      simp [read, hclose, Except.bind]
  | op o _ hdue ih =>
      obtain ⟨front, last, rfl, hfront, hlast⟩ := List.map_eq_append_iff.mp hts
      obtain ⟨⟨_, offset⟩, rfl, rfl⟩ := List.map_eq_singleton_iff.mp hlast
      rw [List.append_assoc, ih hfront]
      simp [read, Nat.not_le.mpr hdue]

/-! ## Unfinished levels -/

/-- The tokens so far have filled `level`, inside the unfinished levels `outer`. -/
def Nested (params : List String) (ts : List Token) (level : Level) : List Level → Prop
  | [] => Collects params ts level
  | parent :: outer => ∃ before inside, ts = before ++ .opening :: inside ∧
      Nested params before parent outer ∧ Collects params inside level

/-- What the innermost level collects next, the whole stack collects. -/
theorem Nested.extend {params : List String} {ts us : List Token} {level level' : Level}
    {outer : List Level} (h : Nested params ts level outer)
    (hstep : ∀ {inside}, Collects params inside level → Collects params (inside ++ us) level') :
    Nested params (ts ++ us) level' outer := by
  cases outer with
  | nil => exact hstep h
  | cons parent outer =>
      obtain ⟨before, inside, rfl, hbefore, hinside⟩ := h
      exact ⟨before, inside ++ us, by simp, hbefore, hstep hinside⟩

theorem Nested.opening {params : List String} {ts : List Token} {level : Level}
    {outer : List Level} (h : Nested params ts level outer) :
    Nested params (ts ++ [.opening]) {} (level :: outer) :=
  ⟨ts, [], rfl, h, .nil⟩

theorem Nested.closing {params : List String} {ts : List Token} {level parent : Level}
    {outer : List Level} {x : Expr} (h : Nested params ts level (parent :: outer))
    (hclose : level.close = .ok x) :
    Nested params (ts ++ [.closing]) (parent.push x) outer := by
  obtain ⟨before, inside, rfl, hbefore, hinside⟩ := h
  rw [List.append_assoc, List.cons_append]
  exact hbefore.extend fun hparent => hparent.group hinside hclose

/-- A run of the reader that ends well has collected a whole level. -/
theorem Nested.collects {params : List String} {ts : List Token} {level : Level}
    {outer : List Level} {lexemes : List Lexeme} {e : Expr}
    (h : Nested params ts level outer) (hread : read params lexemes level outer = .ok e) :
    ∃ top, Collects params (ts ++ lexemes.map Lexeme.token) top ∧ top.close = .ok e := by
  fun_induction read params lexemes level outer generalizing ts with
  | case1 level => exact ⟨level, by simpa [Nested] using h, hread⟩
  | case2 => cases hread
  | case3 offset rest level outer ih => simpa using ih h.opening hread
  | case4 => cases hread
  | case5 offset rest level parent outer ih =>
      cases hclose : level.close with
      | error cause => simp [hclose, Except.bind] at hread
      | ok group =>
          simp only [hclose, Except.bind] at hread
          simpa using ih group (h.closing hclose) hread
  | case6 value offset rest level outer ih =>
      simpa using ih (h.extend fun hl => hl.number value) hread
  | case7 text offset rest level outer index hindex ih =>
      simpa using ih (h.extend fun hl => hl.name hindex) hread
  | case8 => cases hread
  | case9 => cases hread
  | case10 o offset rest level outer hdue ih =>
      simpa using ih (h.extend fun hl => hl.op o (Nat.lt_of_not_le hdue)) hread

/-- The reader finds an expression exactly when the tokens fill a level that can be closed. -/
theorem ofTokens_eq_ok_iff {params : List String} {tokens : List Lexeme} {e : Expr} :
    ofTokens params tokens = .ok e ↔
      ∃ level, Collects params (tokens.map Lexeme.token) level ∧ level.close = .ok e := by
  constructor
  · intro hread
    have hstart : Nested params [] {} [] := Collects.nil
    exact hstart.collects hread
  · rintro ⟨level, h, hclose⟩
    have hrun := h.execution rfl [] []
    rw [List.append_nil] at hrun
    simpa [ofTokens, hrun, read] using hclose

end Patchbay.Expr
