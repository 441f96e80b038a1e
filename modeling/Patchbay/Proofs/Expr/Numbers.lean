import Patchbay.Proofs.Decimal.Extremes
import Patchbay.Proofs.Expr.Tiling

/-! # Numbers in expressions

What is cut off as a number is a literal, with or without a sign in front, and every literal is read
as a number.  So of the faults that a definition can have, an invalid number is none. -/

namespace Patchbay

open Outcome

/-! ## Where faults come from -/

namespace CompileError

/-- A fault of a list of parameters. -/
def OfParameters : CompileError → Prop
  | invalidParameter _ | duplicateParameter _ => True
  | _ => False

/-- A fault of a text that is not made of tokens. -/
def OfScanning : CompileError → Prop
  | unknownToken _ _ => True
  | _ => False

/-- A fault of tokens that do not make an expression. -/
def OfGrouping : CompileError → Prop
  | unknownIdentifier _ | emptyGroup | missingOperand | unbalancedParenthesis _ | unexpectedEnd =>
    True
  | _ => False

/-- A fault of a definition as a whole. -/
def OfShape : CompileError → Prop
  | unsupportedArity _ | malformedFunction _ | parameterCount _ _ => True
  | _ => False

end CompileError

variable {cause : CompileError}

theorem Function.ofParameters_of_declare {declared : List String} {list : List (List Char)}
    (h : declare declared list = .error cause) : cause.OfParameters := by
  induction list generalizing declared with
  | nil => exact nomatch h
  | cons cs rest ih =>
      simp only [declare] at h
      split at h
      next =>
        cases h
        trivial
      next =>
        split at h
        next =>
          cases h
          trivial
        next => exact ih h

theorem Function.ofParameters_of_parameters {list : List Char}
    (h : parameters list = .error cause) : cause.OfParameters := by
  unfold parameters at h
  split at h
  next => exact nomatch h
  next => exact ofParameters_of_declare h

theorem Token.ofScanning_of_scan {cs : List Char} (h : scan cs = .error cause) :
    cause.OfScanning := by
  have htiled : Tiled _ _ true (scan cs) := scanFrom_tiled [] true cs
  rw [h] at htiled
  cases htiled with
  | stuck => trivial

namespace Expr

theorem Level.ofGrouping_of_close {level : Level} (h : level.close = .error cause) :
    cause.OfGrouping := by
  unfold Level.close at h
  split at h
  next =>
    cases h
    trivial
  next =>
    split at h
    next => exact nomatch h
    next =>
      cases h
      trivial

theorem ofGrouping_of_read {params : List String} {lexemes : List Lexeme} {level : Level}
    {outer : List Level} (h : read params lexemes level outer = .error cause) :
    cause.OfGrouping := by
  fun_induction read params lexemes level outer with
  | case1 level => exact level.ofGrouping_of_close h
  | case2 | case4 | case8 | case9 =>
      cases h
      trivial
  | case3 offset rest level outer ih => exact ih h
  | case5 offset rest level parent outer ih =>
      rcases bind_eq_error_iff.mp h with hclose | ⟨group, -, hrest⟩
      · exact level.ofGrouping_of_close hclose
      · exact ih group hrest
  | case6 value offset rest level outer ih => exact ih h
  | case7 text offset rest level outer index hindex ih => exact ih h
  | case10 o offset rest level outer hdue ih => exact ih h

end Expr

namespace Function

open Decimal (ExponentPart FixedPart Literal SignPart natOfDigits)

/-- All that can be wrong with a definition. -/
theorem fault_of_compile {arity : ℕ} {definition : String}
    (h : compile arity definition = .error cause) :
    cause.OfShape ∨ cause.OfParameters ∨ cause.OfScanning ∨ cause.OfGrouping := by
  simp only [compile] at h
  split at h
  next =>
    cases h
    exact .inl trivial
  next =>
    split at h
    next =>
      cases h
      exact .inl trivial
    next list body hcut =>
      rcases bind_eq_error_iff.mp h with hparams | ⟨params, -, h⟩
      · exact .inr (.inl (ofParameters_of_parameters hparams))
      split at h
      next =>
        cases h
        exact .inl trivial
      next =>
        rcases bind_eq_error_iff.mp h with hscan | ⟨lexemes, -, h⟩
        · exact .inr (.inr (.inl (Token.ofScanning_of_scan hscan)))
        rcases bind_eq_error_iff.mp h with hread | ⟨expr, -, h⟩
        · exact .inr (.inr (.inr (Expr.ofGrouping_of_read hread)))
        · cases h

/-- No definition is rejected for an invalid number.  Wherever a number starts, the text that is cut
off is a literal, and with or without a sign in front it is read as the number nearest to the value
of the literal: as infinity if the value is too large, and as zero if it is too small. -/
theorem compile_reads_all_numbers :
    (∀ arity definition text, compile arity definition ≠ .error (.invalidNumber text)) ∧
    ∀ sign negative cs, SignPart sign negative → Token.startsNumber cs →
      ∃ fixed whole fraction tail exponent, Token.cutNumber cs = fixed ++ tail ∧
        FixedPart fixed whole fraction ∧ ExponentPart tail exponent ∧
        let l : Literal := ⟨negative, natOfDigits (whole ++ fraction), exponent - fraction.length⟩
        Literal.read (sign ++ Token.cutNumber cs) = some l ∧
          Decimal.readSingle (sign ++ Token.cutNumber cs) = some l.single ∧
          Token.ofText (sign ++ Token.cutNumber cs) = .ok (.number l.single) ∧
          Single.ReadAs l.sign l.magnitude l.single := by
  constructor
  · intro arity definition text h
    rcases fault_of_compile h with h | h | h | h <;> exact h
  · intro sign negative cs hsign hstarts
    obtain ⟨fixed, whole, fraction, tail, exponent, hcut, hfixed, htail⟩ :=
      Token.magnitude_cutNumber hstarts
    refine ⟨fixed, whole, fraction, tail, exponent, hcut, hfixed, htail, ?_⟩
    rw [hcut]
    exact ⟨Decimal.read_eq_some hsign hfixed htail,
      Decimal.readSingle_eq_some_iff.mpr (.decimal hsign hfixed htail),
      Token.ofText_number hsign hfixed htail, Literal.readAs_single _⟩

/-- In front of a parenthesis, `-1e39` is cut off and read as minus infinity. -/
theorem compile_reads_all_numbers_far_out :
    let cs := "1e39)".toList
    (SignPart ['-'] true ∧ Token.startsNumber cs) ∧ Token.cutNumber cs = "1e39".toList ∧
      Token.ofText "-1e39".toList = .ok (.number (-1.0 / 0.0)) := by
  intro cs
  have hstarts : Token.startsNumber cs := by decide
  obtain ⟨fixed, whole, fraction, tail, exponent, -, -, -, hread, -, htoken, hreadAs⟩ :=
    compile_reads_all_numbers.2 ['-'] true cs .minus hstarts
  have hliteral : Literal.read (['-'] ++ Token.cutNumber cs) = some ⟨true, 1, 39⟩ := by decide
  rw [Option.some.inj (hread.symm.trans hliteral)] at htoken hreadAs
  refine ⟨⟨.minus, hstarts⟩, by decide, ?_⟩
  generalize Literal.single ⟨true, 1, 39⟩ = x at htoken hreadAs
  cases hreadAs with
  | overflow => exact htoken
  | underflow hsmall => norm_num [Literal.magnitude] at hsmall
  | nearest _ hlarge => norm_num [Literal.magnitude] at hlarge

end Function

end Patchbay
