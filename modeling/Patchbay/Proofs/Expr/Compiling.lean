import Patchbay.Expr.Function
import Patchbay.Proofs.Expr.Infix
import Patchbay.Proofs.Outcome

/-! # When a definition compiles

A definition is taken apart into parameters and tokens; it compiles when the tokens are accepted. -/

namespace Patchbay.Function

open Patchbay.Expr Outcome

/-- A definition of the right shape has these parameters, and a body of these tokens. -/
structure Reads (arity : Nat) (definition : String) (params : List String)
    (tokens : List Lexeme) : Prop where
  arity_le : arity ≤ maxArity
  params_length : params.length = arity
  shape : ∃ list body, cutDefinition (Text.dropBlanks definition.toList) = some (list, body) ∧
    parameters list = .ok params ∧ Token.scan body = .ok tokens

theorem Reads.unique {arity : Nat} {definition : String} {params params' : List String}
    {tokens tokens' : List Lexeme} (h : Reads arity definition params tokens)
    (h' : Reads arity definition params' tokens') : params = params' ∧ tokens = tokens' := by
  obtain ⟨list, body, hcut, hparams, htokens⟩ := h.shape
  obtain ⟨list', body', hcut', hparams', htokens'⟩ := h'.shape
  obtain ⟨rfl, rfl⟩ := Prod.mk.inj (Option.some.inj (hcut.symm.trans hcut'))
  exact ⟨Except.ok.inj (hparams.symm.trans hparams'),
    Except.ok.inj (htokens.symm.trans htokens')⟩

theorem compile_eq_ok_iff {arity : Nat} {definition : String} {f : Function} :
    compile arity definition = .ok f ↔ f.arity = arity ∧
      f.source = .ofList (Text.dropBlanks definition.toList) ∧ ∃ params tokens,
        Reads arity definition params tokens ∧ ofTokens params tokens = .ok f.body := by
  constructor
  · intro h
    simp only [compile] at h
    split at h
    · cases h
    next harity =>
      split at h
      · cases h
      next list body hcut =>
        obtain ⟨params, hparams, h⟩ := bind_eq_ok_iff.mp h
        split at h
        · cases h
        next hlength =>
          obtain ⟨tokens, htokens, h⟩ := bind_eq_ok_iff.mp h
          obtain ⟨tree, htree, h⟩ := bind_eq_ok_iff.mp h
          cases h
          exact ⟨rfl, rfl, params, tokens, ⟨Nat.not_lt.mp harity,
            Decidable.not_not.mp hlength, list, body, hcut, hparams, htokens⟩, htree⟩
  · rintro ⟨rfl, hsource, params, tokens, hreads, htree⟩
    obtain ⟨list, body, hcut, hparams, htokens⟩ := hreads.shape
    have harity : ¬ f.arity > maxArity := Nat.not_lt.mpr hreads.arity_le
    simp [compile, harity, hcut, hparams, hreads.params_length, htokens, htree, ← hsource, bind,
      Except.bind, pure, Except.pure]

theorem exists_compile_iff {arity : Nat} {definition : String} :
    (∃ f, compile arity definition = .ok f) ↔ ∃ params tokens,
      Reads arity definition params tokens ∧ Counted params 1 (tokens.map Lexeme.token) := by
  simp only [compile_eq_ok_iff, ← exists_ofTokens_iff_counted]
  constructor
  · rintro ⟨f, _, _, params, tokens, hreads, htree⟩
    exact ⟨params, tokens, hreads, f.body, htree⟩
  · rintro ⟨params, tokens, hreads, tree, htree⟩
    exact ⟨⟨arity, _, tree⟩, rfl, rfl, params, tokens, hreads, htree⟩

/-! ## Only infix, but for juxtaposition -/

/-- What is accepted is an infix expression unless an operand directly follows another: the reader
takes an operator after both of its operands too. -/
theorem accepts_only_infix_iff_apart (params : List String) (tokens : List Lexeme) (arity : Nat)
    (definition : String) :
    ((∀ e, ofTokens params tokens = .ok e → Infix params (tokens.map Lexeme.token)) ↔
      (Counted params 1 (tokens.map Lexeme.token) → Apart (tokens.map Lexeme.token))) ∧
    (Infix params (tokens.map Lexeme.token) ↔
      (∃ e, ofTokens params tokens = .ok e) ∧ Apart (tokens.map Lexeme.token)) ∧
    ((∃ f, compile arity definition = .ok f) ↔ ∃ params tokens,
      Reads arity definition params tokens ∧ Counted params 1 (tokens.map Lexeme.token)) ∧
    ((∀ f, compile arity definition = .ok f → ∃ params tokens,
        Reads arity definition params tokens ∧ Infix params (tokens.map Lexeme.token)) ↔
      ∀ params tokens, Reads arity definition params tokens →
        Counted params 1 (tokens.map Lexeme.token) → Apart (tokens.map Lexeme.token)) := by
  refine ⟨?_, ?_, exists_compile_iff, ?_⟩
  · rw [← exists_imp, exists_ofTokens_iff_counted, infix_iff_counted_and_apart]
    exact ⟨fun h hcounted => (h hcounted).2, fun h hcounted => ⟨hcounted, h hcounted⟩⟩
  · rw [exists_ofTokens_iff_counted, infix_iff_counted_and_apart]
  · rw [← exists_imp, exists_compile_iff]
    simp only [infix_iff_counted_and_apart]
    constructor
    · intro h params tokens hreads hcounted
      obtain ⟨params', tokens', hreads', _, hapart⟩ := h ⟨params, tokens, hreads, hcounted⟩
      obtain ⟨rfl, rfl⟩ := hreads.unique hreads'
      exact hapart
    · rintro h ⟨params, tokens, hreads, hcounted⟩
      exact ⟨params, tokens, hreads, hcounted, h params tokens hreads hcounted⟩

/-- An operator after both of its operands: `a(b)-` is the difference. -/
theorem compiles_operator_after_operands :
    compile 2 "(a,b){a(b)-}" =
      .ok ⟨2, "(a,b){a(b)-}", .binary .sub (.argument 0) (.argument 1)⟩ ∧
    ¬ ∃ params tokens, Reads 2 "(a,b){a(b)-}" params tokens ∧
      Infix params (tokens.map Lexeme.token) := by
  refine ⟨by decide +kernel, ?_⟩
  rintro ⟨params, tokens, hreads, hinfix⟩
  have hread : Reads 2 "(a,b){a(b)-}" ["a", "b"]
      [⟨.name "a", 0⟩, ⟨.opening, 1⟩, ⟨.name "b", 2⟩, ⟨.closing, 3⟩, ⟨.op .sub, 4⟩] :=
    ⟨by decide, rfl, "a,b".toList, "a(b)-".toList, by decide +kernel, by decide +kernel, by decide +kernel⟩
  obtain ⟨rfl, rfl⟩ := hreads.unique hread
  exact absurd hinfix.apart (by decide)

end Patchbay.Function
