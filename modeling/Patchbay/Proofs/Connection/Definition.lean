import Mathlib.Data.List.Nodup
import Patchbay.Connection
import Patchbay.Proofs.Expr.Definition

/-! # The definition of a connection's function

A connection puts the definition of its function together from the names of its sources and the
body, both as they are in the configuration. -/

namespace Patchbay.ConnectionSpec

/-- The names of the sources without blanks. -/
def parameters (s : ConnectionSpec) : List String :=
  s.sources.map fun source => .ofList (Text.dropBlanks source.1.toList)

/-- The definition without blanks: the same frame around names and body without blanks. -/
theorem dropBlanks_definition (s : ConnectionSpec) (body : String) :
    Text.dropBlanks (s.definition body).toList =
      Function.frame ([','].intercalate (s.parameters.map String.toList))
        (Text.dropBlanks body.toList) := by
  have hcomma : ",".toList = [','] := rfl
  have hjoined : Text.dropBlanks (",".intercalate (s.sources.map Prod.fst)).toList =
      [','].intercalate (s.parameters.map String.toList) := by
    rw [String.toList_intercalate, hcomma, Text.dropBlanks_intercalate (by decide)]
    simp [parameters, Function.comp_def]
  have hopen : Text.dropBlanks "(".toList = ['('] := by decide
  have hbetween : Text.dropBlanks ")\x7b".toList = [')', '{'] := by decide
  have hclose : Text.dropBlanks "\x7d".toList = ['}'] := by decide
  simp only [definition, String.toList_append, Text.dropBlanks_append, hjoined, hopen, hbetween,
    hclose]
  simp [Function.frame]

/-- The function of a connection compiles exactly when the names of its sources are different
identifiers and its body alone can be read over them, and then it has the tree of the body.  The
name of a source stands for its place among the sources. -/
theorem compile_definition_iff (s : ConnectionSpec) (body : String) (f : Function)
    (hsome : s.sources ≠ []) (hmost : s.sources.length ≤ Function.maxArity)
    (hbody : Text.trimList body.toList ≠ []) :
    (Function.compile s.sources.length (s.definition body) = .ok f ↔
      f.arity = s.sources.length ∧
      f.source = .ofList (Text.dropBlanks (s.definition body).toList) ∧
      (∀ name ∈ s.parameters, Identifier name.toList) ∧ s.parameters.Nodup ∧
      ∃ tokens, Token.scan (Text.dropBlanks body.toList) = .ok tokens ∧
        Expr.ofTokens s.parameters tokens = .ok f.body) ∧
    (s.parameters.Nodup → ∀ i name offset, s.parameters[i]? = some name →
      Expr.ofTokens s.parameters [⟨.name name, offset⟩] = .ok (.argument i)) := by
  constructor
  · have hlength : (s.parameters.map String.toList).length = s.sources.length := by
      simp [parameters]
    have hnames : s.parameters.map String.toList ≠ [] := by
      simpa [parameters] using hsome
    have hframed := Function.compile_framed_iff (f := f) (s.dropBlanks_definition body) hnames
      (by rwa [hlength]) (Text.dropBlanks_ne_nil hbody)
    have hback : (s.parameters.map String.toList).map String.ofList = s.parameters := by
      simp [Function.comp_def]
    rw [hlength, hback] at hframed
    simpa using hframed
  · intro hnodup i name offset hname
    obtain ⟨hi, rfl⟩ := List.getElem?_eq_some_iff.mp hname
    have hindex : s.parameters.idxOf? s.parameters[i] = some i := by
      refine List.idxOf?_eq_some_iff.mpr ⟨hi, rfl, fun j hj heq => ?_⟩
      exact Nat.ne_of_lt hj ((List.Nodup.getElem_inj_iff hnodup).mp heq)
    simp [Expr.ofTokens, Expr.read, hindex, Expr.Level.push, Expr.Level.close, Expr.reduce]

/-- Blanks do not matter; a name that closes the list of parameters by itself is refused. -/
theorem compile_definition_blanks_and_parenthesis :
    let swap : ConnectionSpec := { sources := [("x ", "pad.lt"), ("\ty", "pad.rt")] }
    let short : ConnectionSpec := { sources := [("a)\x7bb", "pad.lt")] }
    swap.sources ≠ [] ∧ swap.sources.length ≤ Function.maxArity ∧
      Text.trimList " y - x".toList ≠ [] ∧
      Function.compile 2 (swap.definition " y - x") =
        .ok ⟨2, "(x,y)\x7by-x\x7d", .binary .sub (.argument 1) (.argument 0)⟩ ∧
      ∀ f, Function.compile 1 (short.definition "a") ≠ .ok f := by
  intro swap short
  refine ⟨by decide, by decide, by decide, ?_, ?_⟩
  · refine (compile_definition_iff swap " y - x" _ (by decide) (by decide) (by decide)).1.mpr ?_
    refine ⟨rfl, by decide +kernel, ?_, by decide, [⟨.name "y", 0⟩, ⟨.op .sub, 1⟩, ⟨.name "x", 2⟩], by decide +kernel,
      by decide +kernel⟩
    simp only [← Token.isName_iff]
    decide
  · intro f h
    have hnames :=
      ((compile_definition_iff short "a" f (by decide) (by decide) (by decide)).1.mp h).2.2.1
    simp only [← Token.isName_iff] at hnames
    exact absurd hnames (by decide)

end Patchbay.ConnectionSpec
