import Patchbay.Proofs.Expr.Compiling
import Patchbay.Proofs.Expr.Scanning
import Patchbay.Proofs.Text.Cutting

/-! # Definitions put together from names and a body

Names are joined with commas and framed with the body, nothing is escaped.  Still the compiler finds
the same names and the same body again, or refuses the definition. -/

namespace Patchbay

/-! ## Names -/

/-- A letter, then letters, digits and underscores. -/
def Identifier (cs : List Char) : Prop :=
  ∃ first rest, cs = first :: rest ∧ first.isAlpha ∧ ∀ c ∈ rest, c.isAlphanum ∨ c = '_'

theorem Token.isName_iff {cs : List Char} : Token.isName cs ↔ Identifier cs := by
  cases cs with
  | nil => simp [Token.isName, Identifier]
  | cons first rest =>
      by_cases hfirst : first.isAlpha
      · simp [Token.isName, Token.cutName, Identifier, hfirst, Token.isNamePart]
      · simp [Token.isName, Token.cutName, Identifier, hfirst]

theorem Identifier.isNamePart {cs : List Char} (h : Identifier cs) :
    ∀ c ∈ cs, Token.isNamePart c := by
  obtain ⟨first, rest, rfl, hfirst, hrest⟩ := h
  intro c hc
  rcases List.mem_cons.mp hc with rfl | hc
  · simp [Token.isNamePart, Char.isAlphanum, hfirst]
  · simpa [Token.isNamePart] using hrest c hc

theorem Identifier.not_mem {cs : List Char} (h : Identifier cs) {c : Char}
    (hc : Token.isNamePart c = false) : c ∉ cs := by
  intro hmem
  rw [h.isNamePart c hmem] at hc
  cases hc

namespace Function

/-! ## Parameters -/

theorem declare_eq_ok_iff {declared names : List String} {list : List (List Char)}
    (hdeclared : declared.Nodup) :
    declare declared list = .ok names ↔
      (∀ cs ∈ list, Identifier cs) ∧ names.Nodup ∧ names = declared ++ list.map String.ofList := by
  induction list generalizing declared with
  | nil =>
      simp only [declare, List.map_nil, List.append_nil, Except.ok.injEq]
      constructor
      · rintro rfl
        exact ⟨by simp, hdeclared, rfl⟩
      · rintro ⟨_, _, rfl⟩
        rfl
  | cons cs list ih =>
      simp only [declare, ← Token.isName_iff] at ih ⊢
      by_cases hname : Token.isName cs
      · by_cases hmem : String.ofList cs ∈ declared
        · simp only [hname, hmem, Bool.not_true, Bool.false_eq_true, if_false, if_true]
          constructor
          · intro h
            cases h
          · rintro ⟨_, hnodup, rfl⟩
            exact absurd rfl ((List.nodup_append.mp hnodup).2.2 _ hmem _ (by simp))
        · have hnext : (declared ++ [String.ofList cs]).Nodup := by
            refine List.nodup_append.mpr ⟨hdeclared, by simp, ?_⟩
            rintro name hdecl _ hsingle rfl
            exact hmem (List.mem_singleton.mp hsingle ▸ hdecl)
          simp only [hname, hmem, Bool.not_true, Bool.false_eq_true, if_false]
          rw [ih hnext]
          simp [hname]
      · simp [hname]

theorem fields_joined {names : List (List Char)} (hnames : names ≠ [])
    (h : ∀ name ∈ names, Identifier name) :
    Text.fields ',' ([','].intercalate names) = names :=
  Text.fields_intercalate_of_not_mem hnames fun name hname => (h name hname).not_mem (by decide)

/-- Joined names are the parameters exactly when they are different identifiers. -/
theorem parameters_joined_iff {names : List (List Char)} (hnames : names ≠ [])
    {params : List String} :
    parameters ([','].intercalate names) = .ok params ∧ params.length = names.length ↔
      (∀ name ∈ names, Identifier name) ∧ params.Nodup ∧ params = names.map String.ofList := by
  have hpos := List.length_pos_iff.mpr hnames
  simp only [parameters]
  split
  next hempty =>
    constructor
    · rintro ⟨hparams, hlength⟩
      cases hparams
      exact absurd hlength.symm (Nat.ne_of_gt hpos)
    · rintro ⟨hidentifiers, _⟩
      have hfields := fields_joined hnames hidentifiers
      rw [hempty] at hfields
      obtain ⟨_, _, hcons, _⟩ := hidentifiers [] (by rw [← hfields]; simp [Text.fields])
      cases hcons
  next =>
    rw [declare_eq_ok_iff List.nodup_nil, List.nil_append]
    constructor
    · rintro ⟨⟨hidentifiers, hnodup, rfl⟩, hlength⟩
      rw [List.length_map] at hlength
      rw [Text.fields_intercalate_of_length_eq hnames hlength] at hidentifiers hnodup ⊢
      exact ⟨hidentifiers, hnodup, rfl⟩
    · rintro ⟨hidentifiers, hnodup, rfl⟩
      rw [fields_joined hnames hidentifiers]
      exact ⟨⟨hidentifiers, hnodup, rfl⟩, List.length_map _⟩

/-! ## The frame -/

/-- The frame around a list of parameters and a body. -/
def frame (list body : List Char) : List Char :=
  '(' :: (list ++ ')' :: '{' :: (body ++ ['}']))

theorem cutDefinition_frame {list body : List Char} (hlist : ')' ∉ list) (hbody : body ≠ []) :
    cutDefinition (frame list body) = some (list, body) := by
  simp [cutDefinition, frame, Text.cutAt_append hlist, hbody]

/-- A definition that is cut inside its list keeps the brace of its frame in the body. -/
theorem mem_body_of_cutDefinition_frame {list body list' body' : List Char} (hlist : ')' ∈ list)
    (h : cutDefinition (frame list body) = some (list', body')) : '{' ∈ body' := by
  obtain ⟨front, back, rfl, hfront⟩ := List.eq_append_cons_of_mem hlist
  have hcut : Text.cutAt ')' (front ++ ')' :: back ++ ')' :: '{' :: (body ++ ['}'])) =
      some (front, back ++ ')' :: '{' :: body ++ ['}']) := by
    simpa using Text.cutAt_append hfront (back ++ ')' :: '{' :: body ++ ['}'])
  simp only [cutDefinition, frame, hcut, Option.bind_eq_bind, Option.bind_some] at h
  split at h
  next rest hrest =>
    split at h
    next hend =>
      cases h
      cases back with
      | nil => cases hrest
      | cons c back =>
          obtain ⟨_, rfl⟩ := List.cons.inj hrest
          change '{' ∈ (back ++ ')' :: '{' :: body ++ ['}']).dropLast
          rw [List.dropLast_concat]
          simp
    next => cases h
  next => cases h

/-- What a framed definition compiles to: its names are different identifiers, and the body is
read over them. -/
theorem compile_framed_iff {definition : String} {names : List (List Char)} {body : List Char}
    (hdefinition : Text.dropBlanks definition.toList = frame ([','].intercalate names) body)
    (hnames : names ≠ []) (hmost : names.length ≤ maxArity) (hbody : body ≠ []) {f : Function} :
    compile names.length definition = .ok f ↔ f.arity = names.length ∧
      f.source = .ofList (Text.dropBlanks definition.toList) ∧
      (∀ name ∈ names, Identifier name) ∧ (names.map String.ofList).Nodup ∧
      ∃ tokens, Token.scan body = .ok tokens ∧
        Expr.ofTokens (names.map String.ofList) tokens = .ok f.body := by
  rw [compile_eq_ok_iff]
  refine and_congr_right fun _ => and_congr_right fun _ => ?_
  constructor
  · rintro ⟨params, tokens, hreads, htree⟩
    obtain ⟨list', body', hcut, hparams, htokens⟩ := hreads.shape
    rw [hdefinition] at hcut
    by_cases hclose : ')' ∈ [','].intercalate names
    · have hbrace := mem_body_of_cutDefinition_frame hclose hcut
      exact absurd (Token.scan_isPart htokens _ hbrace) (by decide)
    · rw [cutDefinition_frame hclose hbody] at hcut
      obtain ⟨rfl, rfl⟩ := Prod.mk.inj (Option.some.inj hcut)
      obtain ⟨hidentifiers, hnodup, rfl⟩ :=
        (parameters_joined_iff hnames).mp ⟨hparams, hreads.params_length⟩
      exact ⟨hidentifiers, hnodup, tokens, htokens, htree⟩
  · rintro ⟨hidentifiers, hnodup, tokens, htokens, htree⟩
    have hclose : ')' ∉ [','].intercalate names := by
      intro hmem
      rcases Text.mem_intercalate hmem with hcomma | ⟨name, hname, hmem⟩
      · exact absurd hcomma (by decide)
      · exact (hidentifiers name hname).not_mem (by decide) hmem
    obtain ⟨hparams, hlength⟩ :=
      (parameters_joined_iff hnames).mpr ⟨hidentifiers, hnodup, rfl⟩
    refine ⟨_, tokens, ⟨hmost, hlength, _, body, ?_, hparams, htokens⟩, htree⟩
    rw [hdefinition, cutDefinition_frame hclose hbody]

end Function

end Patchbay
