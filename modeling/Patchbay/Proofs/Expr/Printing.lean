import Mathlib.Data.List.GetD
import Patchbay.Proofs.Decimal.ReadBack
import Patchbay.Proofs.Expr.Definition
import Patchbay.Proofs.Expr.Renaming

/-! # Compiling what is printed

The text of an expression has parentheses around every operation and a sign only in front of a
number.  So whatever the priorities are, it is read as the expression again. -/

namespace Patchbay

/-! ## Scanning -/

namespace Token

/-- Scanned from here, the text is these tokens. -/
def Scans (operand : Bool) (cs : List Char) (ts : List Token) : Prop :=
  ∀ offset, ∃ lexemes, scanFrom offset operand cs = .ok lexemes ∧ lexemes.map Lexeme.token = ts

theorem Scans.nil (operand : Bool) : Scans operand [] [] := by
  intro offset
  refine ⟨[], ?_, rfl⟩
  rw [scanFrom]
  rfl

theorem Scans.cons {operand : Bool} (text : List Char) {rest : List Char} {token : Token}
    {ts : List Token} (hne : text ≠ []) (hcut : cut operand (text ++ rest) = text)
    (htoken : ofText text = .ok token) (h : Scans token.wantsOperand rest ts) :
    Scans operand (text ++ rest) (token :: ts) := by
  intro offset
  obtain ⟨lexemes, hscan, rfl⟩ := h (offset + text.length)
  refine ⟨⟨token, offset⟩ :: lexemes, ?_, rfl⟩
  rw [scanFrom]
  split
  next hnil => exact absurd (hcut.symm.trans hnil) hne
  next c tail hcons =>
    obtain rfl := hcut.symm.trans hcons
    simp only [htoken, List.drop_left, hscan, bind, Except.bind, pure, Except.pure]

/-- No name or number goes on here. -/
def Stops (rest : List Char) : Prop := ∀ c ∈ rest.head?, isNamePart c = false ∧ c ≠ '.'

theorem stops_nil : Stops [] := by simp [Stops]

theorem stops_symbol (o : Op) (rest : List Char) : Stops (o.symbol :: rest) := by
  cases o <;> simp [Stops, Op.symbol] <;> decide

theorem stops_closing (rest : List Char) : Stops (')' :: rest) := by
  simp only [Stops, List.head?_cons, Option.mem_some_iff, forall_eq']
  decide

variable {cs rest : List Char}

theorem Stops.not_digit (h : Stops rest) : ∀ c ∈ rest.head?, c.isDigit = false := by
  intro c hc
  have hpart := (h c hc).1
  simp only [isNamePart, Char.isAlphanum, Bool.or_eq_false_iff] at hpart
  exact hpart.1.2

theorem Stops.cutExponent_eq (h : Stops rest) : cutExponent rest = [] := by
  cases rest with
  | nil => rfl
  | cons c rest =>
      have hpart := (h c rfl).1
      have hletter : ¬ (c = 'e' ∨ c = 'E') := by
        rintro (rfl | rfl) <;> cases hpart
      simp [cutExponent, hletter]

/-- A number is cut off up to what stops it. -/
theorem cutNumber_positional (hcs : Decimal.Positional cs) (hrest : Stops rest) :
    cutNumber (cs ++ rest) = cs := by
  have hdigits : cutDigits (cs ++ rest) = cs := by
    cases hcs with
    | whole hne hwhole =>
        obtain ⟨htake, hdrop⟩ := Decimal.takeWhile_digits hwhole rest hrest.not_digit
        simp only [cutDigits, htake, hdrop]
        split
        next => exact absurd rfl (hrest '.' rfl).2
        next => rfl
    | @pointed whole fraction hne hwhole hfraction =>
        obtain ⟨htake, hdrop⟩ :=
          Decimal.takeWhile_digits hwhole ('.' :: (fraction ++ rest)) (by simp)
        obtain ⟨htake', _⟩ := Decimal.takeWhile_digits hfraction rest hrest.not_digit
        rw [List.append_assoc, List.cons_append]
        simp only [cutDigits, htake, hdrop, htake']
  rw [cutNumber, hdigits, List.drop_left, hrest.cutExponent_eq, List.append_nil]

theorem cutName_identifier (hcs : Identifier cs) (hrest : Stops rest) :
    cutName (cs ++ rest) = cs := by
  obtain ⟨first, tail, rfl, hfirst, htail⟩ := hcs
  have htail : ∀ c ∈ tail, isNamePart c := by simpa [isNamePart] using htail
  have hnone : rest.takeWhile isNamePart = [] := by
    cases rest with
    | nil => rfl
    | cons c rest => simp [(hrest c rfl).1]
  simp [cutName, hfirst, List.takeWhile_append_of_pos htail, hnone]

/-- A text that starts like a name or a number is a word. -/
theorem ofText_cons {c : Char} (hc : isNamePart c) : ofText (c :: cs) = word (c :: cs) := by
  have hop : Op.ofSymbol? c = none := by
    cases ho : Op.ofSymbol? c with
    | none => rfl
    | some o =>
        obtain rfl := Op.ofSymbol?_eq_some_iff.mp ho
        cases o <;> cases hc
  unfold ofText
  split
  next heq =>
    obtain ⟨rfl, _⟩ := List.cons.inj heq
    cases hc
  next heq =>
    obtain ⟨rfl, _⟩ := List.cons.inj heq
    cases hc
  next heq =>
    obtain ⟨rfl, rfl⟩ := List.cons.inj heq
    rw [hop]
  next => rfl

theorem scans_opening (operand : Bool) {ts : List Token} (h : Scans true rest ts) :
    Scans operand ('(' :: rest) (.opening :: ts) :=
  Scans.cons ['('] (by simp) (by simp [cut]) rfl h

theorem scans_closing (operand : Bool) {ts : List Token} (h : Scans false rest ts) :
    Scans operand (')' :: rest) (.closing :: ts) :=
  Scans.cons [')'] (by simp) (by simp [cut]) rfl h

/-- After an operand a sign is an operator. -/
theorem scans_op {ts : List Token} (o : Op) (h : Scans true rest ts) :
    Scans false (o.symbol :: rest) (.op o :: ts) := by
  refine Scans.cons [o.symbol] (by simp) ?_ ?_ h
  · cases o <;> simp [cut, Op.symbol, startsNumber, Op.ofSymbol?]
  · cases o <;> rfl

theorem cut_alphanum (operand : Bool) {c : Char} (hc : c.isAlphanum) :
    cut operand (c :: rest) = if c.isDigit then cutNumber (c :: rest) else cutName (c :: rest) := by
  have hfree {d : Char} (hd : true ≠ d.isAlphanum) : c ≠ d :=
    ne_of_apply_ne Char.isAlphanum (hc.trans_ne hd)
  have hpoint : c ≠ '.' := hfree (by decide)
  have hparen : ¬ (c = '(' ∨ c = ')') := not_or.mpr ⟨hfree (by decide), hfree (by decide)⟩
  have hsign : ¬ (c = '+' ∨ c = '-') := not_or.mpr ⟨hfree (by decide), hfree (by decide)⟩
  simp only [cut, hparen, hsign, startsNumber_cons hpoint, false_and, if_false]
  split
  next => rfl
  next hdigit =>
    have halpha : c.isAlpha := by simpa [Char.isAlphanum, hdigit] using hc
    rw [if_pos halpha]

theorem cut_letter (operand : Bool) {c : Char} (hc : c.isAlpha) :
    cut operand (c :: rest) = cutName (c :: rest) := by
  rw [cut_alphanum operand (by simp [Char.isAlphanum, hc]), if_neg fun h => not_isAlpha_of_isDigit h hc]

theorem cut_digit (operand : Bool) {c : Char} (hc : c.isDigit) :
    cut operand (c :: rest) = cutNumber (c :: rest) := by
  rw [cut_alphanum operand (by simp [Char.isAlphanum, hc]), if_pos hc]

/-- Where an operand is due, a sign belongs to the number. -/
theorem cut_minus (h : startsNumber rest) : cut true ('-' :: rest) = '-' :: cutNumber rest := by
  simp [cut, h]

theorem scans_name (operand : Bool) {ts : List Token} (hcs : Identifier cs) (hrest : Stops rest)
    (h : Scans false rest ts) : Scans operand (cs ++ rest) (.name (.ofList cs) :: ts) := by
  have hcut := cutName_identifier hcs hrest
  obtain ⟨first, tail, rfl, hfirst, htail⟩ := hcs
  have hpart : isNamePart first := by simp [isNamePart, Char.isAlphanum, hfirst]
  refine Scans.cons _ (by simp) ((cut_letter operand hfirst).trans hcut) ?_ h
  rw [ofText_cons hpart]
  simp [word, hfirst]

section Number

open Decimal

theorem cut_signed (hcs : Positional cs) (hrest : Stops rest) (sign : _) :
    cut true (signText sign ++ cs ++ rest) = signText sign ++ cs := by
  have hcut := cutNumber_positional hcs hrest
  obtain ⟨c, tail, rfl, hc⟩ := hcs.exists_digit
  cases sign with
  | positive => exact (cut_digit true hc).trans hcut
  | negative =>
      have hstarts : startsNumber (c :: tail ++ rest) := by
        rw [List.cons_append, startsNumber_cons]
        · exact hc
        · rintro rfl
          cases hc
      exact (cut_minus hstarts).trans (congrArg ('-' :: ·) hcut)

theorem ofText_signed (hcs : Positional cs) {sign} {l : Literal}
    (hread : Literal.read (signText sign ++ cs) = some l) :
    ofText (signText sign ++ cs) = .ok (.number l.single) := by
  obtain ⟨c, tail, rfl, hc⟩ := hcs.exists_digit
  have halpha := not_isAlpha_of_isDigit hc
  cases sign with
  | positive =>
      have hpart : isNamePart c := by simp [isNamePart, Char.isAlphanum, hc]
      rw [signText, List.nil_append] at hread ⊢
      simp [ofText_cons hpart, word, halpha, hread]
  | negative =>
      rw [signText, List.singleton_append] at hread ⊢
      change word ('-' :: c :: tail) = _
      have hminus : ¬ ('-' : Char).isAlpha := by decide
      simp [word, hminus, hread]

/-- Where an operand is due, a number may have its sign in front. -/
theorem scans_number {x : Float32} {ts : List Token} (hx : x.isFinite) (hrest : Stops rest)
    (h : Scans false rest ts) : Scans true ((plain x).toList ++ rest) (.number x :: ts) := by
  obtain ⟨sign, cs, l, htext, hcs, hread, rfl⟩ := exists_read_plain hx
  rw [htext]
  refine Scans.cons _ ?_ (cut_signed hcs hrest sign) (ofText_signed hcs hread) h
  obtain ⟨c, tail, rfl, _⟩ := hcs.exists_digit
  simp

end Number

end Token

/-! ## Tokens of an expression -/

namespace Expr

/-- Every number is finite. -/
def Finite : Expr → Prop
  | number value => value.isFinite
  | argument _ => True
  | binary _ lhs rhs => lhs.Finite ∧ rhs.Finite

/-- The tokens of an expression with every grouping in parentheses, over given names of its
arguments. -/
def tokensWith (argument : Nat → String) : Expr → List Token
  | number value => [.number value]
  | .argument index => [.name (argument index)]
  | binary op lhs rhs =>
    .opening :: (lhs.tokensWith argument ++ .op op :: (rhs.tokensWith argument ++ [.closing]))

variable {argument : Nat → String} {arity : Nat}

theorem toList_textWith_binary (op : Op) (lhs rhs : Expr) :
    ((binary op lhs rhs).textWith argument).toList =
      '(' :: ((lhs.textWith argument).toList ++ op.symbol ::
        ((rhs.textWith argument).toList ++ [')'])) := by
  simp [textWith]

/-- The text of an expression is its tokens, whatever tokens come after it. -/
theorem scans_textWith (hargument : ∀ i < arity, Identifier (argument i).toList) {e : Expr}
    (hwithin : e.Within arity) (hfinite : e.Finite) {rest : List Char} {ts : List Token}
    (hrest : Token.Stops rest) (h : Token.Scans false rest ts) :
    Token.Scans true ((e.textWith argument).toList ++ rest) (e.tokensWith argument ++ ts) := by
  induction e generalizing rest ts with
  | number value => exact Token.scans_number hfinite hrest h
  | argument index =>
      have hname := Token.scans_name true (hargument index hwithin) hrest h
      rwa [String.ofList_toList] at hname
  | binary op lhs rhs ihl ihr =>
      have hclosing := Token.scans_closing false h
      have hright := ihr hwithin.2 hfinite.2 (Token.stops_closing rest) hclosing
      have hleft := ihl hwithin.1 hfinite.1 (Token.stops_symbol op _) (Token.scans_op op hright)
      rw [toList_textWith_binary]
      simpa [tokensWith] using Token.scans_opening true hleft

theorem scan_textWith (hargument : ∀ i < arity, Identifier (argument i).toList) {e : Expr}
    (hwithin : e.Within arity) (hfinite : e.Finite) :
    ∃ tokens, Token.scan (e.textWith argument).toList = .ok tokens ∧
      tokens.map Lexeme.token = e.tokensWith argument := by
  have hscans := scans_textWith hargument hwithin hfinite Token.stops_nil (.nil false)
  rw [List.append_nil, List.append_nil] at hscans
  exact hscans 0

theorem close_pair (x y : Expr) (op : Op) : Level.close ⟨[x, y], [op]⟩ = .ok (.binary op x y) := by
  refine Level.close_eq_ok_iff.mpr ⟨x, [y], rfl, rfl, ?_⟩
  have htightest : tightest [(op, y)] = 0 := by simp [tightest]
  simp [reduce, htightest, contract]

/-- The tokens of an expression add it to what a level has collected. -/
theorem Collects.tokensWith {params : List String}
    (hargument : ∀ i < arity, params.idxOf? (argument i) = some i) {e : Expr}
    (hwithin : e.Within arity) {ts : List Token} {level : Level} (h : Collects params ts level) :
    Collects params (ts ++ e.tokensWith argument) (level.push e) := by
  induction e generalizing ts level with
  | number value => exact h.number value
  | argument index => exact h.name (hargument index hwithin)
  | binary op lhs rhs ihl ihr =>
      have hinner := ihr hwithin.2 ((ihl hwithin.1 .nil).op op Nat.one_pos)
      simpa [Expr.tokensWith] using h.group hinner (close_pair lhs rhs op)

theorem ofTokens_tokensWith {params : List String}
    (hargument : ∀ i < arity, params.idxOf? (argument i) = some i) {e : Expr}
    (hwithin : e.Within arity) {tokens : List Lexeme}
    (htokens : tokens.map Lexeme.token = e.tokensWith argument) :
    ofTokens params tokens = .ok e := by
  refine ofTokens_eq_ok_iff.mpr ⟨_, htokens ▸ Collects.tokensWith hargument hwithin .nil, ?_⟩
  exact Level.close_eq_ok_iff.mpr ⟨e, [], rfl, rfl, by rw [List.zip_nil_right, reduce]⟩

/-! ## Names in place of arguments -/

/-- A text with names in the places of numbered arguments. -/
def withNames (names : List String) : List Char → List Char
  | [] => []
  | '$' :: digit :: rest =>
    (names.getD (digit.toNat - '0'.toNat) "").toList ++ withNames names rest
  | c :: rest => c :: withNames names rest

theorem withNames_cons (names : List String) {c : Char} (hc : c ≠ '$') (rest : List Char) :
    withNames names (c :: rest) = c :: withNames names rest := by
  rw [withNames]
  exact fun digit tail hdollar _ => hc hdollar

theorem withNames_append (names : List String) {cs : List Char} (h : '$' ∉ cs)
    (rest : List Char) : withNames names (cs ++ rest) = cs ++ withNames names rest := by
  induction cs with
  | nil => rfl
  | cons c cs ih =>
      simp only [List.mem_cons, not_or] at h
      rw [List.cons_append, withNames_cons names (Ne.symm h.1), ih h.2, List.cons_append]

theorem not_mem_plain {x : Float32} (hx : x.isFinite) : '$' ∉ (Decimal.plain x).toList := by
  have hscans := Token.scans_number hx Token.stops_nil (.nil false)
  rw [List.append_nil] at hscans
  obtain ⟨_, hscan, _⟩ := hscans 0
  exact fun hmem => absurd (Token.scanFrom_isPart hscan _ hmem) (by decide)

/-- Arguments are numbered with one digit as long as there are no more than ten. -/
theorem withNames_text {names : List String} (hmost : names.length ≤ 10) {e : Expr}
    (hwithin : e.Within names.length) (hfinite : e.Finite) (rest : List Char) :
    withNames names (e.text.toList ++ rest) =
      (e.textWith fun index => names.getD index "").toList ++ withNames names rest := by
  induction e generalizing rest with
  | number value => exact withNames_append names (not_mem_plain hfinite) rest
  | argument index =>
      have hindex : index < 10 := Nat.lt_of_lt_of_le hwithin hmost
      have htext : (text (.argument index)).toList = ['$', index.digitChar] := by
        change ("$" ++ index.repr).toList = _
        rw [String.toList_append, Nat.toList_repr, Nat.toDigits_of_lt_base hindex]
        rfl
      rw [htext, List.cons_append, List.cons_append, withNames, List.nil_append]
      change (names.getD (index.digitChar.toNat - 48) "").toList ++ _ = _
      rw [Nat.toNat_digitChar_sub_48_of_lt_ten hindex, textWith]
  | binary op lhs rhs ihl ihr =>
      have hop : op.symbol ≠ '$' := by cases op <;> decide
      calc
        withNames names ((binary op lhs rhs).text.toList ++ rest) = withNames names
            ('(' :: (lhs.text.toList ++ op.symbol :: (rhs.text.toList ++ ')' :: rest))) := by
          rw [text, toList_textWith_binary]
          simp [text]
        _ = '(' :: ((lhs.textWith fun index => names.getD index "").toList ++ op.symbol ::
            ((rhs.textWith fun index => names.getD index "").toList ++ ')' ::
              withNames names rest)) := by
          rw [withNames_cons names (by decide), ihl hwithin.1 hfinite.1,
            withNames_cons names hop, ihr hwithin.2 hfinite.2, withNames_cons names (by decide)]
        _ = ((binary op lhs rhs).textWith fun index => names.getD index "").toList ++
            withNames names rest := by
          rw [toList_textWith_binary]
          simp

end Expr

namespace Token

theorem not_isBlank_of_isPart {c : Char} (h : isPart c) : Text.isBlank c = false := by
  have hbounds := bounds_of_isPart h
  simp only [Text.isBlank]
  grind

end Token

namespace Function

/-- The definition that is printed for an expression over named parameters. -/
def printed (names : List String) (e : Expr) : List Char :=
  frame ([','].intercalate (names.map String.toList)) (Expr.withNames names e.text.toList)

section Names

variable {names : List String}

theorem parameters_joined (hnames : ∀ name ∈ names, Identifier name.toList)
    (hnodup : names.Nodup) :
    parameters ([','].intercalate (names.map String.toList)) = .ok names := by
  have hsame : (names.map String.toList).map String.ofList = names := by simp
  cases names with
  | nil => rfl
  | cons name others =>
      refine ((parameters_joined_iff (by simp)).mpr ⟨?_, hnodup, hsame.symm⟩).1
      exact List.forall_mem_map.mpr hnames

theorem mem_joined (hnames : ∀ name ∈ names, Identifier name.toList) {c : Char}
    (hc : c ∈ [','].intercalate (names.map String.toList)) : c = ',' ∨ Token.isNamePart c := by
  rcases Text.mem_intercalate hc with hcomma | ⟨part, hpart, hmem⟩
  · exact .inl hcomma
  · obtain ⟨name, hname, rfl⟩ := List.mem_map.mp hpart
    exact .inr ((hnames name hname).isNamePart c hmem)

end Names

theorem not_isBlank_of_mem_frame {list body : List Char}
    (hlist : ∀ c ∈ list, Text.isBlank c = false) (hbody : ∀ c ∈ body, Text.isBlank c = false) :
    ∀ c ∈ frame list body, Text.isBlank c = false := by
  intro c hc
  simp only [frame, List.mem_cons, List.mem_append, List.not_mem_nil, or_false] at hc
  rcases hc with rfl | hc | rfl | rfl | hc | rfl
  · rfl
  · exact hlist c hc
  · rfl
  · rfl
  · exact hbody c hc
  · rfl

/-- What is printed for an expression compiles to the expression again, number for number, however
its arguments are named and wherever blanks are put in. -/
theorem compile_printed (names : List String) (e : Expr) (definition : String)
    (hmost : names.length ≤ maxArity) (hnames : ∀ name ∈ names, Identifier name.toList)
    (hnodup : names.Nodup) (hwithin : e.Within names.length) (hfinite : e.Finite)
    (hspaced : Text.Spaced (printed names e) definition.toList) :
    compile names.length definition =
      .ok ⟨names.length, .ofList (printed names e), e⟩ := by
  have hargument : ∀ i < names.length, Identifier (names.getD i "").toList := by
    intro i hi
    rw [List.getD_eq_getElem names "" hi]
    exact hnames _ (List.getElem_mem hi)
  have hindex : ∀ i < names.length, names.idxOf? (names.getD i "") = some i := by
    intro i hi
    rw [Expr.idxOf?_eq_some_iff_getElem? hnodup, List.getD_eq_getElem names "" hi]
    exact List.getElem?_eq_getElem hi
  obtain ⟨tokens, htokens, htree⟩ := Expr.scan_textWith hargument hwithin hfinite
  have hbody := Expr.withNames_text (hmost.trans (by decide)) hwithin hfinite []
  rw [Expr.withNames, List.append_nil, List.append_nil] at hbody
  rw [← hbody] at htokens
  have hlist : ∀ c ∈ [','].intercalate (names.map String.toList), Text.isBlank c = false := by
    intro c hc
    rcases mem_joined hnames hc with rfl | hpart
    · rfl
    · exact Token.not_isBlank_of_isPart (Token.isPart_of_isNamePart hpart)
  have hsource : Text.dropBlanks definition.toList = printed names e :=
    hspaced.dropBlanks_eq (not_isBlank_of_mem_frame hlist fun c hc =>
      Token.not_isBlank_of_isPart (Token.scan_isPart htokens c hc))
  have hclose : ')' ∉ [','].intercalate (names.map String.toList) := by
    intro hmem
    exact absurd (mem_joined hnames hmem) (by decide)
  have hne : Expr.withNames names e.text.toList ≠ [] := by
    intro hnil
    rw [hnil, Token.scan, Token.scanFrom] at htokens
    cases htokens
    cases e <;> cases htree
  refine compile_eq_ok_iff.mpr ⟨rfl, by rw [hsource], names, tokens,
    ⟨hmost, rfl, _, _, ?_, parameters_joined hnames hnodup, htokens⟩,
    Expr.ofTokens_tokensWith hindex hwithin htree⟩
  rw [hsource, printed, cutDefinition_frame hclose hne]

/-- Negative numbers after a minus and at the start of a group, and a negative zero. -/
theorem compile_printed_signed_numbers :
    let names := ["x", "a_1", "b2"]
    let e : Expr := .binary .sub (.argument 1) (.binary .sub (.number (-0.25))
      (.binary .pow (.number (-0.0)) (.binary .mul (.argument 2) (.number 1.5e-3))))
    let definition := " ( x,a _1,\tb2 ) \x7b (a_1- (- 0.25-(-0^\n(b2*0.00 15)))) \x7d "
    (names.length ≤ maxArity ∧ (∀ name ∈ names, Identifier name.toList) ∧ names.Nodup ∧
      e.Within names.length ∧ e.Finite ∧ Text.Spaced (printed names e) definition.toList) ∧
    compile 3 definition =
      .ok ⟨3, "(x,a_1,b2)\x7b(a_1-(-0.25-(-0^(b2*0.0015))))\x7d", e⟩ := by
  intro names e definition
  have hmost : names.length ≤ maxArity := by decide
  have hnames : ∀ name ∈ names, Identifier name.toList := by
    intro name hname
    refine Token.isName_iff.mp ?_
    revert name
    decide
  have hnodup : names.Nodup := by decide
  have hwithin : e.Within names.length := by simp [e, names, Expr.Within]
  have hquarter : (-0.25 : Float32).isFinite := by decide +kernel
  have hzero : (-0.0 : Float32).isFinite := by decide +kernel
  have hsmall : (1.5e-3 : Float32).isFinite := by decide +kernel
  have hfinite : e.Finite := ⟨trivial, hquarter, hzero, trivial, hsmall⟩
  have htext : printed names e =
      "(x,a_1,b2)\x7b(a_1-(-0.25-(-0^(b2*0.0015))))\x7d".toList := by decide +kernel
  have hblanks : Text.dropBlanks definition.toList = printed names e := by decide +kernel
  have hspaced : Text.Spaced (printed names e) definition.toList :=
    hblanks ▸ Text.spaced_dropBlanks definition.toList
  have hcompile := compile_printed names e definition hmost hnames hnodup hwithin hfinite hspaced
  rw [htext, String.ofList_toList] at hcompile
  exact ⟨⟨hmost, hnames, hnodup, hwithin, hfinite, hspaced⟩, hcompile⟩

end Function

end Patchbay
