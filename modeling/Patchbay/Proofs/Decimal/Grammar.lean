import Patchbay.Proofs.Decimal.ReadBack
import Patchbay.Proofs.Text.Folding

/-! # The grammar of numbers

A number in a text is an optional sign and then digits with an optional point and an optional
exponent, or the name of an infinity or of NaN.  Reading accepts these texts and no others. -/

namespace Patchbay.Decimal

/-! ## Grammar -/

/-- An optional sign; true for a minus. -/
inductive SignPart : List Char → Bool → Prop
  | none : SignPart [] false
  | plus : SignPart ['+'] false
  | minus : SignPart ['-'] true

/-- Digits, and maybe a point before, among or behind them. -/
inductive FixedPart : List Char → (whole fraction : List Char) → Prop
  | whole {whole : List Char} (hne : whole ≠ []) (hwhole : ∀ c ∈ whole, c.isDigit) :
      FixedPart whole whole []
  | pointed {whole fraction : List Char} (hne : whole ≠ [] ∨ fraction ≠ [])
      (hwhole : ∀ c ∈ whole, c.isDigit) (hfraction : ∀ c ∈ fraction, c.isDigit) :
      FixedPart (whole ++ '.' :: fraction) whole fraction

/-- Nothing, or the letter e and an integer. -/
inductive ExponentPart : List Char → ℤ → Prop
  | none : ExponentPart [] 0
  | some {letter : Char} {sign digits : List Char} {negative : Bool}
      (hletter : letter = 'e' ∨ letter = 'E') (hsign : SignPart sign negative) (hne : digits ≠ [])
      (hdigits : ∀ c ∈ digits, c.isDigit) :
      ExponentPart (letter :: (sign ++ digits))
        (if negative then -natOfDigits digits else natOfDigits digits)

/-- A name of an infinity or of NaN, in letters of any case. -/
inductive NamePart : List Char → Float32 → Prop
  | infinity {word : List Char}
      (hword : word.map Char.toLower = "inf".toList ∨ word.map Char.toLower = "infinity".toList) :
      NamePart word (1.0 / 0.0)
  | nan {word : List Char} (hword : word.map Char.toLower = "nan".toList) :
      NamePart word (0.0 / 0.0)

/-- The text of a number, and the number. -/
inductive Numeral : List Char → Float32 → Prop
  | decimal {sign fixed whole fraction tail : List Char} {negative : Bool} {exponent : ℤ}
      (hsign : SignPart sign negative) (hfixed : FixedPart fixed whole fraction)
      (htail : ExponentPart tail exponent) :
      Numeral (sign ++ (fixed ++ tail))
        (Literal.single ⟨negative, natOfDigits (whole ++ fraction), exponent - fraction.length⟩)
  | named {sign word : List Char} {negative : Bool} {x : Float32} (hsign : SignPart sign negative)
      (hword : NamePart word x) : Numeral (sign ++ word) (if negative then -x else x)

/-! ## Signs -/

variable {cs rest digits : List Char} {negative : Bool} {x : Float32}

theorem exists_signPart (cs : List Char) :
    ∃ sign, SignPart sign (splitSign cs).1 ∧ cs = sign ++ (splitSign cs).2 := by
  unfold splitSign
  split
  next rest => exact ⟨_, .minus, rfl⟩
  next rest => exact ⟨_, .plus, rfl⟩
  next => exact ⟨_, .none, rfl⟩

/-- What has no sign in front. -/
def Unsigned (cs : List Char) : Prop := ∀ c ∈ cs.head?, c ≠ '-' ∧ c ≠ '+'

theorem SignPart.split {sign : List Char} (h : SignPart sign negative) (hrest : Unsigned rest) :
    splitSign (sign ++ rest) = (negative, rest) := by
  cases h with
  | plus | minus => rfl
  | none =>
      cases rest with
      | nil => rfl
      | cons c rest =>
          obtain ⟨hminus, hplus⟩ := hrest c rfl
          unfold splitSign
          split <;> simp_all

theorem unsigned_of_isDigit (hdigits : ∀ c ∈ digits, c.isDigit) : Unsigned digits := by
  intro c hc
  have hdigit := hdigits c (List.mem_of_mem_head? hc)
  constructor
  · rintro rfl
    cases hdigit
  · rintro rfl
    cases hdigit

/-! ## Exponents -/

theorem exponentOf_eq_some_iff {e : ℤ} : exponentOf cs = some e ↔ ExponentPart cs e := by
  constructor
  · intro h
    cases cs with
    | nil =>
        cases h
        exact .none
    | cons letter rest =>
        obtain ⟨sign, hsign, hrest⟩ := exists_signPart rest
        simp only [exponentOf, Option.ite_none_right_eq_some] at h
        obtain ⟨⟨hletter, hne, hdigits⟩, h⟩ := h
        rw [hrest, ← Option.some.inj h]
        exact .some hletter hsign hne (List.all_eq_true.mp hdigits)
  · intro h
    cases h with
    | none => rfl
    | some hletter hsign hne hdigits =>
        simp only [exponentOf, hsign.split (unsigned_of_isDigit hdigits)]
        rw [if_pos ⟨hletter, hne, List.all_eq_true.mpr hdigits⟩]

/-- What has no digit in front. -/
def Undigited (cs : List Char) : Prop := ∀ c ∈ cs.head?, c.isDigit = false

theorem undigited_dropWhile (cs : List Char) : Undigited (cs.dropWhile Char.isDigit) := by
  intro c hc
  have hhead := List.head?_dropWhile_not Char.isDigit cs
  rw [hc] at hhead
  exact hhead

theorem ExponentPart.head {e : ℤ} (h : ExponentPart cs e) :
    Undigited cs ∧ ∀ c ∈ cs.head?, c ≠ '.' := by
  cases h with
  | none => simp [Undigited]
  | some hletter =>
      constructor <;> rintro c ⟨⟩ <;> rcases hletter with rfl | rfl <;> decide

/-! ## Decimals -/

section

variable {whole fraction tail : List Char}

theorem magnitudeOf_whole (hwhole : ∀ c ∈ whole, c.isDigit) (htail : Undigited tail)
    (hpoint : ∀ c ∈ tail.head?, c ≠ '.') :
    magnitudeOf negative (whole ++ tail) =
      if whole = [] then none
      else (exponentOf tail).map fun e => ⟨negative, natOfDigits whole, e⟩ := by
  obtain ⟨htake, hdrop⟩ := takeWhile_digits hwhole tail htail
  unfold magnitudeOf
  rw [htake, hdrop]
  cases tail with
  | nil => simp
  | cons c rest =>
      have hc : c ≠ '.' := hpoint c rfl
      simp [hc]

theorem magnitudeOf_fraction (hwhole : ∀ c ∈ whole, c.isDigit)
    (hfraction : ∀ c ∈ fraction, c.isDigit) (htail : Undigited tail) :
    magnitudeOf negative (whole ++ '.' :: (fraction ++ tail)) =
      if whole = [] ∧ fraction = [] then none
      else (exponentOf tail).map fun e =>
        ⟨negative, natOfDigits (whole ++ fraction), e - fraction.length⟩ := by
  obtain ⟨htake, hdrop⟩ := takeWhile_digits hwhole ('.' :: (fraction ++ tail)) (by simp)
  obtain ⟨htake', hdrop'⟩ := takeWhile_digits hfraction tail htail
  unfold magnitudeOf
  rw [htake, hdrop]
  simp [htake', hdrop']

end

theorem magnitudeOf_eq_some_iff {l : Literal} : magnitudeOf negative cs = some l ↔
    ∃ fixed whole fraction tail exponent, cs = fixed ++ tail ∧ FixedPart fixed whole fraction ∧
      ExponentPart tail exponent ∧
      l = ⟨negative, natOfDigits (whole ++ fraction), exponent - fraction.length⟩ := by
  constructor
  · intro h
    have hwhole : ∀ c ∈ cs.takeWhile Char.isDigit, c.isDigit := fun c => List.mem_takeWhile_imp
    have htail := undigited_dropWhile cs
    rw [← List.takeWhile_append_dropWhile (p := Char.isDigit) (l := cs)] at h ⊢
    generalize cs.takeWhile Char.isDigit = whole at *
    generalize cs.dropWhile Char.isDigit = tail at *
    by_cases hpoint : ∃ rest, tail = '.' :: rest
    · obtain ⟨rest, rfl⟩ := hpoint
      have hfraction : ∀ c ∈ rest.takeWhile Char.isDigit, c.isDigit :=
        fun c => List.mem_takeWhile_imp
      have hrest := undigited_dropWhile rest
      rw [← List.takeWhile_append_dropWhile (p := Char.isDigit) (l := rest),
        magnitudeOf_fraction hwhole hfraction hrest, Option.ite_none_left_eq_some,
        Option.map_eq_some_iff] at h
      obtain ⟨hne, e, he, rfl⟩ := h
      refine ⟨_, whole, _, _, e, ?_, .pointed (by tauto) hwhole hfraction,
        exponentOf_eq_some_iff.mp he, rfl⟩
      rw [List.append_assoc, List.cons_append, List.takeWhile_append_dropWhile]
    · have hplain : ∀ c ∈ tail.head?, c ≠ '.' := by
        rintro c hc rfl
        exact hpoint ⟨_, (List.eq_cons_of_mem_head? hc)⟩
      rw [magnitudeOf_whole hwhole htail hplain, Option.ite_none_left_eq_some,
        Option.map_eq_some_iff] at h
      obtain ⟨hne, e, he, rfl⟩ := h
      exact ⟨whole, whole, [], tail, e, rfl, .whole hne hwhole, exponentOf_eq_some_iff.mp he,
        by simp⟩
  · rintro ⟨fixed, whole, fraction, tail, exponent, rfl, hfixed, htail, rfl⟩
    cases hfixed with
    | whole hne hwhole =>
        rw [magnitudeOf_whole hwhole htail.head.1 htail.head.2, if_neg hne,
          exponentOf_eq_some_iff.mpr htail]
        simp
    | pointed hne hwhole hfraction =>
        rw [List.append_assoc, List.cons_append,
          magnitudeOf_fraction hwhole hfraction htail.head.1, if_neg (by tauto),
          exponentOf_eq_some_iff.mpr htail]
        rfl

theorem FixedPart.head {fixed whole fraction : List Char} (h : FixedPart fixed whole fraction) :
    ∃ c rest, fixed = c :: rest ∧ (c.isDigit ∨ c = '.') := by
  cases h with
  | whole hne hwhole =>
      obtain ⟨c, rest, rfl⟩ := List.exists_cons_of_ne_nil hne
      exact ⟨c, rest, rfl, .inl (hwhole c List.mem_cons_self)⟩
  | @pointed whole _ hne hwhole =>
      cases whole with
      | nil => exact ⟨_, _, rfl, .inr rfl⟩
      | cons c rest => exact ⟨c, _, rfl, .inl (hwhole c List.mem_cons_self)⟩

/-! ## Names -/

theorem named_eq_some_iff : named (cs.map Char.toLower) = some x ↔ NamePart cs x := by
  constructor
  · intro h
    unfold named at h
    split at h
    next hword =>
      cases h
      exact .infinity (.inl hword)
    next hword =>
      cases h
      exact .infinity (.inr hword)
    next hword =>
      cases h
      exact .nan hword
    next => cases h
  · rintro (⟨hword | hword⟩ | ⟨hword⟩) <;> rw [hword] <;> rfl

theorem NamePart.head (h : NamePart cs x) :
    ∃ c rest, cs = c :: rest ∧ (c.toLower = 'i' ∨ c.toLower = 'n') := by
  cases cs with
  | nil => rcases h with ⟨hword | hword⟩ | ⟨hword⟩ <;> exact nomatch hword
  | cons c rest =>
      refine ⟨c, rest, rfl, ?_⟩
      rcases h with ⟨hword | hword⟩ | ⟨hword⟩
      · exact .inl (List.cons.inj hword).1
      · exact .inl (List.cons.inj hword).1
      · exact .inr (List.cons.inj hword).1

/-! ## Numbers -/

theorem toLower_of_isDigit {c : Char} (h : c.isDigit) : c.toLower = c := by
  simp only [Char.isDigit, Bool.and_eq_true, decide_eq_true_eq] at h
  exact dif_neg fun hupper => absurd (UInt32.le_trans hupper.1 h.2) (by decide)

/-- Numbers and names are told apart by their first character, and neither begins with a sign. -/
theorem FixedPart.not_named {fixed whole fraction tail : List Char}
    (h : FixedPart fixed whole fraction) :
    Unsigned (fixed ++ tail) ∧ named ((fixed ++ tail).map Char.toLower) = none := by
  obtain ⟨c, rest, rfl, hc⟩ := h.head
  constructor
  · rintro _ ⟨⟩
    constructor <;> rintro rfl <;> exact absurd hc (by decide)
  · refine Option.eq_none_iff_forall_ne_some.mpr fun x hx => ?_
    obtain ⟨c', rest', heq, hname⟩ := (named_eq_some_iff.mp hx).head
    obtain rfl : c = c' := (List.cons.inj heq).1
    rcases hc with hdigit | rfl
    · rw [toLower_of_isDigit hdigit] at hname
      rcases hname with rfl | rfl <;> cases hdigit
    · exact absurd hname (by decide)

theorem NamePart.unsigned (h : NamePart cs x) : Unsigned cs := by
  obtain ⟨c, rest, rfl, hc⟩ := h.head
  rintro _ ⟨⟩
  constructor <;> rintro rfl <;> exact absurd hc (by decide)

/-- The parts of a decimal are put together to its exact value. -/
theorem read_eq_some {sign fixed whole fraction tail : List Char} {exponent : ℤ}
    (hsign : SignPart sign negative) (hfixed : FixedPart fixed whole fraction)
    (htail : ExponentPart tail exponent) : Literal.read (sign ++ (fixed ++ tail)) =
      some ⟨negative, natOfDigits (whole ++ fraction), exponent - fraction.length⟩ := by
  unfold Literal.read
  rw [hsign.split hfixed.not_named.1]
  exact magnitudeOf_eq_some_iff.mpr ⟨_, _, _, _, _, rfl, hfixed, htail, rfl⟩

theorem readSingle_eq_some_iff : readSingle cs = some x ↔ Numeral cs x := by
  constructor
  · intro h
    obtain ⟨sign, hsign, hcs⟩ := exists_signPart cs
    unfold readSingle Literal.read at h
    generalize splitSign cs = split at h hsign hcs
    obtain ⟨negative, rest⟩ := split
    dsimp only at h hsign hcs
    rw [hcs]
    cases hnamed : named (rest.map Char.toLower) with
    | some y =>
        rw [hnamed] at h
        cases h
        exact .named hsign (named_eq_some_iff.mp hnamed)
    | none =>
        rw [hnamed] at h
        obtain ⟨l, hl, rfl⟩ := Option.map_eq_some_iff.mp h
        obtain ⟨fixed, whole, fraction, tail, exponent, rfl, hfixed, htail, rfl⟩ :=
          magnitudeOf_eq_some_iff.mp hl
        exact .decimal hsign hfixed htail
  · intro h
    cases h with
    | decimal hsign hfixed htail =>
        obtain ⟨hunsigned, hnamed⟩ := hfixed.not_named
        unfold readSingle Literal.read
        rw [hsign.split hunsigned]
        dsimp only
        rw [hnamed, magnitudeOf_eq_some_iff.mpr ⟨_, _, _, _, _, rfl, hfixed, htail, rfl⟩]
        rfl
    | named hsign hword =>
        unfold readSingle
        rw [hsign.split hword.unsigned]
        dsimp only
        rw [named_eq_some_iff.mpr hword]

theorem Positional.exists_fixedPart (h : Positional cs) :
    ∃ whole fraction, FixedPart cs whole fraction := by
  cases h with
  | whole hne hwhole => exact ⟨_, _, .whole hne hwhole⟩
  | pointed hne hwhole hfraction => exact ⟨_, _, .pointed (.inl hne) hwhole hfraction⟩

/-- The plain form of a finite number is a text of that number. -/
theorem numeral_plain (hx : x.isFinite) : Numeral (plain x).toList x := by
  obtain ⟨sign, cs, l, htext, hcs, hread, rfl⟩ := exists_read_plain hx
  obtain ⟨whole, fraction, hfixed⟩ := hcs.exists_fixedPart
  have hsign : SignPart (signText sign) (isMinus sign) := by
    cases sign
    · exact .minus
    · exact .none
  have hnumeral := Numeral.decimal hsign hfixed .none
  rw [List.append_nil] at hnumeral
  rw [read_signed hcs, magnitudeOf_eq_some_iff.mpr
    ⟨cs, whole, fraction, [], 0, (List.append_nil cs).symm, hfixed, .none, rfl⟩] at hread
  obtain rfl := Option.some.inj hread
  exact htext ▸ hnumeral

/-! ## Characters of numbers -/

theorem FixedPart.mem {fixed whole fraction : List Char} (h : FixedPart fixed whole fraction) :
    ∀ c ∈ fixed, c.isDigit ∨ c = '.' := by
  cases h with
  | whole _ hwhole => exact fun c hc => .inl (hwhole c hc)
  | pointed _ hwhole hfraction =>
      intro c hc
      rcases List.mem_append.mp hc with hc | hc
      · exact .inl (hwhole c hc)
      · rcases List.mem_cons.mp hc with rfl | hc
        · exact .inr rfl
        · exact .inl (hfraction c hc)

/-- A number ends in a digit or in its point. -/
theorem getLast?_decimal {sign fixed whole fraction tail : List Char} {exponent : ℤ}
    (hfixed : FixedPart fixed whole fraction) (htail : ExponentPart tail exponent) :
    ∃ c, (sign ++ (fixed ++ tail)).getLast? = some c ∧ (c.isDigit ∨ c = '.') := by
  cases htail with
  | none =>
      obtain ⟨_, _, hcons, -⟩ := hfixed.head
      have hne : fixed ≠ [] := hcons ▸ List.cons_ne_nil _ _
      refine ⟨fixed.getLast hne, ?_, hfixed.mem _ (List.getLast_mem hne)⟩
      rw [List.append_nil, List.getLast?_append_of_ne_nil _ hne, List.getLast?_eq_some_getLast hne]
  | @some letter sign' digits _ _ _ hne hdigits =>
      refine ⟨digits.getLast hne, ?_, .inl (hdigits _ (List.getLast_mem hne))⟩
      rw [← List.append_assoc, ← List.cons_append, ← List.append_assoc,
        List.getLast?_append_of_ne_nil _ hne, List.getLast?_eq_some_getLast hne]

theorem not_isBlank_of_isDigit {c : Char} (h : c.isDigit) : Text.isBlank c = false := by
  simp only [Char.isDigit, Bool.and_eq_true, decide_eq_true_eq] at h
  have hlow : 48 ≤ c.toNat := UInt32.le_iff_toNat_le.mp h.1
  have hhigh : c.toNat ≤ 57 := UInt32.le_iff_toNat_le.mp h.2
  exact Text.not_isBlank_of_visible (by omega) (by omega)

theorem SignPart.not_isBlank {sign : List Char} (h : SignPart sign negative) :
    ∀ c ∈ sign, Text.isBlank c = false := by
  cases h with
  | none => exact fun c hc => absurd hc List.not_mem_nil
  | plus | minus =>
      rw [List.forall_mem_singleton]
      decide

theorem ExponentPart.not_isBlank {e : ℤ} (h : ExponentPart cs e) :
    ∀ c ∈ cs, Text.isBlank c = false := by
  cases h with
  | none => exact fun c hc => absurd hc List.not_mem_nil
  | some hletter hsign _ hdigits =>
      intro c hc
      rcases List.mem_cons.mp hc with rfl | hc
      · rcases hletter with rfl | rfl <;> decide
      · rcases List.mem_append.mp hc with hc | hc
        · exact hsign.not_isBlank c hc
        · exact not_isBlank_of_isDigit (hdigits c hc)

theorem not_isBlank_decimal {sign fixed whole fraction tail : List Char} {exponent : ℤ}
    (hsign : SignPart sign negative) (hfixed : FixedPart fixed whole fraction)
    (htail : ExponentPart tail exponent) :
    ∀ c ∈ sign ++ (fixed ++ tail), Text.isBlank c = false := by
  intro c hc
  rcases List.mem_append.mp hc with hc | hc
  · exact hsign.not_isBlank c hc
  · rcases List.mem_append.mp hc with hc | hc
    · rcases hfixed.mem c hc with hdigit | rfl
      · exact not_isBlank_of_isDigit hdigit
      · decide
    · exact htail.not_isBlank c hc

end Patchbay.Decimal
