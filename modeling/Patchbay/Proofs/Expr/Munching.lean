import Patchbay.Proofs.Decimal.Grammar
import Patchbay.Proofs.Expr.Definition

/-! # The longest token

A name or a number is cut off as far as it goes.  A letter e behind a number belongs to it only when
an exponent follows, and a sign in front only where an operand is due. -/

namespace Patchbay

/-- The text of a number without a sign. -/
def Decimal.Magnitude (cs : List Char) : Prop :=
  ∃ fixed whole fraction tail exponent, cs = fixed ++ tail ∧ FixedPart fixed whole fraction ∧
    ExponentPart tail exponent

namespace Token

open Decimal (FixedPart ExponentPart SignPart Magnitude Numeral)

/-- The longest text of some form at the front. -/
structure Longest (P : List Char → Prop) (cs text : List Char) : Prop where
  isPrefix : text <+: cs
  holds : P text
  greatest : ∀ other, other <+: cs → P other → other.length ≤ text.length

theorem prefix_takeWhile {p : Char → Bool} {front cs : List Char} (h : front <+: cs)
    (hp : ∀ c ∈ front, p c) : front <+: cs.takeWhile p := by
  obtain ⟨rest, rfl⟩ := h
  rw [List.takeWhile_append_of_pos hp]
  exact List.prefix_append _ _

/-! ## Names -/

theorem longest_cutName {first : Char} (rest : List Char) (hfirst : first.isAlpha) :
    Longest Identifier (first :: rest) (cutName (first :: rest)) := by
  have hcut : cutName (first :: rest) = first :: rest.takeWhile isNamePart := if_pos hfirst
  refine ⟨(isCut_cutName _).isPrefix, ?_, ?_⟩
  · rw [hcut]
    exact ⟨first, _, rfl, hfirst, fun c hc => by simpa [isNamePart] using List.mem_takeWhile_imp hc⟩
  · rintro other hother ⟨first', tail, rfl, -, htail⟩
    obtain ⟨rfl, hfront⟩ := List.cons_prefix_cons.mp hother
    rw [hcut]
    exact Nat.succ_le_succ
      (prefix_takeWhile hfront fun c hc => by simpa [isNamePart] using htail c hc).length_le

/-! ## Exponents -/

theorem exists_exponentPart_cutExponent (cs : List Char) :
    ∃ e, ExponentPart (cutExponent cs) e := by
  have hdigits {cs : List Char} : ∀ c ∈ cs.takeWhile Char.isDigit, c.isDigit :=
    fun c => List.mem_takeWhile_imp
  cases cs with
  | nil => exact ⟨0, .none⟩
  | cons letter rest =>
      cases rest with
      | nil => exact ⟨0, by simpa [cutExponent] using ExponentPart.none⟩
      | cons s digits =>
          by_cases hs : s = '+' ∨ s = '-'
          · have hsign : ∃ negative, SignPart [s] negative := by
              rcases hs with rfl | rfl
              · exact ⟨_, .plus⟩
              · exact ⟨_, .minus⟩
            obtain ⟨negative, hsign⟩ := hsign
            simp only [cutExponent, hs, if_true]
            split
            next h => exact ⟨_, .some h.1 hsign h.2 hdigits⟩
            next => exact ⟨0, .none⟩
          · simp only [cutExponent, hs, if_false]
            split
            next h => exact ⟨_, .some h.1 .none h.2 hdigits⟩
            next => exact ⟨0, .none⟩

theorem ExponentPart.prefix_cutExponent {cs text : List Char} {e : ℤ} (h : ExponentPart text e)
    (hfront : text <+: cs) : text <+: cutExponent cs := by
  obtain ⟨rest, rfl⟩ := hfront
  cases h with
  | none => exact List.nil_prefix
  | @some letter sign digits negative hletter hsign hne hdigits =>
      obtain ⟨d, more, rfl⟩ := List.exists_cons_of_ne_nil hne
      have htake : (d :: more ++ rest).takeWhile Char.isDigit =
          d :: more ++ rest.takeWhile Char.isDigit := List.takeWhile_append_of_pos hdigits
      have hunsigned : ¬ (d = '+' ∨ d = '-') := by
        rintro (rfl | rfl) <;> exact absurd (hdigits _ List.mem_cons_self) (by decide)
      cases hsign <;> simp_all [cutExponent]

/-! ## Numbers -/

theorem startsNumber_of_isDigit {c : Char} (h : c.isDigit) (rest : List Char) :
    startsNumber (c :: rest) := by
  rw [startsNumber_cons]
  · exact h
  · rintro rfl
    cases h

theorem FixedPart.startsNumber {fixed whole fraction : List Char}
    (h : FixedPart fixed whole fraction) (rest : List Char) : startsNumber (fixed ++ rest) := by
  cases h with
  | whole hne hwhole =>
      obtain ⟨c, more, rfl⟩ := List.exists_cons_of_ne_nil hne
      exact startsNumber_of_isDigit (hwhole c List.mem_cons_self) _
  | @pointed whole fraction hne hwhole hfraction =>
      cases whole with
      | cons c more => exact startsNumber_of_isDigit (hwhole c List.mem_cons_self) _
      | nil =>
          obtain ⟨c, more, rfl⟩ := List.exists_cons_of_ne_nil (hne.resolve_left (absurd rfl))
          exact hfraction c List.mem_cons_self

theorem exists_fixedPart_cutDigits {cs : List Char} (h : startsNumber cs) :
    ∃ whole fraction, FixedPart (cutDigits cs) whole fraction := by
  have hdigits {cs : List Char} : ∀ c ∈ cs.takeWhile Char.isDigit, c.isDigit :=
    fun c => List.mem_takeWhile_imp
  have hfront : cs.takeWhile Char.isDigit = [] → ∃ c rest, cs = '.' :: c :: rest ∧ c.isDigit := by
    intro hnil
    unfold Token.startsNumber at h
    split at h
    next c rest => exact ⟨c, rest, rfl, h⟩
    next c rest _ => simp [h] at hnil
    next => cases h
  simp only [cutDigits]
  split
  next rest hrest =>
    refine ⟨_, _, .pointed ?_ hdigits hdigits⟩
    by_contra! hnone
    obtain ⟨c, more, rfl, hc⟩ := hfront hnone.1
    obtain rfl : rest = c :: more := (List.cons.inj hrest).2.symm
    simp [hc] at hnone
  next hpoint =>
    refine ⟨_, _, .whole ?_ hdigits⟩
    intro hnone
    obtain ⟨c, more, rfl, -⟩ := hfront hnone
    exact hpoint _ rfl

theorem magnitude_cutNumber {cs : List Char} (h : startsNumber cs) : Magnitude (cutNumber cs) := by
  obtain ⟨whole, fraction, hfixed⟩ := exists_fixedPart_cutDigits h
  obtain ⟨exponent, htail⟩ := exists_exponentPart_cutExponent (cs.drop (cutDigits cs).length)
  exact ⟨_, whole, fraction, _, exponent, rfl, hfixed, htail⟩

theorem startsNumber_iff {cs : List Char} :
    startsNumber cs ↔ ∃ number, number <+: cs ∧ Magnitude number := by
  constructor
  · exact fun h => ⟨_, (isCut_cutNumber cs).isPrefix, magnitude_cutNumber h⟩
  · rintro ⟨_, ⟨rest, rfl⟩, fixed, whole, fraction, tail, -, rfl, hfixed, -⟩
    rw [List.append_assoc]
    exact FixedPart.startsNumber hfixed _

theorem FixedPart.prefix_cutDigits {fixed whole fraction : List Char}
    (h : FixedPart fixed whole fraction) (rest : List Char) :
    fixed <+: cutDigits (fixed ++ rest) := by
  cases h with
  | whole hne hwhole =>
      refine (prefix_takeWhile (List.prefix_append fixed rest) hwhole).trans ?_
      simp only [cutDigits]
      split
      · exact List.prefix_append _ _
      · exact List.prefix_rfl
  | @pointed whole fraction hne hwhole hfraction =>
      obtain ⟨htake, hdrop⟩ := Decimal.takeWhile_digits hwhole ('.' :: (fraction ++ rest)) (by simp)
      have hfront := prefix_takeWhile (List.prefix_append fraction rest) hfraction
      simpa [cutDigits, htake, hdrop] using hfront

/-- Before an exponent, the digits end where it begins. -/
theorem FixedPart.cutDigits_eq {fixed whole fraction tail : List Char}
    (h : FixedPart fixed whole fraction) (htail : Decimal.Undigited tail)
    (hpoint : ∀ c ∈ tail.head?, c ≠ '.') : cutDigits (fixed ++ tail) = fixed := by
  cases h with
  | whole hne hwhole =>
      obtain ⟨htake, hdrop⟩ := Decimal.takeWhile_digits hwhole tail htail
      simp only [cutDigits, htake, hdrop]
      split
      next rest => exact absurd rfl (hpoint '.' rfl)
      next => rfl
  | @pointed whole fraction hne hwhole hfraction =>
      obtain ⟨htake, hdrop⟩ := Decimal.takeWhile_digits hwhole ('.' :: (fraction ++ tail)) (by simp)
      obtain ⟨htake', -⟩ := Decimal.takeWhile_digits hfraction tail htail
      simp [cutDigits, htake, hdrop, htake']

theorem prefix_cutNumber {cs number : List Char} (h : Magnitude number) (hfront : number <+: cs) :
    number <+: cutNumber cs := by
  obtain ⟨fixed, whole, fraction, tail, exponent, rfl, hfixed, htail⟩ := h
  obtain ⟨rest, rfl⟩ := hfront
  rw [List.append_assoc]
  cases htail with
  | none =>
      rw [List.append_nil, List.nil_append]
      exact (FixedPart.prefix_cutDigits hfixed rest).trans (List.prefix_append _ _)
  | @some letter sign digits negative hletter hsign hne hdigits =>
      obtain ⟨hundigited, hpoint⟩ :=
        (Decimal.ExponentPart.some hletter hsign hne hdigits).head
      have hcut : cutDigits (fixed ++ (letter :: (sign ++ digits) ++ rest)) = fixed :=
        FixedPart.cutDigits_eq hfixed hundigited hpoint
      unfold cutNumber
      dsimp only
      rw [hcut, List.drop_left]
      exact (List.prefix_append_right_inj fixed).mpr
        (ExponentPart.prefix_cutExponent (.some hletter hsign hne hdigits) (List.prefix_append _ _))

theorem longest_cutNumber {cs : List Char} (h : startsNumber cs) :
    Longest Magnitude cs (cutNumber cs) :=
  ⟨(isCut_cutNumber cs).isPrefix, magnitude_cutNumber h,
    fun _ hother hmagnitude => (prefix_cutNumber hmagnitude hother).length_le⟩

end Token

end Patchbay
