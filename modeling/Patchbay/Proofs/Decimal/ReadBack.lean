import Mathlib.Data.List.TakeWhile
import Patchbay.Decimal.Literal
import Patchbay.Decimal.Text
import Patchbay.Proofs.Decimal.Shortest
import Patchbay.Proofs.Single.Values

/-! # Reading back what is written

The plain form of a finite number is an optional minus, digits, and an optional point with digits
after it.  Read as a literal, it is the same number again, bit for bit. -/

namespace Patchbay.Decimal

open Float.Model.UnpackedFloat (Sign)
open Single (Representable Rounds packed scaled)

/-! ## The form of the text -/

/-- Digits, and then nothing or a point and digits. -/
inductive Positional : List Char → Prop
  | whole {whole : List Char} (hne : whole ≠ []) (hwhole : ∀ c ∈ whole, c.isDigit) :
      Positional whole
  | pointed {whole fraction : List Char} (hne : whole ≠ []) (hwhole : ∀ c ∈ whole, c.isDigit)
      (hfraction : ∀ c ∈ fraction, c.isDigit) : Positional (whole ++ '.' :: fraction)

theorem Positional.exists_digit {cs : List Char} (h : Positional cs) :
    ∃ c rest, cs = c :: rest ∧ c.isDigit := by
  cases h with
  | whole hne hwhole =>
      obtain ⟨c, rest, rfl⟩ := List.exists_cons_of_ne_nil hne
      exact ⟨c, rest, rfl, hwhole c List.mem_cons_self⟩
  | pointed hne hwhole _ =>
      obtain ⟨c, rest, rfl⟩ := List.exists_cons_of_ne_nil hne
      exact ⟨c, _, rfl, hwhole c List.mem_cons_self⟩

theorem natOfDigits_eq (cs : List Char) : natOfDigits cs = Nat.ofDigitChars 10 cs 0 :=
  Nat.ofDigitChars_eq_foldl.symm

/-- A number with places is written with that many digits after the point, and at least one before
it; all digits together are the number. -/
theorem pointed_spec (n places : ℕ) :
    ∃ whole fraction : List Char, whole ≠ [] ∧ (∀ c ∈ whole, c.isDigit) ∧
      (∀ c ∈ fraction, c.isDigit) ∧ fraction.length = places ∧
      natOfDigits (whole ++ fraction) = n ∧
      pointed n places = if places = 0 then whole else whole ++ '.' :: fraction := by
  let padded := List.replicate (places + 1 - (digitsOf n).length) '0' ++ digitsOf n
  have hlength : places + 1 ≤ padded.length := by
    simp only [padded, List.length_append, List.length_replicate]
    omega
  have hdigit : ∀ c ∈ padded, c.isDigit := by
    intro c hc
    rcases List.mem_append.mp hc with hc | hc
    · rw [List.eq_of_mem_replicate hc]
      rfl
    · exact Nat.isDigit_of_mem_toDigits (by decide) (by decide) hc
  have hvalue : natOfDigits padded = n := by
    rw [natOfDigits_eq, Nat.ofDigitChars_append, Nat.ofDigitChars_replicate_zero, Nat.mul_zero]
    exact Nat.ofDigitChars_ten_toDigits
  refine ⟨padded.take (padded.length - places), padded.drop (padded.length - places), ?_,
    fun c hc => hdigit c (List.mem_of_mem_take hc),
    fun c hc => hdigit c (List.mem_of_mem_drop hc), ?_, ?_, ?_⟩
  · rw [← List.length_pos_iff, List.length_take]
    omega
  · rw [List.length_drop]
    omega
  · rw [List.take_append_drop]
    exact hvalue
  · by_cases hplaces : places = 0
    · subst hplaces
      rw [if_pos rfl, Nat.sub_zero, List.take_length]
      rfl
    · rw [if_neg hplaces]
      simp only [pointed, if_neg hplaces]
      rfl

theorem positional_pointed (n places : ℕ) : Positional (pointed n places) := by
  obtain ⟨whole, fraction, hne, hwhole, hfraction, _, _, htext⟩ := pointed_spec n places
  rw [htext]
  split
  · exact .whole hne hwhole
  · exact .pointed hne hwhole hfraction

/-! ## Reading -/

/-- Digits are taken up to the first character that is none. -/
theorem takeWhile_digits {whole : List Char} (hwhole : ∀ c ∈ whole, c.isDigit)
    (rest : List Char) (hrest : ∀ c ∈ rest.head?, c.isDigit = false) :
    (whole ++ rest).takeWhile Char.isDigit = whole ∧
      (whole ++ rest).dropWhile Char.isDigit = rest := by
  rw [List.takeWhile_append_of_pos hwhole, List.dropWhile_append_of_pos hwhole]
  cases rest with
  | nil => simp
  | cons c rest =>
      have hc : c.isDigit = false := hrest c rfl
      simp [hc]

theorem magnitudeOf_pointed (negative : Bool) (n places : ℕ) :
    magnitudeOf negative (pointed n places) = some ⟨negative, n, -places⟩ := by
  obtain ⟨whole, fraction, hne, hwhole, hfraction, hlength, hvalue, htext⟩ := pointed_spec n places
  by_cases hplaces : places = 0
  · subst hplaces
    obtain rfl := List.length_eq_zero_iff.mp hlength
    obtain ⟨htake, hdrop⟩ := takeWhile_digits hwhole [] (by simp)
    rw [List.append_nil] at htake hdrop hvalue
    rw [htext, if_pos rfl, magnitudeOf, htake, hdrop]
    simp [hne, exponentOf, hvalue]
  · obtain ⟨htake, hdrop⟩ := takeWhile_digits hwhole ('.' :: fraction) (by simp)
    obtain ⟨htake', hdrop'⟩ := takeWhile_digits hfraction [] (by simp)
    rw [List.append_nil] at htake' hdrop'
    rw [htext, if_neg hplaces, magnitudeOf, htake, hdrop]
    simp [htake', hdrop', hne, exponentOf, hvalue, hlength]

/-- Whether a sign is written as a minus. -/
def isMinus : Sign → Bool
  | .negative => true
  | .positive => false

/-- A sign in front is read as such; digits have none in front. -/
theorem read_signed {cs : List Char} (h : Positional cs) (sign : Sign) :
    Literal.read (signText sign ++ cs) = magnitudeOf (isMinus sign) cs := by
  cases sign with
  | negative => rfl
  | positive =>
      obtain ⟨c, rest, rfl, hc⟩ := h.exists_digit
      have hminus : c ≠ '-' := by
        rintro rfl
        cases hc
      have hplus : c ≠ '+' := by
        rintro rfl
        cases hc
      have hnone : splitSign (c :: rest) = (false, c :: rest) := by
        unfold splitSign
        split <;> simp_all
      change magnitudeOf (splitSign (c :: rest)).1 (splitSign (c :: rest)).2 = _
      rw [hnone]
      rfl

/-! ## Rounding -/

theorem single_zero (sign : Sign) :
    Literal.single ⟨isMinus sign, 0, 0⟩ = packed (.zero sign) := by
  cases sign <;> decide

/-- A literal of moderate size is rounded once. -/
theorem Literal.single_eq_packed {l : Literal} {sign : Sign} {m : ℕ} {e : ℤ}
    (hsign : l.negative = isMinus sign) (hpos : 0 < l.digits)
    (hlow : -256 ≤ l.scale) (hhigh : l.scale ≤ 256) (hm : Representable .binary32 m e)
    (h : Rounds .binary32 .positive (l.digits * 10 ^ l.scale) (scaled .positive m e)) :
    l.single = packed (.finite sign m e hm.pos) := by
  have hscale : (if decide (l.scale < 0) then -(l.scale.natAbs : ℤ) else l.scale.natAbs) =
      l.scale := by
    simp only [decide_eq_true_eq]
    split <;> omega
  have hmagnitude : Float32.ofScientific l.digits (l.scale < 0) l.scale.natAbs =
      packed (.finite .positive m e hm.pos) := by
    rw [← Single.scaled_of_pos hm.pos]
    exact Single.ofScientific_eq_packed hpos (by omega) (by rwa [hscale])
  rw [Literal.single, hmagnitude, hsign]
  cases sign with
  | negative => exact Single.neg_packed hm .positive
  | positive => rfl

/-- Written to its last place, the shortest decimal of a number is read as that number. -/
theorem single_shortest {m : ℕ} {e : ℤ} (hm : Representable .binary32 m e) (sign : Sign) :
    ∃ n places, (shortest .binary32 m e).positional 0 = pointed n places ∧
      Literal.single ⟨isMinus sign, n, -places⟩ = packed (.finite sign m e hm.pos) := by
  have hleast : Float.Model.Format.binary32.minExponent = -149 := by decide
  have howns := owns_shortest hm.pos (hleast ▸ hm.least)
  have hscale := le_scale_shortest m e
  generalize shortest .binary32 m e = d at howns hscale
  have hrounds := Neighbourhood.rounds_of_owns hm.toCanonical howns .positive
  have hdigits := Neighbourhood.pos_of_owns hm.pos howns
  obtain ⟨places, hplaces⟩ : ∃ places, max 0 (-d.scale).toNat = places := ⟨_, rfl⟩
  obtain ⟨more, hmore⟩ : ∃ more : ℕ, d.scale + places = more :=
    Int.eq_ofNat_of_zero_le (by omega)
  have htext : d.positional 0 = pointed (d.digits * 10 ^ more) places := by
    simp only [Scaled.positional, hplaces, hmore, Int.toNat_natCast, Nat.pow_eq]
  have hvalue : ((d.digits * 10 ^ more : ℕ) : ℚ) * 10 ^ (-(places : ℤ)) =
      d.digits * 10 ^ d.scale := by
    have hscale : d.scale = more - places := by omega
    rw [hscale, zpow_sub₀ (by norm_num), zpow_neg, zpow_natCast, zpow_natCast]
    push_cast
    rw [mul_assoc, div_eq_mul_inv]
  refine ⟨_, places, htext, Literal.single_eq_packed rfl ?_ ?_ ?_ hm ?_⟩
  · exact Nat.mul_pos hdigits (Nat.pow_pos (by decide))
  · change -256 ≤ -(places : ℤ)
    omega
  · change -(places : ℤ) ≤ 256
    omega
  · exact hvalue ▸ hrounds

/-- The plain form of a finite number is a sign and digits, and is read back as the number. -/
theorem exists_read_plain {x : Float32} (hx : x.isFinite) :
    ∃ sign cs l, (plain x).toList = signText sign ++ cs ∧ Positional cs ∧
      Literal.read (signText sign ++ cs) = some l ∧ l.single = x := by
  change (Single.view x).isFinite at hx
  have hpacked := Single.packed_view x
  unfold plain plainOf
  cases hview : Single.view x with
  | notANumber =>
      rw [hview] at hx
      cases hx
  | infinity sign =>
      rw [hview] at hx
      cases hx
  | zero sign =>
      rw [hview] at hpacked
      have hzero : Positional ['0'] := .whole (by simp) (by simp)
      exact ⟨sign, ['0'], _, String.toList_ofList, hzero, read_signed hzero sign,
        (single_zero sign).trans hpacked⟩
  | finite sign m e h =>
      rw [hview] at hpacked
      have hm := Single.representable_view hview
      obtain ⟨n, places, htext, hsingle⟩ := single_shortest hm sign
      refine ⟨sign, pointed n places, _, ?_, positional_pointed n places,
        (read_signed (positional_pointed n places) sign).trans (magnitudeOf_pointed _ n places),
        hsingle.trans hpacked⟩
      rw [← htext]
      exact String.toList_ofList

end Patchbay.Decimal
