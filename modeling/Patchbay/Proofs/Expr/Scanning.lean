import Mathlib.Data.List.TakeWhile
import Patchbay.Expr.Token
import Patchbay.Proofs.Outcome

/-! # What the scanner passes over

Each token is cut off the front of the text and consists of the characters of names, numbers,
operators and parentheses; a text that is scanned has no others. -/

namespace Patchbay.Token

open Outcome

/-- The characters that tokens are made of. -/
def isPart (c : Char) : Bool :=
  isNamePart c || c ∈ ['.', '(', ')', '+', '-', '*', '/', '^']

theorem isPart_of_isNamePart {c : Char} (h : isNamePart c) : isPart c := by
  simp [isPart, h]

theorem isPart_of_isDigit {c : Char} (h : c.isDigit) : isPart c :=
  isPart_of_isNamePart (by simp [isNamePart, Char.isAlphanum, h])

theorem isPart_of_isAlpha {c : Char} (h : c.isAlpha) : isPart c :=
  isPart_of_isNamePart (by simp [isNamePart, Char.isAlphanum, h])

theorem not_isAlpha_of_isDigit {c : Char} (h : c.isDigit) : ¬ c.isAlpha := by
  unfold Char.isAlpha Char.isUpper Char.isLower
  simp only [Char.isDigit, Bool.or_eq_true, Bool.and_eq_true, decide_eq_true_eq, ge_iff_le,
    UInt32.le_iff_toNat_le] at h ⊢
  grind

theorem bounds_of_isPart {c : Char} (h : isPart c) : 40 ≤ c.toNat ∧ c.toNat ≤ 122 := by
  rw [isPart, Bool.or_eq_true] at h
  rcases h with h | h
  · -- Letters, digits and the underscore, by their numbers.
    change (((decide (65 ≤ c.val ∧ c.val ≤ 90) || (decide (97 ≤ c.val) && decide (c.val ≤ 122))) ||
      (decide (48 ≤ c.val) && decide (c.val ≤ 57))) || decide (c = '_')) = true at h
    simp only [Bool.or_eq_true, Bool.and_eq_true, decide_eq_true_eq,
      UInt32.le_iff_toNat_le] at h
    change ((((65 ≤ c.toNat ∧ c.toNat ≤ 90) ∨ 97 ≤ c.toNat ∧ c.toNat ≤ 122) ∨
      48 ≤ c.toNat ∧ c.toNat ≤ 57) ∨ c = '_') at h
    rcases h with ((h | h) | h) | rfl
    · omega
    · omega
    · omega
    · decide
  · have hall : ∀ d ∈ ['.', '(', ')', '+', '-', '*', '/', '^'], 40 ≤ d.toNat ∧ d.toNat ≤ 122 := by
      simp
    exact hall c (by simpa using h)

/-- A cut takes characters of tokens off the front. -/
structure IsCut (cs text : List Char) : Prop where
  isPrefix : text <+: cs
  parts : ∀ c ∈ text, isPart c

theorem IsCut.nil (cs : List Char) : IsCut cs [] := ⟨List.nil_prefix, by simp⟩

theorem IsCut.cons {c : Char} {cs text : List Char} (hc : isPart c) (h : IsCut cs text) :
    IsCut (c :: cs) (c :: text) :=
  ⟨(List.prefix_cons_inj c).mpr h.isPrefix, by simpa [hc] using h.parts⟩

theorem IsCut.append {text more : List Char} {cs : List Char} (h : IsCut cs text)
    (hmore : IsCut (cs.drop text.length) more) : IsCut cs (text ++ more) := by
  obtain ⟨rest, rfl⟩ := h.isPrefix
  rw [List.drop_left] at hmore
  refine ⟨(List.prefix_append_right_inj text).mpr hmore.isPrefix, ?_⟩
  intro c hc
  exact (List.mem_append.mp hc).elim (h.parts c) (hmore.parts c)

theorem isCut_takeWhile {p : Char → Bool} (hp : ∀ {c}, p c → isPart c) (cs : List Char) :
    IsCut cs (cs.takeWhile p) :=
  ⟨List.takeWhile_prefix p, fun _ hc => hp (List.mem_takeWhile_imp hc)⟩

/-! ## One token -/

theorem isCut_cutName (cs : List Char) : IsCut cs (cutName cs) := by
  cases cs with
  | nil => exact .nil []
  | cons c rest =>
      simp only [cutName]
      split
      next hc => exact .cons (isPart_of_isAlpha hc) (isCut_takeWhile isPart_of_isNamePart rest)
      next => exact .nil _

theorem drop_length_takeWhile (p : Char → Bool) (cs : List Char) :
    cs.drop (cs.takeWhile p).length = cs.dropWhile p := by
  calc
    cs.drop (cs.takeWhile p).length =
        (cs.takeWhile p ++ cs.dropWhile p).drop (cs.takeWhile p).length := by
      rw [List.takeWhile_append_dropWhile]
    _ = cs.dropWhile p := List.drop_left

theorem isCut_cutDigits (cs : List Char) : IsCut cs (cutDigits cs) := by
  have hwhole := isCut_takeWhile isPart_of_isDigit cs
  simp only [cutDigits]
  split
  next rest hrest =>
    apply hwhole.append
    rw [drop_length_takeWhile, hrest]
    exact .cons (by decide) (isCut_takeWhile isPart_of_isDigit rest)
  next => exact hwhole

theorem isCut_cutExponent (cs : List Char) : IsCut cs (cutExponent cs) := by
  cases cs with
  | nil => exact .nil []
  | cons c rest =>
      have hletter : c = 'e' ∨ c = 'E' → isPart c := by
        rintro (rfl | rfl) <;> decide
      cases rest with
      | nil => simpa [cutExponent] using IsCut.nil [c]
      | cons s digits =>
          by_cases hs : s = '+' ∨ s = '-'
          · have hsign : isPart s := by
              rcases hs with rfl | rfl <;> decide
            simp only [cutExponent, hs, if_true]
            split
            next h =>
              exact .cons (hletter h.1) (.cons hsign (isCut_takeWhile isPart_of_isDigit digits))
            next => exact .nil _
          · simp only [cutExponent, hs, if_false]
            split
            next h => exact .cons (hletter h.1) (isCut_takeWhile isPart_of_isDigit _)
            next => exact .nil _

theorem startsNumber_cons {c : Char} {rest : List Char} (hc : c ≠ '.') :
    startsNumber (c :: rest) = c.isDigit := by
  unfold startsNumber
  split <;> simp_all

theorem isCut_cutNumber (cs : List Char) : IsCut cs (cutNumber cs) :=
  (isCut_cutDigits cs).append (isCut_cutExponent _)

theorem isPart_symbol (o : Op) : isPart o.symbol := by
  cases o <;> decide

theorem isCut_cut (operand : Bool) (cs : List Char) : IsCut cs (cut operand cs) := by
  cases cs with
  | nil => exact .nil []
  | cons c rest =>
      simp only [cut]
      split
      next hc => exact .cons (by rcases hc with rfl | rfl <;> decide) (.nil rest)
      split
      next hc => exact .cons (by rcases hc.1 with rfl | rfl <;> decide) (isCut_cutNumber rest)
      split
      · exact isCut_cutNumber _
      split
      · exact isCut_cutName _
      split
      next ho =>
        obtain ⟨o, ho⟩ := Option.isSome_iff_exists.mp ho
        obtain rfl := Op.ofSymbol?_eq_some_iff.mp ho
        exact .cons (isPart_symbol o) (.nil rest)
      next => exact .nil _

/-! ## The whole text -/

theorem scanFrom_isPart {offset : Nat} {operand : Bool} {cs : List Char} {tokens : List Lexeme}
    (h : scanFrom offset operand cs = .ok tokens) : ∀ c ∈ cs, isPart c := by
  fun_induction scanFrom offset operand cs generalizing tokens with
  | case1 => simp
  | case2 => cases h
  | case3 offset operand cs first text hcut ih =>
      obtain ⟨token, _, h⟩ := bind_eq_ok_iff.mp h
      obtain ⟨rest, hrest, _⟩ := bind_eq_ok_iff.mp h
      have hpart := isCut_cut operand cs
      rw [hcut] at hpart
      obtain ⟨after, rfl⟩ := hpart.isPrefix
      rw [List.drop_left] at hrest ih
      intro c hc
      exact (List.mem_append.mp hc).elim (hpart.parts c) (ih token hrest c)

theorem scan_isPart {cs : List Char} {tokens : List Lexeme} (h : scan cs = .ok tokens) :
    ∀ c ∈ cs, isPart c := scanFrom_isPart h

end Patchbay.Token
