import Patchbay.Proofs.Expr.Munching
import Patchbay.Proofs.Text.Bytes

/-! # Texts tiled by tokens

The tokens of a text lie side by side: each is the token of exactly the characters from its place to
the next, and where scanning stops no token begins. -/

namespace Patchbay.Token

open Decimal (FixedPart ExponentPart SignPart Magnitude Numeral)
open Outcome

/-! ## What a token is written as -/

/-- The characters of the token that begins a text.  A sign belongs to the number behind it where an
operand is due, and only there. -/
inductive Written (operand : Bool) (cs : List Char) : List Char → Token → Prop
  | opening (h : ['('] <+: cs) : Written operand cs ['('] opening
  | closing (h : [')'] <+: cs) : Written operand cs [')'] closing
  | op (o : Op) (h : [o.symbol] <+: cs)
      (hsign : operand → o = .add ∨ o = .sub →
        ∀ text, Magnitude text → ¬ [o.symbol] ++ text <+: cs) :
      Written operand cs [o.symbol] (op o)
  | name {text : List Char} (h : Longest Identifier cs text) :
      Written operand cs text (name (.ofList text))
  | number {sign rest text : List Char} {negative : Bool} {x : Float32}
      (hsign : SignPart sign negative) (hdue : sign ≠ [] → operand) (hcs : cs = sign ++ rest)
      (htext : Longest Magnitude rest text) (hx : Numeral (sign ++ text) x) :
      Written operand cs (sign ++ text) (number x)

variable {operand : Bool} {cs rest text : List Char} {c : Char} {token : Token}

theorem ofText_eq_word (h : cs = [] → c ≠ '(' ∧ c ≠ ')' ∧ Op.ofSymbol? c = none) :
    ofText (c :: cs) = word (c :: cs) := by
  unfold ofText
  split
  next heq =>
    obtain ⟨rfl, rfl⟩ := List.cons.inj heq
    exact absurd rfl (h rfl).1
  next heq =>
    obtain ⟨rfl, rfl⟩ := List.cons.inj heq
    exact absurd rfl (h rfl).2.1
  next heq =>
    obtain ⟨rfl, rfl⟩ := List.cons.inj heq
    rw [(h rfl).2.2]
  next => rfl

theorem ofSymbol?_of_isDigit (h : c.isDigit) : Op.ofSymbol? c = none := by
  cases ho : Op.ofSymbol? c with
  | none => rfl
  | some o =>
      obtain rfl := Op.ofSymbol?_eq_some_iff.mp ho
      cases o <;> cases h

theorem ofText_number {sign fixed whole fraction tail : List Char} {negative : Bool} {exponent : ℤ}
    (hsign : SignPart sign negative) (hfixed : FixedPart fixed whole fraction)
    (htail : ExponentPart tail exponent) : ofText (sign ++ (fixed ++ tail)) =
      .ok (.number (Decimal.Literal.single
        ⟨negative, Decimal.natOfDigits (whole ++ fraction), exponent - fraction.length⟩)) := by
  have hread := Decimal.read_eq_some hsign hfixed htail
  obtain ⟨c, more, rfl, hc⟩ := hfixed.head
  have hword : ofText (sign ++ (c :: more ++ tail)) = word (sign ++ (c :: more ++ tail)) := by
    cases hsign with
    | plus | minus => rfl
    | none =>
        refine ofText_eq_word fun _ => ?_
        rcases hc with hdigit | rfl
        · refine ⟨?_, ?_, ofSymbol?_of_isDigit hdigit⟩ <;> rintro rfl <;> cases hdigit
        · decide
  have halpha : (sign ++ (c :: more ++ tail)).head?.any Char.isAlpha = false := by
    cases hsign with
    | plus | minus => rfl
    | none =>
        rcases hc with hdigit | rfl
        · exact Bool.eq_false_iff.mpr (not_isAlpha_of_isDigit hdigit)
        · rfl
  rw [hword, word, halpha, hread]
  rfl

/-- A number that is cut is read. -/
theorem exists_ofText_number {sign : List Char} {negative : Bool} (hsign : SignPart sign negative)
    (h : Magnitude text) :
    ∃ x, ofText (sign ++ text) = .ok (.number x) ∧ Numeral (sign ++ text) x := by
  obtain ⟨fixed, whole, fraction, tail, exponent, rfl, hfixed, htail⟩ := h
  exact ⟨_, ofText_number hsign hfixed htail, .decimal hsign hfixed htail⟩

theorem ofText_name (h : Identifier text) : ofText text = .ok (.name (.ofList text)) := by
  obtain ⟨first, tail, rfl, hfirst, -⟩ := h
  have hword : ofText (first :: tail) = word (first :: tail) := by
    refine ofText_eq_word fun _ => ⟨?_, ?_, ?_⟩
    · rintro rfl
      cases hfirst
    · rintro rfl
      cases hfirst
    · cases ho : Op.ofSymbol? first with
      | none => rfl
      | some o =>
          obtain rfl := Op.ofSymbol?_eq_some_iff.mp ho
          cases o <;> cases hfirst
  simp [hword, word, hfirst]

theorem cutNumber_ne_nil (h : startsNumber cs) : cutNumber cs ≠ [] := by
  obtain ⟨fixed, whole, fraction, tail, exponent, heq, hfixed, -⟩ := magnitude_cutNumber h
  obtain ⟨c, more, rfl, -⟩ := hfixed.head
  rw [heq]
  exact List.cons_ne_nil _ _

theorem cutName_ne_nil (h : c.isAlpha) : cutName (c :: rest) ≠ [] := by
  rw [cutName, if_pos h]
  exact List.cons_ne_nil _ _

/-! ## Cutting -/

/-- What is cut is read as the token that is written there. -/
theorem exists_written_cut (h : cut operand cs ≠ []) :
    ∃ token, ofText (cut operand cs) = .ok token ∧ Written operand cs (cut operand cs) token := by
  cases cs with
  | nil => exact absurd rfl h
  | cons c rest =>
      have hfront : [c] <+: c :: rest := List.prefix_append [c] rest
      simp only [cut] at h ⊢
      split
      next hc =>
        rcases hc with rfl | rfl
        · exact ⟨_, rfl, .opening hfront⟩
        · exact ⟨_, rfl, .closing hfront⟩
      split
      next hc =>
        obtain ⟨hsign, hoperand, hnumber⟩ := hc
        have hsign : ∃ negative, SignPart [c] negative := by
          rcases hsign with rfl | rfl
          · exact ⟨_, .plus⟩
          · exact ⟨_, .minus⟩
        obtain ⟨negative, hsign⟩ := hsign
        obtain ⟨x, htoken, hx⟩ := exists_ofText_number hsign (magnitude_cutNumber hnumber)
        exact ⟨_, htoken, .number hsign (fun _ => hoperand) rfl (longest_cutNumber hnumber) hx⟩
      next hunsigned =>
        split
        next hnumber =>
          obtain ⟨x, htoken, hx⟩ := exists_ofText_number .none (magnitude_cutNumber hnumber)
          have hwritten : Written operand (c :: rest) ([] ++ cutNumber (c :: rest)) (.number x) :=
            .number .none (absurd rfl) rfl (longest_cutNumber hnumber) hx
          exact ⟨_, htoken, hwritten⟩
        split
        next hfirst =>
          have hname := longest_cutName rest hfirst
          exact ⟨_, ofText_name hname.holds, .name hname⟩
        split
        next ho =>
          obtain ⟨o, ho⟩ := Option.isSome_iff_exists.mp ho
          obtain rfl := Op.ofSymbol?_eq_some_iff.mp ho
          refine ⟨.op o, by cases o <;> rfl, .op o hfront ?_⟩
          intro hoperand hadd number hnumber hcs
          refine hunsigned ⟨?_, hoperand, startsNumber_iff.mpr ⟨number, ?_, hnumber⟩⟩
          · rcases hadd with rfl | rfl
            · exact .inl rfl
            · exact .inr rfl
          · exact (List.cons_prefix_cons.mp hcs).2
        next hc hfirst ho => simp_all

theorem cut_ne_nil (operand : Bool) (h : (c = '(' ∨ c = ')') ∨ startsNumber (c :: rest) ∨
    c.isAlpha ∨ (Op.ofSymbol? c).isSome) : cut operand (c :: rest) ≠ [] := by
  simp only [cut]
  split
  · exact List.cons_ne_nil _ _
  next hparen =>
    split
    · exact List.cons_ne_nil _ _
    split
    next hnumber => exact cutNumber_ne_nil hnumber
    next hnumber =>
      split
      next hfirst => exact cutName_ne_nil hfirst
      next hfirst =>
        rw [if_pos (by tauto)]
        exact List.cons_ne_nil _ _

/-- A token that begins a text is cut off, even where an operand is due and for it none is. -/
theorem Written.cut_ne_nil (h : Written operand cs text token) (due : Bool) :
    cut due cs ≠ [] := by
  cases h with
  | opening h | closing h =>
      obtain ⟨rest, rfl⟩ := h
      exact Token.cut_ne_nil due (.inl (by simp))
  | op o h =>
      obtain ⟨rest, rfl⟩ := h
      exact Token.cut_ne_nil due (.inr (.inr (.inr (by simp))))
  | name h =>
      obtain ⟨rest, rfl⟩ := h.isPrefix
      obtain ⟨first, tail, rfl, hfirst, -⟩ := h.holds
      exact Token.cut_ne_nil due (.inr (.inr (.inl hfirst)))
  | @number sign rest text negative x hsign hdue hcs htext hx =>
      subst hcs
      cases hsign with
      | plus | minus => exact Token.cut_ne_nil due (.inr (.inr (.inr rfl)))
      | none =>
          have hstarts := startsNumber_iff.mpr ⟨text, htext.isPrefix, htext.holds⟩
          rw [List.nil_append]
          cases rest with
          | nil => cases hstarts
          | cons c rest => exact Token.cut_ne_nil due (.inr (.inl hstarts))

/-! ## Tiles -/

/-- Where the first of some tokens is, or where the tokens stop if there is none. -/
def firstOffset (stop : ℕ) : List Lexeme → ℕ
  | [] => stop
  | lexeme :: _ => lexeme.offset

/-- The tokens between two places of a text lie side by side, and each is written in the characters
from its place to the next. -/
structure Tiles (s : String) (start stop : ℕ) (operand : Bool) (lexemes : List Lexeme) : Prop where
  first : firstOffset stop lexemes = start
  increasing : (lexemes.map Lexeme.offset ++ [stop]).Pairwise (· < ·)
  written : ∀ before lexeme after, lexemes = before ++ lexeme :: after →
    ∃ piece rest, Text.slice s lexeme.offset (firstOffset stop after) = some piece ∧
      Text.slice s lexeme.offset s.utf8ByteSize = some rest ∧
      Written ((before.map fun l => l.token.wantsOperand).getLastD operand) rest.toList piece.toList
        lexeme.token

/-- What comes of scanning a text from a place on: its tokens up to the end, or up to a place where
no token begins. -/
inductive Tiled (s : String) (start : ℕ) (operand : Bool) : Except CompileError (List Lexeme) → Prop
  | whole {lexemes : List Lexeme} (h : Tiles s start s.utf8ByteSize operand lexemes) :
      Tiled s start operand (.ok lexemes)
  | stuck {lexemes : List Lexeme} {offset : ℕ} {rest : String}
      (h : Tiles s start offset operand lexemes)
      (hrest : Text.slice s offset s.utf8ByteSize = some rest) (hne : rest ≠ "")
      (hnone : ∀ operand piece token, ¬ Written operand rest.toList piece token) :
      Tiled s start operand (.error (.unknownToken offset rest))

variable {s : String} {start stop : ℕ} {lexemes : List Lexeme}

theorem Tiles.nil (s : String) (stop : ℕ) (operand : Bool) : Tiles s stop stop operand [] :=
  ⟨rfl, by simp, by simp⟩

theorem Tiles.start_le (h : Tiles s start stop operand lexemes) :
    ∀ offset ∈ lexemes.map Lexeme.offset ++ [stop], start ≤ offset := by
  have hincreasing := h.increasing
  rw [← h.first]
  cases lexemes with
  | nil => simp [firstOffset]
  | cons lexeme lexemes =>
      rw [List.map_cons, List.cons_append, List.pairwise_cons] at hincreasing
      exact List.forall_mem_cons.mpr ⟨le_rfl, fun offset hmem => (hincreasing.1 offset hmem).le⟩

theorem Tiles.cons {piece rest : String} {next : ℕ}
    (h : Tiles s next stop token.wantsOperand lexemes)
    (hpiece : Text.slice s start next = some piece)
    (hrest : Text.slice s start s.utf8ByteSize = some rest) (hlt : start < next)
    (hwritten : Written operand rest.toList piece.toList token) :
    Tiles s start stop operand (⟨token, start⟩ :: lexemes) := by
  refine ⟨rfl, ?increasing, ?written⟩
  case increasing =>
    exact List.pairwise_cons.mpr
      ⟨fun offset hmem => hlt.trans_le (h.start_le offset hmem), h.increasing⟩
  case written =>
    intro before lexeme after heq
    cases before with
    | nil =>
        obtain ⟨rfl, rfl⟩ := List.cons.inj heq
        refine ⟨piece, rest, ?_, hrest, hwritten⟩
        rw [h.first]
        exact hpiece
    | cons first before =>
        obtain ⟨rfl, hafter⟩ := List.cons.inj heq
        obtain ⟨piece, rest, hpiece, hrest, hwritten⟩ := h.written before lexeme after hafter
        refine ⟨piece, rest, hpiece, hrest, ?_⟩
        rw [List.map_cons, List.getLastD_cons]
        exact hwritten

theorem Tiled.cons {piece rest : String} {next : ℕ} {result : Except CompileError (List Lexeme)}
    (h : Tiled s next token.wantsOperand result) (hpiece : Text.slice s start next = some piece)
    (hrest : Text.slice s start s.utf8ByteSize = some rest) (hlt : start < next)
    (hwritten : Written operand rest.toList piece.toList token) :
    Tiled s start operand (do
      let rest ← result
      return ⟨token, start⟩ :: rest) := by
  cases h with
  | whole h => exact .whole (h.cons hpiece hrest hlt hwritten)
  | stuck h hleft hne hnone => exact .stuck (h.cons hpiece hrest hlt hwritten) hleft hne hnone

theorem slice_ofList_rest (front rest : List Char) :
    Text.slice (.ofList (front ++ rest)) (String.ofList front).utf8ByteSize
      (String.ofList (front ++ rest)).utf8ByteSize = some (.ofList rest) := by
  have h := Text.slice_append (.ofList front) (.ofList rest) ""
  rwa [String.append_empty, ← String.ofList_append] at h

/-- What is cut off consists of bytes. -/
theorem toNat_lt_of_mem_cut (h : c ∈ cut operand cs) : c.toNat < 0x80 := by
  have hbounds := bounds_of_isPart ((isCut_cut operand cs).parts c h)
  omega

theorem utf8ByteSize_append_cut (front : List Char) (operand : Bool) (cs : List Char) :
    (String.ofList (front ++ cut operand cs)).utf8ByteSize =
      (String.ofList front).utf8ByteSize + (cut operand cs).length := by
  rw [String.ofList_append, String.utf8ByteSize_append,
    Text.utf8ByteSize_ofList fun _ => toNat_lt_of_mem_cut]

theorem slice_cut (front : List Char) (operand : Bool) (cs : List Char) :
    Text.slice (.ofList (front ++ cs)) (String.ofList front).utf8ByteSize
      ((String.ofList front).utf8ByteSize + (cut operand cs).length) =
        some (.ofList (cut operand cs)) := by
  obtain ⟨rest, hrest⟩ := (isCut_cut operand cs).isPrefix
  have h := Text.slice_append (.ofList front) (.ofList (cut operand cs)) (.ofList rest)
  rwa [← String.ofList_append, ← String.ofList_append, List.append_assoc, hrest,
    utf8ByteSize_append_cut] at h

theorem append_cut_append_drop (front : List Char) (operand : Bool) (cs : List Char) :
    front ++ cut operand cs ++ cs.drop (cut operand cs).length = front ++ cs := by
  rw [List.append_assoc, ← List.prefix_append_drop (isCut_cut operand cs).isPrefix]

theorem scanFrom_tiled (front : List Char) (operand : Bool) (cs : List Char) :
    Tiled (.ofList (front ++ cs)) (String.ofList front).utf8ByteSize operand
      (scanFrom (String.ofList front).utf8ByteSize operand cs) := by
  generalize hoffset : (String.ofList front).utf8ByteSize = offset
  fun_induction scanFrom offset operand cs generalizing front with
  | case1 offset operand hcut =>
      subst hoffset
      rw [List.append_nil]
      exact .whole (.nil _ _ _)
  | case2 offset operand cs hcut hne =>
      subst hoffset
      refine .stuck (.nil _ _ _) (slice_ofList_rest front cs) ?_ fun due piece token h => ?_
      · simpa using hne
      · rw [String.toList_ofList] at h
        exact h.cut_ne_nil _ hcut
  | case3 offset operand cs first text hcut ih =>
      subst hoffset
      have hpiece := slice_cut front operand cs
      have hsize := utf8ByteSize_append_cut front operand cs
      have hall := append_cut_append_drop front operand cs
      obtain ⟨token, htoken, hwritten⟩ := exists_written_cut (hcut.trans_ne (List.cons_ne_nil _ _))
      rw [hcut] at hpiece hsize hall htoken hwritten
      have hbehind := ih token (front ++ first :: text) hsize
      rw [hall] at hbehind
      rw [htoken]
      exact hbehind.cons hpiece (slice_ofList_rest front cs) (by simp) (by simpa using hwritten)

end Patchbay.Token
