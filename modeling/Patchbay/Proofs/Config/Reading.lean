import Patchbay.Proofs.Config.Spans
import Patchbay.Proofs.Decimal.Grammar
import Patchbay.Proofs.Text.Bytes

/-! # Reading times

A time is a number and a unit.  The units that stand in the manual are read, and so are the same
ones without their last letter.  Reading cuts a text by its last byte, which never is inside of a
character. -/

namespace Patchbay.Config.Seconds

open Decimal (Numeral NamePart)
open Duration (Lasts)
open Text (isBlank trimList between sliceTo)

variable {cs rest unit : List Char} {x v perSecond : Float32}

/-! ## Units -/

/-- The units of the manual, and how many of each make a second. -/
def units : List (List Char × Float32) :=
  [([], 1.0), (['s'], 1.0), (['m', 's'], 1e3), (['u', 's'], 1e6), (['n', 's'], 1e9)]

/-- Units that are not in the manual. -/
def shortUnits : List (List Char × Float32) := [(['m'], 1e3), (['u'], 1e6), (['n'], 1e9)]

/-- The text is a number and one of some units, with blanks around it and before the unit, and the
number divided by how many of the unit make a second is `v`. -/
def Spells (units : List (List Char × Float32)) (text : String) (v : Float32) : Prop :=
  ∃ numeral blanks unit x perSecond, (unit, perSecond) ∈ units ∧ Numeral numeral x ∧
    (∀ c ∈ blanks, isBlank c) ∧ trimList text.toList = numeral ++ blanks ++ unit ∧
    v = x / perSecond

/-- What may stand before a last letter s. -/
def letters : List (List Char × Float32) := ([], 1.0) :: shortUnits

theorem units_eq : units = ([], 1.0) :: letters.map fun (letter, n) => (letter ++ ['s'], n) := rfl

theorem mem_letters_iff {letter : List Char} : (letter, perSecond) ∈ letters ↔
    letter = [] ∧ perSecond = 1.0 ∨ letter = ['m'] ∧ perSecond = 1e3 ∨
      letter = ['u'] ∧ perSecond = 1e6 ∨ letter = ['n'] ∧ perSecond = 1e9 := by
  simp [letters, shortUnits]

theorem mem_units_append_iff : (unit, perSecond) ∈ units ++ shortUnits ↔
    ∃ letter, (letter, perSecond) ∈ letters ∧ (unit = letter ∨ unit = letter ++ ['s']) := by
  rw [units_eq, List.cons_append, List.mem_cons, List.mem_append, List.mem_map]
  constructor
  · rintro (h | ⟨⟨letter, n⟩, hletter, h⟩ | h)
    · exact ⟨unit, List.mem_cons.mpr (.inl h), .inl rfl⟩
    · cases h
      exact ⟨letter, hletter, .inr rfl⟩
    · exact ⟨unit, List.mem_cons_of_mem _ h, .inl rfl⟩
  · rintro ⟨letter, hletter, rfl | rfl⟩
    · exact (List.mem_cons.mp hletter).imp_right .inr
    · exact .inr (.inl ⟨_, hletter, rfl⟩)

/-! ## Cutting -/

/-- Takes a letter s and then another letter of a unit off. -/
def cut (cs : List Char) : List Char × Float32 :=
  cutUnit (if cs.getLast? = some 's' then cs.dropLast else cs)

theorem exists_cutUnit (cs : List Char) :
    ∃ letter, (letter, (cutUnit cs).2) ∈ letters ∧ cs = (cutUnit cs).1 ++ letter := by
  simp only [mem_letters_iff]
  unfold cutUnit
  split
  next h => exact ⟨['n'], by simp, (List.dropLast_append_getLast? _ h).symm⟩
  next h => exact ⟨['u'], by simp, (List.dropLast_append_getLast? _ h).symm⟩
  next h => exact ⟨['m'], by simp, (List.dropLast_append_getLast? _ h).symm⟩
  next => exact ⟨[], by simp, (List.append_nil _).symm⟩

theorem exists_cut (cs : List Char) :
    ∃ unit, (unit, (cut cs).2) ∈ units ++ shortUnits ∧ cs = (cut cs).1 ++ unit := by
  unfold cut
  split
  next h =>
    obtain ⟨letter, hletter, hcs⟩ := exists_cutUnit cs.dropLast
    refine ⟨letter ++ ['s'], mem_units_append_iff.mpr ⟨letter, hletter, .inr rfl⟩, ?_⟩
    rw [← List.append_assoc, ← hcs]
    exact (List.dropLast_append_getLast? _ h).symm
  next =>
    obtain ⟨letter, hletter, hcs⟩ := exists_cutUnit cs
    exact ⟨letter, mem_units_append_iff.mpr ⟨letter, hletter, .inl rfl⟩, hcs⟩

/-- What does not end in a letter of a unit. -/
def Bare (cs : List Char) : Prop := ∀ c ∈ cs.getLast?, c ∉ ['s', 'm', 'u', 'n']

theorem Bare.cutUnit_append {letter : List Char} (hrest : Bare rest)
    (hletter : (letter, perSecond) ∈ letters) :
    cutUnit (rest ++ letter) = (rest, perSecond) ∧ (rest ++ letter).getLast? ≠ some 's' := by
  rcases mem_letters_iff.mp hletter with ⟨rfl, rfl⟩ | ⟨rfl, rfl⟩ | ⟨rfl, rfl⟩ | ⟨rfl, rfl⟩
  · rw [List.append_nil]
    constructor
    · unfold cutUnit
      split
      next h => exact absurd (by decide) (hrest _ h)
      next h => exact absurd (by decide) (hrest _ h)
      next h => exact absurd (by decide) (hrest _ h)
      next => rfl
    · exact fun h => hrest _ h (by decide)
  all_goals simp [cutUnit]

theorem Bare.cut_append (hrest : Bare rest) (hunit : (unit, perSecond) ∈ units ++ shortUnits) :
    cut (rest ++ unit) = (rest, perSecond) := by
  obtain ⟨letter, hletter, hunit⟩ := mem_units_append_iff.mp hunit
  obtain ⟨hcut, hlast⟩ := hrest.cutUnit_append hletter
  unfold cut
  rcases hunit with rfl | rfl
  · rw [if_neg hlast, hcut]
  · rw [← List.append_assoc, List.getLast?_concat, if_pos rfl, List.dropLast_concat, hcut]

/-! ## Reading -/

/-- Reads a number of which the unit has been taken off. -/
def readCut (text : String) (number : List Char) (perSecond : Float32) : Except TimeError Seconds :=
  match Decimal.readSingle (trimList number) with
  | none => .error (.unrecognized (between text))
  | some value => check (value / perSecond) (between text)

theorem read_eq (text : String) :
    read text = readCut text (cut (trimList text.toList)).1 (cut (trimList text.toList)).2 := rfl

theorem read_eq_ok_iff (text : String) (v : Float32) :
    read text = .ok ⟨v⟩ ↔ (∃ x, Numeral (trimList (cut (trimList text.toList)).1) x ∧
      v = x / (cut (trimList text.toList)).2) ∧ ∃ q, Lasts v q := by
  rw [read_eq]
  constructor
  · intro h
    unfold readCut at h
    split at h
    next => cases h
    next x hx =>
      obtain ⟨hv, hlasts⟩ := check_eq_ok_iff.mp h
      cases hv
      exact ⟨⟨x, Decimal.readSingle_eq_some_iff.mp hx, rfl⟩, hlasts⟩
  · rintro ⟨⟨x, hx, rfl⟩, hlasts⟩
    unfold readCut
    rw [Decimal.readSingle_eq_some_iff.mpr hx]
    exact check_eq_ok_iff.mpr ⟨rfl, hlasts⟩

/-- An infinity or NaN is none in any unit either. -/
theorem not_isFinite_named (hunit : (unit, perSecond) ∈ units ++ shortUnits) (negative : Bool)
    (hname : NamePart cs x) : ((if negative then -x else x) / perSecond).isFinite = false := by
  obtain ⟨letter, hletter, -⟩ := mem_units_append_iff.mp hunit
  rcases mem_letters_iff.mp hletter with ⟨-, rfl⟩ | ⟨-, rfl⟩ | ⟨-, rfl⟩ | ⟨-, rfl⟩ <;>
    cases hname <;> cases negative <;> decide +kernel

theorem not_isBlank_numeral (hnumeral : Numeral cs x)
    (hunit : (unit, perSecond) ∈ units ++ shortUnits) (hlasts : ∃ q, Lasts (x / perSecond) q) :
    (∀ c ∈ cs, isBlank c = false) ∧ ∃ c, cs.getLast? = some c ∧ (c.isDigit ∨ c = '.') := by
  cases hnumeral with
  | decimal hsign hfixed htail =>
      exact ⟨Decimal.not_isBlank_decimal hsign hfixed htail,
        Decimal.getLast?_decimal hfixed htail⟩
  | named hsign hname =>
      obtain ⟨q, hq⟩ := hlasts
      exact absurd hq.isFinite (by rw [not_isFinite_named hunit _ hname]; exact Bool.false_ne_true)

theorem of_mem_unit {c : Char} (h : c ∈ ['s', 'm', 'u', 'n']) :
    ¬ (c.isDigit ∨ c = '.') ∧ isBlank c = false := by
  simp only [List.mem_cons, List.not_mem_nil, or_false] at h
  rcases h with rfl | rfl | rfl | rfl <;> decide

/-- A number with blanks behind it does not end like a unit. -/
theorem bare_numeral {blanks : List Char}
    (hlast : ∃ c, cs.getLast? = some c ∧ (c.isDigit ∨ c = '.'))
    (hblanks : ∀ c ∈ blanks, isBlank c) : Bare (cs ++ blanks) := by
  intro c hc hmem
  obtain ⟨hfigure, hvisible⟩ := of_mem_unit hmem
  rcases List.eq_nil_or_concat' blanks with rfl | ⟨front, b, rfl⟩
  · obtain ⟨d, hd, hdigit⟩ := hlast
    rw [List.append_nil, hd] at hc
    cases hc
    exact hfigure hdigit
  · rw [← List.append_assoc, List.getLast?_concat] at hc
    cases hc
    rw [hblanks c (by simp)] at hvisible
    cases hvisible

/-- A text that spells a time is cut where its unit begins. -/
theorem Spells.exists_cut {taken : List (List Char × Float32)} {text : String}
    (h : Spells taken text v) (htaken : taken ⊆ units ++ shortUnits) (hlasts : ∃ q, Lasts v q) :
    ∃ unit x, (unit, (cut (trimList text.toList)).2) ∈ taken ∧
      trimList text.toList = (cut (trimList text.toList)).1 ++ unit ∧
      Numeral (trimList (cut (trimList text.toList)).1) x ∧
      v = x / (cut (trimList text.toList)).2 := by
  obtain ⟨numeral, blanks, unit, x, perSecond, hunit, hnumeral, hblanks, htext, rfl⟩ := h
  obtain ⟨hvisible, hlast⟩ := not_isBlank_numeral hnumeral (htaken hunit) hlasts
  rw [htext, (bare_numeral hlast hblanks).cut_append (htaken hunit)]
  refine ⟨unit, x, hunit, rfl, ?_, rfl⟩
  rwa [Text.trimList_append_blanks hvisible hblanks]

theorem read_eq_ok_iff_spells (text : String) (v : Float32) :
    read text = .ok ⟨v⟩ ↔
      (Spells units text v ∨ Spells shortUnits text v) ∧ ∃ q, Lasts v q := by
  rw [read_eq_ok_iff]
  refine and_congr_left fun hlasts => ⟨?_, ?_⟩
  · rintro ⟨x, hx, rfl⟩
    obtain ⟨unit, hunit, htext⟩ := exists_cut (trimList text.toList)
    obtain ⟨blanks, hblanks, hcs⟩ := Text.exists_blanks_of_trimmed htext
    have hspells {taken : List (List Char × Float32)}
        (h : (unit, (cut (trimList text.toList)).2) ∈ taken) :
        Spells taken text (x / (cut (trimList text.toList)).2) :=
      ⟨_, blanks, unit, x, _, h, hx, hblanks, by rw [← hcs, ← htext], rfl⟩
    exact (List.mem_append.mp hunit).imp hspells hspells
  · rintro (h | h)
    · obtain ⟨_, x, -, -, hx, hv⟩ := h.exists_cut (List.subset_append_left _ _) hlasts
      exact ⟨x, hx, hv⟩
    · obtain ⟨_, x, -, -, hx, hv⟩ := h.exists_cut (List.subset_append_right _ _) hlasts
      exact ⟨x, hx, hv⟩

theorem not_mem_shortUnits (hunit : (unit, perSecond) ∈ units) :
    (unit, perSecond) ∉ shortUnits := by
  simp only [units, List.mem_cons, Prod.mk.injEq, List.not_mem_nil, or_false] at hunit
  rcases hunit with ⟨rfl, -⟩ | ⟨rfl, -⟩ | ⟨rfl, -⟩ | ⟨rfl, -⟩ | ⟨rfl, -⟩ <;> simp [shortUnits]

/-- A time is spelled in the manual's units or in the others, not in both. -/
theorem Spells.not_short {text : String} {w : Float32} (h : Spells units text v)
    (hv : ∃ q, Lasts v q) (hw : ∃ q, Lasts w q) : ¬ Spells shortUnits text w := by
  intro hshort
  obtain ⟨unit, -, hunit, htext, -, -⟩ := h.exists_cut (List.subset_append_left _ _) hv
  obtain ⟨unit', -, hunit', htext', -, -⟩ := hshort.exists_cut (List.subset_append_right _ _) hw
  obtain rfl : unit = unit' := List.append_cancel_left (htext.symm.trans htext')
  exact not_mem_shortUnits hunit hunit'

/-! ## Bytes -/

/-- Takes the letter of a unit off by the last byte of a text; nothing if there is no last byte, or
if the cut is inside of a character. -/
def cutLastByte (s : String) : Option (String × Float32) := do
  let last ← s.toByteArray.data.back?
  let shorter := sliceTo s (s.utf8ByteSize - 1)
  if last = 'n'.toUInt8 then return (← shorter, 1e9)
  else if last = 'u'.toUInt8 then return (← shorter, 1e6)
  else if last = 'm'.toUInt8 then return (← shorter, 1e3)
  else return (s, 1.0)

/-- Reads a time by the bytes of its text; nothing if a slice is taken that is none. -/
def readBytes (text : String) : Option (Except TimeError Seconds) :=
  let trimmed := (Text.trim text).toList
  let number := if trimmed.getLast? = some 's' then trimmed.dropLast else trimmed
  if number = [] then some (.error (.unrecognized (between text)))
  else
    (cutLastByte (.ofList number)).map fun (number, perSecond) =>
      readCut text number.toList perSecond

theorem cutUnit_concat (cs : List Char) (c : Char) : cutUnit (cs ++ [c]) =
    if c = 'n' then (cs, 1e9) else if c = 'u' then (cs, 1e6) else if c = 'm' then (cs, 1e3)
    else (cs ++ [c], 1.0) := by
  unfold cutUnit
  rw [List.getLast?_concat, List.dropLast_concat]
  split <;> simp_all

theorem cutLastByte_concat (cs : List Char) (c : Char) : cutLastByte (.ofList (cs ++ [c])) =
    some (.ofList (cutUnit (cs ++ [c])).1, (cutUnit (cs ++ [c])).2) := by
  unfold cutLastByte
  rw [cutUnit_concat]
  -- a letter of a unit is a byte, and no last byte of several is one
  by_cases h : c.toNat < 0x80
  · have hletter {d : Char} (hd : d.toNat < 0x80) : c.toUInt8 = d.toUInt8 ↔ c = d :=
      Text.toUInt8_inj h hd
    have hlast : (String.utf8EncodeChar c).getLast? = some c.toUInt8 := by
      rw [Text.utf8EncodeChar_of_lt h]
      rfl
    rw [Text.back?_bytes cs hlast, Text.sliceTo_concat cs h]
    simp only [Option.bind_eq_bind, Option.bind_some,
      hletter (d := 'n') (by decide), hletter (d := 'u') (by decide),
      hletter (d := 'm') (by decide)]
    split_ifs <;> rfl
  · obtain ⟨b, hb, hlarge⟩ := Text.getLast?_utf8EncodeChar (Nat.not_lt.mp h)
    have hbyte {d : Char} (hd : d.toUInt8.toNat < 0x80) : b ≠ d.toUInt8 := by
      rintro rfl
      omega
    have hletter {d : Char} (hd : d.toNat < 0x80) : c ≠ d := by
      rintro rfl
      exact h hd
    rw [Text.back?_bytes cs hb, if_neg (hletter (by decide)), if_neg (hletter (by decide)),
      if_neg (hletter (by decide))]
    simp only [Option.bind_eq_bind, Option.bind_some]
    rw [if_neg (hbyte (by decide)), if_neg (hbyte (by decide)), if_neg (hbyte (by decide))]
    rfl

theorem readBytes_eq (text : String) : readBytes text = some (read text) := by
  rw [read_eq]
  unfold readBytes cut
  rw [Text.toList_trim]
  dsimp only
  generalize (if (trimList text.toList).getLast? = some 's' then (trimList text.toList).dropLast
    else trimList text.toList) = number
  rcases List.eq_nil_or_concat' number with rfl | ⟨cs, c, rfl⟩
  · rfl
  · rw [if_neg (by simp), cutLastByte_concat, Option.map_some, String.toList_ofList]

/-! ## What is read -/

/-- Of a text, the manual says rightly which time it is, and whether it is one, unless the text is
a number and a bare letter m, u or n: that is read as if an s stood behind.  No text is cut inside
of a character. -/
theorem read_follows_manual_iff (text : String) :
    (∀ v, read text = .ok ⟨v⟩ ↔
      (Spells units text v ∨ Spells shortUnits text v) ∧ ∃ q, Lasts v q) ∧
    ((∀ v, read text = .ok ⟨v⟩ ↔ Spells units text v ∧ ∃ q, Lasts v q) ↔
      ¬ ∃ v, Spells shortUnits text v ∧ ∃ q, Lasts v q) ∧
    readBytes text = some (read text) := by
  refine ⟨read_eq_ok_iff_spells text, ⟨?_, ?_⟩, readBytes_eq text⟩
  · rintro hmanual ⟨v, hshort, hlasts⟩
    have hread := (read_eq_ok_iff_spells text v).mpr ⟨.inr hshort, hlasts⟩
    exact ((hmanual v).mp hread).1.not_short hlasts hlasts hshort
  · intro hnone v
    rw [read_eq_ok_iff_spells, or_and_right]
    exact or_iff_left fun h => hnone ⟨v, h⟩

theorem reads_bare_letter : read "1m" = .ok ⟨1.0 / 1e3⟩ ∧
    ¬ ∃ v, Spells units "1m" v ∧ ∃ q, Lasts v q := by
  refine ⟨by decide +kernel, ?_⟩
  rintro ⟨v, hspells, hlasts⟩
  obtain ⟨unit, x, hunit, htext, -, -⟩ := hspells.exists_cut (List.subset_append_left _ _) hlasts
  have hcut : cut (trimList "1m".toList) = (['1'], 1e3) := by decide +kernel
  rw [hcut] at hunit htext
  have hletter : ['1'] ++ ['m'] = ['1'] ++ unit := by
    rw [← htext]
    decide
  cases List.append_cancel_left hletter
  exact not_mem_shortUnits hunit (by simp [shortUnits])

end Patchbay.Config.Seconds
