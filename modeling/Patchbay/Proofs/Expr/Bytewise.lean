import Patchbay.Proofs.Expr.Tiling

/-! # Scanning by bytes

A text can be scanned byte by byte, each token cut off by the number of its bytes.  The bytes of a
character that no token has are none of a token's either, so the scanner finds the same tokens, and
never cuts inside of a character. -/

namespace Patchbay.Token

/-! ## A scanner of bytes -/

/-- The bytes of a text, each read as a character of its own. -/
def bytes (s : String) : List Char := s.toByteArray.data.toList.map Char.ofUInt8

/-- How many digits there are from a place on; nothing if the place is behind the bytes. -/
def digitsFrom (bytes : List Char) (place : ℕ) : Option ℕ :=
  if place ≤ bytes.length then some ((bytes.drop place).takeWhile Char.isDigit).length else none

/-- Where the digits and the point of a number end. -/
def fixedEnd (bytes : List Char) : Option ℕ := do
  let whole ← digitsFrom bytes 0
  if bytes[whole]? = some '.' then return whole + 1 + (← digitsFrom bytes (whole + 1))
  else return whole

/-- Where an exponent ends that may begin at a place. -/
def exponentEnd (bytes : List Char) (place : ℕ) : Option ℕ := do
  if bytes[place]? = some 'e' ∨ bytes[place]? = some 'E' then
    let signed := bytes[place + 1]? = some '+' ∨ bytes[place + 1]? = some '-'
    let start := if signed then place + 2 else place + 1
    let digits ← digitsFrom bytes start
    return if digits = 0 then place else start + digits
  else return place

/-- How many bytes belong to the number at the front. -/
def numberLength (bytes : List Char) : Option ℕ := do exponentEnd bytes (← fixedEnd bytes)

/-- Scanning fails with a fault, or, where nothing is given, because of a slice that is none or a
loop without an end. -/
abbrev Scanning := ExceptT CompileError Option

/-- The number in some bytes of a text. -/
def numberAt (s : String) (place length : ℕ) : Scanning (Token × ℕ) := do
  let text ← Text.slice s place (place + length)
  match Decimal.readSingle text.toList with
  | some x => return (number x, length)
  | none => throw (.invalidNumber text)

/-- The token of which the first byte is `c`, and how many bytes it has. -/
def tokenAt (s : String) (operand : Bool) (place : ℕ) (c : Char) (behind : List Char) :
    Scanning (Token × ℕ) := do
  if c = '(' then return (opening, 1)
  else if c = ')' then return (closing, 1)
  else if (c = '+' ∨ c = '-') ∧ operand ∧ startsNumber behind then
    numberAt s place (1 + (← numberLength behind))
  else if startsNumber (c :: behind) then
    numberAt s place (← numberLength (c :: behind))
  else if c.isAlpha then
    let length := (cutName (c :: behind)).length
    return (name (← Text.slice s place (place + length)), length)
  else
    match Op.ofSymbol? c with
    | some o => return (op o, 1)
    | none => throw (.unknownToken place (← Text.slice s place s.utf8ByteSize))

/-- The tokens of a text from a byte on, if they are found in so many steps. -/
def scanBytesFrom (s : String) : ℕ → ℕ → Bool → Scanning (List Lexeme)
  | 0, _, _ => ExceptT.mk none
  | steps + 1, place, operand =>
    match (bytes s).drop place with
    | [] => return []
    | c :: behind => do
      let (token, length) ← tokenAt s operand place c behind
      let rest ← scanBytesFrom s steps (place + length) token.wantsOperand
      return ⟨token, place⟩ :: rest

/-- The tokens of a text.  A loop that takes more steps than there are characters, and one to find
the end, counts as one without an end. -/
def scanBytes (s : String) : Option (Except CompileError (List Lexeme)) :=
  (scanBytesFrom s (s.length + 1) 0 true).run

/-! ## Lengths of numbers -/

theorem digitsFrom_append (front rest : List Char) {place : ℕ} (h : place = front.length) :
    digitsFrom (front ++ rest) place = some (rest.takeWhile Char.isDigit).length := by
  rw [digitsFrom, if_pos (by simp [h]), h, List.drop_left]

theorem fixedEnd_eq (bytes : List Char) : fixedEnd bytes = some (cutDigits bytes).length := by
  have hwhole : digitsFrom bytes 0 = some (bytes.takeWhile Char.isDigit).length :=
    digitsFrom_append [] bytes rfl
  have hsplit := List.takeWhile_append_dropWhile (p := Char.isDigit) (l := bytes)
  simp only [fixedEnd, cutDigits, hwhole, Option.bind_eq_bind, Option.bind_some]
  generalize bytes.takeWhile Char.isDigit = whole at *
  generalize bytes.dropWhile Char.isDigit = tail at *
  subst hsplit
  cases tail with
  | nil => simp
  | cons c rest =>
      have hrest : digitsFrom (whole ++ c :: rest) (whole.length + 1) =
          some (rest.takeWhile Char.isDigit).length := by
        rw [List.append_cons]
        exact digitsFrom_append _ rest (by simp)
      by_cases hc : c = '.'
      · subst hc
        simp [hrest, Nat.add_assoc, Nat.add_comm 1]
      · simp [hc]

theorem exponentEnd_eq (front tail : List Char) :
    exponentEnd (front ++ tail) front.length =
      some (front.length + (cutExponent tail).length) := by
  have hget (k : ℕ) : (front ++ tail)[front.length + k]? = tail[k]? := by
    rw [List.getElem?_append_right (Nat.le_add_right _ _), Nat.add_sub_cancel_left]
  have hfirst : (front ++ tail)[front.length]? = tail[0]? := hget 0
  unfold exponentEnd
  rw [hfirst, hget 1]
  cases tail with
  | nil => rfl
  | cons letter rest =>
      have hrest : digitsFrom (front ++ letter :: rest) (front.length + 1) =
          some (rest.takeWhile Char.isDigit).length := by
        rw [List.append_cons]
        exact digitsFrom_append _ rest (by simp)
      by_cases hletter : letter = 'e' ∨ letter = 'E'
      · cases rest with
        | nil => simp [hletter, hrest, cutExponent]
        | cons s digits =>
            have hdigits : digitsFrom (front ++ letter :: s :: digits) (front.length + 2) =
                some (digits.takeWhile Char.isDigit).length := by
              rw [List.append_cons, List.append_cons]
              exact digitsFrom_append _ digits (by simp)
            by_cases hs : s = '+' ∨ s = '-'
            · simp only [cutExponent, hs, if_true]
              generalize digits.takeWhile Char.isDigit = found at hdigits
              cases found <;> simp [hletter, hs, hdigits, Nat.add_assoc, Nat.add_comm 2]
            · simp only [cutExponent, hs, if_false]
              generalize (s :: digits).takeWhile Char.isDigit = found at hrest
              cases found <;> simp [hletter, hs, hrest, Nat.add_assoc, Nat.add_comm 1]
      · cases rest <;> simp [hletter, cutExponent]

theorem numberLength_eq (bytes : List Char) :
    numberLength bytes = some (cutNumber bytes).length := by
  obtain ⟨tail, htail⟩ := (isCut_cutDigits bytes).isPrefix
  have hend : exponentEnd bytes (cutDigits bytes).length = some (cutNumber bytes).length := by
    have hcut := exponentEnd_eq (cutDigits bytes) tail
    have hdrop := congrArg (List.drop (cutDigits bytes).length) htail
    rw [List.drop_left] at hdrop
    rw [htail, hdrop] at hcut
    rw [hcut, cutNumber, List.length_append]
  simp only [numberLength, fixedEnd_eq, Option.bind_eq_bind, Option.bind_some, hend]

/-! ## Bytes and characters -/

/-- Texts that are the same up to a character that no token has. -/
inductive Agree : List Char → List Char → Prop
  | nil : Agree [] []
  | part (c : Char) {cs ds : List Char} (h : Agree cs ds) : Agree (c :: cs) (c :: ds)
  | other {c d : Char} (cs ds : List Char) (hc : isPart c = false) (hd : isPart d = false) :
      Agree (c :: cs) (d :: ds)

theorem ne_of_not_isPart {c d : Char} (hc : isPart c = false) (hd : isPart d) : c ≠ d := by
  rintro rfl
  rw [hc] at hd
  cases hd

theorem not_isDigit_of_not_isPart {c : Char} (h : isPart c = false) : c.isDigit = false :=
  eq_false_of_ne_true fun hdigit => by simp [isPart_of_isDigit hdigit] at h

namespace Agree

variable {cs ds : List Char}

theorem takeWhile {p : Char → Bool} (hp : ∀ {c}, p c → isPart c) (h : Agree cs ds) :
    cs.takeWhile p = ds.takeWhile p ∧ Agree (cs.dropWhile p) (ds.dropWhile p) := by
  induction h with
  | nil => exact ⟨rfl, .nil⟩
  | part c h ih =>
      by_cases hc : p c
      · simp [hc, ih]
      · simp [hc, h.part c]
  | @other c d cs ds hc hd =>
      have hc' : p c = false := eq_false_of_ne_true fun h => by simp [hp h] at hc
      have hd' : p d = false := eq_false_of_ne_true fun h => by simp [hp h] at hd
      simp [hc', hd', Agree.other cs ds hc hd]

theorem drop {text : List Char} (hparts : ∀ c ∈ text, isPart c) (h : Agree (text ++ cs) ds) :
    ∃ rest, ds = text ++ rest ∧ Agree cs rest := by
  induction text generalizing ds with
  | nil => exact ⟨ds, rfl, h⟩
  | cons c text ih =>
      obtain ⟨hc, htext⟩ := List.forall_mem_cons.mp hparts
      cases h with
      | part _ h =>
          obtain ⟨rest, rfl, hrest⟩ := ih htext h
          exact ⟨rest, rfl, hrest⟩
      | other _ _ hother => simp [hc] at hother

theorem startsNumber_eq (h : Agree cs ds) : startsNumber cs = startsNumber ds := by
  cases h with
  | nil => rfl
  | part c h =>
      by_cases hc : c = '.'
      · subst hc
        cases h with
        | nil | part => rfl
        | other _ _ hc hd =>
            exact (not_isDigit_of_not_isPart hc).trans (not_isDigit_of_not_isPart hd).symm
      · rw [startsNumber_cons hc, startsNumber_cons hc]
  | other _ _ hc hd =>
      rw [startsNumber_cons (ne_of_not_isPart hc rfl), startsNumber_cons (ne_of_not_isPart hd rfl),
        not_isDigit_of_not_isPart hc, not_isDigit_of_not_isPart hd]

theorem cutName_eq (h : Agree cs ds) : cutName cs = cutName ds := by
  cases h with
  | nil => rfl
  | part c h => rw [cutName, cutName, (h.takeWhile isPart_of_isNamePart).1]
  | other _ _ hc hd =>
      rw [cutName, cutName, if_neg (mt isPart_of_isAlpha (by simp [hc])),
        if_neg (mt isPart_of_isAlpha (by simp [hd]))]

theorem cutDigits_eq (h : Agree cs ds) : cutDigits cs = cutDigits ds := by
  obtain ⟨htake, hdrop⟩ := h.takeWhile isPart_of_isDigit
  simp only [cutDigits, htake]
  generalize cs.dropWhile Char.isDigit = tail at hdrop
  generalize ds.dropWhile Char.isDigit = tail' at hdrop
  cases hdrop with
  | nil => rfl
  | part c h =>
      by_cases hc : c = '.'
      · subst hc
        simp only [(h.takeWhile isPart_of_isDigit).1]
      · simp [hc]
  | other _ _ hc hd => simp [ne_of_not_isPart (d := '.') hc rfl, ne_of_not_isPart (d := '.') hd rfl]

theorem cutExponent_eq (h : Agree cs ds) : cutExponent cs = cutExponent ds := by
  cases h with
  | nil => rfl
  | part letter h =>
      have htake := (h.takeWhile isPart_of_isDigit).1
      cases h with
      | nil => rfl
      | part s h =>
          have htake' := (h.takeWhile isPart_of_isDigit).1
          by_cases hs : s = '+' ∨ s = '-'
          · simp only [cutExponent, hs, if_true, htake']
          · simp only [cutExponent, hs, if_false, htake]
      | other _ _ hc hd =>
          have hsign {c : Char} (hc : isPart c = false) : ¬ (c = '+' ∨ c = '-') :=
            not_or.mpr ⟨ne_of_not_isPart hc rfl, ne_of_not_isPart hc rfl⟩
          simp only [cutExponent, hsign hc, hsign hd, if_false, htake]
  | other _ _ hc hd =>
      have hletter {c : Char} (hc : isPart c = false) (rest : List Char) :
          cutExponent (c :: rest) = [] := by
        have hne : ¬ (c = 'e' ∨ c = 'E') :=
          not_or.mpr ⟨ne_of_not_isPart hc rfl, ne_of_not_isPart hc rfl⟩
        cases rest <;> simp [cutExponent, hne]
      rw [hletter hc, hletter hd]

theorem cutNumber_eq (h : Agree cs ds) : cutNumber cs = cutNumber ds := by
  have hdigits := h.cutDigits_eq
  have hcut := isCut_cutDigits cs
  simp only [cutNumber, ← hdigits]
  generalize cutDigits cs = digits at *
  obtain ⟨tail, rfl⟩ := hcut.isPrefix
  obtain ⟨tail', rfl, htail⟩ := h.drop hcut.parts
  rw [List.drop_left, List.drop_left, htail.cutExponent_eq]

end Agree

/-- The bytes of some characters. -/
def latin (cs : List Char) : List Char :=
  cs.flatMap fun c => (String.utf8EncodeChar c).map Char.ofUInt8

theorem bytes_ofList (cs : List Char) : bytes (.ofList cs) = latin cs := by
  rw [bytes, String.toByteArray_ofList, List.utf8Encode, List.data_toByteArray, latin,
    List.map_flatMap]

theorem latin_append (cs ds : List Char) : latin (cs ++ ds) = latin cs ++ latin ds :=
  List.flatMap_append

theorem length_latin (cs : List Char) : (latin cs).length = (String.ofList cs).utf8ByteSize := by
  rw [← bytes_ofList, bytes, List.length_map, Array.length_toList, ByteArray.size_data,
    String.size_toByteArray]

theorem drop_bytes (front cs : List Char) :
    (bytes (.ofList (front ++ cs))).drop (String.ofList front).utf8ByteSize = latin cs := by
  rw [bytes_ofList, latin_append, ← length_latin, List.drop_left]

theorem agree_latin (cs : List Char) : Agree cs (latin cs) := by
  induction cs with
  | nil => exact .nil
  | cons c cs ih =>
      have hlatin : latin (c :: cs) = (String.utf8EncodeChar c).map Char.ofUInt8 ++ latin cs := rfl
      have hother {d : Char} (h : 0x80 ≤ d.toNat) : isPart d = false :=
        eq_false_of_ne_true fun hpart => by
          have := bounds_of_isPart hpart
          omega
      rcases Nat.lt_or_ge c.toNat 0x80 with h | h
      · rw [hlatin, Text.utf8EncodeChar_of_lt h, List.map_singleton, Text.ofUInt8_toUInt8 h]
        exact ih.part c
      · obtain ⟨b, more, hbytes, hb⟩ := Text.exists_utf8EncodeChar_eq_cons h
        rw [hlatin, hbytes]
        exact .other _ _ (hother h) (hother hb)

/-! ## The same tokens -/

variable {s : String} {operand : Bool} {place : ℕ} {c : Char} {rest behind text : List Char}

theorem liftM_some_bind {α β : Type} (a : α) (f : α → Scanning β) :
    (liftM (some a) : Scanning α) >>= f = f a := rfl

theorem numberAt_eq {sign : List Char} {negative : Bool} {token : Token} {length : ℕ}
    (hsign : Decimal.SignPart sign negative) (htext : Decimal.Magnitude text)
    (htoken : ofText (sign ++ text) = .ok token)
    (hslice : Text.slice s place (place + length) = some (.ofList (sign ++ text))) :
    numberAt s place length = pure (token, length) := by
  obtain ⟨x, hx, hnumeral⟩ := exists_ofText_number hsign htext
  rw [htoken] at hx
  cases hx
  rw [numberAt, hslice, liftM_some_bind, String.toList_ofList,
    Decimal.readSingle_eq_some_iff.mpr hnumeral]

theorem Agree.tokenAt_eq (h : Agree rest behind) :
    tokenAt s operand place c rest = tokenAt s operand place c behind := by
  have hall := h.part c
  simp only [tokenAt, h.startsNumber_eq, hall.startsNumber_eq, hall.cutName_eq, numberLength_eq,
    h.cutNumber_eq, hall.cutNumber_eq]

/-- What is cut off a text by its characters is cut off by its bytes. -/
theorem tokenAt_of_cut {token : Token} (hcut : cut operand (c :: rest) = text) (hne : text ≠ [])
    (htoken : ofText text = .ok token)
    (hslice : Text.slice s place (place + text.length) = some (.ofList text)) :
    tokenAt s operand place c rest = pure (token, text.length) := by
  by_cases hparen : c = '(' ∨ c = ')'
  · rw [cut, if_pos hparen] at hcut
    subst hcut
    rcases hparen with rfl | rfl <;> cases htoken <;> rfl
  have hplain : tokenAt s operand place c rest = _ :=
    (if_neg fun h => hparen (.inl h)).trans (if_neg fun h => hparen (.inr h))
  rw [hplain]
  rw [cut, if_neg hparen] at hcut
  split
  next hnumber =>
    rw [if_pos hnumber] at hcut
    subst hcut
    have hsign : ∃ negative, Decimal.SignPart [c] negative := by
      rcases hnumber.1 with rfl | rfl
      · exact ⟨_, .plus⟩
      · exact ⟨_, .minus⟩
    obtain ⟨negative, hsign⟩ := hsign
    rw [numberLength_eq, liftM_some_bind, Nat.add_comm]
    exact numberAt_eq hsign (magnitude_cutNumber hnumber.2.2) htoken hslice
  next hunsigned =>
    rw [if_neg hunsigned] at hcut
    split
    next hnumber =>
      rw [if_pos hnumber] at hcut
      subst hcut
      rw [numberLength_eq, liftM_some_bind]
      exact numberAt_eq .none (magnitude_cutNumber hnumber) htoken hslice
    next hnumber =>
      rw [if_neg hnumber] at hcut
      split
      next hfirst =>
        rw [if_pos hfirst] at hcut
        subst hcut
        rw [ofText_name (longest_cutName rest hfirst).holds] at htoken
        cases htoken
        dsimp only
        rw [hslice, liftM_some_bind]
      next hfirst =>
        rw [if_neg hfirst] at hcut
        split
        next o ho =>
          obtain rfl := Op.ofSymbol?_eq_some_iff.mp ho
          rw [ho, Option.isSome_some, if_pos rfl] at hcut
          subst hcut
          cases o <;> cases htoken <;> rfl
        next ho =>
          rw [ho] at hcut
          exact absurd hcut.symm hne

theorem isPart_of_cut_ne_nil (h : cut operand (c :: rest) ≠ []) : isPart c := by
  have hcut := isCut_cut operand (c :: rest)
  obtain ⟨first, text, htext⟩ := List.exists_cons_of_ne_nil h
  rw [htext] at hcut
  obtain ⟨rfl, -⟩ := List.cons_prefix_cons.mp hcut.isPrefix
  exact hcut.parts first List.mem_cons_self

/-- Where nothing is cut by characters, no byte begins a token either. -/
theorem tokenAt_of_cut_eq_nil {cs : List Char} (hagree : Agree cs (c :: behind))
    (hcut : cut operand cs = [])
    (hslice : Text.slice s place s.utf8ByteSize = some (.ofList cs)) :
    tokenAt s operand place c behind = throw (.unknownToken place (.ofList cs)) := by
  have hnone : ¬ ((c = '(' ∨ c = ')') ∨ startsNumber (c :: behind) ∨ c.isAlpha ∨
      (Op.ofSymbol? c).isSome) := by
    intro h
    cases hagree with
    | part _ hrest =>
        rw [← (hrest.part c).startsNumber_eq] at h
        exact cut_ne_nil operand h hcut
    | other _ _ _ hc => exact ne_of_not_isPart hc (isPart_of_cut_ne_nil (cut_ne_nil operand h)) rfl
  simp only [not_or] at hnone
  obtain ⟨⟨hopening, hclosing⟩, hnumber, hfirst, hop⟩ := hnone
  have hsign : ¬ ((c = '+' ∨ c = '-') ∧ operand ∧ startsNumber behind) := by
    rintro ⟨rfl | rfl, -⟩ <;> exact hop rfl
  have hop : Op.ofSymbol? c = none := by simpa using hop
  rw [tokenAt, if_neg hopening, if_neg hclosing, if_neg hsign, if_neg hnumber, if_neg hfirst, hop,
    hslice]
  rfl

theorem cons_result (lexeme : Lexeme) (result : Except CompileError (List Lexeme)) :
    (do
      let rest ← (ExceptT.mk (some result) : Scanning (List Lexeme))
      return lexeme :: rest) =
    ExceptT.mk (some (do
      let rest ← result
      return lexeme :: rest)) := by
  cases result <;> rfl

theorem scanBytesFrom_eq {steps : ℕ} (front : List Char) (operand : Bool) {cs : List Char}
    (hsteps : cs.length < steps) :
    scanBytesFrom (.ofList (front ++ cs)) steps (String.ofList front).utf8ByteSize operand =
      ExceptT.mk (some (scanFrom (String.ofList front).utf8ByteSize operand cs)) := by
  generalize hplace : (String.ofList front).utf8ByteSize = place
  obtain ⟨steps, rfl⟩ := Nat.exists_eq_succ_of_ne_zero (Nat.ne_zero_of_lt hsteps)
  fun_induction scanFrom place operand cs generalizing front steps with
  | case1 place operand hcut =>
      subst hplace
      rw [scanBytesFrom, drop_bytes]
      rfl
  | case2 place operand cs hcut hne =>
      subst hplace
      rw [scanBytesFrom, drop_bytes]
      have hagree := agree_latin cs
      cases hbytes : latin cs with
      | nil =>
          rw [hbytes] at hagree
          cases hagree
          exact absurd rfl hne
      | cons c behind =>
          rw [hbytes] at hagree
          dsimp only
          rw [tokenAt_of_cut_eq_nil hagree hcut (slice_ofList_rest front cs)]
          rfl
  | case3 place operand cs first text hcut ih =>
      subst hplace
      have hne : cut operand cs ≠ [] := hcut.trans_ne (List.cons_ne_nil _ _)
      have hpiece := slice_cut front operand cs
      have hsize := utf8ByteSize_append_cut front operand cs
      have hall := append_cut_append_drop front operand cs
      obtain ⟨token, htoken, -⟩ := exists_written_cut hne
      rw [hcut] at hpiece hsize hall htoken
      cases cs with
      | nil => exact absurd rfl hne
      | cons c rest =>
          have hfewer : ((c :: rest).drop (first :: text).length).length < steps := by
            rw [List.length_drop]
            simp only [List.length_cons] at hsteps ⊢
            omega
          obtain ⟨fewer, rfl⟩ := Nat.exists_eq_succ_of_ne_zero (Nat.ne_zero_of_lt hfewer)
          have hbehind := ih token (front ++ first :: text) hsize fewer hfewer
          rw [hall] at hbehind
          rw [scanBytesFrom, drop_bytes, htoken]
          have hfirst : isPart c := isPart_of_cut_ne_nil hne
          have hsplit : ∃ behind, latin (c :: rest) = [c] ++ behind ∧ Agree rest behind :=
            (agree_latin (c :: rest)).drop (List.forall_mem_singleton.mpr hfirst)
          obtain ⟨behind, hlatin, hagree⟩ := hsplit
          rw [hlatin]
          dsimp only [List.singleton_append]
          rw [← hagree.tokenAt_eq, tokenAt_of_cut hcut (List.cons_ne_nil _ _) htoken hpiece,
            pure_bind]
          dsimp only
          rw [hbehind]
          exact cons_result _ _

/-- The tokens of a text tile it, up to its end or up to a place where no token begins, and scanning
it byte by byte finds the same: it ends, and never cuts inside of a character. -/
theorem scan_tiles (s : String) :
    scanBytes s = some (scan s.toList) ∧ Tiled s 0 true (scan s.toList) := by
  have hsteps : s.toList.length < s.length + 1 := Nat.lt_succ_of_le s.length_toList.le
  have hbytes := scanBytesFrom_eq [] true hsteps
  have htiled := scanFrom_tiled [] true s.toList
  rw [List.nil_append, String.ofList_toList] at hbytes htiled
  exact ⟨congrArg ExceptT.run hbytes, htiled⟩

end Patchbay.Token
