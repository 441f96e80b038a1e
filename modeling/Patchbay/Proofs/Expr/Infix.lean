import Mathlib.Data.List.Chain
import Patchbay.Proofs.Expr.Reading

/-! # Infix expressions

The grammar of infix expressions, in which operands and operators alternate, and the larger grammar
of what the reader accepts: it only counts, so an operator may come after both of its operands.
The two differ exactly on the texts in which one operand directly follows another. -/

namespace Patchbay

/-- Whether an operand can start with this token. -/
def Token.startsOperand : Token → Bool
  | number _ | name _ | opening => true
  | _ => false

namespace Expr

/-! ## Grammars -/

mutual
/-- Operands with an operator between each two of them. -/
inductive Infix (params : List String) : List Token → Prop
  | operand {ts} (h : Operand params ts) : Infix params ts
  | link {ts us} (h : Operand params ts) (o : Op) (hrest : Infix params us) :
      Infix params (ts ++ .op o :: us)

/-- A number, a declared name, or an infix expression in parentheses. -/
inductive Operand (params : List String) : List Token → Prop
  | number (value : Float32) : Operand params [.number value]
  | name {text : String} (h : text ∈ params) : Operand params [.name text]
  | group {ts} (h : Infix params ts) : Operand params (.opening :: (ts ++ [.closing]))
end

mutual
/-- Operands and operators, of which the operands are `surplus` more.  No operator comes before as
many operands as operators have been seen. -/
inductive Counted (params : List String) : Nat → List Token → Prop
  | nil : Counted params 0 []
  | operand {surplus ts us} (h : Counted params surplus ts) (hnext : CountedOperand params us) :
      Counted params (surplus + 1) (ts ++ us)
  | op {surplus ts} (h : Counted params (surplus + 1) ts) (o : Op) :
      Counted params surplus (ts ++ [.op o])

/-- A number, a declared name, or a group with one operand more than operators. -/
inductive CountedOperand (params : List String) : List Token → Prop
  | number (value : Float32) : CountedOperand params [.number value]
  | name {text : String} (h : text ∈ params) : CountedOperand params [.name text]
  | group {ts} (h : Counted params 1 ts) :
      CountedOperand params (.opening :: (ts ++ [.closing]))
end

/-- No operand directly follows another. -/
def Apart (ts : List Token) : Prop :=
  ts.IsChain fun t u => t.wantsOperand ∨ ¬ u.startsOperand

instance (ts : List Token) : Decidable (Apart ts) :=
  inferInstanceAs (Decidable (ts.IsChain _))

variable {params : List String} {ts us : List Token}

/-! ## What the reader accepts -/

theorem exists_idxOf?_iff {text : String} :
    (∃ index, params.idxOf? text = some index) ↔ text ∈ params := by
  rw [← Option.isSome_iff_exists, List.isSome_idxOf?]

/-- One more operand in a level raises the surplus by one. -/
private theorem Collects.counted_push {level : Level} (h : Collects params ts level)
    (ih : ∀ {surplus : Nat}, level.operands.length = level.ops.length + surplus →
      Counted params surplus ts)
    (hnext : CountedOperand params us) {x : Expr} {surplus : Nat}
    (hsurplus : (level.push x).operands.length = (level.push x).ops.length + surplus) :
    Counted params surplus (ts ++ us) := by
  have hle := h.ops_length_le
  simp only [Level.push, List.length_append, List.length_singleton] at hsurplus
  obtain ⟨n, rfl⟩ : ∃ n, surplus = n + 1 := ⟨surplus - 1, by omega⟩
  exact .operand (ih (by omega)) hnext

theorem Collects.counted {level : Level} (h : Collects params ts level) {surplus : Nat}
    (hsurplus : level.operands.length = level.ops.length + surplus) :
    Counted params surplus ts := by
  induction h generalizing surplus with
  | nil =>
      obtain rfl : surplus = 0 := by simpa using hsurplus.symm
      exact .nil
  | number value h ih => exact h.counted_push ih (.number value) hsurplus
  | name h hindex ih => exact h.counted_push ih (.name (exists_idxOf?_iff.mp ⟨_, hindex⟩)) hsurplus
  | group h _ hclose ih ihinner =>
      have hinner := ihinner (Level.exists_close_iff.mp ⟨_, hclose⟩)
      exact h.counted_push ih (.group hinner) hsurplus
  | op o _ _ ih =>
      refine .op (ih ?_) o
      simp only [List.length_append, List.length_singleton] at hsurplus
      omega

mutual
theorem Counted.collects : ∀ {surplus : Nat} {ts : List Token}, Counted params surplus ts →
    ∃ level, Collects params ts level ∧ level.operands.length = level.ops.length + surplus
  | _, _, .nil => ⟨{}, .nil, rfl⟩
  | _, _, .operand h hnext => by
      obtain ⟨level, hlevel, hsurplus⟩ := h.collects
      obtain ⟨x, hx⟩ := hnext.collects hlevel
      exact ⟨_, hx, by simp [Level.push, hsurplus, Nat.add_assoc]⟩
  | _, _, .op h o => by
      obtain ⟨level, hlevel, hsurplus⟩ := h.collects
      exact ⟨_, hlevel.op o (by omega), by simp only [List.length_append, hsurplus]; simp; omega⟩

theorem CountedOperand.collects : ∀ {us : List Token}, CountedOperand params us →
    ∀ {ts : List Token} {level : Level}, Collects params ts level →
      ∃ x, Collects params (ts ++ us) (level.push x)
  | _, .number value, _, _, hlevel => ⟨_, hlevel.number value⟩
  | _, .name h, _, _, hlevel => by
      obtain ⟨index, hindex⟩ := exists_idxOf?_iff.mpr h
      exact ⟨_, hlevel.name hindex⟩
  | _, .group h, _, _, hlevel => by
      obtain ⟨inner, hinner, hsurplus⟩ := h.collects
      obtain ⟨x, hclose⟩ := Level.exists_close_iff.mpr hsurplus
      exact ⟨x, hlevel.group hinner hclose⟩
end

/-- The reader accepts the lists of tokens with one operand more than operators, and no others. -/
theorem exists_ofTokens_iff_counted {tokens : List Lexeme} :
    (∃ e, ofTokens params tokens = .ok e) ↔ Counted params 1 (tokens.map Lexeme.token) := by
  simp only [ofTokens_eq_ok_iff]
  constructor
  · rintro ⟨e, level, hlevel, hclose⟩
    exact hlevel.counted (Level.exists_close_iff.mp ⟨e, hclose⟩)
  · intro h
    obtain ⟨level, hlevel, hsurplus⟩ := h.collects
    obtain ⟨e, hclose⟩ := Level.exists_close_iff.mpr hsurplus
    exact ⟨e, level, hlevel, hclose⟩

/-! ## Infix expressions are what the reader accepts and nothing juxtaposed -/

mutual
theorem Infix.counted : ∀ {us : List Token}, Infix params us →
    ∀ {ts : List Token}, Counted params 0 ts → Counted params 1 (ts ++ us)
  | _, .operand h, _, hts => hts.operand h.counted
  | _, .link h o hrest, _, hts => by
      simpa using hrest.counted ((hts.operand h.counted).op o)

theorem Operand.counted : ∀ {us : List Token}, Operand params us → CountedOperand params us
  | _, .number value => .number value
  | _, .name h => .name h
  | _, .group h => .group (by simpa using h.counted .nil)
end

theorem Apart.append_left (h : Apart (ts ++ us)) : Apart ts := (List.isChain_append.mp h).1

theorem Apart.append_right (h : Apart (ts ++ us)) : Apart us := (List.isChain_append.mp h).2.1

theorem apart_link {o : Op} (hts : Apart ts) (hus : Apart us) : Apart (ts ++ .op o :: us) := by
  refine List.isChain_append.mpr ⟨hts, List.isChain_cons.mpr ⟨?_, hus⟩, ?_⟩
  · intro u _
    exact .inl rfl
  · rintro t _ u hu
    obtain rfl : .op o = u := by simpa using hu
    exact .inr (by simp [Token.startsOperand])

theorem apart_group (hts : Apart ts) : Apart (.opening :: (ts ++ [.closing])) := by
  refine List.isChain_cons.mpr ⟨fun u _ => .inl rfl, ?_⟩
  refine List.isChain_append.mpr ⟨hts, List.isChain_singleton _, ?_⟩
  rintro t _ u hu
  obtain rfl : .closing = u := by simpa using hu
  exact .inr (by decide)

theorem Apart.of_group (h : Apart (.opening :: (ts ++ [.closing]))) : Apart ts :=
  Apart.append_left (List.isChain_cons.mp h).2

mutual
theorem Infix.apart : ∀ {ts : List Token}, Infix params ts → Apart ts
  | _, .operand h => h.apart
  | _, .link h _ hrest => apart_link h.apart hrest.apart

theorem Operand.apart : ∀ {ts : List Token}, Operand params ts → Apart ts
  | _, .number _ => List.isChain_singleton _
  | _, .name _ => List.isChain_singleton _
  | _, .group h => apart_group h.apart
end

/-- Where an infix expression ends, an operand has ended. -/
theorem Operand.last (h : Operand params ts) : ∃ t ∈ ts.getLast?, ¬ t.wantsOperand := by
  cases h with
  | number value => exact ⟨_, rfl, by simp [Token.wantsOperand]⟩
  | name h => exact ⟨_, rfl, by simp [Token.wantsOperand]⟩
  | group h => exact ⟨.closing, by simp [List.getLast?_cons], by simp [Token.wantsOperand]⟩

theorem Infix.last : ∀ {ts : List Token}, Infix params ts → ∃ t ∈ ts.getLast?, ¬ t.wantsOperand
  | _, .operand h => h.last
  | _, .link _ o hrest => by
      obtain ⟨t, ht, hwants⟩ := hrest.last
      refine ⟨t, ?_, hwants⟩
      simp [List.getLast?_cons, Option.mem_def.mp ht]

theorem CountedOperand.head (h : CountedOperand params ts) : ∃ t ∈ ts.head?, t.startsOperand := by
  cases h with
  | number value => exact ⟨_, rfl, rfl⟩
  | name h => exact ⟨_, rfl, rfl⟩
  | group h => exact ⟨_, rfl, rfl⟩

theorem Infix.append : ∀ {ts : List Token}, Infix params ts → ∀ (o : Op) {us : List Token},
    Operand params us → Infix params (ts ++ .op o :: us)
  | _, .operand h, o, _, hus => .link h o (.operand hus)
  | _, .link h o' hrest, o, _, hus => by
      simpa using Infix.link h o' (hrest.append o hus)

mutual
/-- Without juxtaposition the reader sees operands and operators in turn. -/
theorem Counted.alternates : ∀ {surplus : Nat} {ts : List Token}, Counted params surplus ts →
    Apart ts → (surplus = 0 ∧ ts = []) ∨ (surplus = 1 ∧ Infix params ts) ∨
      (surplus = 0 ∧ ∃ us o, ts = us ++ [.op o] ∧ Infix params us)
  | _, _, .nil, _ => .inl ⟨rfl, rfl⟩
  | _, _, .operand h hnext, hapart => by
      have hus := hnext.operand hapart.append_right
      rcases h.alternates hapart.append_left with
        ⟨rfl, rfl⟩ | ⟨_, hts⟩ | ⟨rfl, front, o, rfl, hfront⟩
      · exact .inr (.inl ⟨rfl, .operand hus⟩)
      · obtain ⟨t, ht, hwants⟩ := hts.last
        obtain ⟨u, hu, hstarts⟩ := hnext.head
        rcases (List.isChain_append.mp hapart).2.2 t ht u hu with hwants' | hstarts'
        · exact absurd hwants' hwants
        · exact absurd hstarts hstarts'
      · refine .inr (.inl ⟨rfl, ?_⟩)
        simpa using hfront.append o hus
  | _, _, .op h o, hapart => by
      rcases h.alternates hapart.append_left with ⟨hzero, _⟩ | ⟨hone, hts⟩ | ⟨hzero, _⟩
      · cases hzero
      · exact .inr (.inr ⟨Nat.succ.inj hone, _, o, rfl, hts⟩)
      · cases hzero

theorem CountedOperand.operand : ∀ {ts : List Token}, CountedOperand params ts → Apart ts →
    Operand params ts
  | _, .number value, _ => .number value
  | _, .name h, _ => .name h
  | _, .group h, hapart => by
      rcases h.alternates hapart.of_group with ⟨hone, _⟩ | ⟨_, hts⟩ | ⟨hone, _⟩
      · cases hone
      · exact .group hts
      · cases hone
end

theorem infix_iff_counted_and_apart : Infix params ts ↔ Counted params 1 ts ∧ Apart ts := by
  constructor
  · intro h
    exact ⟨by simpa using h.counted .nil, h.apart⟩
  · rintro ⟨h, hapart⟩
    rcases h.alternates hapart with ⟨hone, _⟩ | ⟨_, hts⟩ | ⟨hone, _⟩
    · cases hone
    · exact hts
    · cases hone

end Expr

end Patchbay
