import Patchbay.Single.Basic
/-!
# Shortest decimals

The decimal with the fewest digits that a binary number is still read back from.  The numbers that
round to `m · 2 ^ e` fill an interval around it; the coarsest decimal grid with a point in that
interval gives the digits, and of two points the nearer, or the upper at equal distance.
-/

namespace Patchbay.Decimal

open Float.Model (Format UnpackedFloat)

/-- The decimal `digits · 10 ^ scale`. -/
structure Scaled where
  digits : Nat
  scale : Int
deriving DecidableEq, Repr

/-- The numbers that round to one binary number, in quarters of its last binary place. -/
structure Neighbourhood where
  low : Nat
  centre : Nat
  high : Nat
  exponent : Int
  closed : Bool

/-- Below a power of two the next number is only half as far away.  A tie is read as the number with
an even significand, which is then the only one to own its ends. -/
def Neighbourhood.of (format : Format) (m : Nat) (e : Int) : Neighbourhood where
  low := if m = 1 <<< format.mantissaBitsWithoutImplicit then 4 * m - 1 else 4 * m - 2
  centre := 4 * m
  high := 4 * m + 2
  exponent := e - 2
  closed := m % 2 = 0

namespace Neighbourhood

/-- Quarters per grid step, as a fraction, on the grid of the multiples of `10 ^ scale`. -/
def step (n : Neighbourhood) (scale : Int) : Nat × Nat :=
  (Nat.pow 10 scale.toNat <<< (-n.exponent).toNat, Nat.pow 10 (-scale).toNat <<< n.exponent.toNat)

/-- Whether the grid point number `k` is in the neighbourhood. -/
def owns (n : Neighbourhood) (scale : Int) (k : Nat) : Bool :=
  let (num, den) := n.step scale
  if n.closed then n.low * den ≤ k * num && k * num ≤ n.high * den
  else n.low * den < k * num && k * num < n.high * den

/-- The grid point to write on one grid, if there is one: one of the two around the centre. -/
def pick (n : Neighbourhood) (scale : Int) : Option Nat :=
  let (num, den) := n.step scale
  let below := n.centre * den / num
  match n.owns scale below, n.owns scale (below + 1) with
  | true, true => some (if 2 * (n.centre * den % num) < num then below else below + 1)
  | true, false => some below
  | false, true => some (below + 1)
  | false, false => none

/-- The first grid with a point to write, going down from `10 ^ scale` at most `finer` times. -/
def coarsest (n : Neighbourhood) (scale : Int) : (finer : Nat) → Scaled
  | 0 => ⟨(n.pick scale).getD 0, scale⟩
  | finer + 1 =>
    match n.pick scale with
    | some digits => ⟨digits, scale⟩
    | none => n.coarsest (scale - 1) finer

end Neighbourhood

/-- The grids that can matter to a format: from a power of ten above its largest number to one below
the distance of its smallest two. -/
def gridRange (format : Format) : Int × Nat :=
  let top : Nat := (31 <<< (format.exponentBits - 1)) / 100 + 1
  (top, 2 * top + format.mantissaBits)

/-- The shortest decimal that reads back as `m · 2 ^ e`. -/
def shortest (format : Format) (m : Nat) (e : Int) : Scaled :=
  let (top, finer) := gridRange format
  (Neighbourhood.of format m e).coarsest top finer

end Patchbay.Decimal
