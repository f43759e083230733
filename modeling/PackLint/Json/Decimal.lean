/-! # Shortest decimals

    The shortest decimal that reads back as a given binary fraction.  A finite
    `Float` is the one nearest to every real of a small interval around it; of the
    decimals in that interval `Rounding.shortest` takes one with the fewest
    digits, of those the nearest to the number, and on a tie the even one.  All of
    it is arithmetic on natural numbers over a common denominator. -/

namespace PackLint

/-- The number `digits * 10 ^ exponent`. -/
structure Decimal where
  digits : Nat
  exponent : Int
deriving DecidableEq, Repr

/-- The reals that round to a number.  Over the denominator `scale` they lie
    between `low` and `high` around `value`, with both ends iff `closed`. -/
structure Rounding where
  low : Nat
  value : Nat
  high : Nat
  scale : Nat
  closed : Bool
deriving Repr

namespace Rounding

/-- The reals that round to the magnitude of a finite number with these bits.
    They reach half of the way to either neighbour, and the neighbour below a
    power of two is at half of the distance of the one above it. -/
def ofBits (bits : Nat) : Rounding :=
  let fraction := bits % Nat.pow 2 52
  let exponent := bits / Nat.pow 2 52 % Nat.pow 2 11
  let mantissa := if exponent = 0 then fraction else fraction + Nat.pow 2 52
  let reach := if fraction = 0 ∧ 1 < exponent then 1 else 2
  let up := Nat.pow 2 (max exponent 1 - 1077)
  let down := Nat.pow 2 (1077 - max exponent 1)
  ⟨(4 * mantissa - reach) * up, 4 * mantissa * up, (4 * mantissa + 2) * up, down,
    mantissa % 2 == 0⟩

/-- The same reals counted in units of a power of ten. -/
def inUnits (r : Rounding) (exponent : Int) : Rounding :=
  let up := Nat.pow 10 (-exponent).toNat
  let down := Nat.pow 10 exponent.toNat
  ⟨r.low * up, r.value * up, r.high * up, r.scale * down, r.closed⟩

/-- Whether this many units round to the number. -/
def contains (r : Rounding) (n : Nat) : Bool :=
  let x := n * r.scale
  if r.closed then r.low ≤ x && x ≤ r.high else r.low < x && x < r.high

/-- Of the two whole numbers of units around the number, the nearer one that
    rounds to it. -/
def nearest? (r : Rounding) : Option Nat :=
  let below := r.value / r.scale
  let toBelow := r.value - below * r.scale
  let toAbove := (below + 1) * r.scale - r.value
  match r.contains below, r.contains (below + 1) with
  | false, false => none
  | true, false => some below
  | false, true => some (below + 1)
  | true, true =>
      if toBelow < toAbove || (toBelow == toAbove && below % 2 == 0) then some below
      else some (below + 1)

/-- The exponent of the leading digit of a number that is not zero. -/
def leading (r : Rounding) : Int :=
  if r.scale ≤ r.value then ((Nat.toDigits 10 (r.value / r.scale)).length : Int) - 1
  else -(((List.range 400).find? fun n => r.scale ≤ r.value * Nat.pow 10 n).getD 0 : Nat)

/-- The shortest decimal that rounds to the number.  Seventeen digits are always
    enough. -/
def shortest (r : Rounding) : Decimal :=
  let leading := r.leading
  let decimal? (n : Nat) : Option Decimal :=
    ((r.inUnits (leading - n)).nearest?).map fun digits => ⟨digits, leading - n⟩
  ((List.range 17).findSome? decimal?).getD ⟨0, 0⟩

end Rounding

end PackLint
