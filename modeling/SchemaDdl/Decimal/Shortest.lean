/-!
# The shortest decimal of a double

A finite double is `mantissa * 2 ^ exponent`. Every real in an interval around it rounds to it. Of
the decimals in that interval the one with the fewest digits is written, and of two of that length
the nearer one.
-/

namespace SchemaDdl.Decimal

structure Binary where
  mantissa : Nat
  exponent : Int
  /-- The neighbour below is half as far away as the one above. -/
  narrowBelow : Bool
  deriving DecidableEq, Repr

/-- The absolute value of a finite double, from its sixty-four bits. -/
def Binary.ofBits (bits : Nat) : Binary :=
  let biased : Nat := bits / 0x10000000000000 % 0x800
  let fraction := bits % 0x10000000000000
  if biased == 0 then ⟨fraction, -1074, false⟩
  else ⟨fraction + 0x10000000000000, (biased : Int) - 1075, fraction == 0 && biased != 1⟩

/-- `digits * 10 ^ exponent`. -/
structure Scientific where
  digits : Nat
  exponent : Int
  deriving DecidableEq, Repr

namespace Binary

/-- The grid of the multiples of `10 ^ k`, seen from a double: a number of quarters of the last
binary place times `num / den` is that number in units of the grid. -/
structure Grid where
  num : Nat
  den : Nat

def grid (b : Binary) (k : Int) : Grid where
  num := Nat.pow 2 (b.exponent - 2).toNat * Nat.pow 10 (-k).toNat
  den := Nat.pow 2 (2 - b.exponent).toNat * Nat.pow 10 k.toNat

/-- Whether `d * 10 ^ k` rounds to the double. The ends of the interval do if the mantissa is
even. -/
def roundsTo (b : Binary) (k : Int) (d : Nat) : Bool :=
  let g := b.grid k
  let low := (4 * b.mantissa - if b.narrowBelow then 1 else 2) * g.num
  let high := (4 * b.mantissa + 2) * g.num
  let x := d * g.den
  if b.mantissa % 2 == 0 then low ≤ x && x ≤ high else low < x && x < high

/-- The multiple of `10 ^ k` next to the double that rounds to it. An exact tie goes to the even
one. -/
def nearest? (b : Binary) (k : Int) : Option Nat :=
  let g := b.grid k
  let value := 4 * b.mantissa * g.num
  let below := value / g.den
  let above := below + 1
  match b.roundsTo k below, b.roundsTo k above with
  | false, false => none
  | true, false => some below
  | false, true => some above
  | true, true =>
    let twice := 2 * value
    let middle := (below + above) * g.den
    some (if twice < middle || (twice == middle && below % 2 == 0) then below else above)

/-- A power of ten above the double. -/
def topExponent (b : Binary) : Int :=
  (((b.mantissa.log2 : Int) + 1 + b.exponent) * 30103).fdiv 100000 + 1

/-- Tries the grids from `10 ^ k` on downwards. -/
def search (b : Binary) : Nat → Int → Scientific
  | 0, k => ⟨4 * b.mantissa * (b.grid k).num / (b.grid k).den, k⟩
  | tries + 1, k =>
    match b.nearest? k with
    | some d => ⟨d, k⟩
    | none => b.search tries (k - 1)

/-- Seventeen digits always suffice, and the search starts at most two places too high. -/
def shortest (b : Binary) : Scientific :=
  if b.mantissa == 0 then ⟨0, 0⟩ else b.search 20 b.topExponent

end Binary

end SchemaDdl.Decimal
