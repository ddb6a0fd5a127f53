import SchemaDdl.Decimal.Shortest

/-!
# How doubles are written

Doubles are written with the fewest digits that read back. From `0.00001` up to below `10 ^ 16`
the notation is positional and always has a point; outside that range there is one digit before
the point, and the exponent has a sign.
-/

namespace SchemaDdl.Decimal

/-- Digits with the point behind the first `places` of them. -/
def pointed (ds : List Char) (places : Nat) : List Char :=
  ds.take places ++ '.' :: ds.drop places

def zeros (n : Nat) : List Char :=
  List.replicate n '0'

/-- The exponents of the first digit that are written without `e`. -/
def isPositional (e : Int) : Bool :=
  -5 ≤ e && e < 16

def exponentText (e : Int) : List Char :=
  'e' :: (if e < 0 then '-' else '+') :: Nat.toDigits 10 e.natAbs

/-- The digits `ds`, where the first one counts `10 ^ e`. -/
def layout (ds : List Char) (e : Int) : List Char :=
  if isPositional e then
    if e < 0 then ['0', '.'] ++ zeros (-e - 1).toNat ++ ds
    else if ds.length ≤ e.toNat + 1 then ds ++ zeros (e.toNat + 1 - ds.length) ++ ['.', '0']
    else pointed ds (e.toNat + 1)
  else if ds.length ≤ 1 then ds ++ exponentText e
  else pointed ds 1 ++ exponentText e

def Scientific.text (d : Scientific) : List Char :=
  let ds := Nat.toDigits 10 d.digits
  layout ds (d.exponent + ds.length - 1)

/-- A double that is not finite has no text. -/
def floatText? (f : Float) : Option (List Char) :=
  if f.isFinite then
    let bits := f.toBits.toNat
    let text := (Binary.ofBits bits).shortest.text
    some (if 0x8000000000000000 ≤ bits then '-' :: text else text)
  else none

end SchemaDdl.Decimal
