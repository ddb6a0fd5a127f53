/-!
# Reading decimal numbers

A decimal text is read into a significand of at most sixty-four bits and a power of ten. Digits
that do not fit are dropped. The double is the significand times or divided by the power, each
step rounded.
-/

namespace SchemaDdl.Decimal

/-- The parts of a number as it is written. -/
structure NumberText where
  negative : Bool
  whole : List Char
  fraction : Option (List Char)
  /-- Whether the exponent is negative, and its digits. -/
  exponent : Option (Bool × List Char)
  deriving DecidableEq, Repr

/-- One digit or more. -/
def someDigits? (cs : List Char) : Option (List Char × List Char) :=
  match cs.takeWhile Char.isDigit with
  | [] => none
  | ds => some (ds, cs.dropWhile Char.isDigit)

/-- No zero stands in front of another digit. -/
def wholeDigits? (cs : List Char) : Option (List Char × List Char) :=
  (someDigits? cs).filter fun (ds, _) => ds.head? != some '0' || ds.length == 1

def fractionDigits? : List Char → Option (Option (List Char) × List Char)
  | '.' :: cs => (someDigits? cs).map fun (ds, rest) => (some ds, rest)
  | cs => some (none, cs)

def signedDigits? : List Char → Option ((Bool × List Char) × List Char)
  | '+' :: cs => (someDigits? cs).map fun (ds, rest) => ((false, ds), rest)
  | '-' :: cs => (someDigits? cs).map fun (ds, rest) => ((true, ds), rest)
  | cs => (someDigits? cs).map fun (ds, rest) => ((false, ds), rest)

def exponentDigits? : List Char → Option (Option (Bool × List Char) × List Char)
  | 'e' :: cs => (signedDigits? cs).map fun (e, rest) => (some e, rest)
  | 'E' :: cs => (signedDigits? cs).map fun (e, rest) => (some e, rest)
  | cs => some (none, cs)

def takeMinus : List Char → Bool × List Char
  | '-' :: cs => (true, cs)
  | cs => (false, cs)

/-- The number at the start of a text, and what follows it. -/
def numberText? (cs : List Char) : Option (NumberText × List Char) := do
  let (negative, rest) := takeMinus cs
  let (whole, rest) ← wholeDigits? rest
  let (fraction, rest) ← fractionDigits? rest
  let (exponent, rest) ← exponentDigits? rest
  return ({ negative, whole, fraction, exponent }, rest)

def digitValue (c : Char) : Nat :=
  c.toNat - '0'.toNat

def natOfDigits (ds : List Char) : Nat :=
  ds.foldl (fun n d => 10 * n + digitValue d) 0

structure Significand where
  value : Nat
  exponent : Int
  /-- A digit has been dropped. -/
  full : Bool
  deriving DecidableEq, Repr

namespace Significand

def pushed (s : Significand) (d : Char) : Nat :=
  10 * s.value + digitValue d

def takes (s : Significand) (d : Char) : Bool :=
  !s.full && s.pushed d < 0x10000000000000000

/-- A digit before the point that does not fit counts as a power of ten. -/
def pushWhole (s : Significand) (d : Char) : Significand :=
  if s.takes d then { s with value := s.pushed d }
  else { s with exponent := s.exponent + 1, full := true }

/-- A digit behind the point that does not fit is dropped, with all that follow. -/
def pushFraction (s : Significand) (d : Char) : Significand :=
  if s.takes d then { s with value := s.pushed d, exponent := s.exponent - 1 }
  else { s with full := true }

def ofWhole (ds : List Char) : Significand :=
  ds.foldl pushWhole ⟨0, 0, false⟩

def withFraction (s : Significand) (ds : List Char) : Significand :=
  ds.foldl pushFraction { s with full := false }

end Significand

def NumberText.shift (t : NumberText) : Int :=
  match t.exponent with
  | none => 0
  | some (negative, ds) => if negative then -(natOfDigits ds : Int) else natOfDigits ds

def NumberText.significand (t : NumberText) : Significand :=
  let s := (Significand.ofWhole t.whole).withFraction (t.fraction.getD [])
  { s with exponent := s.exponent + t.shift }

/-- The largest power of ten that a double holds. -/
def largestPower : Nat := 308

def powerOfTen (k : Nat) : Float :=
  Float.ofScientific 1 false k

/-- `f` times `10 ^ e`. There is none if the result is too large. -/
def scale? (f : Float) (e : Int) : Option Float :=
  if 0 ≤ e then
    if e ≤ largestPower then
      let g := f * powerOfTen e.toNat
      if g.isInf then none else some g
    else if f == 0 then some f
    else none
  else if -largestPower ≤ e then some (f / powerOfTen (-e).toNat)
  else if f == 0 then some f
  else scale? (f / powerOfTen largestPower) (e + largestPower)
termination_by (-e).toNat
decreasing_by
  simp only [largestPower] at *
  omega

def floatOfNat (n : Nat) : Float :=
  (UInt64.ofNat n).toFloat

def floatOfInt (i : Int) : Float :=
  if i < 0 then -floatOfNat i.natAbs else floatOfNat i.natAbs

def signed (negative : Bool) (f : Float) : Float :=
  if negative then -f else f

/-- An integer of sixty-four bits, with or without sign, or a double. -/
inductive Number where
  | int (value : Int)
  | float (value : Float)
  deriving Repr

namespace Number

def toFloat : Number → Float
  | .int i => floatOfInt i
  | .float f => f

/-- A number is an integer if it is written without point and exponent and fits. Minus zero is a
double. -/
def ofText? (t : NumberText) : Option Number :=
  let whole := Significand.ofWhole t.whole
  let float := (scale? (floatOfNat t.significand.value) t.significand.exponent).map
    fun f => Number.float (signed t.negative f)
  if t.fraction.isSome || t.exponent.isSome || whole.full then float
  else if !t.negative then some (.int whole.value)
  else if 1 ≤ whole.value && whole.value ≤ 0x8000000000000000 then
    some (.int (-(whole.value : Int)))
  else float

end Number

end SchemaDdl.Decimal
