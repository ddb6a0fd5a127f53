import SchemaDdl.Text.CaseRanges

/-!
# Lower case of a text

Full Unicode lower-casing. One capital letter has a lower-case form of two characters, and a capital
sigma at the end of a word becomes the final sigma.
-/

namespace SchemaDdl.Text

def isCased (c : Char) : Bool :=
  if c.toNat < 128 then c.isAlpha else casedRanges.has c.toNat

def isCaseIgnorable (c : Char) : Bool :=
  if c.toNat < 128 then c ∈ ['\'', '.', ':', '^', '\x60'] else caseIgnorableRanges.has c.toNat

def lowerChar (c : Char) : List Char :=
  if c.toNat < 128 then [c.toLower]
  else if c == '\u0130' then ['i', '\u0307']
  else match lowerCaseRuns.find? (·.has c.toNat) with
    | some run => [run.apply c.toNat]
    | none => [c]

/-- Whether a cased character comes next, leaving aside the case-ignorable ones. -/
def casedNext (cs : List Char) : Bool :=
  match cs.dropWhile isCaseIgnorable with
  | [] => false
  | c :: _ => isCased c

def capitalSigma : Char := '\u03a3'

/-- Lower-cases `cs`, which stands after the characters `before`, the nearest first. -/
def lowerFrom (before : List Char) : List Char → List Char
  | [] => []
  | c :: cs =>
    let low :=
      if c == capitalSigma then
        if casedNext before && !casedNext cs then ['\u03c2'] else ['\u03c3']
      else lowerChar c
    low ++ lowerFrom (c :: before) cs

def lowerCase (s : String) : String :=
  String.ofList (lowerFrom [] s.toList)

end SchemaDdl.Text
