import SchemaDdl.Text.BaseLetter
import SchemaDdl.Text.Blank

/-!
# Names

Constraint names are lower snake case over the ASCII letters, the digits and the underscore, and
start with a letter. A name that is taken gets the least free number from 2 on, as far as a counter of
32 bits goes.
-/

namespace SchemaDdl.Naming

/-- Joins the runs of ASCII letters and digits by underscores, in lower case. `started` says that
something has been written, `pending` that a separator is due before the next run. -/
def snakeFrom (started pending : Bool) : List Char → List Char
  | [] => []
  | c :: cs =>
    let b := Text.baseLetter c
    if Text.isDiacritic c then snakeFrom started pending cs
    else if b.isAlphanum then
      if started && pending then '_' :: b.toLower :: snakeFrom true false cs
      else b.toLower :: snakeFrom true false cs
    else snakeFrom started true cs

/-- Accents are folded away and every other character separates words. -/
def snakeCase (raw : String) : String :=
  String.ofList (snakeFrom false false raw.toList)

/-- Whether a name may start like this: with a lower-case letter or an underscore. -/
def startsName : List Char → Bool
  | [] => false
  | c :: _ => c.isLower || c == '_'

/-- A name that may not start as it does is put behind `c_`. -/
def withLetter (name : String) : String :=
  if startsName name.toList then name else "c_" ++ name

def lastResort : String := "constraint"

/-- The snake case of `raw`, or else of `fallback`, or else a fixed word. -/
def sanitize (raw fallback : String) : String :=
  let primary := snakeCase raw
  if primary != "" then withLetter primary
  else
    let second := snakeCase fallback
    withLetter (if second != "" then second else lastResort)

def numbered (base : String) (k : Nat) : String :=
  base ++ "_" ++ toString k

/-- The largest number that a counter with a sign and 32 bits takes. -/
def lastNumber : Nat := 2147483647

/-- Of the names with `count` numbers from `k` on, the first that is free. -/
def firstFree? (base : String) (existing : List String) (k : Nat) : Nat → Option String
  | 0 => none
  | count + 1 =>
    if existing.contains (numbered base k) then firstFree? base existing (k + 1) count
    else some (numbered base k)

/-- `base` if it is free, else `base` with the least number from 2 on that makes it free. None if the
counter overflows before it comes to such a number. -/
def ensureUnique? (base : String) (existing : List String) : Option String :=
  if existing.contains base then firstFree? base existing 2 (lastNumber - 1) else some base

/-- The free name for `base`. Where the counter overflows there is no such name, and then the numbers
go on behind its last one: so a table of any length has names for its constraints. -/
def ensureUnique (base : String) (existing : List String) : String :=
  match ensureUnique? base existing with
  | some name => name
  | none => (firstFree? base existing (lastNumber + 1) (existing.length + 1)).getD base

def unnamed : String := "unnamed"

/-- What a schema or a table is to be called: trimmed, and never blank. -/
def properName (base : String) : String :=
  let trimmed := Text.trimmed base
  if trimmed == "" then unnamed else trimmed

/-- A free name for a schema or a table. -/
def ensureUniqueName (base : String) (existing : List String) : String :=
  ensureUnique (properName base) existing

def constraintName (parts : List String) (fallback : String) : String :=
  sanitize ("_".intercalate (parts.filter (· != ""))) fallback

theorem ensureUnique?_of_free {base : String} {existing : List String} (h : base ∉ existing) :
    ensureUnique? base existing = some base := by
  simp [ensureUnique?, h]

theorem ensureUnique?_of_taken {base : String} {existing : List String} (h : base ∈ existing) :
    ensureUnique? base existing = firstFree? base existing 2 (lastNumber - 1) := by
  simp [ensureUnique?, h]

theorem ensureUnique_of_ensureUnique? {base name : String} {existing : List String}
    (h : ensureUnique? base existing = some name) : ensureUnique base existing = name := by
  simp [ensureUnique, h]

theorem ensureUnique_of_free {base : String} {existing : List String} (h : base ∉ existing) :
    ensureUnique base existing = base :=
  ensureUnique_of_ensureUnique? (ensureUnique?_of_free h)

end SchemaDdl.Naming
