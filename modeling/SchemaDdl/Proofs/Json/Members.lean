import SchemaDdl.Proofs.Json.Canonical

/-!
# Members and items

What a member of an object must be, if it is there, and what the items of an array must be. Canonical
form keeps such properties, as far as keys are not repeated.
-/

namespace SchemaDdl.Json

/-- There is a member with that key, and it has the property. -/
def Has (j : Json) (key : String) (p : Json → Prop) : Prop :=
  ∃ v, j.member? key = some v ∧ p v

/-- A member with that key has the property, if there is one. -/
def MayHave (j : Json) (key : String) (p : Json → Prop) : Prop :=
  ∀ v, j.member? key = some v → p v

def NullOr (p : Json → Prop) (v : Json) : Prop :=
  v = .null ∨ p v

def ArrayOf (p : Json → Prop) (v : Json) : Prop :=
  ∃ items, v = .array items ∧ ∀ item ∈ items, p item

/-- The items of an array have the property. Any other value passes. -/
def EachItem (p : Json → Prop) (v : Json) : Prop :=
  ∀ items, v = .array items → ∀ item ∈ items, p item

def IsString (v : Json) : Prop :=
  ∃ s, v = .string s

def IsBool (v : Json) : Prop :=
  ∃ b, v = .bool b

@[simp] theorem isString_string (s : String) : IsString (.string s) :=
  ⟨s, rfl⟩

@[simp] theorem isBool_bool (b : Bool) : IsBool (.bool b) :=
  ⟨b, rfl⟩

@[simp] theorem has_object {members : List (String × Json)} {key : String} {p : Json → Prop} :
    (Json.object members).Has key p ↔ ∃ v, members.lookup key = some v ∧ p v :=
  Iff.rfl

@[simp] theorem mayHave_object {members : List (String × Json)} {key : String} {p : Json → Prop} :
    (Json.object members).MayHave key p ↔ ∀ v, members.lookup key = some v → p v :=
  Iff.rfl

theorem arrayOf_map {α : Type} {encode : α → Json} {p : Json → Prop} (h : ∀ a, p (encode a))
    (as : List α) : ArrayOf p (.array (as.map encode)) := by
  refine ⟨_, rfl, ?_⟩
  rw [List.forall_mem_map]
  exact fun a _ => h a

/-- Only scalars have the property. -/
def OnlyScalars (p : Json → Prop) : Prop :=
  ∀ v, p v → v.isScalar = true

theorem onlyScalars_isString : OnlyScalars IsString := by
  rintro _ ⟨s, rfl⟩
  rfl

theorem onlyScalars_isBool : OnlyScalars IsBool := by
  rintro _ ⟨b, rfl⟩
  rfl

theorem onlyScalars_eq {w : Json} (h : w.isScalar = true) : OnlyScalars (· = w) := by
  rintro _ rfl
  exact h

theorem OnlyScalars.nullOr {p : Json → Prop} (h : OnlyScalars p) : OnlyScalars (NullOr p) := by
  rintro v (rfl | hv)
  · rfl
  · exact h v hv

section

variable {j c v w : Json} {key : String} {keys : List String} {p q r : Json → Prop}

theorem has_iff : j.Has key p ↔ j.member? key ≠ none ∧ j.MayHave key p := by
  rw [Has, MayHave]
  cases j.member? key with
  | none => simp
  | some v => simp

theorem Reduces.eq_null_iff (h : v.Reduces w) : v = .null ↔ w = .null := by
  constructor
  · rintro rfl
    exact (h.eq_of_isScalar (.inl rfl)).symm
  · rintro rfl
    exact h.eq_of_isScalar (.inr rfl)

/-! ## Canonical form -/

theorem Reduces.member?_eq_some (h : j.Reduces c) (honce : j.Unrepeated keys) (hkey : key ∈ keys)
    (hw : c.member? key = some w) : ∃ v, j.member? key = some v ∧ v.Reduces w := by
  have hrel := h.rel_member? honce hkey
  rw [hw] at hrel
  cases hv : j.member? key with
  | none =>
    rw [hv] at hrel
    cases hrel
  | some v =>
    rw [hv] at hrel
    cases hrel with
    | some hvw => exact ⟨v, rfl, hvw⟩

theorem Reduces.member?_eq_none (h : j.Reduces c) (honce : j.Unrepeated keys) (hkey : key ∈ keys)
    (hw : c.member? key = none) : j.member? key = none := by
  have hrel := h.rel_member? honce hkey
  rw [hw] at hrel
  cases hv : j.member? key with
  | none => rfl
  | some v =>
    rw [hv] at hrel
    cases hrel

theorem MayHave.reduced (hmember : j.MayHave key p) (h : j.Reduces c) (honce : j.Unrepeated keys)
    (hkey : key ∈ keys)
    (hstep : ∀ v w, j.member? key = some v → v.Reduces w → p v → q w) : c.MayHave key q := by
  intro w hw
  obtain ⟨v, hv, hvw⟩ := h.member?_eq_some honce hkey hw
  exact hstep v w hv hvw (hmember v hv)

theorem Has.reduced (hmember : j.Has key p) (h : j.Reduces c) (honce : j.Unrepeated keys)
    (hkey : key ∈ keys)
    (hstep : ∀ v w, j.member? key = some v → v.Reduces w → p v → q w) : c.Has key q := by
  obtain ⟨hthere, hmay⟩ := has_iff.1 hmember
  exact has_iff.2 ⟨mt (h.member?_eq_none honce hkey) hthere, hmay.reduced h honce hkey hstep⟩

theorem OnlyScalars.reduced (hscalar : OnlyScalars p) (h : v.Reduces w) (hv : p v) : p w := by
  rwa [← h.eq_of_isScalar (.inl (hscalar v hv))]

/-- A property that only scalars have passes to the canonical form with the fields. -/
theorem OnlyScalars.has_reduced (hscalar : OnlyScalars p) (h : j.Reduces c)
    (honce : j.Unrepeated keys) {part : List String} (hsub : part ⊆ keys)
    (hj : ∀ key ∈ part, j.Has key p) : ∀ key ∈ part, c.Has key p := by
  intro key hkey
  exact (hj key hkey).reduced h honce (hsub hkey) fun v w _ hvw hv => hscalar.reduced hvw hv

theorem OnlyScalars.mayHave_reduced (hscalar : OnlyScalars p) (h : j.Reduces c)
    (honce : j.Unrepeated keys) {part : List String} (hsub : part ⊆ keys)
    (hj : ∀ key ∈ part, j.MayHave key p) : ∀ key ∈ part, c.MayHave key p := by
  intro key hkey
  exact (hj key hkey).reduced h honce (hsub hkey) fun v w _ hvw hv => hscalar.reduced hvw hv

theorem NullOr.reduced (hnull : NullOr p v) (h : v.Reduces w) (hstep : p v → q w) : NullOr q w :=
  hnull.imp h.eq_null_iff.1 hstep

theorem ArrayOf.reduced (hitems : ArrayOf p v) (h : v.Reduces w) (honce : EachItem r v)
    (hstep : ∀ i k, i.Reduces k → r i → p i → q k) : ArrayOf q w := by
  obtain ⟨items, rfl, hitems⟩ := hitems
  obtain ⟨cs, hcs, rfl⟩ := reduces_array_iff.1 h
  refine ⟨cs, rfl, fun k hk => ?_⟩
  obtain ⟨i, hi, hik⟩ := exists_of_mem_mapM hcs hk
  exact hstep i k hik (honce items rfl i hi) (hitems i hi)

/-! ## Distinct keys -/

theorem DistinctKeys.mayHave (h : j.DistinctKeys) (hp : ∀ v, DistinctKeys v → p v) :
    j.MayHave key p := by
  intro v hv
  cases h with
  | object _ hmembers =>
    obtain ⟨before, behind, rfl, -⟩ := List.lookup_eq_some_iff.1 hv
    exact hp v (hmembers (key, v) (by simp))
  | _ => cases hv

theorem DistinctKeys.eachItem (h : v.DistinctKeys) (hp : ∀ i, DistinctKeys i → p i) :
    EachItem p v := by
  rintro items rfl item hitem
  cases h with
  | array hitems => exact hp item (hitems item hitem)

end

end SchemaDdl.Json
