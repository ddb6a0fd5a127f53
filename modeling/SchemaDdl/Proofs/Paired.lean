import Mathlib.Data.List.Forall2
import SchemaDdl.Proofs.Fallible

/-!
# Fallible steps side by side

Two runs whose steps are compared one by one, and the options and lists that they pass on.
-/

namespace SchemaDdl

variable {ε ε' α α' β β' : Type} {r : α → α' → Prop} {s : β → β' → Prop}

/-- Both runs succeed, with related results, or both fail. The reports are not compared. -/
inductive Both (r : α → α' → Prop) : Except ε α → Except ε' α' → Prop
  | ok {a : α} {a' : α'} : r a a' → Both r (.ok a) (.ok a')
  | error (e : ε) (e' : ε') : Both r (.error e) (.error e')

namespace Both

variable {x : Except ε α} {x' : Except ε' α'}

theorem exists_ok (h : Both r x x') {a : α} (ha : x = .ok a) : ∃ a', x' = .ok a' ∧ r a a' := by
  cases h with
  | ok h =>
    cases ha
    exact ⟨_, rfl, h⟩
  | error => cases ha

theorem exists_ok' (h : Both r x x') {a' : α'} (ha : x' = .ok a') : ∃ a, x = .ok a ∧ r a a' := by
  cases h with
  | ok h =>
    cases ha
    exact ⟨_, rfl, h⟩
  | error => cases ha

/-- Runs that succeed in the same cases, with related results. -/
theorem intro (h : ∀ a, x = .ok a → ∃ a', x' = .ok a' ∧ r a a')
    (h' : ∀ a', x' = .ok a' → ∃ a, x = .ok a) : Both r x x' := by
  cases x with
  | ok a =>
    obtain ⟨a', rfl, ha⟩ := h a rfl
    exact .ok ha
  | error e =>
    cases x' with
    | error e' => exact .error e e'
    | ok a' =>
      obtain ⟨a, ha⟩ := h' a' rfl
      cases ha

theorem bind_of_ok {f : α → Except ε β} {f' : α' → Except ε' β'} (h : Both r x x')
    (hf : ∀ a a', x = .ok a → x' = .ok a' → r a a' → Both s (f a) (f' a')) :
    Both s (x >>= f) (x' >>= f') := by
  cases h with
  | ok h => exact hf _ _ rfl rfl h
  | error e e' => exact .error e e'

theorem bind {f : α → Except ε β} {f' : α' → Except ε' β'} (h : Both r x x')
    (hf : ∀ a a', r a a' → Both s (f a) (f' a')) : Both s (x >>= f) (x' >>= f') :=
  h.bind_of_ok fun a a' _ _ ha => hf a a' ha

theorem map {f : α → β} {f' : α' → β'} (h : Both r x x') (hf : ∀ a a', r a a' → s (f a) (f' a')) :
    Both s (x.map f) (x'.map f') := by
  cases h with
  | ok h => exact .ok (hf _ _ h)
  | error e e' => exact .error e e'

theorem of_map {f : α → β} {f' : α' → β'} (h : Both s (x.map f) (x'.map f'))
    (hf : ∀ a a', s (f a) (f' a') → r a a') : Both r x x' := by
  cases x with
  | error e =>
    cases x' with
    | error e' => exact .error e e'
    | ok a' => cases h
  | ok a =>
    cases x' with
    | error e' => cases h
    | ok a' =>
      cases h with
      | ok h => exact .ok (hf a a' h)

theorem mapError {ε₁ ε₁' : Type} (h : Both r x x') (f : ε → ε₁) (f' : ε' → ε₁') :
    Both r (x.mapError f) (x'.mapError f') := by
  cases h with
  | ok h => exact .ok h
  | error e e' => exact .error _ _

theorem mapM {f : α → Except ε β} {f' : α' → Except ε' β'} {xs : List α} {xs' : List α'}
    (h : List.Forall₂ (fun a a' => Both s (f a) (f' a')) xs xs') :
    Both (List.Forall₂ s) (xs.mapM f) (xs'.mapM f') := by
  induction h with
  | nil => exact .ok .nil
  | cons hx _ ih =>
    rw [List.mapM_cons, List.mapM_cons]
    exact hx.bind fun _ _ hy => ih.bind fun _ _ hys => .ok (.cons hy hys)

end Both

theorem map_eq_of_forall₂ {γ : Type} {g : α → γ} {g' : α' → γ} {xs : List α} {xs' : List α'}
    (h : List.Forall₂ r xs xs') (hg : ∀ x x', r x x' → g' x' = g x) : xs'.map g' = xs.map g := by
  induction h with
  | nil => rfl
  | cons hx _ ih => rw [List.map_cons, List.map_cons, hg _ _ hx, ih]

/-! ## Options -/

section Options

variable {o : Option α} {o' : Option α'}

/-- Related options are both empty or both hold related values. -/
theorem cases_of_rel (h : Option.Rel r o o') :
    (o = none ∧ o' = none) ∨ ∃ a a', o = some a ∧ o' = some a' ∧ r a a' := by
  cases h with
  | none => exact .inl ⟨rfl, rfl⟩
  | some h => exact .inr ⟨_, _, rfl, rfl, h⟩

theorem rel_map {f : α → β} {f' : α' → β'} (h : Option.Rel r o o')
    (hf : ∀ a a', r a a' → s (f a) (f' a')) : Option.Rel s (o.map f) (o'.map f') := by
  cases h with
  | none => exact .none
  | some h => exact .some (hf _ _ h)

theorem rel_bind {f : α → Option β} {f' : α' → Option β'} (h : Option.Rel r o o')
    (hf : ∀ a a', r a a' → Option.Rel s (f a) (f' a')) : Option.Rel s (o.bind f) (o'.bind f') := by
  cases h with
  | none => exact .none
  | some h => exact hf _ _ h

/-- Related options are looked at together. -/
@[elab_as_elim]
theorem rel_elim {motive : Option α → Option α' → Prop} (h : Option.Rel r o o')
    (some : ∀ a a', r a a' → motive (some a) (some a')) (none : motive none none) : motive o o' := by
  cases h with
  | none => exact none
  | some h => exact some _ _ h

/-- One of two related options is looked at, and what it says of the other is kept. -/
@[elab_as_elim]
theorem rel_cases {motive : Option α → Prop} (h : Option.Rel r o o') (none : o' = none → motive none)
    (some : ∀ a a', o' = some a' → r a a' → motive (some a)) : motive o := by
  cases h with
  | none => exact none rfl
  | some h => exact some _ _ rfl h

theorem isSome_eq_of_rel (h : Option.Rel r o o') : o.isSome = o'.isSome := by
  cases h <;> rfl

theorem rel_find? {p : α → Bool} {q : α' → Bool} (hp : ∀ x x', r x x' → q x' = p x) {xs : List α}
    {xs' : List α'} (h : List.Forall₂ r xs xs') : Option.Rel r (xs.find? p) (xs'.find? q) := by
  induction h with
  | nil => exact .none
  | cons hx _ ih =>
    rw [List.find?_cons, List.find?_cons, hp _ _ hx]
    split
    · exact .some hx
    · exact ih

theorem rel_foldlM {κ : Type} {f : α → κ → Option α} {f' : α' → κ → Option α'}
    (hf : ∀ a a' k, r a a' → Option.Rel r (f a k) (f' a' k)) {a : α} {a' : α'} (h : r a a')
    (ks : List κ) : Option.Rel r (ks.foldlM f a) (ks.foldlM f' a') := by
  induction ks generalizing a a' with
  | nil => exact .some h
  | cons k ks ih =>
    rw [List.foldlM_cons, List.foldlM_cons]
    exact rel_bind (hf a a' k h) fun _ _ hnext => ih hnext

theorem rel_findSome? {κ : Type} {f : κ → Option α} {f' : κ → Option α'}
    (h : ∀ k, Option.Rel r (f k) (f' k)) (ks : List κ) :
    Option.Rel r (ks.findSome? f) (ks.findSome? f') := by
  induction ks with
  | nil => exact .none
  | cons k ks ih =>
    rw [List.findSome?_cons, List.findSome?_cons]
    exact rel_elim (h k) (fun _ _ ha => .some ha) ih

end Options

end SchemaDdl
