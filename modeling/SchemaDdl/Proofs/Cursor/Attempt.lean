/-!
# Attempts

A computation by index can go wrong in two ways. It can fail, with a report of what is wrong with its
input, or it can have a fault of its own: an index out of range, a slice between characters, a
difference below zero or a loop that stands still. An attempt with a fault has no outcome at all.
-/

namespace SchemaDdl

abbrev Attempt (ε α : Type) : Type :=
  ExceptT ε Option α

namespace Attempt

variable {ε α β γ : Type}

/-- What stands at an index. There is a fault if nothing does. -/
def found : Option α → Attempt ε α
  | some a => pure a
  | none => .mk none

def of (e : Except ε α) : Attempt ε α :=
  .mk (some e)

/-- Puts what was attempted in front of a failure. -/
def inContext (context : String) (x : Attempt String α) : Attempt String α :=
  x.adapt fun message => s!"{context}: {message}"

/-- The attempt has no fault. It succeeds or fails as `e` does, and its result is related to that
of `e`. -/
inductive Follows (r : α → β → Prop) : Attempt ε α → Except ε β → Prop
  | ok {a : α} {b : β} : r a b → Follows r (pure a) (.ok b)
  | error (e : ε) : Follows r (throw e) (.error e)

namespace Follows

variable {r : α → β → Prop} {x : Attempt ε α} {e : Except ε β}

theorem exists_pure {b : β} (h : Follows r x (.ok b)) : ∃ a, x = pure a ∧ r a b := by
  cases h with
  | ok h => exact ⟨_, rfl, h⟩

theorem bind {α' β' : Type} {s : α' → β' → Prop} {f : α → Attempt ε α'} {g : β → Except ε β'}
    (h : Follows r x e) (hf : ∀ a b, r a b → Follows s (f a) (g b)) :
    Follows s (x >>= f) (e >>= g) := by
  cases h with
  | ok h => exact hf _ _ h
  | error e => exact .error e

theorem map {α' β' : Type} {s : α' → β' → Prop} {f : α → α'} {g : β → β'} (h : Follows r x e)
    (hf : ∀ a b, r a b → s (f a) (g b)) : Follows s (f <$> x) (e.map g) := by
  cases h with
  | ok h => exact .ok (hf _ _ h)
  | error e => exact .error e

/-- What is succeeded in is a result of the computation that is followed. -/
theorem and_eq_ok (h : Follows r x e) : Follows (fun a b => r a b ∧ e = .ok b) x e := by
  cases h with
  | ok h => exact .ok ⟨h, rfl⟩
  | error e => exact .error e

theorem adapt {ε' : Type} (h : Follows r x e) (f : ε → ε') :
    Follows r (x.adapt f) (e.mapError f) := by
  cases h with
  | ok h => exact .ok h
  | error e => exact .error (f e)

theorem of (e : Except ε α) : Follows Eq (Attempt.of e) e := by
  cases e with
  | ok a => exact .ok rfl
  | error e => exact .error e

theorem mapM {κ : Type} {f : κ → Attempt ε α} {g : κ → Except ε α} (h : ∀ k, Follows Eq (f k) (g k))
    (ks : List κ) : Follows Eq (ks.mapM f) (ks.mapM g) := by
  induction ks with
  | nil => exact .ok rfl
  | cons k ks ih =>
    rw [List.mapM_cons, List.mapM_cons]
    refine (h k).bind fun a b hab => ih.bind fun as bs has => .ok ?_
    rw [hab, has]

theorem foldlM {κ : Type} {f : α → κ → Attempt ε α} {g : β → κ → Except ε β}
    (h : ∀ a b k, r a b → Follows r (f a k) (g b k)) {a : α} {b : β} (hab : r a b) (ks : List κ) :
    Follows r (ks.foldlM f a) (ks.foldlM g b) := by
  induction ks generalizing a b with
  | nil => exact .ok hab
  | cons k ks ih =>
    rw [List.foldlM_cons, List.foldlM_cons]
    exact (h a b k hab).bind fun _ _ hnext => ih hnext

end Follows

/-- An attempt that follows without change is the computation that it follows. -/
theorem follows_eq_iff {x : Attempt ε α} {e : Except ε α} : Follows Eq x e ↔ x = of e := by
  constructor
  · rintro (rfl | e) <;> rfl
  · rintro rfl
    exact .of e

/-! ## Loops -/

/-- What a pass of a loop comes to. -/
inductive Turn (σ ρ : Type) where
  | again (state : σ)
  | done (result : ρ)

/-- Makes passes until one is the last. A pass that leaves as much to do as there was is a fault. -/
def repeatedly {σ ρ : Type} (size : σ → Nat) (pass : σ → Attempt ε (Turn σ ρ)) (state : σ) :
    Attempt ε ρ := do
  match ← pass state with
  | .done result => return result
  | .again next =>
    if _h : size next < size state then repeatedly size pass next
    else .mk none
termination_by size state

section Loops

variable {σ ρ τ : Type} {size : σ → Nat} {pass : σ → Attempt ε (Turn σ ρ)} {r : σ → τ → Prop}
  {s : ρ → β → Prop} {g : τ → Except ε β}

/-- A pass that comes as far as the computation `g` at `t`: it fails or is the last as `g` is at `t`,
or it leaves less to do and `g` goes on elsewhere. -/
inductive Advances (size : σ → Nat) (r : σ → τ → Prop) (s : ρ → β → Prop) (g : τ → Except ε β)
    (state : σ) (t : τ) : Attempt ε (Turn σ ρ) → Prop
  | error {e : ε} : g t = .error e → Advances size r s g state t (throw e)
  | done {a : ρ} {b : β} : s a b → g t = .ok b → Advances size r s g state t (pure (.done a))
  | again {next : σ} {u : τ} : r next u → size next < size state → g t = g u →
    Advances size r s g state t (pure (.again next))

/-- A pass that starts with what `g` starts with at `t`. -/
theorem Advances.bind {α' β' : Type} {r' : α' → β' → Prop} {x : Attempt ε α'} {e : Except ε β'}
    {f : α' → Attempt ε (Turn σ ρ)} {k : β' → Except ε β} {state : σ} {t : τ} (h : Follows r' x e)
    (hg : g t = e >>= k) (hf : ∀ a b, r' a b → e = .ok b → g t = k b →
      Advances size r s g state t (f a)) : Advances size r s g state t (x >>= f) := by
  cases h with
  | ok h => exact hf _ _ h rfl hg
  | error e => exact .error hg

/-- A loop whose passes come as far as `g` follows `g`. -/
theorem Follows.repeatedly (hpass : ∀ state t, r state t → Advances size r s g state t (pass state))
    {state : σ} {t : τ} (h : r state t) : Follows s (repeatedly size pass state) (g t) := by
  -- on what there is to do, for a pass that goes on leaves less of it
  induction hsize : size state using Nat.strongRecOn generalizing state t with
  | _ n ih =>
    have hturn := hpass state t h
    rw [Attempt.repeatedly]
    generalize pass state = turn at hturn
    cases hturn with
    | error hg =>
      rw [hg]
      exact .error _
    | done ha hg =>
      rw [hg]
      exact .ok ha
    | again hnext hlt hg =>
      rw [hg]
      have hrest := ih _ (hsize ▸ hlt) hnext rfl
      simpa [hlt] using hrest

end Loops

end Attempt

end SchemaDdl
