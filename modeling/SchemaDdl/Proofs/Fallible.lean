import Mathlib.Data.List.Perm.Basic

/-!
# Fallible steps in a row

A run of steps that may fail succeeds if and only if each of them does.
-/

namespace SchemaDdl

variable {ε α β γ : Type}

theorem bind_eq_ok_iff {x : Except ε α} {f : α → Except ε β} {b : β} :
    (x >>= f) = .ok b ↔ ∃ a, x = .ok a ∧ f a = .ok b := by
  cases x with
  | error e =>
    constructor
    · intro h
      cases h
    · rintro ⟨a, h, -⟩
      cases h
  | ok a =>
    constructor
    · exact fun h => ⟨a, rfl, h⟩
    · rintro ⟨a', h, hf⟩
      cases h
      exact hf

theorem bind_eq_error_iff {x : Except ε α} {f : α → Except ε β} {e : ε} :
    (x >>= f) = .error e ↔ x = .error e ∨ ∃ a, x = .ok a ∧ f a = .error e := by
  cases x with
  | error e' =>
    constructor
    · intro h
      cases h
      exact .inl rfl
    · rintro (h | ⟨a, h, -⟩)
      · cases h
        rfl
      · cases h
  | ok a =>
    constructor
    · exact fun h => .inr ⟨a, rfl, h⟩
    · rintro (h | ⟨a', h, hf⟩)
      · cases h
      · cases h
        exact hf

@[simp] theorem mapError_ok {ε' : Type} (f : ε → ε') (a : α) :
    (Except.ok a : Except ε α).mapError f = .ok a := rfl

theorem mapError_eq_ok_iff {ε' : Type} {x : Except ε α} {f : ε → ε'} {a : α} :
    x.mapError f = .ok a ↔ x = .ok a := by
  cases x with
  | error e =>
    constructor <;> intro h <;> cases h
  | ok b =>
    rw [mapError_ok]
    exact ⟨fun h => by cases h; rfl, fun h => by cases h; rfl⟩

theorem toOption_eq_some_iff {x : Except ε α} {a : α} : x.toOption = some a ↔ x = .ok a := by
  cases x <;> simp [Except.toOption]

section MapM

variable {f : α → Except ε β} {xs : List α} {ys : List β}

theorem mapM_eq_ok_iff : xs.mapM f = .ok ys ↔ xs.map f = ys.map .ok := by
  induction xs generalizing ys with
  | nil =>
    rw [List.mapM_nil, List.map_nil]
    constructor
    · intro h
      cases h
      rfl
    · intro h
      rw [List.map_eq_nil_iff.1 h.symm]
      rfl
  | cons x xs ih =>
    rw [List.mapM_cons, bind_eq_ok_iff, List.map_cons]
    constructor
    · rintro ⟨y, hy, h⟩
      obtain ⟨zs, hzs, h⟩ := bind_eq_ok_iff.1 h
      cases h
      rw [hy, ih.1 hzs, List.map_cons]
    · intro h
      obtain ⟨y, zs, rfl, hy, hzs⟩ := List.map_eq_cons_iff.1 h.symm
      refine ⟨y, hy.symm, ?_⟩
      rw [ih.2 hzs.symm]
      rfl

theorem exists_mapM_eq_ok (h : ∀ x ∈ xs, ∃ y, f x = .ok y) : ∃ ys, xs.mapM f = .ok ys := by
  induction xs with
  | nil => exact ⟨[], rfl⟩
  | cons x xs ih =>
    obtain ⟨y, hy⟩ := h x List.mem_cons_self
    obtain ⟨ys, hys⟩ := ih fun z hz => h z (List.mem_cons_of_mem x hz)
    refine ⟨y :: ys, ?_⟩
    rw [List.mapM_cons, hy, hys]
    rfl

theorem exists_of_mem_of_mapM (h : xs.mapM f = .ok ys) {y : β} (hy : y ∈ ys) :
    ∃ x ∈ xs, f x = .ok y := by
  have hmem : (Except.ok y : Except ε β) ∈ xs.map f := by
    rw [mapM_eq_ok_iff.1 h]
    exact List.mem_map_of_mem hy
  exact List.mem_map.1 hmem

theorem exists_of_mapM_of_mem (h : xs.mapM f = .ok ys) {x : α} (hx : x ∈ xs) :
    ∃ y ∈ ys, f x = .ok y := by
  have hmem : f x ∈ ys.map (Except.ok : β → Except ε β) := by
    rw [← mapM_eq_ok_iff.1 h]
    exact List.mem_map_of_mem hx
  obtain ⟨y, hy, heq⟩ := List.mem_map.1 hmem
  exact ⟨y, hy, heq.symm⟩

/-- What each step says about its result, for all of them. -/
theorem map_eq_map_of_mapM (h : xs.mapM f = .ok ys) {g : β → γ} {k : α → γ}
    (hstep : ∀ x ∈ xs, ∀ y, f x = .ok y → g y = k x) : ys.map g = xs.map k := by
  induction xs generalizing ys with
  | nil =>
    cases h
    rfl
  | cons x xs ih =>
    rw [List.mapM_cons] at h
    obtain ⟨y, hy, h⟩ := bind_eq_ok_iff.1 h
    obtain ⟨zs, hzs, h⟩ := bind_eq_ok_iff.1 h
    cases h
    rw [List.map_cons, List.map_cons, hstep x List.mem_cons_self y hy,
      ih hzs fun z hz => hstep z (List.mem_cons_of_mem x hz)]

/-- What is picked out of the results, if each step says what is picked out of its own. -/
theorem filterMap_eq_filterMap_of_mapM (h : xs.mapM f = .ok ys) {g : β → Option γ} {k : α → Option γ}
    (hstep : ∀ x ∈ xs, ∀ y, f x = .ok y → g y = k x) : ys.filterMap g = xs.filterMap k := by
  have hmap := congrArg (List.filterMap id) (map_eq_map_of_mapM h hstep)
  rwa [List.filterMap_map, List.filterMap_map] at hmap

end MapM

/-! ## Steps in another order -/

/-- The same elements in another order, in which those of each kind keep theirs. -/
structure Rearranged (kinds : List (α → Bool)) (xs xs' : List α) : Prop where
  perm : xs.Perm xs'
  kept : ∀ k ∈ kinds, xs.filter k = xs'.filter k

theorem Rearranged.symm {kinds : List (α → Bool)} {xs xs' : List α} (h : Rearranged kinds xs xs') :
    Rearranged kinds xs' xs :=
  ⟨h.perm.symm, fun k hk => (h.kept k hk).symm⟩

section Rearranged

variable {f : α → Except ε β} {xs xs' : List α} {ys ys' : List β}

theorem exists_mapM_of_perm (hperm : xs.Perm xs') (h : xs.mapM f = .ok ys) :
    ∃ ys', xs'.mapM f = .ok ys' ∧ ys.Perm ys' := by
  obtain ⟨ys', hys'⟩ := exists_mapM_eq_ok fun x hx => by
    obtain ⟨y, -, hy⟩ := exists_of_mapM_of_mem h (hperm.mem_iff.2 hx)
    exact ⟨y, hy⟩
  refine ⟨ys', hys', ?_⟩
  have hmap : (ys.map (Except.ok : β → Except ε β)).Perm (ys'.map .ok) := by
    rw [← mapM_eq_ok_iff.1 h, ← mapM_eq_ok_iff.1 hys']
    exact hperm.map f
  exact (List.map_perm_map_iff fun _ _ heq => Except.ok.inj heq).1 hmap

/-- What is picked out of the results hangs only on the steps of the kind that it comes from. -/
theorem filterMap_of_mapM {g : β → Option γ} {k : α → Bool}
    (hk : ∀ x y, f x = .ok y → (g y).isSome → k x = true) (h : xs.mapM f = .ok ys) :
    ys.filterMap g = (xs.filter k).filterMap fun x => (f x).toOption.bind g := by
  induction xs generalizing ys with
  | nil =>
    cases h
    rfl
  | cons x xs ih =>
    rw [List.mapM_cons] at h
    obtain ⟨y, hy, h⟩ := bind_eq_ok_iff.1 h
    obtain ⟨zs, hzs, h⟩ := bind_eq_ok_iff.1 h
    cases h
    have hstep : (f x).toOption.bind g = g y := by
      rw [hy]
      rfl
    have hrest := ih hzs
    cases hg : g y with
    | none => cases hx : k x <;> simp [hg, hx, hstep, hrest]
    | some z =>
      have hx := hk x y hy (by simp [hg])
      simp [hg, hx, hstep, hrest]

/-- What is picked out of the results of one kind keeps its order. -/
theorem Rearranged.filterMap_eq {kinds : List (α → Bool)} (hxs : Rearranged kinds xs xs')
    {k : α → Bool} (hmem : k ∈ kinds) {g : β → Option γ}
    (hk : ∀ x y, f x = .ok y → (g y).isSome → k x = true) (h : xs.mapM f = .ok ys)
    (h' : xs'.mapM f = .ok ys') : ys.filterMap g = ys'.filterMap g := by
  rw [filterMap_of_mapM hk h, filterMap_of_mapM hk h', hxs.kept k hmem]

end Rearranged

/-- What holds at the start and is kept by every step holds at the end. -/
theorem foldlM_induction {f : β → α → Except ε β} {xs : List α} {b b' : β}
    (h : xs.foldlM f b = .ok b') {P : β → Prop} (hb : P b)
    (hstep : ∀ c, ∀ x ∈ xs, ∀ c', P c → f c x = .ok c' → P c') : P b' := by
  induction xs generalizing b with
  | nil =>
    cases h
    exact hb
  | cons x xs ih =>
    rw [List.foldlM_cons] at h
    obtain ⟨c, hc, h⟩ := bind_eq_ok_iff.1 h
    exact ih h (hstep b x List.mem_cons_self c hb hc) fun d y hy =>
      hstep d y (List.mem_cons_of_mem x hy)

/-- A run fails at the first step that fails. -/
theorem foldlM_eq_error_iff {f : β → α → Except ε β} {xs : List α} {b : β} {e : ε} :
    xs.foldlM f b = .error e ↔ ∃ before x after c, xs = before ++ x :: after ∧
      before.foldlM f b = .ok c ∧ f c x = .error e := by
  constructor
  · intro h
    induction xs generalizing b with
    | nil => cases h
    | cons x xs ih =>
      rw [List.foldlM_cons, bind_eq_error_iff] at h
      rcases h with h | ⟨c, hc, h⟩
      · exact ⟨[], x, xs, b, rfl, rfl, h⟩
      · obtain ⟨before, y, after, d, rfl, hd, hy⟩ := ih h
        refine ⟨x :: before, y, after, d, rfl, ?_, hy⟩
        rw [List.foldlM_cons, hc]
        exact hd
  · rintro ⟨before, x, after, c, rfl, hc, hx⟩
    rw [List.foldlM_append, bind_eq_error_iff]
    refine .inr ⟨c, hc, ?_⟩
    rw [List.foldlM_cons, bind_eq_error_iff]
    exact .inl hx

/-! ## Mapped results -/

theorem bind_eq_map {x : Except ε α} {k : β → γ} {f : α → Except ε β} {f' : α → Except ε γ}
    (h : ∀ a, f' a = (f a).map k) : (x >>= f') = (x >>= f).map k := by
  cases x with
  | error e => rfl
  | ok a => exact h a

/-- A step that follows a mapped result. -/
theorem map_bind_eq_map {α' β' : Type} {x : Except ε α} {k : α → α'} {k' : β → β'}
    {f : α → Except ε β} {f' : α' → Except ε β'} (h : ∀ a, f' (k a) = (f a).map k') :
    (x.map k >>= f') = (x >>= f).map k' := by
  cases x with
  | error e => rfl
  | ok a => exact h a

theorem map_bind (x : Except ε α) (k : α → β) (f : β → Except ε γ) :
    x.map k >>= f = x >>= fun a => f (k a) := by
  cases x <;> rfl

theorem map_eq_self {x : Except ε α} {k : α → α} (h : ∀ a, x = .ok a → k a = a) : x.map k = x := by
  cases x with
  | error e => rfl
  | ok a => exact congrArg Except.ok (h a rfl)

theorem mapError_map {ε' : Type} (x : Except ε α) (g : ε → ε') (k : α → β) :
    (x.map k).mapError g = (x.mapError g).map k := by
  cases x <;> rfl

theorem mapM_eq_map {f : α → Except ε β} {g : α → Except ε γ} {k : γ → β}
    (h : ∀ x, f x = (g x).map k) (xs : List α) : xs.mapM f = (xs.mapM g).map (List.map k) := by
  induction xs with
  | nil => rfl
  | cons x xs ih =>
    rw [List.mapM_cons, List.mapM_cons, h, ih]
    exact map_bind_eq_map fun y => map_bind_eq_map fun ys => rfl

/-- Runs whose states differ by `k` all along. -/
theorem foldlM_eq_map {f : β → α → Except ε β} {g : γ → α → Except ε γ} {k : γ → β}
    (h : ∀ c x, f (k c) x = (g c x).map k) (c : γ) (xs : List α) :
    xs.foldlM f (k c) = (xs.foldlM g c).map k := by
  induction xs generalizing c with
  | nil => rfl
  | cons x xs ih =>
    rw [List.foldlM_cons, List.foldlM_cons, h]
    exact map_bind_eq_map ih

section Options

variable {f : α → Option β} {xs : List α} {ys : List β}

theorem mapM_eq_some_iff : xs.mapM f = some ys ↔ xs.map f = ys.map some := by
  induction xs generalizing ys with
  | nil =>
    rw [List.mapM_nil, List.map_nil, Option.pure_def, Option.some.injEq]
    exact ⟨fun h => h ▸ rfl, fun h => (List.map_eq_nil_iff.1 h.symm).symm⟩
  | cons x xs ih =>
    simp only [List.mapM_cons, Option.bind_eq_bind, Option.bind_eq_some_iff, Option.pure_def,
      Option.some.injEq, List.map_cons]
    constructor
    · rintro ⟨y, hy, zs, hzs, rfl⟩
      rw [hy, ih.1 hzs, List.map_cons]
    · intro h
      obtain ⟨y, zs, rfl, hy, hzs⟩ := List.map_eq_cons_iff.1 h.symm
      exact ⟨y, hy.symm, zs, ih.2 hzs.symm, rfl⟩

theorem exists_of_mem_mapM (h : xs.mapM f = some ys) {y : β} (hy : y ∈ ys) :
    ∃ x ∈ xs, f x = some y := by
  have hmem : some y ∈ xs.map f := by
    rw [mapM_eq_some_iff.1 h]
    exact List.mem_map_of_mem hy
  exact List.mem_map.1 hmem

theorem exists_of_mapM_mem (h : xs.mapM f = some ys) {x : α} (hx : x ∈ xs) :
    ∃ y ∈ ys, f x = some y := by
  have hmem : f x ∈ ys.map some := by
    rw [← mapM_eq_some_iff.1 h]
    exact List.mem_map_of_mem hx
  obtain ⟨y, hy, hxy⟩ := List.mem_map.1 hmem
  exact ⟨y, hy, hxy.symm⟩

theorem exists_mapM_eq_some (h : ∀ x ∈ xs, ∃ y, f x = some y) : ∃ ys, xs.mapM f = some ys := by
  induction xs with
  | nil => exact ⟨[], rfl⟩
  | cons x xs ih =>
    obtain ⟨y, hy⟩ := h x List.mem_cons_self
    obtain ⟨ys, hys⟩ := ih fun z hz => h z (List.mem_cons_of_mem x hz)
    refine ⟨y :: ys, ?_⟩
    rw [List.mapM_cons, hy, hys]
    rfl

theorem mapM_eq_some_map {g : α → β} (h : ∀ x ∈ xs, f x = some (g x)) :
    xs.mapM f = some (xs.map g) := by
  rw [mapM_eq_some_iff, List.map_map]
  exact List.map_congr_left h

end Options

end SchemaDdl
