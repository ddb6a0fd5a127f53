import SchemaDdl.Proofs.Document.Fields
import SchemaDdl.Proofs.Json.Members

/-!
# Fields of an object

The fields that a record takes from an object are the members with their names. They can be taken if
and only if none of the names is repeated.
-/

namespace SchemaDdl.Json

theorem lookup_withKey (members : List (String × Json)) (key name : String) :
    (withKey members key).lookup name = if name = key then members.lookup name else none := by
  induction members with
  | nil => simp [withKey]
  | cons m ms ih =>
    rw [withKey] at ih
    rw [withKey, List.filter_cons]
    by_cases hm : m.1 = key
    · rw [if_pos (beq_iff_eq.2 hm), List.lookup_cons, List.lookup_cons, ih, hm]
      by_cases hname : name = key
      · rw [if_pos hname, if_pos hname]
      · rw [if_neg hname, if_neg hname, beq_false_of_ne hname]
    · rw [if_neg (by rwa [beq_iff_eq]), ih, List.lookup_cons]
      by_cases hname : name = key
      · rw [hname, beq_false_of_ne (Ne.symm hm)]
      · rw [if_neg hname, if_neg hname]

theorem lookup_flatten_withKey (members : List (String × Json)) (names : List String)
    (name : String) : (names.map (withKey members)).flatten.lookup name =
      if name ∈ names then members.lookup name else none := by
  induction names with
  | nil => rfl
  | cons key names ih =>
    rw [List.map_cons, List.flatten_cons, List.lookup_append, ih, lookup_withKey]
    by_cases hkey : name = key
    · rw [if_pos hkey, if_pos (List.mem_cons.2 (.inl hkey))]
      split <;> simp
    · rw [if_neg hkey, Option.none_or]
      simp [hkey]

section Take

variable {names : List String} {j : Json} {fields : Fields}

/-- Fields that are there once can be taken, and are what their names lead to. -/
theorem exists_fields? {members : List (String × Json)} (h : Unrepeated names (.object members)) :
    ∃ fields, fields? names (.object members) = some fields ∧
      ∀ name ∈ names, fields.lookup name = member? name (.object members) := by
  have htake : names.mapM (soleMember? members) = some (names.map (withKey members)) :=
    mapM_eq_some_map fun name hname => soleMember?_eq_some_iff.2 ⟨h name hname, rfl⟩
  refine ⟨(names.map (withKey members)).flatten, ?_, fun name hname => ?_⟩
  · rw [fields?, htake]
    rfl
  · rw [lookup_flatten_withKey, if_pos hname]
    rfl

theorem unrepeated_of_fields? (h : fields? names j = some fields) : j.Unrepeated names := by
  cases j with
  | object members =>
    obtain ⟨groups, hgroups, -⟩ := Option.map_eq_some_iff.1 h
    intro name hname
    obtain ⟨group, -, hgroup⟩ := exists_of_mapM_mem hgroups hname
    exact (soleMember?_eq_some_iff.1 hgroup).1
  | _ => trivial

theorem lookup_of_fields? (h : fields? names j = some fields) {name : String}
    (hname : name ∈ names) {v : Json} (hv : j.member? name = some v) :
    fields.lookup name = some v := by
  cases j with
  | object members =>
    obtain ⟨found, hfound, hlookup⟩ := exists_fields? (unrepeated_of_fields? h)
    obtain rfl : found = fields := Option.some.inj (hfound.symm.trans h)
    rw [hlookup name hname, hv]
  | _ => cases hv

end Take

/-! ## Decoding alike -/

/-- Both results are there, and they are the same. -/
def Agree {α : Type} (x y : Option α) : Prop :=
  ∃ a, x = some a ∧ y = some a

theorem Agree.pure {α : Type} (a : α) : Agree (Pure.pure a) (Pure.pure a) :=
  ⟨a, rfl, rfl⟩

theorem Agree.bind {α β : Type} {x y : Option α} {f g : α → Option β} (h : Agree x y)
    (hrest : ∀ a, Agree (f a) (g a)) : Agree (x >>= f) (y >>= g) := by
  obtain ⟨a, rfl, rfl⟩ := h
  exact hrest a

section Alike

variable {α : Type} {decode : Json → Option α}

theorem agree_of_scalar {v w : Json} (h : v.Reduces w) (hw : w.isScalar = true) {a : α}
    (hdecode : decode w = some a) : Agree (decode v) (decode w) := by
  refine ⟨a, ?_, hdecode⟩
  rwa [h.eq_of_isScalar (.inr hw)]

theorem agree_mapM {vs ws : List Json} (h : vs.mapM canonical? = some ws)
    (hitem : ∀ v ∈ vs, ∀ w ∈ ws, v.Reduces w → Agree (decode v) (decode w)) :
    Agree (vs.mapM decode) (ws.mapM decode) := by
  induction vs generalizing ws with
  | nil =>
    obtain rfl := Option.some.inj h
    exact .pure []
  | cons v vs ih =>
    obtain ⟨w, ws, rfl, hw, hws⟩ := List.map_eq_cons_iff.1 (mapM_eq_some_iff.1 h).symm
    rw [List.mapM_cons, List.mapM_cons]
    apply Agree.bind (hitem v List.mem_cons_self w List.mem_cons_self hw.symm)
    intro a
    apply Agree.bind (ih (mapM_eq_some_iff.2 hws.symm) fun v hv w hw =>
      hitem v (List.mem_cons_of_mem _ hv) w (List.mem_cons_of_mem _ hw))
    intro as
    exact .pure (a :: as)

theorem agree_listOf {p q : Json → Prop} {v w : Json} (h : v.Reduces w) (hv : EachItem p v)
    (hw : ArrayOf q w)
    (hitem : ∀ i k, i.Reduces k → q k → p i → Agree (decode i) (decode k)) :
    Agree (listOf decode v) (listOf decode w) := by
  obtain ⟨ws, rfl, hws⟩ := hw
  cases v with
  | array vs =>
    obtain ⟨cs, hcs, heq⟩ := reduces_array_iff.1 h
    cases heq
    exact agree_mapM hcs fun i hi k hk hik => hitem i k hik (hws k hk) (hv vs rfl i hi)
  | object js =>
    obtain ⟨cs, -, heq⟩ := reduces_object_iff.1 h
    cases heq
  | _ => cases h

theorem optionalField_of_ne_null {fields : Fields} {name : String} {v : Json}
    (h : fields.lookup name = some v) (hnull : v ≠ .null) :
    optionalField decode fields name = (decode v).map some := by
  rw [optionalField, h]
  split
  · rename_i heq
    cases heq
  · rename_i heq
    exact absurd (Option.some.inj heq) hnull
  · rename_i heq
    rw [Option.some.inj heq]

end Alike

/-! ## Fields in canonical form -/

/-- The fields that a record takes from an object, and from its canonical form. -/
structure Taken (names : List String) (j c : Json) (fs gs : Fields) : Prop where
  left : fields? names j = some fs
  right : fields? names c = some gs
  lookup_left : ∀ name ∈ names, fs.lookup name = j.member? name
  lookup_right : ∀ name ∈ names, gs.lookup name = c.member? name
  reduces : j.Reduces c
  once : j.Unrepeated names

theorem exists_taken {names : List String} {j : Json} {ms : List (String × Json)}
    (h : j.Reduces (.object ms)) (honce : j.Unrepeated names) :
    ∃ fs gs, Taken names j (.object ms) fs gs := by
  obtain ⟨gs, hgs, hright⟩ := exists_fields? (h.unrepeated names)
  cases j with
  | object js =>
    obtain ⟨fs, hfs, hleft⟩ := exists_fields? honce
    exact ⟨fs, gs, hfs, hgs, hleft, hright, h, honce⟩
  | array items =>
    obtain ⟨cs, -, heq⟩ := reduces_array_iff.1 h
    cases heq
  | _ => cases h

section Taken

variable {α β : Type} {decode : Json → Option α} {names : List String} {j c : Json} {fs gs : Fields}
  (t : Taken names j c fs gs) {name : String} {q : Json → Prop}

include t

/-- A record is decoded from the fields that are taken. -/
theorem Taken.agree {f : Fields → Option β} (h : Agree (f fs) (f gs)) :
    Agree (fields? names j >>= f) (fields? names c >>= f) := by
  rw [t.left, t.right]
  exact h

variable (hname : name ∈ names)

include hname

theorem Taken.required_agree (hc : c.Has name q)
    (hmember : ∀ v w, j.member? name = some v → v.Reduces w → q w → Agree (decode v) (decode w)) :
    Agree (required decode fs name) (required decode gs name) := by
  obtain ⟨w, hw, hq⟩ := hc
  obtain ⟨v, hv, hvw⟩ := t.reduces.member?_eq_some t.once hname hw
  rw [required, required, t.lookup_left name hname, t.lookup_right name hname, hv, hw]
  exact hmember v w hv hvw hq

theorem Taken.defaulted_agree (hc : c.MayHave name q) (default : α)
    (hmember : ∀ v w, j.member? name = some v → v.Reduces w → q w → Agree (decode v) (decode w)) :
    Agree (defaulted decode fs name default) (defaulted decode gs name default) := by
  rw [defaulted, defaulted, t.lookup_left name hname, t.lookup_right name hname]
  cases hw : c.member? name with
  | none =>
    rw [t.reduces.member?_eq_none t.once hname hw]
    exact .pure default
  | some w =>
    obtain ⟨v, hv, hvw⟩ := t.reduces.member?_eq_some t.once hname hw
    rw [hv]
    exact hmember v w hv hvw (hc w hw)

theorem Taken.optionalField_agree (hc : c.MayHave name (NullOr q))
    (hmember : ∀ v w, j.member? name = some v → v.Reduces w → q w → Agree (decode v) (decode w)) :
    Agree (optionalField decode fs name) (optionalField decode gs name) := by
  have hleft := t.lookup_left name hname
  have hright := t.lookup_right name hname
  cases hw : c.member? name with
  | none =>
    rw [t.reduces.member?_eq_none t.once hname hw] at hleft
    rw [hw] at hright
    rw [optionalField, optionalField, hleft, hright]
    exact .pure none
  | some w =>
    obtain ⟨v, hv, hvw⟩ := t.reduces.member?_eq_some t.once hname hw
    rw [hv] at hleft
    rw [hw] at hright
    -- Null stands for a missing field, and only null is null in canonical form.
    by_cases hnull : w = .null
    · rw [hvw.eq_null_iff.2 hnull] at hleft
      rw [hnull] at hright
      rw [optionalField, optionalField, hleft, hright]
      exact .pure none
    · obtain ⟨a, hva, hwa⟩ := hmember v w hv hvw ((hc w hw).resolve_left hnull)
      rw [optionalField_of_ne_null hleft (mt hvw.eq_null_iff.1 hnull),
        optionalField_of_ne_null hright hnull, hva, hwa]
      exact .pure (some a)

end Taken

end SchemaDdl.Json
