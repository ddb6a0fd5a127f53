import Mathlib.Data.List.Nodup
import SchemaDdl.Json.Basic
import SchemaDdl.Proofs.Fallible

/-!
# Canonical form

In canonical form the members of an object are sorted by key, and of members with the same key only
the last one is left. So looking up a key gives what it gave before, in canonical form, unless the
key was repeated.
-/

namespace SchemaDdl.Json

/-! ## Sorted members -/

theorem lookup_insertMember (key k : String) (v : Json) (ms : List (String × Json)) :
    (insertMember k v ms).lookup key = if key == k then some v else ms.lookup key := by
  induction ms with
  | nil =>
    rw [insertMember, List.lookup_cons]
    cases key == k <;> rfl
  | cons m ms ih =>
    obtain ⟨k', v'⟩ := m
    rw [insertMember]
    by_cases hk : k = k'
    · rw [if_pos (beq_iff_eq.2 hk), hk, List.lookup_cons, List.lookup_cons]
      cases key == k' <;> rfl
    · rw [if_neg (by rwa [beq_iff_eq])]
      split
      · rw [List.lookup_cons]
        cases key == k <;> rfl
      · rw [List.lookup_cons, List.lookup_cons, ih]
        by_cases hkey : key = k'
        · rw [hkey, beq_self_eq_true, beq_false_of_ne (Ne.symm hk)]
          rfl
        · rw [beq_false_of_ne hkey]

theorem sortMembers_eq (ms : List (String × Json)) :
    sortMembers ms = ms.foldl (fun sorted m => insertMember m.1 m.2 sorted) [] :=
  rfl

/-- The last member with a key is the one that stays. -/
theorem lookup_sortMembers (key : String) (ms : List (String × Json)) :
    (sortMembers ms).lookup key = ms.reverse.lookup key := by
  have hfold (sorted : List (String × Json)) :
      (ms.foldl (fun sorted m => insertMember m.1 m.2 sorted) sorted).lookup key =
        (ms.reverse.lookup key).or (sorted.lookup key) := by
    induction ms generalizing sorted with
    | nil => rfl
    | cons m ms ih =>
      rw [List.foldl_cons, ih, lookup_insertMember, List.reverse_cons, List.lookup_append,
        Option.or_assoc, List.lookup_cons]
      cases key == m.1 <;> rfl
  rw [sortMembers_eq, hfold, List.lookup_nil, Option.or_none]

theorem mem_insertMember {k : String} {v : Json} {ms : List (String × Json)} {m : String × Json}
    (h : m ∈ insertMember k v ms) : m = (k, v) ∨ m ∈ ms := by
  induction ms with
  | nil => exact .inl (List.mem_singleton.1 h)
  | cons m' ms ih =>
    obtain ⟨k', v'⟩ := m'
    rw [insertMember] at h
    split at h
    · exact (List.mem_cons.1 h).imp_right (List.mem_cons_of_mem _)
    · split at h
      · exact List.mem_cons.1 h
      · rcases List.mem_cons.1 h with rfl | h
        · exact .inr List.mem_cons_self
        · exact (ih h).imp_right (List.mem_cons_of_mem _)

def SortedKeys (ms : List (String × Json)) : Prop :=
  ms.Pairwise fun a b => a.1 < b.1

theorem SortedKeys.insertMember {ms : List (String × Json)} (h : SortedKeys ms) (k : String)
    (v : Json) : SortedKeys (insertMember k v ms) := by
  induction ms with
  | nil => exact List.pairwise_singleton _ _
  | cons m ms ih =>
    obtain ⟨k', v'⟩ := m
    obtain ⟨hhead, htail⟩ := List.pairwise_cons.1 h
    rw [Json.insertMember]
    split
    · rename_i hk
      rw [eq_of_beq hk]
      exact List.pairwise_cons.2 ⟨hhead, htail⟩
    · rename_i hk
      split
      · rename_i hlt
        refine List.pairwise_cons.2 ⟨fun m hm => ?_, h⟩
        rcases List.mem_cons.1 hm with rfl | hm
        · exact hlt
        · exact String.lt_trans hlt (hhead m hm)
      · rename_i hlt
        have hgt : k' < k :=
          Std.lt_of_le_of_ne (String.not_lt.1 hlt) fun heq => hk (heq ▸ beq_self_eq_true k')
        refine List.pairwise_cons.2 ⟨fun m hm => ?_, ih htail⟩
        rcases mem_insertMember hm with rfl | hm
        · exact hgt
        · exact hhead m hm

/-- No key is left twice. -/
theorem nodup_sortMembers (ms : List (String × Json)) : ((sortMembers ms).map Prod.fst).Nodup := by
  have hfold (sorted : List (String × Json)) (h : SortedKeys sorted) :
      SortedKeys (ms.foldl (fun sorted m => insertMember m.1 m.2 sorted) sorted) := by
    induction ms generalizing sorted with
    | nil => exact h
    | cons m ms ih => exact ih _ (h.insertMember m.1 m.2)
  rw [sortMembers_eq, List.Nodup, List.pairwise_map]
  exact (hfold [] .nil).imp fun {a b} hlt (heq : a.1 = b.1) => String.lt_irrefl _ (heq ▸ hlt)

/-! ## Canonical form of a value -/

/-- The canonical form of `j` is `c`. -/
def Reduces (j c : Json) : Prop :=
  j.canonical? = some c

theorem canonicalItems?_eq (items : List Json) : canonicalItems? items = items.mapM canonical? := by
  induction items with
  | nil => rfl
  | cons j js ih => rw [canonicalItems?, List.mapM_cons, ih]

/-- A member keeps its key. -/
def canonicalMember? (m : String × Json) : Option (String × Json) :=
  (canonical? m.2).map (Prod.mk m.1)

theorem canonicalMembers?_eq (ms : List (String × Json)) :
    canonicalMembers? ms = ms.mapM canonicalMember? := by
  induction ms with
  | nil => rfl
  | cons m ms ih =>
    rw [canonicalMembers?, List.mapM_cons, ih, canonicalMember?]
    cases canonical? m.2 <;> rfl

theorem reduces_array_iff {items : List Json} {c : Json} :
    Reduces (.array items) c ↔ ∃ cs, items.mapM canonical? = some cs ∧ .array cs = c := by
  rw [Reduces, canonical?, canonicalItems?_eq, Option.map_eq_some_iff]

theorem reduces_object_iff {ms : List (String × Json)} {c : Json} :
    Reduces (.object ms) c ↔
      ∃ cs, ms.mapM canonicalMember? = some cs ∧ .object (sortMembers cs) = c := by
  rw [Reduces, canonical?, canonicalMembers?_eq, Option.map_eq_some_iff]

theorem exists_reduces_array {items : List Json} (h : ∀ j ∈ items, ∃ c, j.Reduces c) :
    ∃ c, Reduces (.array items) c := by
  obtain ⟨cs, hcs⟩ := exists_mapM_eq_some h
  exact ⟨_, reduces_array_iff.2 ⟨cs, hcs, rfl⟩⟩

theorem exists_reduces_object {ms : List (String × Json)} (h : ∀ m ∈ ms, ∃ c, m.2.Reduces c) :
    ∃ c, Reduces (.object ms) c := by
  obtain ⟨cs, hcs⟩ := exists_mapM_eq_some (f := canonicalMember?) fun m hm => by
    obtain ⟨c, hc⟩ := h m hm
    exact ⟨(m.1, c), Option.map_eq_some_iff.2 ⟨c, hc, rfl⟩⟩
  exact ⟨_, reduces_object_iff.2 ⟨cs, hcs, rfl⟩⟩

/-- Neither an array nor an object, and readable. -/
def isScalar : Json → Bool
  | .array _ | .object _ | .unreadable => false
  | _ => true

/-- A scalar is its own canonical form, and that of nothing else. -/
theorem Reduces.eq_of_isScalar {j c : Json} (h : j.Reduces c)
    (hscalar : j.isScalar = true ∨ c.isScalar = true) : j = c := by
  cases j with
  | array items =>
    obtain ⟨cs, -, rfl⟩ := reduces_array_iff.1 h
    simp [isScalar] at hscalar
  | object ms =>
    obtain ⟨cs, -, rfl⟩ := reduces_object_iff.1 h
    simp [isScalar] at hscalar
  | unreadable => cases h
  | _ => exact Option.some.inj h

/-- A value all of which is readable, and whose objects do not repeat a key. -/
inductive DistinctKeys : Json → Prop where
  | null : DistinctKeys .null
  | bool (b : Bool) : DistinctKeys (.bool b)
  | number (n : Decimal.Number) : DistinctKeys (.number n)
  | string (s : String) : DistinctKeys (.string s)
  | array {items : List Json} (h : ∀ j ∈ items, DistinctKeys j) : DistinctKeys (.array items)
  | object {members : List (String × Json)} (hkeys : (members.map Prod.fst).Nodup)
    (h : ∀ m ∈ members, DistinctKeys m.2) : DistinctKeys (.object members)

attribute [simp] DistinctKeys.null DistinctKeys.bool DistinctKeys.number DistinctKeys.string

@[simp] theorem distinctKeys_array {items : List Json} :
    DistinctKeys (.array items) ↔ ∀ j ∈ items, DistinctKeys j :=
  ⟨fun | .array h => h, .array⟩

@[simp] theorem distinctKeys_object {members : List (String × Json)} :
    DistinctKeys (.object members) ↔
      (members.map Prod.fst).Nodup ∧ ∀ m ∈ members, DistinctKeys m.2 :=
  ⟨fun | .object hkeys h => ⟨hkeys, h⟩, fun h => .object h.1 h.2⟩

theorem DistinctKeys.exists_reduces {j : Json} (h : j.DistinctKeys) : ∃ c, j.Reduces c := by
  induction h with
  | null => exact ⟨_, rfl⟩
  | bool b => exact ⟨_, rfl⟩
  | number n => exact ⟨_, rfl⟩
  | string s => exact ⟨_, rfl⟩
  | array _ ih => exact exists_reduces_array ih
  | object _ _ ih => exact exists_reduces_object ih

/-! ## Looking up -/

/-- None of the keys is repeated. -/
def Unrepeated (keys : List String) : Json → Prop
  | .object members => ∀ key ∈ keys, (members.map Prod.fst).count key ≤ 1
  | _ => True

instance (keys : List String) : (j : Json) → Decidable (j.Unrepeated keys)
  | .object members =>
    inferInstanceAs (Decidable (∀ key ∈ keys, (members.map Prod.fst).count key ≤ 1))
  | .null | .bool _ | .number _ | .string _ | .array _ | .unreadable => .isTrue trivial

theorem DistinctKeys.unrepeated {j : Json} (h : j.DistinctKeys) (keys : List String) :
    j.Unrepeated keys := by
  cases h with
  | object hkeys _ => exact fun key _ => List.nodup_iff_count_le_one.1 hkeys key
  | _ => trivial

/-- In canonical form no key is repeated. -/
theorem Reduces.unrepeated {j c : Json} (h : j.Reduces c) (keys : List String) :
    c.Unrepeated keys := by
  cases c with
  | object ms =>
    cases j with
    | object js =>
      obtain ⟨cs, -, heq⟩ := reduces_object_iff.1 h
      cases heq
      exact fun key _ => List.nodup_iff_count_le_one.1 (nodup_sortMembers cs) key
    | array items =>
      obtain ⟨cs, -, heq⟩ := reduces_array_iff.1 h
      cases heq
    | _ => cases h
  | _ => trivial

theorem lookup_reverse {key : String} {ms : List (String × Json)}
    (h : (ms.map Prod.fst).count key ≤ 1) : ms.reverse.lookup key = ms.lookup key := by
  induction ms with
  | nil => rfl
  | cons m ms ih =>
    rw [List.map_cons, List.count_cons] at h
    rw [List.reverse_cons, List.lookup_append, ih (by omega), List.lookup_cons, List.lookup_cons]
    by_cases hkey : key = m.1
    · have hnone : ms.lookup key = none := by
        rw [List.lookup_eq_none_iff]
        intro p hp
        rw [bne_iff_ne]
        intro heq
        have hpos := List.count_pos_iff.2 (List.mem_map_of_mem (f := Prod.fst) hp)
        rw [if_pos (by rw [hkey, beq_self_eq_true]), heq] at h
        omega
      rw [hnone, hkey, beq_self_eq_true]
      rfl
    · rw [beq_false_of_ne hkey, List.lookup_nil, Option.or_none]

theorem map_fst_of_canonicalMembers {ms cs : List (String × Json)}
    (h : ms.mapM canonicalMember? = some cs) : cs.map Prod.fst = ms.map Prod.fst := by
  induction ms generalizing cs with
  | nil =>
    obtain rfl := Option.some.inj h
    rfl
  | cons m ms ih =>
    obtain ⟨m', cs, rfl, hm, hms⟩ := List.map_eq_cons_iff.1 (mapM_eq_some_iff.1 h).symm
    obtain ⟨c, -, rfl⟩ := Option.map_eq_some_iff.1 hm.symm
    rw [List.map_cons, List.map_cons, ih (mapM_eq_some_iff.2 hms.symm)]

theorem rel_lookup {ms cs : List (String × Json)} (h : ms.mapM canonicalMember? = some cs)
    (key : String) : Option.Rel Reduces (ms.lookup key) (cs.lookup key) := by
  induction ms generalizing cs with
  | nil =>
    obtain rfl := Option.some.inj h
    exact .none
  | cons m ms ih =>
    obtain ⟨m', cs, rfl, hm, hms⟩ := List.map_eq_cons_iff.1 (mapM_eq_some_iff.1 h).symm
    obtain ⟨c, hc, rfl⟩ := Option.map_eq_some_iff.1 hm.symm
    rw [List.lookup_cons, List.lookup_cons]
    cases key == m.1
    · exact ih (mapM_eq_some_iff.2 hms.symm)
    · exact .some hc

/-- A key that is not repeated leads to the canonical form of what it led to. -/
theorem Reduces.rel_member? {j c : Json} (h : j.Reduces c) {keys : List String}
    (honce : j.Unrepeated keys) {key : String} (hkey : key ∈ keys) :
    Option.Rel Reduces (j.member? key) (c.member? key) := by
  cases j with
  | object ms =>
    obtain ⟨cs, hcs, rfl⟩ := reduces_object_iff.1 h
    have hkeys := map_fst_of_canonicalMembers hcs
    rw [member?, member?, lookup_sortMembers, lookup_reverse]
    · exact rel_lookup hcs key
    · rw [hkeys]
      exact honce key hkey
  | array items =>
    obtain ⟨cs, -, rfl⟩ := reduces_array_iff.1 h
    exact .none
  | unreadable => cases h
  | _ =>
    obtain rfl := Option.some.inj h
    exact .none

end SchemaDdl.Json
