import Mathlib.Data.List.Nodup
import SchemaDdl.Document.Decode
import SchemaDdl.Document.Encode
import SchemaDdl.Proofs.Fallible

/-!
# Records read back

The JSON form of a record holds its fields under their names, in order and without repetition, and
leaves out those that are not set. So every record is read back from its JSON form.
-/

namespace SchemaDdl

namespace Json

/-- The members with one key. -/
def withKey (members : List (String × Json)) (key : String) : Fields :=
  members.filter fun m => m.1 == key

theorem withKey_eq_nil {members : List (String × Json)} {key : String}
    (h : key ∉ members.map Prod.fst) : withKey members key = [] := by
  rw [withKey, List.filter_eq_nil_iff]
  intro m hm hkey
  exact h (eq_of_beq hkey ▸ List.mem_map_of_mem hm)

theorem length_withKey (members : List (String × Json)) (key : String) :
    (withKey members key).length = (members.map Prod.fst).count key := by
  rw [withKey, ← List.countP_eq_length_filter, List.count, List.countP_map]
  rfl

theorem soleMember?_eq_some_iff {members : List (String × Json)} {key : String} {found : Fields} :
    soleMember? members key = some found ↔
      (members.map Prod.fst).count key ≤ 1 ∧ withKey members key = found := by
  rw [← length_withKey, soleMember?, ← withKey]
  match withKey members key with
  | [] => simp
  | [m] => simp
  | m :: n :: ms => simp

theorem soleMember?_eq {members : List (String × Json)} (hnodup : (members.map Prod.fst).Nodup)
    (key : String) : soleMember? members key = some (withKey members key) :=
  soleMember?_eq_some_iff.2 ⟨List.nodup_iff_count_le_one.1 hnodup key, rfl⟩

theorem flatten_withKey {names : List String} {members : List (String × Json)}
    (hnames : names.Nodup) (hkeys : (members.map Prod.fst).Sublist names) :
    (names.map (withKey members)).flatten = members := by
  induction names generalizing members with
  | nil =>
    rw [List.sublist_nil, List.map_eq_nil_iff] at hkeys
    rw [hkeys]
    rfl
  | cons name names ih =>
    obtain ⟨hnot, hnodup⟩ := List.nodup_cons.1 hnames
    rw [List.map_cons, List.flatten_cons]
    rcases List.sublist_cons_iff.1 hkeys with hrest | ⟨keys, hcons, hrest⟩
    · rw [withKey_eq_nil fun hmem => hnot (hrest.subset hmem), ih hnodup hrest]
      rfl
    · obtain ⟨⟨key, j⟩, ms, rfl, rfl, rfl⟩ := List.map_eq_cons_iff.1 hcons
      have hfirst : withKey ((key, j) :: ms) key = [(key, j)] := by
        have hnone := withKey_eq_nil fun hmem => hnot (hrest.subset hmem)
        rw [withKey] at hnone
        rw [withKey, List.filter_cons_of_pos (by simp), hnone]
      have hothers : names.map (withKey ((key, j) :: ms)) = names.map (withKey ms) := by
        apply List.map_congr_left
        intro name hname
        have hne : key ≠ name := fun heq => hnot (heq ▸ hname)
        rw [withKey, List.filter_cons_of_neg (by simpa using hne), withKey]
      rw [hfirst, hothers, ih hnodup hrest]
      rfl

/-- The fields given by an object whose keys are among the names, in order, are its members. -/
theorem fields?_eq {names : List String} {members : List (String × Json)} (hnames : names.Nodup)
    (hkeys : (members.map Prod.fst).Sublist names) :
    fields? names (.object members) = some members := by
  rw [fields?, mapM_eq_some_map fun name _ => soleMember?_eq (hnames.sublist hkeys) name,
    Option.map_some, flatten_withKey hnames hkeys]

section

variable {α : Type} {decode : Json → Option α} {encode : α → Json}

theorem lookup_optional (key name : String) (encode : α → Json) (value : Option α) :
    (optional key encode value).lookup name = if name == key then value.map encode else none := by
  cases value with
  | none => simp [optional]
  | some a =>
    rw [optional, Option.toList_some, List.map_singleton, List.lookup_cons]
    cases name == key <;> rfl

theorem forall_mem_optional (key : String) (encode : α → Json) (value : Option α)
    (p : String × Json → Prop) :
    (∀ m ∈ optional key encode value, p m) ↔ ∀ a ∈ value, p (key, encode a) := by
  cases value <;> simp [optional]

theorem keys_optional (key : String) (encode : α → Json) (value : Option α) :
    ((optional key encode value).map Prod.fst).Sublist [key] := by
  cases value with
  | none => exact List.nil_sublist [key]
  | some a => exact List.Sublist.refl [key]

theorem keys_optional_append {keys names : List String} (h : keys.Sublist names)
    (key : String) (encode : α → Json) (value : Option α) :
    ((optional key encode value).map Prod.fst ++ keys).Sublist (key :: names) :=
  (keys_optional key encode value).append h

theorem optionalField_eq (value : Option α) (hdecode : ∀ a, decode (encode a) = some a)
    (hnull : ∀ a, encode a ≠ .null) {fields : Fields} {name : String}
    (h : fields.lookup name = value.map encode) :
    optionalField decode fields name = some value := by
  rw [optionalField, h]
  cases value with
  | none => rfl
  | some a =>
    rw [Option.map_some]
    split
    · rename_i heq
      cases heq
    · rename_i heq
      exact absurd (Option.some.inj heq) (hnull a)
    · rename_i heq
      rw [← Option.some.inj heq, hdecode]
      rfl

theorem listOf_eq (hdecode : ∀ a, decode (encode a) = some a) (as : List α) :
    listOf decode (.array (as.map encode)) = some as := by
  have hmap : (as.map encode).mapM decode = some (as.map id) := by
    rw [List.mapM_map]
    exact mapM_eq_some_map fun a _ => hdecode a
  rw [listOf, array?, Option.bind_eq_bind, Option.bind_some, hmap, List.map_id]

end

end Json

open Json

theorem Schema.ofJson?_toJson (s : Schema) : Schema.ofJson? s.toJson = some s := by
  rw [Schema.ofJson?, Schema.toJson, fields?_eq]
  · simp [required, List.lookup_cons, string?]
  · decide
  · simp

theorem optionalField_string (value : Option String) {fields : Fields} {name : String}
    (h : fields.lookup name = value.map .string) : optionalField string? fields name = some value :=
  @optionalField_eq String string? Json.string value (fun _ => rfl) (fun _ => nofun) _ _ h

theorem Column.ofJson?_toJson (c : Column) : Column.ofJson? c.toJson = some c := by
  rw [Column.ofJson?, Column.toJson, fields?_eq]
  · simp [required, defaulted, List.lookup_append, List.lookup_cons, lookup_optional, string?, bool?,
      optionalField_string c.defaultValue, optionalField_string c.comment]
  · decide
  · simp only [List.map_append, List.map_cons, List.cons_append, List.nil_append, List.append_assoc,
      List.cons_sublist_cons]
    exact keys_optional_append ((keys_optional ..).cons_cons "isUnique" |>.cons_cons "isPrimaryKey") ..

theorem Action.ofJson?_toJson (a : Action) : Action.ofJson? a.toJson = some a := by
  cases a <;> decide

theorem Cardinality.ofJson?_toJson (c : Cardinality) : Cardinality.ofJson? c.toJson = some c := by
  rw [Cardinality.ofJson?, Cardinality.toJson, string?, Option.map_some, ofLabel_label]

theorem optionalField_action (value : Option Action) {fields : Fields} {name : String}
    (h : fields.lookup name = value.map Action.toJson) :
    optionalField Action.ofJson? fields name = some value :=
  optionalField_eq value Action.ofJson?_toJson (fun _ => nofun) h

theorem optionalField_cardinality (value : Option Cardinality) {fields : Fields} {name : String}
    (h : fields.lookup name = value.map Cardinality.toJson) :
    optionalField Cardinality.ofJson? fields name = some value :=
  optionalField_eq value Cardinality.ofJson?_toJson (fun _ => nofun) h

theorem ForeignKey.ofJson?_toJson (fk : ForeignKey) : ForeignKey.ofJson? fk.toJson = some fk := by
  rw [ForeignKey.ofJson?, ForeignKey.toJson, fields?_eq]
  · simp [required, List.lookup_append, List.lookup_cons, lookup_optional, string?,
      optionalField_action fk.onDelete, optionalField_action fk.onUpdate,
      optionalField_cardinality fk.startCardinality, optionalField_cardinality fk.endCardinality]
  · decide
  · simp only [List.map_append, List.map_cons, List.cons_append, List.nil_append, List.append_assoc,
      List.cons_sublist_cons]
    exact keys_optional_append (keys_optional_append (keys_optional_append (keys_optional ..) ..) ..) ..

theorem Position.ofJson?_toJson (p : Position) : Position.ofJson? p.toJson = some p := by
  rw [Position.ofJson?, Position.toJson, fields?_eq]
  · simp [required, List.lookup_cons, float?, Decimal.Number.toFloat]
  · decide
  · simp

theorem Table.ofJson?_toJson (t : Table) : Table.ofJson? t.toJson = some t := by
  have hposition {fields : Fields} {name : String}
      (h : fields.lookup name = t.position.map Position.toJson) :
      optionalField Position.ofJson? fields name = some t.position :=
    optionalField_eq t.position Position.ofJson?_toJson (fun _ => nofun) h
  rw [Table.ofJson?, Table.toJson, fields?_eq]
  · simp [required, defaulted, List.lookup_append, List.lookup_cons, lookup_optional, string?,
      optionalField_string t.comment, hposition, listOf_eq Column.ofJson?_toJson,
      listOf_eq ForeignKey.ofJson?_toJson]
  · decide
  · simp only [List.map_append, List.map_cons, List.cons_append, List.nil_append, List.append_assoc,
      List.cons_sublist_cons]
    exact keys_optional_append ((keys_optional ..).cons_cons "foreignKeys" |>.cons_cons "columns") ..

theorem EnumType.ofJson?_toJson (t : EnumType) : EnumType.ofJson? t.toJson = some t := by
  have hvalues : listOf string? (.array (t.values.map Json.string)) = some t.values :=
    @listOf_eq String string? Json.string (fun _ => rfl) t.values
  have hkind : EnumType.kind? (.string "enum") = some () := by decide
  rw [EnumType.ofJson?, EnumType.toJson, fields?_eq]
  · simp [required, List.lookup_cons, string?, hvalues, hkind]
  · decide
  · simp

theorem word?_natCast {n : Nat} (hn : n < 0x100000000) :
    word? (.number (.int n)) = some (UInt32.ofNat n) := by
  have hlow : (0 : Int) ≤ n := by omega
  have hhigh : (n : Int) < 0x100000000 := by omega
  rw [word?, decide_eq_true hlow, decide_eq_true hhigh, Int.toNat_natCast]
  rfl

theorem word?_toNat (w : UInt32) : word? (.number (.int w.toNat)) = some w := by
  have hlt : w.toNat < 0x100000000 := w.toNat_lt
  rw [word?_natCast hlt, UInt32.ofNat_toNat]

/-- Every model is read back from its JSON form, whatever its version. -/
theorem Model.ofJson?_toJson (m : Model) : Model.ofJson? m.toJson = some m := by
  rw [Model.ofJson?, Model.toJson, fields?_eq]
  · -- With implicit proofs the kernel would evaluate the fields, and unfold the bound of a word.
    simp -implicitDefEqProofs [required, defaulted, List.lookup_cons, word?_toNat,
      listOf_eq Schema.ofJson?_toJson, listOf_eq Table.ofJson?_toJson,
      listOf_eq EnumType.ofJson?_toJson]
  · decide
  · simp

end SchemaDdl
