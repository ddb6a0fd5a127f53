import SchemaDdl.Proofs.Outline.RoundTrip

/-!
# Drafts in another order

Drafts that list the same schemas and tables in another order are resolved alike, and the models
generate the same script. Only types and comments have to keep their order: types as a script lists
them in it, and comments as the last one on a part wins.
-/

namespace SchemaDdl

open Script

/-! ## Comments on tables in another order -/

section Describe

variable {ts ts' us : List TableOutline}

/-- A comment finds its table wherever that stands. -/
theorem describe?_perm {comment : CommentDraft} (hkeys : (ts.map TableOutline.key).Nodup)
    (hperm : ts.Perm us) (h : describe? ts comment = some ts') :
    ∃ us', describe? us comment = some us' ∧ ts'.Perm us' := by
  have hkeys' : (us.map TableOutline.key).Nodup := (hperm.map _).nodup_iff.1 hkeys
  obtain ⟨front, t, t', back, rfl, hkey, ht', rfl⟩ := exists_of_describe? hkeys h
  have ht : t ∈ us := hperm.mem_iff.1 (List.mem_append_right _ List.mem_cons_self)
  obtain ⟨front', back', rfl⟩ := List.append_of_mem ht
  rw [List.map_append, List.map_cons, List.nodup_append, List.nodup_cons] at hkeys'
  obtain ⟨-, ⟨hback, -⟩, hfront⟩ := hkeys'
  have hahead (x : TableOutline) (hx : x ∈ front') : x.key ≠ t.key :=
    hfront x.key (List.mem_map_of_mem hx) t.key List.mem_cons_self
  have hbehind (y : TableOutline) (hy : y ∈ back') : y.key ≠ t.key :=
    fun heq => hback (heq ▸ List.mem_map_of_mem hy)
  have hothers : (front ++ back).Perm (front' ++ back') :=
    (List.perm_middle.symm.trans (hperm.trans List.perm_middle)).cons_inv
  refine ⟨front' ++ t' :: back', ?_, ?_⟩
  · rw [describe?_append hahead hbehind hkey.symm, ht']
    rfl
  · exact List.perm_middle.trans ((hothers.cons t').trans List.perm_middle.symm)

theorem map_key_describe? {comment : CommentDraft} (hkeys : (ts.map TableOutline.key).Nodup)
    (h : describe? ts comment = some ts') :
    ts'.map TableOutline.key = ts.map TableOutline.key := by
  obtain ⟨front, t, t', back, rfl, -, ht', rfl⟩ := exists_of_describe? hkeys h
  rw [List.map_append, List.map_append, List.map_cons, List.map_cons, key_describe? ht']

theorem foldlM_describe?_perm {comments : List CommentDraft}
    (hkeys : (ts.map TableOutline.key).Nodup) (hperm : ts.Perm us)
    (h : comments.foldlM describe? ts = some ts') :
    ∃ us', comments.foldlM describe? us = some us' ∧ ts'.Perm us' := by
  induction comments generalizing ts us with
  | nil =>
    cases h
    exact ⟨us, rfl, hperm⟩
  | cons c cs ih =>
    rw [List.foldlM_cons] at h
    obtain ⟨next, hnext, h⟩ := Option.bind_eq_some_iff.1 h
    obtain ⟨next', hnext', hperm'⟩ := describe?_perm hkeys hperm hnext
    have hkeys' : (next.map TableOutline.key).Nodup := by
      rw [map_key_describe? hkeys hnext]
      exact hkeys
    obtain ⟨us', hus', hresult⟩ := ih hkeys' hperm' h
    refine ⟨us', ?_, hresult⟩
    rw [List.foldlM_cons, hnext']
    exact hus'

end Describe

/-! ## Drafts -/

namespace Script.Draft

/-- Equal up to the order of schemas and of tables. -/
structure Similar (d d' : Draft) : Prop where
  schemas : d.schemas.Perm d'.schemas
  types : d.types = d'.types
  tables : d.tables.Perm d'.tables
  comments : d.comments = d'.comments

variable {d d' : Draft}

theorem Similar.symm (h : d.Similar d') : d'.Similar d :=
  ⟨h.schemas.symm, h.types.symm, h.tables.symm, h.comments.symm⟩

/-- Similar drafts declare similar outlines. -/
theorem Similar.declares (h : d.Similar d') (hd : d.Distinct) {o : Outline} (ho : d.Declares o) :
    ∃ o', d'.Declares o' ∧ o'.Similar o := by
  have hkeys : ((d.tables.map TableDraft.outline).map TableOutline.key).Nodup := by
    rw [List.map_map]
    exact hd.keys
  obtain ⟨tables, htables, hperm⟩ :=
    foldlM_describe?_perm hkeys (h.tables.map TableDraft.outline) ho.tables
  refine ⟨⟨d'.schemas, d'.types, tables⟩, ⟨rfl, rfl, ?_, h.comments ▸ htables⟩, ⟨?_, ?_, hperm.symm⟩⟩
  · intro t ht fk hfk
    obtain ⟨hsource, u, hu, hkey, htarget⟩ := ho.ends t (h.tables.mem_iff.2 ht) fk hfk
    exact ⟨hsource, u, h.tables.mem_iff.1 hu, hkey, htarget⟩
  · rw [ho.schemas]
    exact h.schemas.symm
  · intro schema
    rw [Outline.typesOf, Outline.typesOf, ho.types, h.types]

section Resolve

variable {ids ids' : Ids} (hids : ids.Distinct) (hids' : ids'.Distinct) {inferId : Bool}

include hids hids'

/-- If a draft is resolved then so are similar ones. -/
theorem Similar.exists_resolve (h : d.Similar d') (hd : d.Sound inferId) (hd' : d'.Sound inferId)
    {m : Model} (hm : d.resolve ids = .ok m) :
    ∃ m', d'.resolve ids' = .ok m' ∧ Ddl.generate m' = Ddl.generate m := by
  obtain ⟨hre, -, hdeclares⟩ := rereadable_of_resolve hids hd hm
  obtain ⟨o', ho', hsimilar⟩ := h.declares hd.toDistinct hdeclares
  obtain ⟨m', hm', houtline⟩ := exists_resolve_of_declares hids' hd'.toDistinct ho'
  obtain ⟨hre', -, -⟩ := rereadable_of_resolve hids' hd' hm'
  exact ⟨m', hm', hre.generate_congr hre' (houtline ▸ hsimilar)⟩

/-- Similar drafts are both resolved or both not, and if they are then with the same script. -/
theorem Similar.map_generate (h : d.Similar d') (hd : d.Sound inferId) (hd' : d'.Sound inferId) :
    (d.resolve ids).toOption.map Ddl.generate = (d'.resolve ids').toOption.map Ddl.generate := by
  cases hm : d.resolve ids with
  | ok m =>
    obtain ⟨m', hm', hsame⟩ := h.exists_resolve hids hids' hd hd' hm
    rw [hm']
    exact congrArg some hsame.symm
  | error e =>
    cases hm' : d'.resolve ids' with
    | error e' => rfl
    | ok m' =>
      obtain ⟨m, hok, -⟩ := h.symm.exists_resolve hids' hids hd' hd hm'
      rw [hm] at hok
      cases hok

end Resolve

end Script.Draft

end SchemaDdl
