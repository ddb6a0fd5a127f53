import SchemaDdl.Proofs.Fallible
import SchemaDdl.Proofs.Outline.Keys

/-!
# What column definitions are read as

Whatever column definition is read, its type and its default are excerpts that can be pasted back,
and its key flags fit together.
-/

namespace SchemaDdl.Script

/-- Lexemes from the middle of a text, balanced and with no comma outside parentheses. -/
structure Slice (ls : List Lexeme) : Prop where
  chain : ∃ front rest, Chain (front ++ ls) rest
  level : Level .comma (ls.map Lexeme.token)

namespace Slice

variable {xs ys : List Lexeme}

/-- A slice is cut behind lexemes that end at depth 0. -/
theorem back (h : Slice (xs ++ ys)) (hxs : depthThrough 0 (xs.map Lexeme.token) = 0) : Slice ys := by
  obtain ⟨⟨front, rest, hchain⟩, hlevel⟩ := h
  rw [List.map_append] at hlevel
  refine ⟨⟨front ++ xs, rest, ?_⟩, (hlevel.of_append hxs).2⟩
  rwa [List.append_assoc]

theorem tail {l : Lexeme} (h : Slice (l :: xs)) (hl : l.token.depthAfter 0 = 0) : Slice xs := by
  rw [← List.singleton_append] at h
  exact h.back hl

theorem level_front (h : Slice (xs ++ ys))
    (hxs : ys = [] ∨ depthThrough 0 (xs.map Lexeme.token) = 0) :
    Level .comma (xs.map Lexeme.token) := by
  have hlevel := h.level
  rcases hxs with rfl | hxs
  · rwa [List.append_nil] at hlevel
  · rw [List.map_append] at hlevel
    exact (hlevel.of_append hxs).1

/-- The front of a slice is an excerpt. -/
theorem excerpt (h : Slice (xs ++ ys)) (hne : xs ≠ [])
    (hxs : ys = [] ∨ depthThrough 0 (xs.map Lexeme.token) = 0) :
    Excerpt (verbatim xs) (regap [] xs) := by
  obtain ⟨front, rest, hchain⟩ := h.chain
  exact excerpt_verbatim hchain hne (h.level_front hxs)

/-- The rest of a slice, if the front ends at depth 0 or is all there is. -/
theorem back_or (h : Slice (xs ++ ys))
    (hxs : ys = [] ∨ depthThrough 0 (xs.map Lexeme.token) = 0) : Slice ys := by
  rcases hxs with rfl | hxs
  · have hdepth := h.level.balanced.depth
    rw [List.append_nil] at hdepth
    exact h.back hdepth
  · exact h.back hxs

end Slice

theorem depthAfter_of_isKeyword {t : Token} {k : String} (h : t.isKeyword k = true) :
    t.depthAfter 0 = 0 := by
  cases t <;> first | rfl | cases h

theorem depthAfter_of_name? {t : Token} {n : String} (h : t.name? = some n) :
    t.depthAfter 0 = 0 := by
  cases t <;> first | rfl | cases h

theorem Slice.takeKeywords {ks : List String} {ls rest : List Lexeme} (hls : Slice ls)
    (h : takeKeywords ks ls = some rest) : Slice rest := by
  induction ks generalizing ls with
  | nil =>
    cases h
    exact hls
  | cons k ks ih =>
    cases ls with
    | nil => cases h
    | cons l ls =>
      rw [Script.takeKeywords] at h
      split at h
      · rename_i hk
        exact ih (hls.tail (depthAfter_of_isKeyword hk)) h
      · cases h

/-! ## Types and defaults -/

theorem typeExcerpt_spanType {ls : List Lexeme} (hls : Slice ls) (hne : (spanType 0 ls).1 ≠ []) :
    TypeExcerpt (verbatim (spanType 0 ls).1) (regap [] (spanType 0 ls).1) := by
  have happend := spanType_append 0 ls
  rw [← happend] at hls
  refine ⟨hls.excerpt hne (depthThrough_spanType 0 ls), ?_⟩
  exact atTop_regap (fun _ _ _ h => h) [] (atTop_spanType 0 ls)

theorem exists_cons_spanDefault {ls : List Lexeme} (hne : (spanDefault true 0 ls).1 ≠ []) :
    ∃ l ls', l.token ≠ .semicolon ∧ (spanDefault true 0 ls).1 =
      l :: (spanDefault false (l.token.depthAfter 0) ls').1 := by
  cases ls with
  | nil => exact absurd rfl hne
  | cons l ls =>
    rw [spanDefault] at hne ⊢
    split at hne
    · exact absurd rfl hne
    · rename_i hl
      simp only [Bool.not_true, Bool.false_and, Bool.or_false, beq_self_eq_true, Bool.true_and,
        beq_iff_eq] at hl ⊢
      exact ⟨l, ls, hl, by rw [if_neg hl]⟩

theorem defaultExcerpt_spanDefault {ls : List Lexeme} (hls : Slice ls)
    (hne : (spanDefault true 0 ls).1 ≠ []) :
    DefaultExcerpt (verbatim (spanDefault true 0 ls).1) (regap [] (spanDefault true 0 ls).1) := by
  have happend := spanDefault_append true 0 ls
  have hdepth := depthThrough_spanDefault true 0 ls
  have hexcerpt : Excerpt (verbatim (spanDefault true 0 ls).1)
      (regap [] (spanDefault true 0 ls).1) := by
    rw [← happend] at hls
    exact hls.excerpt hne hdepth
  obtain ⟨l, ls', hl, heq⟩ := exists_cons_spanDefault hne
  have hstays := atTop_spanDefault (l.token.depthAfter 0) ls'
  refine ⟨hexcerpt, ?_, ?_⟩
  · rw [atTop_of_standsOutside, heq]
    exact ⟨fun _ => hl, hstays.imp fun _ _ h => h.1⟩
  · intro m ms hm
    rw [heq] at hm
    cases hm
    exact hstays.imp fun _ _ h => h.2

theorem legible_verbatim {P : List Char → List Lexeme → Prop} {ls ms : List Lexeme}
    (h : P (verbatim ls) ms) (hms : Excerpt (verbatim ls) ms) :
    P (String.ofList (verbatim ls)).toList (Ddl.lexed (String.ofList (verbatim ls))) := by
  have hlist : (String.ofList (verbatim ls)).toList = verbatim ls := String.toList_ofList
  rw [Ddl.lexed_eq (hlist ▸ hms), hlist]
  exact h

theorem Slice.defaultExpression {ls rest : List Lexeme} {e : String} (hls : Slice ls)
    (h : defaultExpression ls = .ok (e, rest)) :
    DefaultExcerpt e.toList (Ddl.lexed e) ∧ Slice rest := by
  have heq : Script.defaultExpression ls = if (spanDefault true 0 ls).1.isEmpty then
      .error "expected an expression after DEFAULT"
    else .ok (String.ofList (verbatim (spanDefault true 0 ls).1), (spanDefault true 0 ls).2) := rfl
  rw [heq] at h
  split at h
  · cases h
  · rename_i hne
    cases h
    have hne' : (spanDefault true 0 ls).1 ≠ [] := fun hnil => hne (List.isEmpty_iff.2 hnil)
    have hdefault := defaultExcerpt_spanDefault hls hne'
    refine ⟨legible_verbatim hdefault hdefault.toExcerpt, ?_⟩
    rw [← spanDefault_append true 0 ls] at hls
    exact hls.back_or (depthThrough_spanDefault true 0 ls)

/-! ## Clauses -/

theorem exists_skipClause (previous : Token) (depth : Nat) (ls : List Lexeme) :
    ∃ skipped, ls = skipped ++ skipClause previous depth ls ∧
      (skipClause previous depth ls = [] ∨ depthThrough depth (skipped.map Lexeme.token) = 0) := by
  induction ls generalizing previous depth with
  | nil => exact ⟨[], rfl, .inl rfl⟩
  | cons l ls ih =>
    rw [skipClause]
    split
    · rename_i hl
      simp only [Bool.and_eq_true, beq_iff_eq] at hl
      exact ⟨[], rfl, .inr hl.1.1⟩
    · obtain ⟨skipped, heq, hdepth⟩ := ih l.token (l.token.depthAfter depth)
      refine ⟨l :: skipped, ?_, hdepth⟩
      rw [List.cons_append, ← heq]

/-- A clause leaves a slice behind, and a default that it reads is an excerpt. -/
theorem Slice.clause {l : Lexeme} {ls rest : List Lexeme} {k : ColumnClause} (hls : Slice (l :: ls))
    (h : clause l ls = .ok (k, rest)) :
    Slice rest ∧ ∀ e, k = .default e → DefaultExcerpt e.toList (Ddl.lexed e) := by
  obtain ⟨_, _, hks, hnot⟩ | ⟨e, behind, hbehind, he, rfl⟩ | ⟨rfl, rfl⟩ := clause_cases h
  · exact ⟨hls.takeKeywords hks, fun e he => absurd he (hnot e)⟩
  · obtain ⟨hexcerpt, hrest⟩ := (hls.takeKeywords hbehind).defaultExpression he
    refine ⟨hrest, fun e' he' => ?_⟩
    cases he'
    exact hexcerpt
  · obtain ⟨skipped, heq, hdepth⟩ := exists_skipClause l.token (l.token.depthAfter 0) ls
    refine ⟨?_, fun e he => by cases he⟩
    have hsplit : l :: ls = (l :: skipped) ++ skipClause l.token (l.token.depthAfter 0) ls := by
      rw [List.cons_append, ← heq]
    rw [hsplit] at hls
    exact hls.back_or hdepth

/-- The texts of the column can be pasted back and its key flags fit together. -/
structure ColumnDraft.Sound (inferId : Bool) (c : ColumnDraft) : Prop where
  legible : c.Legible
  keyed : c.Keyed inferId

theorem ColumnDraft.Keyed.apply {inferId : Bool} {c : ColumnDraft} (h : c.Keyed inferId)
    (k : ColumnClause) : (c.apply k).Keyed inferId := by
  obtain ⟨hprimary, himplicit⟩ := h
  cases k with
  | notNull => exact ⟨fun hkey => ⟨(hprimary hkey).1, rfl⟩, himplicit⟩
  | null =>
    refine ⟨fun hkey => ⟨(hprimary hkey).1, ?_⟩, himplicit⟩
    have hkey' : c.isPrimaryKey = true := hkey
    simp [ColumnDraft.apply, hkey']
  | default e => exact ⟨hprimary, himplicit⟩
  | primaryKey => exact ⟨fun _ => ⟨rfl, rfl⟩, fun _ _ => rfl⟩
  | unique => exact ⟨fun hkey => ⟨rfl, (hprimary hkey).2⟩, himplicit⟩
  | unsupported head => exact ⟨hprimary, himplicit⟩

theorem ColumnDraft.Sound.apply {inferId : Bool} {c : ColumnDraft} (h : c.Sound inferId)
    {k : ColumnClause} (hk : ∀ e, k = .default e → DefaultExcerpt e.toList (Ddl.lexed e)) :
    (c.apply k).Sound inferId := by
  obtain ⟨⟨htype, hdefault⟩, hkeyed⟩ := h
  refine ⟨?_, hkeyed.apply k⟩
  cases k with
  | default e =>
    refine ⟨htype, fun e' he' => ?_⟩
    cases he'
    exact hk e rfl
  | _ => exact ⟨htype, hdefault⟩

theorem columnClauses_sound {strict inferId : Bool} {c c' : ColumnDraft} {ls : List Lexeme}
    (hc : c.Sound inferId) (hls : Slice ls) (h : columnClauses strict c ls = .ok c') :
    c'.Sound inferId := by
  induction hn : ls.length using Nat.strongRecOn generalizing ls c with
  | _ n ih =>
    cases ls with
    | nil =>
      rw [columnClauses] at h
      cases h
      exact hc
    | cons l ls =>
      rw [columnClauses] at h
      split at h
      · cases h
        exact hc
      · split at h
        · cases h
        · rename_i k rest hk
          obtain ⟨hrest, hdefault⟩ := hls.clause hk
          have hlt := length_clause_lt hk
          split at h
          · cases h
          · exact ih rest.length (hn ▸ hlt) (hc.apply hdefault) hrest h rfl

/-! ## Column definitions -/

theorem Slice.name {what n : String} {ls rest : List Lexeme} (hls : Slice ls)
    (h : name what ls = .ok (n, rest)) : Slice rest := by
  cases ls with
  | nil => cases h
  | cons l ls =>
    rw [Script.name] at h
    split at h
    · rename_i hl
      cases h
      exact hls.tail (depthAfter_of_name? hl)
    · cases h

theorem sound_markPrimaryKey {inferId : Bool} {c : ColumnDraft} (hc : c.Legible) :
    c.markPrimaryKey.Sound inferId :=
  ⟨⟨hc.type, hc.default⟩, fun _ => ⟨rfl, rfl⟩, fun _ _ => rfl⟩

/-- Every column definition that is read is sound. -/
theorem columnDefinition_sound {strict inferId : Bool} {table : QualifiedName} {ls : List Lexeme}
    {c : ColumnDraft} (hls : Slice ls) (h : columnDefinition strict inferId table ls = .ok c) :
    c.Sound inferId := by
  rw [columnDefinition] at h
  obtain ⟨⟨n, rest⟩, hname, h⟩ := bind_eq_ok_iff.1 h
  have hrest := hls.name (mapError_eq_ok_iff.1 hname)
  replace h := mapError_eq_ok_iff.1 h
  simp only at h
  split at h
  · cases h
  · rename_i hne
    have hne' : (spanType 0 rest).1 ≠ [] := fun hnil => hne (List.isEmpty_iff.2 hnil)
    have htype := typeExcerpt_spanType hrest hne'
    let column : ColumnDraft := { name := n, type := String.ofList (verbatim (spanType 0 rest).1) }
    have hlegible : column.Legible :=
      ⟨legible_verbatim htype htype.toExcerpt, fun e he => by cases he⟩
    have hbehind : Slice (spanType 0 rest).2 := by
      rw [← spanType_append 0 rest] at hrest
      exact hrest.back_or (depthThrough_spanType 0 rest)
    refine columnClauses_sound ?_ hbehind h
    split
    · exact sound_markPrimaryKey hlegible
    · rename_i hid
      refine ⟨hlegible, ⟨?_, ?_⟩⟩
      · intro hkey
        cases hkey
      · intro hinfer hname
        refine absurd ?_ hid
        rw [hinfer, Bool.true_and, beq_iff_eq]
        exact hname

end SchemaDdl.Script
