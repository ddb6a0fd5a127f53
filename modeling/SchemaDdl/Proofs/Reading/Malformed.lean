import SchemaDdl.Proofs.Outline.Resolver
import SchemaDdl.Proofs.Reading.Lenient
import SchemaDdl.Proofs.Splitting.Joined

/-!
# Malformed statements

The first malformed statement of a script is reported at its line, whatever references are missing
besides. What stands behind it makes no difference, so the report stays when the script goes on.
-/

namespace SchemaDdl

open Script

namespace Script

/-- A statement at `line` is malformed, and all before it are read. -/
def MalformedAt (options : Options) (ss : List Statement) (line : Nat) (problem : String) : Prop :=
  ∃ before s after d, ss = before ++ s :: after ∧ s.line = line ∧
    Draft.ofStatements options before = .ok d ∧
    readStatement options d.definesTable s.text = .error problem

theorem MalformedAt.append {options : Options} {ss : List Statement} {line : Nat} {problem : String}
    (h : MalformedAt options ss line problem) (more : List Statement) :
    MalformedAt options (ss ++ more) line problem := by
  obtain ⟨before, s, after, d, rfl, hline, hd, hs⟩ := h
  refine ⟨before, s, after ++ more, d, ?_, hline, hd, hs⟩
  rw [List.append_assoc, List.cons_append]

namespace Draft

variable {options : Options} {ss : List Statement} {d : Draft} {e : ParseError}

theorem readNext_eq_error_iff {s : Statement} :
    readNext options d s = .error e ↔
      ∃ problem, readStatement options d.definesTable s.text = .error problem ∧
        e = .malformed s.line problem := by
  rw [readNext]
  cases readStatement options d.definesTable s.text with
  | error problem =>
    constructor
    · intro h
      cases h
      exact ⟨problem, rfl, rfl⟩
    · rintro ⟨problem', h, rfl⟩
      cases h
      rfl
  | ok entry =>
    constructor
    · intro h
      cases h
    · rintro ⟨problem, h, -⟩
      cases h

/-- Reading stops at the first malformed statement. -/
theorem ofStatements_eq_error_iff : ofStatements options ss = .error e ↔
    ∃ line problem, MalformedAt options ss line problem ∧ e = .malformed line problem := by
  rw [ofStatements, foldlM_eq_error_iff]
  constructor
  · rintro ⟨before, s, after, d, rfl, hd, hs⟩
    obtain ⟨problem, hproblem, rfl⟩ := readNext_eq_error_iff.1 hs
    exact ⟨s.line, problem, ⟨before, s, after, d, rfl, rfl, hd, hproblem⟩, rfl⟩
  · rintro ⟨line, problem, ⟨before, s, after, d, rfl, rfl, hd, hproblem⟩, rfl⟩
    exact ⟨before, s, after, d, rfl, hd, readNext_eq_error_iff.2 ⟨problem, hproblem, rfl⟩⟩

theorem ofStatements_append (options : Options) (ss more : List Statement) :
    ofStatements options (ss ++ more) =
      ofStatements options ss >>= fun d => more.foldlM (readNext options) d := by
  rw [ofStatements, List.foldlM_append]
  rfl

/-- If the first statements are read, what is malformed stands behind them. -/
theorem exists_line_of_append {more : List Statement} (hd : ofStatements options ss = .ok d)
    (h : ofStatements options (ss ++ more) = .error e) : ∃ s ∈ more, e.line? = some s.line := by
  rw [ofStatements_append, hd] at h
  obtain ⟨before, s, after, d', rfl, -, hs⟩ := foldlM_eq_error_iff.1 h
  obtain ⟨problem, -, rfl⟩ := readNext_eq_error_iff.1 hs
  exact ⟨s, List.mem_append_right before List.mem_cons_self, rfl⟩

theorem isReference_of_mem_faults (h : e ∈ d.faults) : e.isReference = true := by
  rw [faults, List.mem_append, List.mem_flatMap, List.mem_filterMap] at h
  rcases h with ⟨t, -, h⟩ | ⟨c, -, h⟩
  · obtain ⟨fk, -, h⟩ := List.mem_filterMap.1 h
    rw [keyFault?] at h
    split at h
    · split at h <;> cases h
      rfl
    · cases h
      rfl
  · rw [commentFault?] at h
    split at h <;> cases h
    rfl

theorem isReference_of_resolve (hd : ofStatements options ss = .ok d) {ids : Ids}
    (h : d.resolve ids = .error e) : e.isReference = true := by
  have hsound := ofStatements_sound hd
  rw [resolve_eq hsound.keys hsound.comments, okUnless_eq_error_iff] at h
  exact isReference_of_mem_faults (List.mem_of_head? h)

end Draft

end Script

section Parse

variable {ids ids' : Ids} {options : Options} {script : String} {line : Nat} {problem : String}

/-- No missing reference hides a malformed statement. -/
theorem parse_eq_malformed_iff : parse ids options script = .error (.malformed line problem) ↔
    MalformedAt options (statements script.toList) line problem := by
  rw [parse, bind_eq_error_iff, Draft.ofStatements_eq_error_iff]
  constructor
  · rintro (⟨line', problem', h, heq⟩ | ⟨d, hd, h⟩)
    · cases heq
      exact h
    · have hreference := Draft.isReference_of_resolve hd h
      cases hreference
  · intro h
    exact .inl ⟨line, problem, h, rfl⟩

theorem exists_ofStatements_of_isReference {e : ParseError} (h : parse ids options script = .error e)
    (he : e.isReference = true) : ∃ d, Draft.ofStatements options (statements script.toList) = .ok d := by
  rw [parse, bind_eq_error_iff] at h
  rcases h with h | ⟨d, hd, -⟩
  · rw [Draft.isReference_of_ofStatements h] at he
    cases he
  · exact ⟨d, hd⟩

end Parse

/-- A malformed statement is reported at the line of its first character, before anything that is
missing, and it is the first one that is. A script that ends with a statement can go on: what is
malformed in it is reported as before, and anything else that is malformed stands below it. -/
theorem parse_first_malformed (options : Options) :
    (∀ (ids : Ids) (script : String) (line : Nat) (problem : String),
      parse ids options script = .error (.malformed line problem) ↔
        MalformedAt options (statements script.toList) line problem) ∧
    (∀ (ids : Ids) (script : String) (e : ParseError), parse ids options script = .error e →
      e.isReference = true → ∃ d, Draft.ofStatements options (statements script.toList) = .ok d) ∧
    ∀ (ids ids' : Ids) (a b : String), EndsStatement a.toList →
      (∀ line problem, parse ids options a = .error (.malformed line problem) →
        parse ids' options (a ++ b) = .error (.malformed line problem)) ∧
      ((∀ line problem, parse ids options a ≠ .error (.malformed line problem)) →
        ∀ line problem, parse ids' options (a ++ b) = .error (.malformed line problem) →
          1 + newlines a.toList ≤ line) := by
  refine ⟨fun ids script line problem => parse_eq_malformed_iff,
    fun ids script e h he => exists_ofStatements_of_isReference h he, ?_⟩
  intro ids ids' a b ha
  have hstatements := statements_append ha b.toList
  simp only [ne_eq, parse_eq_malformed_iff, String.toList_append, hstatements]
  constructor
  · intro line problem h
    exact h.append _
  · intro hnone line problem h
    obtain ⟨d, hd⟩ : ∃ d, Draft.ofStatements options (statements a.toList) = .ok d := by
      cases hread : Draft.ofStatements options (statements a.toList) with
      | ok d => exact ⟨d, rfl⟩
      | error e =>
        obtain ⟨line', problem', h', -⟩ := Draft.ofStatements_eq_error_iff.1 hread
        exact absurd h' (hnone line' problem')
    obtain ⟨s, hs, hline⟩ :=
      Draft.exists_line_of_append hd (Draft.ofStatements_eq_error_iff.2 ⟨line, problem, h, rfl⟩)
    obtain ⟨t, ht, rfl⟩ := List.mem_map.1 hs
    obtain rfl : line = newlines a.toList + t.line := Option.some.inj hline
    have hfirst : 1 ≤ t.line := le_line_of_mem_numberedStatements ht
    omega

/-- A table that is defined twice hides the table that a comment misses, also when the script goes on.
Where only that table is missing, what is malformed stands in the rest. -/
theorem parse_first_malformed_below :
    let a := "COMMENT ON TABLE ghost IS 'x';\nCREATE TABLE t (a int);\n\nCREATE TABLE t (b int);\n"
    let b := "CREATE SCHEMA ;"
    let a' := "COMMENT ON TABLE ghost IS 'x';\n"
    let b' := "\nCREATE SCHEMA ;"
    EndsStatement a.toList ∧
      parse .positional {} a = .error (.malformed 4 "table public.t is already defined") ∧
      parse .positional {} (a ++ b) = .error (.malformed 4 "table public.t is already defined") ∧
    EndsStatement a'.toList ∧
      (∀ line problem, parse .positional {} a' ≠ .error (.malformed line problem)) ∧
      parse .positional {} (a' ++ b') =
        .error (.malformed 3 "CREATE SCHEMA: expected schema name, found `;`") ∧
      1 + newlines a'.toList ≤ 3 := by
  intro a b a' b'
  obtain ⟨hiff, -, hjoined⟩ := parse_first_malformed {}
  have hblank : ∀ c ∈ ['\n'], Text.isBlank c = true := List.forall_mem_singleton.2 rfl
  have hends : EndsStatement a.toList :=
    ⟨["COMMENT ON TABLE ghost IS 'x';".toList, "\nCREATE TABLE t (a int);".toList,
      "\n\nCREATE TABLE t (b int);".toList], ['\n'], by decide +kernel, List.cons_ne_nil _ _, hblank⟩
  have hends' : EndsStatement a'.toList :=
    ⟨["COMMENT ON TABLE ghost IS 'x';".toList], ['\n'], by decide +kernel, List.cons_ne_nil _ _, hblank⟩
  have hreported {script : String} {line : Nat} {problem : String}
      (hread : Draft.ofStatements {} (statements script.toList) = .error (.malformed line problem)) :
      parse .positional {} script = .error (.malformed line problem) := by
    obtain ⟨line, problem, hmalformed, heq⟩ := Draft.ofStatements_eq_error_iff.1 hread
    cases heq
    exact (hiff _ _ _ _).2 hmalformed
  have hfirst : parse .positional {} a = .error (.malformed 4 "table public.t is already defined") :=
    hreported (by decide +kernel)
  have hbelow : parse .positional {} (a' ++ b') =
      .error (.malformed 3 "CREATE SCHEMA: expected schema name, found `;`") :=
    hreported (by decide +kernel)
  have hnone : ∀ line problem, parse .positional {} a' ≠ .error (.malformed line problem) := by
    intro line problem h
    have hread : (Draft.ofStatements {} (statements a'.toList)).toOption.isSome := by decide +kernel
    rw [Draft.ofStatements_eq_error_iff.2 ⟨line, problem, (hiff _ _ _ _).1 h, rfl⟩] at hread
    cases hread
  refine ⟨hends, hfirst, (hjoined .positional .positional a b hends).1 _ _ hfirst, hends', hnone,
    hbelow, ?_⟩
  exact (hjoined .positional .positional a' b' hends').2 hnone _ _ hbelow

end SchemaDdl
