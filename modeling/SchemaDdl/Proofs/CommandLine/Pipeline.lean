import SchemaDdl.CommandLine
import SchemaDdl.Proofs.CommandLine.Written
import SchemaDdl.Proofs.Document.Parsed

/-!
# Scripts by way of documents

The script of a model is the same whether the model has come straight from a script, or has been
saved as a document in between. That holds for the texts as for two runs of the command line, the
first of which writes the file that the second reads.
-/

namespace SchemaDdl

namespace CommandLine

/-- The arguments ask for that command on the input with these options. -/
def Asks (args : List String) (command : Command) (options : Script.Options) (input : String)
    (output : Option String) : Prop :=
  ∃ inv, invocation? args = some inv ∧ inv.command = command ∧ inv.options = options ∧
    inv.input = input ∧ inv.flags.output = output

/-- Command lines that take a script to a document and from there to a script again, and one that
takes it there at once with the same options. -/
structure Detour (save reload direct : List String) (options : Script.Options)
    (input path : String) : Prop where
  save : Asks save .parse options input (some path)
  reload : ∃ options', Asks reload .generate options' path none
  direct : Asks direct .generate options input none
  script : isDocument input = false
  document : isDocument path = true

section Run

variable {ids : Ids} {files : Files} {args : List String} {options : Script.Options}
  {input path text : String} {m : Model}

theorem load_script {inv : Invocation} (hinput : isDocument inv.input = false)
    (h : Script.parse ids inv.options text = .ok m) : inv.load ids (.ok text) = .ok m := by
  rw [Invocation.load, if_neg (by simp [hinput]), h]
  rfl

theorem load_document {inv : Invocation} (hinput : isDocument inv.input = true)
    (h : Model.ofDocument text = .ok m) : inv.load ids (.ok text) = .ok m := by
  rw [Invocation.load, if_pos hinput, h]
  rfl

theorem runAmong_eq_some {o : Outcome} {inv : Invocation} (hinv : invocation? args = some inv)
    (hread : files.read inv.input = .ok text) (hrun : inv.run ids (.ok text) = o)
    (hfile : ∀ f ∈ o.file, ∃ l, files.target f.1 = .ok l) : runAmong ids files args = some o := by
  rw [runAmong, hinv, Option.bind_eq_bind, Option.bind_some, hread, mapError_ok]
  simp only [hrun]
  cases hcases : o.file with
  | none => rfl
  | some f =>
    obtain ⟨l, hl⟩ := hfile f hcases
    simp only [hl]

/-- The script of the model in the input file is printed. -/
theorem runAmong_generate (hasks : Asks args .generate options input none)
    (hread : files.read input = .ok text)
    (hload : ∀ inv : Invocation, inv.options = options → inv.input = input →
      inv.load ids (.ok text) = .ok m) :
    runAmong ids files args = some { stdout := Ddl.generate m ++ "\n" } := by
  obtain ⟨inv, hinv, hcommand, hoptions, hinput, houtput⟩ := hasks
  refine runAmong_eq_some hinv (hinput ▸ hread) ?_ fun f hf => by cases hf
  simp [Invocation.run, hcommand, hload inv hoptions hinput, Except.map, Invocation.emit, houtput]

/-- The document of the model in the input file is written. -/
theorem runAmong_parse {l : Location} (hasks : Asks args .parse options input (some path))
    (hread : files.read input = .ok text) (htarget : files.target path = .ok l)
    (hload : ∀ inv : Invocation, inv.options = options → inv.input = input →
      inv.load ids (.ok text) = .ok m) :
    runAmong ids files args = some { file := some (path, m.toDocument) } := by
  obtain ⟨inv, hinv, hcommand, hoptions, hinput, houtput⟩ := hasks
  refine runAmong_eq_some hinv (hinput ▸ hread) ?_ fun f hf => ?_
  · simp [Invocation.run, hcommand, hload inv hoptions hinput, Except.map, Invocation.emit, houtput]
  · cases hf
    exact ⟨l, htarget⟩

/-- The null device has no extension. -/
theorem ne_nullDevice_of_isDocument {before : List String} {last : String}
    (h : files.Writable path before last) (hdocument : isDocument path = true) :
    Location.ofPath path ≠ Location.ofPath Files.nullDevice.1 := by
  intro hplace
  have hnull : (Location.ofPath Files.nullDevice.1).names.getLast? = some "null" := by
    decide +kernel
  have hlast : last = "null" := by
    have hsome := h.getLast?_names
    rw [hplace, hnull] at hsome
    exact (Option.some.inj hsome).symm
  have hextension : extension? path = none := by
    rw [extension?, pathParts, h.parts, hlast]
    simp only [List.filter_append, List.getLast?_append]
    rfl
  rw [isDocument, hextension] at hdocument
  cases hdocument

end Run

/-- A model that is read from a script is the very same after it has been saved and loaded, with or
without repeated column names, and whatever ids are given out. So it is the same script that is
printed for the document that a run has written as is printed for the script at once. -/
theorem script_of_document :
    (∀ (ids : Ids) (options : Script.Options) (script : String) (m : Model),
      Script.parse ids options script = .ok m → Model.ofDocument m.toDocument = .ok m ∧
        (Model.ofDocument m.toDocument).map Ddl.generate = .ok (Ddl.generate m)) ∧
    ∀ (ids ids' ids'' : Ids), ids.Distinct → ids''.Distinct →
      ∀ {files : Files} {save reload direct : List String} {options : Script.Options}
        {input path script : String} {l : Location} {m : Model},
      Detour save reload direct options input path → files.read input = .ok script →
      files.target path = .ok l → Script.parse ids options script = .ok m →
        runAmong ids files save = some { file := some (path, m.toDocument) } ∧
        runAmong ids' (files.put path m.toDocument) reload =
          some { stdout := Ddl.generate m ++ "\n" } ∧
        runAmong ids'' files direct = some { stdout := Ddl.generate m ++ "\n" } := by
  constructor
  · intro ids options script m h
    have hdocument := ofDocument_of_parse h
    refine ⟨hdocument, ?_⟩
    rw [hdocument]
    rfl
  · intro ids ids' ids'' hids hids'' files save reload direct options input path script l m hdetour
      hread htarget hparse
    obtain ⟨before, last, hwritable⟩ := Files.exists_writable_of_target htarget
    have hplace := ne_nullDevice_of_isDocument hwritable hdetour.document
    refine ⟨?_, ?_, ?_⟩
    · refine runAmong_parse hdetour.save hread htarget fun inv hoptions hinput => ?_
      exact load_script (hinput ▸ hdetour.script) (hoptions ▸ hparse)
    · obtain ⟨options', hasks⟩ := hdetour.reload
      refine runAmong_generate hasks (Files.read_put hwritable hplace _) fun inv _ hinput => ?_
      exact load_document (hinput ▸ hdetour.document) (ofDocument_of_parse hparse)
    · obtain ⟨m', hparse', hsame⟩ := exists_parse_ids hids hids'' hparse
      rw [← hsame]
      refine runAmong_generate hdetour.direct hread fun inv hoptions hinput => ?_
      exact load_script (hinput ▸ hdetour.script) (hoptions ▸ hparse')

/-- Two columns share a name, and so do two constraints once they are sanitized. -/
theorem script_of_document_shared_names :
    ∃ (script : String) (m : Model), Script.parse .positional {} script = .ok m ∧
      m.tables.map (fun t => (t.columns.map Column.name, t.foreignKeys.map ForeignKey.name)) =
        [(["a", "a"], ["x_y", "x_y_2"])] ∧
      Model.ofDocument m.toDocument = .ok m ∧
      runAmong .positional [("a.sql", script)] ["parse", "a.sql", "-o", "d.pgjson"] =
        some { file := some ("d.pgjson", m.toDocument) } ∧
      runAmong .positional [("d.pgjson", m.toDocument), ("a.sql", script)]
        ["generate", "d.pgjson"] = some { stdout := Ddl.generate m ++ "\n" } ∧
      runAmong .positional [("a.sql", script)] ["generate", "a.sql"] =
        some { stdout := Ddl.generate m ++ "\n" } := by
  let script := "CREATE TABLE t (a int, a int, CONSTRAINT \"X y\" FOREIGN KEY (a) REFERENCES t (a), " ++
    "CONSTRAINT x_y FOREIGN KEY (a) REFERENCES t (a));"
  have hread : (Script.parse .positional {} script).toOption.map (fun m => m.tables.map fun t =>
      (t.columns.map Column.name, t.foreignKeys.map ForeignKey.name)) =
        some [(["a", "a"], ["x_y", "x_y_2"])] := by
    decide +kernel
  obtain ⟨m, hm, hnames⟩ := Option.map_eq_some_iff.1 hread
  have hparse : Script.parse .positional {} script = .ok m := toOption_eq_some_iff.1 hm
  let files : Files := [("a.sql", script)]
  have hfile : files.read "a.sql" = .ok script := toOption_eq_some_iff.1 (by decide +kernel)
  have htarget : files.target "d.pgjson" = .ok ⟨false, ["d.pgjson"]⟩ :=
    toOption_eq_some_iff.1 (by decide +kernel)
  have hdetour : Detour ["parse", "a.sql", "-o", "d.pgjson"] ["generate", "d.pgjson"]
      ["generate", "a.sql"] {} "a.sql" "d.pgjson" := by
    constructor
    · exact ⟨⟨.parse, { output := some "d.pgjson", input := some "a.sql" }, "a.sql"⟩,
        by decide +kernel, rfl, rfl, rfl, rfl⟩
    · exact ⟨{}, ⟨.generate, { input := some "d.pgjson" }, "d.pgjson"⟩,
        by decide +kernel, rfl, rfl, rfl, rfl⟩
    · exact ⟨⟨.generate, { input := some "a.sql" }, "a.sql"⟩, by decide +kernel, rfl, rfl, rfl, rfl⟩
    · decide +kernel
    · decide +kernel
  obtain ⟨hdocument, -⟩ := script_of_document.1 .positional {} script m hparse
  obtain ⟨hsave, hreload, hdirect⟩ := script_of_document.2 .positional .positional .positional
    Ids.distinct_positional Ids.distinct_positional hdetour hfile htarget hparse
  have hput : files.put "d.pgjson" m.toDocument = ("d.pgjson", m.toDocument) :: files :=
    if_neg (by decide +kernel)
  rw [hput] at hreload
  exact ⟨script, m, hparse, hnames, hdocument, hsave, hreload, hdirect⟩

end CommandLine

end SchemaDdl
