import EntitySdl.Command.Run
import EntitySdl.Proofs.EmittedFiles
import EntitySdl.Proofs.Outcome

/-! # Previews

A check looks at files and changes none of them.  It loads the configuration and the
schema that are loaded for generating without further settings, and it accepts what the
generator accepts.  The files that it counts are those that are handed to the emitter:
each of them is written or kept when the emission ends well.
-/
namespace EntitySdl
namespace Command

open Generate World

variable {named : Option String} {path : String} {world later : World} {config : Config}
  {schema : Schema} {project : Project}

/-! ### Loading -/

theorem looks_readConfig (path : String) : Looks (readConfig path) := by
  refine (looks_read path).bind fun text => ?_
  cases text with
  | error => exact looks_pure _
  | ok => exact looks_pure _

theorem looks_loadConfig (named : Option String) : Looks (loadConfig named) := by
  cases named with
  | some path => exact looks_readConfig path
  | none =>
    refine (looks_pathExists _).bind fun found => ?_
    cases found with
    | true => exact looks_readConfig _
    | false => exact looks_pure _

theorem looks_load (path : String) : Looks (SchemaFile.load path) := by
  refine (looks_pathExists path).bind fun found => ?_
  cases found with
  | false => exact looks_pure _
  | true =>
    simp only [Bool.not_true, Bool.false_eq_true, if_false]
    cases SchemaFormat.ofPath path with
    | error => exact looks_pure _
    | ok =>
      refine (looks_read path).bind fun text => ?_
      cases text with
      | error => exact looks_pure _
      | ok => exact looks_pure _

theorem looks_loadSchema (path : String) : Looks (loadSchema path) :=
  (looks_load path).bind fun _ => looks_pure _

/-- What a world holds for a run: a configuration, named or not, and a schema. -/
structure Loads (named : Option String) (path : String) (world : World) (config : Config)
    (schema : Schema) : Prop where
  /-- The configuration is loaded. -/
  config : Runs (loadConfig named) world (.ok config) world
  /-- The schema is loaded. -/
  schema : Runs (loadSchema path) world (.ok schema) world

/-- A configuration and a schema are loaded, or one of them cannot be, and then neither
a check nor a generation goes any further. -/
theorem loads_or_fails (named : Option String) (path : String) (world : World) :
    (∃ config schema, Loads named path world config schema) ∨
      (¬ ∃ config schema, Loads named path world config schema) ∧
      ∃ failure, Runs (validate path named) world (.error failure) world ∧
        Runs ((Task.generate path {}).run false named) world (.error failure) world := by
  obtain ⟨config, hconfig⟩ := looks_loadConfig named world
  obtain ⟨schema, hschema⟩ := looks_loadSchema path world
  cases config with
  | error failure =>
    refine .inr ⟨?_, failure, ?_, ?_⟩
    · rintro ⟨config, schema, hloads⟩
      cases (hconfig.unique hloads.config).1
    · exact runs_bind_iff.mpr ⟨_, _, hconfig, runs_pure_iff.mpr ⟨rfl, rfl⟩⟩
    · exact runs_bind_iff.mpr ⟨_, _, hconfig, runs_pure_iff.mpr ⟨rfl, rfl⟩⟩
  | ok config =>
    cases schema with
    | ok schema => exact .inl ⟨config, schema, hconfig, hschema⟩
    | error failure =>
      refine .inr ⟨?_, failure, ?_, ?_⟩
      · rintro ⟨config, schema, hloads⟩
        cases (hschema.unique hloads.schema).1
      · refine runs_bind_iff.mpr ⟨_, _, hconfig, ?_⟩
        exact runs_bind_iff.mpr ⟨_, _, hschema, runs_pure_iff.mpr ⟨rfl, rfl⟩⟩
      · have hgenerate : Runs (generateWith config path) world (.error failure) world :=
          runs_bind_iff.mpr ⟨_, _, hschema, runs_pure_iff.mpr ⟨rfl, rfl⟩⟩
        refine runs_bind_iff.mpr ⟨_, _, hconfig, ?_⟩
        exact runs_bind_iff.mpr ⟨_, _, hgenerate, runs_pure_iff.mpr ⟨rfl, rfl⟩⟩

/-! ### Checking -/

/-- The schema of a project is well formed. -/
theorem check_of_generate {g : Generator} (h : g.generate schema = .ok project) :
    schema.check = .ok () :=
  ((g.generate_isOk_iff schema).mp ⟨project, h⟩).1

/-- A check finds out what the generator answers. -/
theorem checkSchema_eq_ok_iff {report : CheckReport} :
    checkSchema config path schema = .ok report ↔
      ∃ project, Generator.generate { config } schema = .ok project ∧
        report = ⟨path, schema.models.length, project⟩ := by
  unfold checkSchema
  rw [seq_eq_ok_iff, mapError_eq_ok_iff, bind_eq_ok_iff]
  constructor
  · rintro ⟨-, project, hproject, h⟩
    cases h
    exact ⟨project, mapError_eq_ok_iff.mp hproject, rfl⟩
  · rintro ⟨project, hproject, rfl⟩
    exact ⟨check_of_generate hproject, project, mapError_eq_ok_iff.mpr hproject, rfl⟩

theorem runs_validate (h : Loads named path world config schema) :
    Runs (validate path named) world (checkSchema config path schema) world := by
  refine runs_bind_iff.mpr ⟨_, _, h.config, ?_⟩
  exact runs_bind_iff.mpr ⟨_, _, h.schema, runs_pure_iff.mpr ⟨rfl, rfl⟩⟩

/-! ### Generating -/

/-- What a generation answers, once the files of its project have been emitted or one of
them has not: a text that tells how many have been written and how many kept. -/
def emissionAnswer (config : Config) (path : String) (project : Project) :
    Except Fault Unit × Deliveries → Except Failure String
  | (.ok (), deliveries) => .ok ((Summary.ofProject project).text ++
      String.join (project.warnings.map fun warning => "warning: " ++ warning ++ "\n") ++
      "✓ " ++ toString deliveries.written.length ++ " file(s) written to " ++ config.outputDir ++
      "\n" ++
      if deliveries.kept = [] then ""
      else "  " ++ toString deliveries.kept.length ++
        " existing file(s) kept; pass --overwrite to replace them\n")
  | (.error fault, _) => .error (.during (.generating path) (.fault fault))

theorem emissionAnswer_ok (config : Config) (path : String) (project : Project)
    (deliveries : Deliveries) :
    emissionAnswer config path project (.ok (), deliveries) =
      .ok (runText config ⟨project, deliveries⟩) := by
  simp only [emissionAnswer, runText, warningLines, line, Nat.toString_eq_repr]
  cases deliveries.kept <;> simp [String.append_assoc]

theorem runs_generate_of_run {answer : Except Fault RunReport}
    (h : Loads named path world config schema)
    (hrun : Runs (Generator.run { config } (fun _ => pure ()) schema) world answer later) :
    Runs ((Task.generate path {}).run false named) world
      ((answer.mapError fun fault => .during (.generating path) (.fault fault)).map
        (runText config)) later := by
  have hgenerate : Runs (generateWith config path) world
      (answer.mapError fun fault => .during (.generating path) (.fault fault)) later := by
    refine runs_bind_iff.mpr ⟨_, _, h.schema, ?_⟩
    exact runs_bind_iff.mpr ⟨_, _, hrun, runs_pure_iff.mpr ⟨rfl, rfl⟩⟩
  refine runs_bind_iff.mpr ⟨_, _, h.config, ?_⟩
  exact runs_bind_iff.mpr ⟨_, _, hgenerate, runs_pure_iff.mpr ⟨rfl, rfl⟩⟩

/-- A generation that cannot generate a project leaves the world alone. -/
theorem runs_generate_of_error {fault : Fault} (h : Loads named path world config schema)
    (hgenerate : Generator.generate { config } schema = .error fault) :
    Runs ((Task.generate path {}).run false named) world
      (.error (.during (.generating path) (.fault fault))) world := by
  have hrun : Runs (Generator.run { config } (fun _ => pure ()) schema) world (.error fault)
      world := by
    unfold Generator.run
    rw [hgenerate]
    exact runs_pure_iff.mpr ⟨rfl, rfl⟩
  exact runs_generate_of_run h hrun

/-- A generation emits the files of its project and tells what has become of them. -/
theorem runs_generate_of_ok {result : Except Fault Unit × Deliveries}
    (h : Loads named path world config schema)
    (hgenerate : Generator.generate { config } schema = .ok project)
    (hemit : Runs ((Emitter.ofConfig config).emitAll project.files {}) world result later) :
    Runs ((Task.generate path {}).run false named) world (emissionAnswer config path project result)
      later := by
  obtain ⟨outcome, deliveries⟩ := result
  cases outcome with
  | error fault =>
    have hrun : Runs (Generator.run { config } (fun _ => pure ()) schema) world (.error fault)
        later := by
      unfold Generator.run
      rw [hgenerate]
      exact runs_bind_iff.mpr ⟨_, _, hemit, runs_pure_iff.mpr ⟨rfl, rfl⟩⟩
    exact runs_generate_of_run h hrun
  | ok =>
    have hrun : Runs (Generator.run { config } (fun _ => pure ()) schema) world
        (.ok ⟨project, deliveries⟩) later := by
      unfold Generator.run
      rw [hgenerate]
      refine runs_bind_iff.mpr ⟨_, _, hemit, ?_⟩
      exact runs_bind_iff.mpr ⟨_, _, runs_pure_iff.mpr ⟨rfl, rfl⟩, runs_pure_iff.mpr ⟨rfl, rfl⟩⟩
    rw [emissionAnswer_ok]
    exact runs_generate_of_run h hrun

/-- What a check tells about a schema that could be generated: the warnings, the number of
its models, and the number of files. -/
def checkAnswer (path : String) (schema : Schema) (project : Project) : String :=
  String.join (project.warnings.map fun warning => "warning: " ++ warning ++ "\n") ++
    "✓ " ++ path ++ " is valid (" ++ toString schema.models.length ++ " model(s), " ++
    toString project.files.length ++ " file(s) would be generated)" ++ "\n"

theorem CheckReport.text_eq :
    CheckReport.text ⟨path, schema.models.length, project⟩ = checkAnswer path schema project := by
  simp only [CheckReport.text, warningLines, line, checkAnswer, Nat.toString_eq_repr,
    String.append_assoc]

/-- **A check is a preview.**  It leaves every file as it is.  It accepts a schema exactly
when configuration and schema are loaded and the generator makes a project of them; if it
refuses, so does a generation without further settings, which then leaves every file as
it is, too.  If it accepts, it tells the number of files in the project; that generation
emits these files, and when it ends well, each of them has been written or kept, so that
the numbers that it tells of these add up to the same. -/
theorem validate_previews (named : Option String) (path : String) (world : World) :
    ∃ answer, (∀ verbose, Runs ((Task.validate path).run verbose named) world answer world) ∧
      ((∃ text, answer = .ok text) ↔ ∃ config schema project,
        Loads named path world config schema ∧
          Generator.generate { config } schema = .ok project) ∧
      (∀ failure, answer = .error failure →
        ∃ why, Runs ((Task.generate path {}).run false named) world (.error why) world) ∧
      ∀ text, answer = .ok text → ∃ config schema project,
        Loads named path world config schema ∧
        Generator.generate { config } schema = .ok project ∧
        text = checkAnswer path schema project ∧
        ∀ result later,
          Runs ((Emitter.ofConfig config).emitAll project.files {}) world result later →
          Runs ((Task.generate path {}).run false named) world
            (emissionAnswer config path project result) later ∧
          (result.1 = .ok () → result.2.written.length + result.2.kept.length =
            project.files.length) := by
  have htask : ∀ {report}, Runs (validate path named) world report world → ∀ verbose,
      Runs ((Task.validate path).run verbose named) world (report.map CheckReport.text) world :=
    fun h _ => runs_bind_iff.mpr ⟨_, _, h, runs_pure_iff.mpr ⟨rfl, rfl⟩⟩
  rcases loads_or_fails named path world with ⟨config, schema, hloads⟩ |
    ⟨hnone, failure, hvalidate, hgenerate⟩
  · refine ⟨_, htask (runs_validate hloads), ?_, ?_, ?_⟩
    · constructor
      · rintro ⟨text, htext⟩
        obtain ⟨report, hreport, -⟩ := map_eq_ok_iff.mp htext
        obtain ⟨project, hproject, -⟩ := checkSchema_eq_ok_iff.mp hreport
        exact ⟨config, schema, project, hloads, hproject⟩
      · rintro ⟨config', schema', project, hloads', hproject⟩
        cases (hloads.config.unique hloads'.config).1
        cases (hloads.schema.unique hloads'.schema).1
        exact ⟨_, map_eq_ok_iff.mpr ⟨_, checkSchema_eq_ok_iff.mpr ⟨project, hproject, rfl⟩, rfl⟩⟩
    · intro failure hfailure
      cases hgenerate : Generator.generate { config } schema with
      | error fault => exact ⟨_, runs_generate_of_error hloads hgenerate⟩
      | ok project =>
        rw [checkSchema_eq_ok_iff.mpr ⟨project, hgenerate, rfl⟩] at hfailure
        cases hfailure
    · intro text htext
      obtain ⟨report, hreport, rfl⟩ := map_eq_ok_iff.mp htext
      obtain ⟨project, hproject, rfl⟩ := checkSchema_eq_ok_iff.mp hreport
      refine ⟨config, schema, project, hloads, hproject, CheckReport.text_eq, ?_⟩
      intro result later hemit
      refine ⟨runs_generate_of_ok hloads hproject hemit, fun hok => ?_⟩
      obtain ⟨outcome, deliveries⟩ := result
      cases hok
      have hcount := Emitter.count_of_emitAll hemit
      simpa using hcount
  · refine ⟨_, htask hvalidate, ?_, fun _ _ => ⟨failure, hgenerate⟩, nofun⟩
    constructor
    · rintro ⟨text, htext⟩
      cases htext
    · rintro ⟨config, schema, -, hloads, -⟩
      exact absurd ⟨config, schema, hloads⟩ hnone

/-- A world with a schema of two models, whose keys identify them. -/
def shop : World :=
  { tree := { nodes := [(["shop.json"], .file
    ("\x7b\"models\": [" ++
      "[\"Shop\", [[\"id\", [\"UniqueIdentifier\", false, true]]]], " ++
      "[\"Till\", [[\"id\", [\"Integer\", false, true]]]]]\x7d"))] } }

/-- Two files are counted for each of the models. -/
example : (((Task.validate "shop.json").run false none : StateM World _) shop).1.toOption =
    some "✓ shop.json is valid (2 model(s), 4 file(s) would be generated)\n" := by
  decide +kernel

end Command
end EntitySdl
