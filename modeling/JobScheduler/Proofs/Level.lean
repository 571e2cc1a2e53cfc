import JobScheduler.Proofs.Layering
import JobScheduler.Proofs.Inline

/-!
The level in a file and in a variable. A file may give any text as the level, and that is the level;
a variable gives the same level if and only if its line is read as it stands
(`Settings.level_alike_iff`).
-/

namespace JobScheduler

/-- A table that gives the level as a text, and no other setting. -/
structure Table.LevelOnly (t : Table) (level : String) : Prop where
  logging : t.HasSection "logging"
  scheduler : t.HasSection "scheduler"
  level : t.field? Setting.level.place = some (.text level)
  format : t.field? Setting.format.place = none
  metrics : t.field? Setting.metrics.place = none

namespace Settings

/-- The settings of which only the level is chosen. -/
def ofLevel (level : String) : Settings := { logging := { level := level } }

/-- Whether a file gives the level as a text, and nothing else gives a setting. -/
structure InFile (s : Surroundings) (path : Option FilePath) (level : String) : Prop where
  file : ∃ file, Holds s path file ∧ file.LevelOnly level
  vars : ∀ var ∈ Environment.lastValues [] s.env, Environment.path? var.1 = none

/-- Whether a variable gives the level in a line, and nothing else gives a setting. -/
structure InVariable (s : Surroundings) (path : Option FilePath) (line : String) : Prop where
  file : (path.getD (defaultFile s)).content? s = none
  vars : ∃ before name after,
    Environment.lastValues [] s.env = before ++ (name, line) :: after ∧
    Setting.level.Names name ∧ ∀ var ∈ before ++ after, Environment.path? var.1 = none

end Settings

namespace Text

theorem Quoted.ne_quotes {content body : List Char} (h : Quoted content body) (rest : List Char) :
    body ≠ '"' :: '"' :: rest := by
  cases h with
  | plain _ hquote =>
      intro heq
      exact hquote (List.cons.inj heq).1
  | _ => exact nofun

end Text

namespace Toml

theorem value?_of_quoted {content body : List Char} (h : Text.Quoted content body)
    (fuel depth : Nat) :
    value? (fuel + 1) depth ('"' :: body) = some (.text (String.ofList content), []) := by
  have hread := h.read []
  rw [List.append_nil] at hread
  have hstring : string? ('"' :: body) = some (content, []) := by
    rw [string?, hread]
    exact h.ne_quotes
  rw [value?, hstring]
  all_goals simp

/-- A text of one line that gives the level. -/
def levelLine (level : String) : String :=
  String.ofList ("logging.level=".toList ++ '"' :: (Text.quote level.toList ++ ['"']))

theorem parse?_levelLine (level : String) :
    parse? (levelLine level) = some [("logging", .table [("level", .text level)])] := by
  have hvalue := value?_of_quoted (Text.quoted_quote level.toList)
  rw [String.ofList_toList] at hvalue
  have hline : (levelLine level).toList =
      "logging.level=".toList ++ '"' :: (Text.quote level.toList ++ ['"']) := String.toList_ofList
  have hkey : keyEquals? (levelLine level).toList =
      some (["logging", "level"], '"' :: (Text.quote level.toList ++ ['"'])) := by
    rw [hline]
    rfl
  rw [parse?_of_pair _ _ _ hkey (hvalue _ _)]
  · rfl
  all_goals rw [hline]
  · rfl
  · rfl
  · exact nofun

end Toml

namespace Inline

/-- A line is itself the text that is read of it if and only if it is read as it stands, since a
single character in quotes is shorter than its line. -/
theorem text?_read_eq_self_iff (line : String) :
    (read line).text? = some line ↔ (∀ v, ¬Written v line.toList) ∨ Literal line.toList := by
  rw [← read_eq_text_iff]
  constructor
  · intro h
    cases hread : read line with
    | text s =>
        rw [hread] at h
        exact congrArg Value.text (Option.some_inj.mp h)
    | letter c =>
        rw [hread] at h
        have hline : c.toString = line := Option.some_inj.mp h
        obtain hwritten | ⟨-, hv⟩ := (read_eq_iff line _).mp hread
        · have hlength := hwritten.length_of_letter
          have hone : c.toString.toList.length = 1 := by simp
          rw [← hline, hone] at hlength
          exact absurd hlength (by decide)
        · exact absurd hv nofun
    | _ =>
        rw [hread] at h
        exact absurd h nofun
  · intro h
    rw [h]
    rfl

end Inline

namespace Environment

open Setting

theorem foldl_lay_of_free {vars : List (String × String)} (h : ∀ var ∈ vars, path? var.1 = none)
    (t : Table) : vars.foldl lay t = t := by
  induction vars generalizing t with
  | nil => rfl
  | cons var rest ih =>
      obtain ⟨hvar, hrest⟩ := List.forall_mem_cons.mp h
      rw [List.foldl_cons, lay_of_none hvar, ih hrest]

theorem table_of_free {env : List (String × String)}
    (h : ∀ var ∈ lastValues [] env, path? var.1 = none) : table env = [] :=
  foldl_lay_of_free h []

theorem table_of_single {env before after : List (String × String)} {x : Setting}
    {name line : String} (henv : lastValues [] env = before ++ (name, line) :: after)
    (hname : x.Names name) (hfree : ∀ var ∈ before ++ after, path? var.1 = none) :
    table env = [(x.place.1, .table [(x.place.2, Inline.read line)])] := by
  obtain ⟨hbefore, hafter⟩ := List.forall_mem_append.mp hfree
  have htable : table env = (lastValues [] env).foldl lay [] := rfl
  rw [htable, henv, List.foldl_append, foldl_lay_of_free hbefore, List.foldl_cons,
    foldl_lay_of_free hafter, lay_of_names hname]
  rfl

end Environment

namespace FileTree

theorem walk_empty (dir : Route) (names : List String) :
    (⟨[], []⟩ : FileTree).walk dir names = none := by
  induction names generalizing dir with
  | nil => rfl
  | cons c rest ih =>
      rw [walk]
      simp [ih]

theorem file?_empty (dir : Route) (path : String) :
    (⟨[], []⟩ : FileTree).file? dir path = none := by
  rw [file?, walk_empty, ite_self]

end FileTree

/-- Surroundings without any file. -/
def Surroundings.empty (env : List (String × String)) : Surroundings where
  tree := ⟨[], []⟩
  cwd := []
  home := none
  env := env

theorem Surroundings.content?_empty (env : List (String × String)) (path : FilePath) :
    path.content? (empty env) = none := by
  cases path with
  | plain path =>
      have hsearch : (empty env).tree.search? (empty env).cwd path = none :=
        List.findSome?_eq_none_iff.mpr fun dir _ => FileTree.file?_empty dir path
      rw [FilePath.content?, hsearch, ite_self]
  | fromRoot path => exact FileTree.file?_empty [] path

namespace Settings

open Setting

variable {s : Surroundings} {path : Option FilePath} {level line : String}

theorem load_inFile (h : InFile s path level) : load s path = .ok (ofLevel level) := by
  obtain ⟨file, hfile, honly⟩ := h.file
  have hgiven : ∀ x, given file x = some (x.of (ofLevel level)) := by
    intro x
    cases x with
    | level => exact congrArg Setting.level.accept? honly.level
    | format => exact congrArg Setting.format.accept? honly.format
    | metrics => exact congrArg Setting.metrics.accept? honly.metrics
  have hlayered : layered file s.env = .ok (ofLevel level) := by
    rw [layered_eq_ok_iff, Environment.table_of_free h.vars, Value.layerEntries]
    exact (ofTable?_eq_some_iff honly.logging honly.scheduler _).mpr hgiven
  rw [load, fileTable_of_holds hfile]
  exact hlayered

theorem ofTable?_of_level (v : Value) :
    ofTable? [("logging", .table [("level", v)])] = v.text?.map ofLevel := by
  have hlogging : Table.HasSection [("logging", .table [("level", v)])] "logging" := by
    intro w hw
    exact ⟨_, (Option.some_inj.mp hw).symm⟩
  rw [ofTable?_eq hlogging nofun]
  have hlevel : given [("logging", .table [("level", v)])] .level = v.text? := rfl
  have hformat : given [("logging", .table [("level", v)])] .format = some .pretty := rfl
  have hmetrics : given [("logging", .table [("level", v)])] .metrics = some true := rfl
  rw [hlevel, hformat, hmetrics]
  cases v.text? <;> rfl

theorem load_inVariable (h : InVariable s path line) :
    load s path = match (Inline.read line).text? with
      | some level => .ok (ofLevel level)
      | none => .error (.config "a setting has a value of the wrong kind") := by
  obtain ⟨before, name, after, henv, hname, hfree⟩ := h.vars
  have hload : load s path = layered [] s.env := by
    rw [load, fileTable_of_holds (.missing h.file)]
    rfl
  have hread : ofTable? (Value.layerEntries [] (Environment.table s.env)) =
      (Inline.read line).text?.map ofLevel := by
    rw [Environment.table_of_single henv hname hfree]
    exact ofTable?_of_level _
  rw [hload, layered, hread]
  cases (Inline.read line).text? <;> rfl

theorem inFile_levelLine (level : String) :
    InFile (.withFile (Toml.levelLine level) []) (some (.fromRoot "c")) level where
  file := by
    refine ⟨[("logging", .table [("level", .text level)])], ?_, ?_, nofun, rfl, rfl, rfl⟩
    · exact .of_open (Surroundings.content?_withFile _ _) (Toml.parse?_levelLine level) rfl
    · intro v hv
      exact ⟨_, (Option.some_inj.mp hv).symm⟩
  vars := nofun

theorem inVariable_single (line : String) (path : Option FilePath) :
    InVariable (.empty [("CHAIND_LOGGING__LEVEL", line)]) path line where
  file := Surroundings.content?_empty _ _
  vars := ⟨[], _, [], rfl, rfl, nofun⟩

/-- The level in a file and in a variable. Each text can be given in both ways. In a file it is the
level, whatever it is. In a variable it gives the same settings if and only if it is no value as a
whole, or a word without blanks at its ends that is no number. Otherwise the text of the value is
the level, and settings cannot be loaded if it has none. -/
theorem level_alike_iff (line : String) :
    ((∃ s path, InFile s path line) ∧ ∃ s path, InVariable s path line) ∧
    (∀ s path, InFile s path line → load s path = .ok (ofLevel line)) ∧
    (∀ s path s' path', InFile s path line → InVariable s' path' line →
      (load s' path' = load s path ↔
        (∀ v, ¬Inline.Written v line.toList) ∨ Inline.Literal line.toList)) ∧
    ∀ s path v, InVariable s path line → Inline.Written v line.toList →
      (∀ level, v.text? = some level → load s path = .ok (ofLevel level)) ∧
      (v.text? = none → ∃ reason, load s path = .error (.config reason)) := by
  refine ⟨⟨⟨_, _, inFile_levelLine line⟩, _, none, inVariable_single line none⟩, ?_, ?_, ?_⟩
  · intro s path h
    exact load_inFile h
  · intro s path s' path' hfile hvariable
    rw [load_inFile hfile, load_inVariable hvariable, ← Inline.text?_read_eq_self_iff]
    cases (Inline.read line).text? with
    | none => exact iff_of_false nofun nofun
    | some level =>
        constructor
        · intro h
          exact congrArg (fun c => some c.logging.level) (Except.ok.inj h)
        · intro h
          rw [Option.some_inj.mp h]
  · intro s path v h hv
    have hload := load_inVariable h
    rw [Inline.read_of_written hv] at hload
    constructor
    · intro level hlevel
      rwa [hlevel] at hload
    · intro hnone
      rw [hnone] at hload
      exact ⟨_, hload⟩

theorem word_alike :
    ∃ s path s' path', InFile s path "debug" ∧ InVariable s' path' "debug" ∧
      Inline.Written (.text "debug") "debug".toList ∧
      load s path = .ok (ofLevel "debug") ∧ load s' path' = load s path ∧
      load s' path' = .ok (ofLevel "debug") := by
  have hfile := inFile_levelLine "debug"
  have hvariable := inVariable_single "debug" none
  have hliteral : Inline.Literal "debug".toList := by decide
  have hwritten := (Inline.written_text_iff "debug").mpr hliteral
  obtain ⟨-, hload, halike, htext⟩ := level_alike_iff "debug"
  exact ⟨_, _, _, _, hfile, hvariable, hwritten, hload _ _ hfile,
    (halike _ _ _ _ hfile hvariable).mpr (.inr hliteral),
    (htext _ _ _ hvariable hwritten).1 _ rfl⟩

/-- A number is a level in a file, and none in a variable. -/
theorem number_not_alike :
    ∃ s path s' path', InFile s path "5" ∧ InVariable s' path' "5" ∧
      load s path = .ok (ofLevel "5") ∧
      load s' path' = .error (.config "a setting has a value of the wrong kind") ∧
      load s' path' ≠ load s path := by
  have hfile := inFile_levelLine "5"
  have hvariable := inVariable_single "5" none
  have hword : Inline.Written (Inline.plain ['5']) ([] ++ ['5']) := .word nofun (by decide)
  have hwritten : Inline.Written (.number "5") "5".toList := hword
  have hload := load_inVariable hvariable
  rw [Inline.read_of_written hwritten] at hload
  refine ⟨_, _, _, _, hfile, hvariable, load_inFile hfile, hload, ?_⟩
  rw [hload, load_inFile hfile]
  exact nofun

end Settings

end JobScheduler
