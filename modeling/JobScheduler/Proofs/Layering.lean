import JobScheduler.Proofs.Overlay
import JobScheduler.Settings.Load

/-!
Settings from three layers. Each of the three settings is that of its variable if there is one, else
that of the file if it has one, else the default, and nothing else matters: loading succeeds if and
only if each of the values chosen in this way is one that the setting accepts
(`Settings.load_layers`).
-/

namespace JobScheduler

/-- A setting. -/
inductive Setting where
  | level
  | format
  | metrics
deriving DecidableEq, Repr

namespace Setting

/-- The section of a file that a setting is in, and its name there. -/
def place : Setting → String × String
  | level => ("logging", "level")
  | format => ("logging", "format")
  | metrics => ("scheduler", "metrics")

def variableName : Setting → String
  | level => "CHAIND_LOGGING__LEVEL"
  | format => "CHAIND_LOGGING__FORMAT"
  | metrics => "CHAIND_SCHEDULER__METRICS"

/-- What a setting is a choice of. -/
def Kind : Setting → Type
  | level => String
  | format => LogFormat
  | metrics => Bool

/-- What a value is for a setting, if the setting accepts it. -/
def read? : (x : Setting) → Value → Option x.Kind
  | level => Value.text?
  | format => Value.format?
  | metrics => Value.flag?

/-- A setting among all of them. -/
def of : (x : Setting) → Settings → x.Kind
  | level => fun c => c.logging.level
  | format => fun c => c.logging.format
  | metrics => fun c => c.scheduler.metrics

/-- What a setting is in a section that does not give it. -/
protected def default : (x : Setting) → x.Kind
  | level => defaultLevel
  | format => LogFormat.default
  | metrics => metricsByDefault

/-- A setting is the same in a section that is missing and in one that does not give it. -/
theorem of_default (x : Setting) : x.of .default = x.default := by
  cases x <;> rfl

/-- What a setting is where a value is given for it or none. -/
def accept? (x : Setting) : Option Value → Option x.Kind
  | some v => x.read? v
  | none => some x.default

/-- Whether a variable's name is that of a setting, in any letter case. -/
def Names (x : Setting) (name : String) : Prop :=
  name.toList.map Char.toLower = x.variableName.toList.map Char.toLower

instance (x : Setting) (name : String) : Decidable (x.Names name) := instDecidableEqList _ _

/-- Where the value that is given for a setting is from. -/
inductive Chooses (file : Table) (vars : List (String × String)) (x : Setting) :
    Option Value → Prop where
  | fromVariable {name value : String} : (name, value) ∈ vars → x.Names name →
      Chooses file vars x (some (Inline.read value))
  | fromFile : (∀ var ∈ vars, ¬x.Names var.1) → Chooses file vars x (file.field? x.place)

end Setting

/-- Whether the variables that concern settings are variables of the three settings, each of which
has one at most, with values that are no tables. -/
structure Environment.Settles (vars : List (String × String)) : Prop where
  names : ∀ var ∈ vars, path? var.1 = none ∨ ∃ x : Setting, x.Names var.1
  once : vars.Pairwise fun var var' => ∀ x : Setting, x.Names var.1 → ¬x.Names var'.1
  plain : ∀ var ∈ vars, ∀ x : Setting, x.Names var.1 → ∀ entries, Inline.read var.2 ≠ .table entries

/-- Whether a table is that of the settings' file: none, or one that is valid. -/
inductive Settings.Holds (s : Surroundings) (path : Option FilePath) : Table → Prop where
  | missing : (path.getD (defaultFile s)).content? s = none → Holds s path []
  | valid {bytes : ByteArray} {text : String} {written file : Table} :
      (path.getD (defaultFile s)).content? s = some bytes → String.fromUTF8? bytes = some text →
      Toml.parse? text = some written → Value.heldEntries? written = some file →
      Holds s path file

namespace Text

theorem toNat_toLower (c : Char) : c.toLower.toNat = c.toNat ∨
    65 ≤ c.toNat ∧ c.toNat ≤ 90 ∧ c.toLower.toNat = c.toNat + 32 := by
  unfold Char.toLower
  split
  · rename_i h
    have hlow : 65 ≤ c.toNat := UInt32.le_iff_toNat_le.mp h.1
    have hhigh : c.toNat ≤ 90 := UInt32.le_iff_toNat_le.mp h.2
    have hsmall : c.toNat + 32 < 2 ^ 32 := by omega
    refine .inr ⟨hlow, hhigh, ?_⟩
    show (c.val + 32).toNat = c.toNat + 32
    rw [UInt32.toNat_add]
    exact Nat.mod_eq_of_lt hsmall
  · exact .inl rfl

theorem isBlank_toLower (c : Char) : isBlank c.toLower = isBlank c := by
  rcases toNat_toLower c with h | ⟨hlow, hhigh, h⟩
  · rw [isBlank, h]
    rfl
  · rw [Bool.eq_iff_iff]
    simp only [isBlank, h, Bool.or_eq_true, Bool.and_eq_true, decide_eq_true_eq, beq_iff_eq]
    omega

theorem trim_map_toLower (cs : List Char) :
    trim (cs.map Char.toLower) = (trim cs).map Char.toLower := by
  have hblank : isBlank ∘ Char.toLower = isBlank := funext isBlank_toLower
  simp only [trim, List.dropWhile_map, hblank, ← List.map_reverse]

theorem fromUTF8?_toUTF8 (text : String) : String.fromUTF8? text.toUTF8 = some text :=
  dif_pos text.isValidUTF8

end Text

namespace Setting

theorem path?_of_names {x : Setting} {name : String} (h : x.Names name) :
    Environment.path? name = some [x.place.1, x.place.2] := by
  unfold Environment.path?
  rw [← Text.trim_map_toLower, h]
  cases x <;> rfl

theorem eq_of_names {x y : Setting} {name : String} (h : x.Names name) (h' : y.Names name) :
    x = y := by
  have hpath := (path?_of_names h).symm.trans (path?_of_names h')
  cases x <;> cases y <;> first | rfl | exact absurd hpath (by decide)

end Setting

namespace Inline

theorem bare?_ne_date {fuel : Nat} {cs rest : List Char} {v : Value}
    (h : bare? fuel cs = some (v, rest)) (literal : String) : v ≠ .date literal := by
  rintro rfl
  unfold bare? at h
  split at h
  case h_4 | h_5 | h_6 =>
    obtain ⟨r, -, hr⟩ := Option.map_eq_some_iff.mp h
    exact absurd hr nofun
  case h_7 =>
    split at h <;> exact absurd h nofun
  case h_8 =>
    have hdate := congrArg Prod.fst (Option.some_inj.mp h)
    rcases plain_cases _ with ⟨_, hplain⟩ | ⟨_, hplain⟩ <;>
      exact absurd (hplain.symm.trans hdate) nofun
  all_goals exact absurd h nofun

theorem entries?_read {line : String} (h : ∀ entries, read line ≠ .table entries) :
    (read line).entries? = none := by
  have hdate : ∀ literal, read line ≠ .date literal := by
    intro literal hread
    unfold read at hread
    dsimp only at hread
    split at hread
    · rename_i v hv
      obtain ⟨⟨w, rest⟩, hw, hpair⟩ := Option.map_eq_some_iff.mp hv
      have hwv : w = v := congrArg Prod.fst hpair
      exact bare?_ne_date hw literal (hwv.trans hread)
    · exact absurd hread nofun
  cases hread : read line with
  | table entries => exact absurd hread (h entries)
  | date literal => exact absurd hread (hdate literal)
  | _ => rfl

end Inline

namespace Environment

open Setting

/-- A variable laid over a table. -/
def lay (t : Table) (var : String × String) : Table :=
  match path? var.1 with
  | some (name :: rest) => Value.layerEntry t (name, nest rest (Inline.read var.2))
  | _ => t

theorem lay_of_names {x : Setting} {var : String × String} (h : x.Names var.1) (t : Table) :
    lay t var = Value.layerEntry t (x.place.1, .table [(x.place.2, Inline.read var.2)]) := by
  rw [lay, path?_of_names h]
  rfl

theorem lay_of_none {var : String × String} (h : path? var.1 = none) (t : Table) :
    lay t var = t := by
  rw [lay, h]

theorem Settles.tail {var : String × String} {vars : List (String × String)}
    (h : Settles (var :: vars)) : Settles vars where
  names v hv := h.names v (List.mem_cons_of_mem _ hv)
  once := (List.pairwise_cons.mp h.once).2
  plain v hv := h.plain v (List.mem_cons_of_mem _ hv)

/-- A variable of a setting gives the setting its value and leaves the others as they are. -/
theorem lay_spec {var : String × String} {vars : List (String × String)} (h : Settles (var :: vars))
    {t : Table} (ht : t.Overlay) : (lay t var).Overlay ∧
      ∀ x : Setting, (lay t var).field? x.place =
        if x.Names var.1 then some (Inline.read var.2) else t.field? x.place := by
  rcases h.names var List.mem_cons_self with hnone | ⟨y, hy⟩
  · have hfree : ∀ x : Setting, ¬x.Names var.1 := by
      intro x hx
      exact absurd ((path?_of_names hx).symm.trans hnone) nofun
    rw [lay_of_none hnone]
    exact ⟨ht, fun x => (if_neg (hfree x)).symm⟩
  · have hplain := Inline.entries?_read (h.plain var List.mem_cons_self y hy)
    obtain ⟨hover, hfield⟩ := ht.lay hplain y.place
    rw [lay_of_names hy]
    refine ⟨hover, fun x => (hfield x.place).trans ?_⟩
    have hiff : x.place = y.place ↔ x.Names var.1 := by
      constructor
      · intro hplace
        have hxy : x = y := by cases x <;> cases y <;> first | rfl | exact absurd hplace (by decide)
        rwa [hxy]
      · intro hx
        rw [eq_of_names hx hy]
    simp only [hiff]

theorem foldl_lay {vars : List (String × String)} (h : Settles vars) {t : Table} (ht : t.Overlay) :
    (vars.foldl lay t).Overlay ∧ ∀ x : Setting,
      (∀ var ∈ vars, x.Names var.1 →
        (vars.foldl lay t).field? x.place = some (Inline.read var.2)) ∧
      ((∀ var ∈ vars, ¬x.Names var.1) → (vars.foldl lay t).field? x.place = t.field? x.place) := by
  induction vars generalizing t with
  | nil => exact ⟨ht, fun x => ⟨nofun, fun _ => rfl⟩⟩
  | cons var rest ih =>
      obtain ⟨hfirst, hfield⟩ := lay_spec h ht
      obtain ⟨hlast, hrest⟩ := ih h.tail hfirst
      refine ⟨hlast, fun x => ⟨?_, ?_⟩⟩
      -- No later variable is one of the same setting, so none replaces what this one gives.
      · intro var' hvar' hx
        rcases List.mem_cons.mp hvar' with rfl | hvar'
        · have hothers : ∀ var ∈ rest, ¬x.Names var.1 :=
            fun var hvar => (List.pairwise_cons.mp h.once).1 var hvar x hx
          rw [List.foldl_cons, (hrest x).2 hothers, hfield, if_pos hx]
        · exact (hrest x).1 var' hvar' hx
      · intro hnone
        obtain ⟨hno, hothers⟩ := List.forall_mem_cons.mp hnone
        rw [List.foldl_cons, (hrest x).2 hothers, hfield, if_neg hno]

theorem overlay_table {env : List (String × String)} (h : Settles (lastValues [] env)) :
    (table env).Overlay :=
  (foldl_lay h Table.Overlay.empty).1

theorem field?_table {env : List (String × String)} (h : Settles (lastValues [] env))
    (x : Setting) :
    (∀ var ∈ lastValues [] env, x.Names var.1 →
      (table env).field? x.place = some (Inline.read var.2)) ∧
    ((∀ var ∈ lastValues [] env, ¬x.Names var.1) → (table env).field? x.place = none) :=
  (foldl_lay h Table.Overlay.empty).2 x

end Environment

namespace Setting

/-- What a table gives for a setting. -/
def given (t : Table) (x : Setting) : Option x.Kind := x.accept? (t.field? x.place)

theorem given_of_none {t : Table} {x : Setting} (h : t.lookup x.place.1 = none) :
    given t x = some x.default :=
  congrArg x.accept? (Table.field?_of_none h)

theorem given_of_section {t entries : Table} {x : Setting}
    (h : t.lookup x.place.1 = some (.table entries)) :
    given t x = x.accept? (entries.lookup x.place.2) :=
  congrArg x.accept? (Table.field?_of_section h)

theorem fieldOr_eq (x : Setting) (entries : Table) :
    fieldOr entries x.place.2 x.read? x.default = x.accept? (entries.lookup x.place.2) := by
  unfold fieldOr
  cases entries.lookup x.place.2 <;> rfl

theorem read_logging {t : Table} (h : t.HasSection "logging") :
    fieldOr t "logging" (LoggingSettings.read Value.reading) .default =
      (given t level).bind fun l => (given t format).map fun f => ⟨l, f⟩ := by
  cases hl : t.lookup "logging" with
  | none =>
      rw [given_of_none (x := level) hl, given_of_none (x := format) hl, ← of_default level,
        ← of_default format, fieldOr, hl]
      rfl
  | some v =>
      obtain ⟨entries, rfl⟩ := h v hl
      have hread : LoggingSettings.read Value.reading (.table entries) =
          (fieldOr entries level.place.2 level.read? level.default).bind fun l =>
            (fieldOr entries format.place.2 format.read? format.default).bind fun f =>
              some ⟨l, f⟩ := rfl
      rw [fieldOr, hl]
      dsimp only
      rw [hread, fieldOr_eq level, fieldOr_eq format, ← given_of_section (x := level) hl,
        ← given_of_section (x := format) hl]
      cases given t level <;> cases given t format <;> rfl

theorem read_scheduler {t : Table} (h : t.HasSection "scheduler") :
    fieldOr t "scheduler" (SchedulerSettings.read Value.reading) .default =
      (given t metrics).map fun m => ⟨m⟩ := by
  cases hs : t.lookup "scheduler" with
  | none =>
      rw [given_of_none (x := metrics) hs, ← of_default metrics, fieldOr, hs]
      rfl
  | some v =>
      obtain ⟨entries, rfl⟩ := h v hs
      have hread : SchedulerSettings.read Value.reading (.table entries) =
          (fieldOr entries metrics.place.2 metrics.read? metrics.default).bind fun m =>
            some ⟨m⟩ := rfl
      rw [fieldOr, hs]
      dsimp only
      rw [hread, fieldOr_eq metrics, ← given_of_section (x := metrics) hs]
      cases given t metrics <;> rfl

theorem ofTable?_eq {t : Table} (hl : t.HasSection "logging") (hs : t.HasSection "scheduler") :
    Settings.ofTable? t = (given t level).bind fun l => (given t format).bind fun f =>
      (given t metrics).map fun m => ⟨⟨l, f⟩, ⟨m⟩⟩ := by
  have hread : Settings.ofTable? t =
      (fieldOr t "logging" (LoggingSettings.read Value.reading) .default).bind fun logging =>
        (fieldOr t "scheduler" (SchedulerSettings.read Value.reading) .default).bind
          fun scheduler => some ⟨logging, scheduler⟩ := rfl
  rw [hread, read_logging hl, read_scheduler hs]
  cases given t level <;> cases given t format <;> cases given t metrics <;> rfl

theorem ofTable?_eq_some_iff {t : Table} (hl : t.HasSection "logging")
    (hs : t.HasSection "scheduler") (c : Settings) :
    Settings.ofTable? t = some c ↔ ∀ x, given t x = some (x.of c) := by
  rw [ofTable?_eq hl hs]
  constructor
  · intro h
    obtain ⟨l, hlevel, h⟩ := Option.bind_eq_some_iff.mp h
    obtain ⟨f, hformat, h⟩ := Option.bind_eq_some_iff.mp h
    obtain ⟨m, hmetrics, rfl⟩ := Option.map_eq_some_iff.mp h
    intro x
    cases x with
    | level => exact hlevel
    | format => exact hformat
    | metrics => exact hmetrics
  · intro h
    rw [h level, h format, h metrics]
    rfl

theorem ofTable?_eq_none_iff {t : Table} (hl : t.HasSection "logging")
    (hs : t.HasSection "scheduler") :
    Settings.ofTable? t = none ↔ ∃ x, given t x = none := by
  rw [ofTable?_eq hl hs]
  constructor
  · intro h
    cases hlevel : given t level with
    | none => exact ⟨level, hlevel⟩
    | some l =>
        cases hformat : given t format with
        | none => exact ⟨format, hformat⟩
        | some f =>
            cases hmetrics : given t metrics with
            | none => exact ⟨metrics, hmetrics⟩
            | some m =>
                rw [hlevel, hformat, hmetrics] at h
                exact absurd h nofun
  · rintro ⟨x, hx⟩
    cases x with
    | level => rw [hx]; rfl
    | format => rw [hx]; cases given t level <;> rfl
    | metrics => rw [hx]; cases given t level <;> cases given t format <;> rfl

end Setting

namespace Toml

theorem value?_true (fuel depth : Nat) :
    value? (fuel + 1) depth ['t', 'r', 'u', 'e'] = some (.flag true, []) := by
  rw [value?]

theorem statement?_of_pair {cs rest : List Char} {key : List String} {v : Value}
    (hhead : cs.head? ≠ some '[') (hkey : keyEquals? cs = some (key, rest))
    (hv : value? (2 * rest.length + 2) depthLimit rest = some (v, [])) :
    statement? cs = some (.pair key v, []) := by
  unfold statement?
  split
  · exact absurd rfl hhead
  · exact absurd rfl hhead
  · rw [hkey]
    dsimp only
    rw [hv]
    rfl

theorem parse?_of_pair {text : String} {rest : List Char} {key : List String} {v : Value}
    (hmark : dropMark text.toList = text.toList)
    (hfill : dropFiller? false text.toList = some text.toList)
    (hhead : text.toList.head? ≠ some '[') (hkey : keyEquals? text.toList = some (key, rest))
    (hv : value? (2 * rest.length + 2) depthLimit rest = some (v, [])) :
    parse? text = (build? [] [] [.pair key v]).map Node.toEntries := by
  have hs := statement?_of_pair hhead hkey hv
  have hall : statements? text.toList = some [.pair key v] := by
    cases hcs : text.toList with
    | nil =>
        rw [hcs] at hkey
        exact absurd hkey nofun
    | cons c cs =>
        rw [hcs] at hfill hs
        rw [statements?, statementsFor?, hfill]
        dsimp only
        rw [hs, List.length_cons]
        dsimp only
        rw [statementsFor?]
        rfl
  rw [parse?, hmark, hall, Option.bind_some]

end Toml

namespace Inline

theorem read_of_quoted {line s : String} {rest : List Char} (hline : line.toList = '"' :: rest)
    (hs : string? rest = some (s, [])) : read line = .text s := by
  have hhead : ('"' :: rest).dropWhile Text.isAsciiBlank = '"' :: rest :=
    List.dropWhile_cons_of_neg (by decide)
  unfold read
  dsimp only
  rw [hline, value?, hhead, bare?, hs]
  rfl

end Inline

/-- Surroundings with one file, at the root. -/
def Surroundings.withFile (text : String) (env : List (String × String)) : Surroundings where
  tree := ⟨[[]], [(["c"], text.toUTF8)]⟩
  cwd := []
  home := none
  env := env

theorem Surroundings.content?_withFile (text : String) (env : List (String × String)) :
    (FilePath.fromRoot "c").content? (withFile text env) = some text.toUTF8 := by
  have hc : FileTree.components "c" = ["c"] := by
    rw [FileTree.components, String.splitOn, if_neg (by decide), String.splitOnAux,
      if_neg (by decide), if_neg (by decide), String.splitOnAux, if_pos (by decide)]
    decide
  show (withFile text env).tree.file? [] "c" = _
  rw [FileTree.file?, if_pos (by decide), hc]
  rfl

namespace Settings

open Setting

variable {s : Surroundings} {path : Option FilePath} {file : Table}

theorem fileTable_of_holds (h : Holds s path file) :
    fileTable ((path.getD (defaultFile s)).content? s) = .ok file := by
  cases h with
  | missing hnone => rw [hnone, fileTable]
  | valid hbytes htext hwritten hheld =>
      rw [hbytes, fileTable, htext]
      simp only [hwritten, Option.bind_some, hheld]

theorem Holds.of_open {s : Surroundings} {path : Option FilePath} {text : String} {written : Table}
    (hfile : (path.getD (defaultFile s)).content? s = some text.toUTF8)
    (hwritten : Toml.parse? text = some written) (hopen : Value.entriesOpen written = true) :
    Holds s path written :=
  .valid hfile (Text.fromUTF8?_toUTF8 text) hwritten (Value.heldEntries?_of_open hopen)

theorem holds_or_error (s : Surroundings) (path : Option FilePath) :
    (∃ file, Holds s path file) ∨ ∃ reason,
      fileTable ((path.getD (defaultFile s)).content? s) = .error (.config reason) := by
  cases hbytes : (path.getD (defaultFile s)).content? s with
  | none => exact .inl ⟨[], .missing hbytes⟩
  | some bytes =>
      unfold fileTable
      cases htext : String.fromUTF8? bytes with
      | none => exact .inr ⟨_, by simp only [htext]; rfl⟩
      | some text =>
          cases hheld : (Toml.parse? text).bind Value.heldEntries? with
          | none => exact .inr ⟨_, by simp only [htext, hheld]; rfl⟩
          | some file =>
              obtain ⟨written, hwritten, hfile⟩ := Option.bind_eq_some_iff.mp hheld
              exact .inl ⟨file, .valid hbytes htext hwritten hfile⟩

theorem layered_eq_ok_iff (file : Table) (env : List (String × String)) (c : Settings) :
    layered file env = .ok c ↔
      ofTable? (Value.layerEntries file (Environment.table env)) = some c := by
  unfold layered
  cases ofTable? (Value.layerEntries file (Environment.table env)) <;> simp

theorem layered_eq_error_iff (file : Table) (env : List (String × String)) :
    (∃ reason, layered file env = .error (.config reason)) ↔
      ofTable? (Value.layerEntries file (Environment.table env)) = none := by
  unfold layered
  cases ofTable? (Value.layerEntries file (Environment.table env)) <;> simp

theorem field?_of_chooses {x : Setting} {v : Option Value} (hfile : file.HasSection x.place.1)
    {env : List (String × String)} (henv : Environment.Settles (Environment.lastValues [] env))
    (h : Chooses file (Environment.lastValues [] env) x v) :
    Table.field? (Value.layerEntries file (Environment.table env)) x.place = v := by
  obtain ⟨hvariable, hnone⟩ := Environment.field?_table henv x
  rw [Table.field?_layerEntries hfile (Environment.overlay_table henv)]
  cases h with
  | fromVariable hvar hx => rw [hvariable _ hvar hx, Option.some_or]
  | fromFile hfree => rw [hnone hfree, Option.none_or]

theorem exists_chooses (file : Table) (vars : List (String × String)) (x : Setting) :
    ∃ v, Chooses file vars x v := by
  by_cases h : ∃ var ∈ vars, x.Names var.1
  · obtain ⟨var, hvar, hx⟩ := h
    exact ⟨_, .fromVariable hvar hx⟩
  · exact ⟨_, .fromFile fun var hvar hx => h ⟨var, hvar, hx⟩⟩

/-- Loading settings. Let the file be missing or hold a table in which `logging` and `scheduler`, if
they are there, are tables, and let the variables be those of some of the settings, in any letter
case, with values that are no tables. Then each setting is taken from its variable if there is one,
else from the file if it has one, else it is the default, and loading fails if and only if one of
the values taken is none that its setting accepts. A file that holds no table always makes it fail.
-/
theorem load_layers (s : Surroundings) (path : Option FilePath) :
    (∀ file, Holds s path file → file.HasSection "logging" → file.HasSection "scheduler" →
      Environment.Settles (Environment.lastValues [] s.env) →
      (∀ c, load s path = .ok c ↔ ∀ x : Setting, ∃ v,
        Chooses file (Environment.lastValues [] s.env) x v ∧ x.accept? v = some (x.of c)) ∧
      ((∃ reason, load s path = .error (.config reason)) ↔ ∃ x : Setting, ∃ v,
        Chooses file (Environment.lastValues [] s.env) x (some v) ∧ x.read? v = none)) ∧
    ((∀ file, ¬Holds s path file) → ∃ reason, load s path = .error (.config reason)) := by
  refine ⟨?_, ?_⟩
  · intro file hfile hlogging hscheduler henv
    have hsection : ∀ x : Setting, file.HasSection x.place.1 := by
      intro x
      cases x with
      | level => exact hlogging
      | format => exact hlogging
      | metrics => exact hscheduler
    -- The sections of the file stay tables, so what is chosen for a setting is what is read there.
    have hover := Environment.overlay_table henv
    have hl := Table.hasSection_layerEntries hlogging hover
    have hs := Table.hasSection_layerEntries hscheduler hover
    have hgiven : ∀ x v, Chooses file (Environment.lastValues [] s.env) x v →
        given (Value.layerEntries file (Environment.table s.env)) x = x.accept? v :=
      fun x v hv => congrArg x.accept? (field?_of_chooses (hsection x) henv hv)
    have hload : load s path = layered file s.env := by
      rw [load, fileTable_of_holds hfile]
      rfl
    rw [hload]
    constructor
    · intro c
      rw [layered_eq_ok_iff, ofTable?_eq_some_iff hl hs]
      apply forall_congr'
      intro x
      constructor
      · intro h
        obtain ⟨v, hv⟩ := exists_chooses file (Environment.lastValues [] s.env) x
        exact ⟨v, hv, (hgiven x v hv).symm.trans h⟩
      · rintro ⟨v, hv, h⟩
        exact (hgiven x v hv).trans h
    · rw [layered_eq_error_iff, ofTable?_eq_none_iff hl hs]
      apply exists_congr
      intro x
      constructor
      · intro h
        obtain ⟨v, hv⟩ := exists_chooses file (Environment.lastValues [] s.env) x
        rw [hgiven x v hv] at h
        cases v with
        | none => exact absurd h nofun
        | some v => exact ⟨v, hv, h⟩
      · rintro ⟨v, hv, h⟩
        exact (hgiven x _ hv).trans h
  · intro hnone
    rcases holds_or_error s path with ⟨file, hfile⟩ | ⟨reason, hreason⟩
    · exact absurd hfile (hnone file)
    · refine ⟨reason, ?_⟩
      rw [load, hreason]
      rfl

theorem loaded_of_overridden :
    ∃ (s : Surroundings) (path : Option FilePath) (file : Table), Holds s path file ∧
      file.HasSection "logging" ∧ file.HasSection "scheduler" ∧
      Environment.Settles (Environment.lastValues [] s.env) ∧
      file.field? level.place = some (.flag true) ∧ level.read? (.flag true) = none ∧
      load s path = .ok { logging := { level := "debug" } } := by
  let vars := [("chaind_Logging__LEVEL", "\"debug\"")]
  let s := Surroundings.withFile "logging.level=true" vars
  let file : Table := [("logging", .table [("level", .flag true)])]
  have hkey : Toml.keyEquals? "logging.level=true".toList =
      some (["logging", "level"], ['t', 'r', 'u', 'e']) := by rfl
  have hparse : Toml.parse? "logging.level=true" = some file :=
    Toml.parse?_of_pair rfl rfl (by decide) hkey (Toml.value?_true _ _)
  have hfile : Holds s (some (.fromRoot "c")) file :=
    .of_open (Surroundings.content?_withFile _ _) hparse rfl
  have hlogging : file.HasSection "logging" := by
    intro v hv
    exact ⟨_, (Option.some_inj.mp hv).symm⟩
  have hscheduler : file.HasSection "scheduler" := nofun
  have hnames : level.Names "chaind_Logging__LEVEL" := by decide
  have hread : Inline.read "\"debug\"" = .text "debug" := by
    apply Inline.read_of_quoted
    · rfl
    · rfl
  have henv : Environment.Settles vars :=
    { names := by simpa [vars] using .inr ⟨level, hnames⟩
      once := List.pairwise_singleton _ _
      plain := by
        intro var hvar x _ entries
        rw [List.mem_singleton.mp hvar, hread]
        exact nofun }
  have hok := (((load_layers s (some (.fromRoot "c"))).1 file hfile hlogging hscheduler henv).1
    { logging := { level := "debug" } }).mpr
  refine ⟨s, some (.fromRoot "c"), file, hfile, hlogging, hscheduler, henv, rfl, rfl, hok ?_⟩
  intro x
  cases x with
  | level => exact ⟨_, .fromVariable List.mem_cons_self hnames, congrArg level.read? hread⟩
  | format => exact ⟨_, .fromFile (by decide), rfl⟩
  | metrics => exact ⟨_, .fromFile (by decide), rfl⟩

/-- A file that gives no setting a value can still make loading fail: the forbidden name may not
stand in any of its tables. -/
theorem not_loaded_of_forbidden :
    ∃ (s : Surroundings) (path : Option FilePath) (text : String) (written : Table),
      (path.getD (defaultFile s)).content? s = some text.toUTF8 ∧
      Toml.parse? text = some written ∧
      written.HasSection "logging" ∧ written.HasSection "scheduler" ∧ s.env = [] ∧
      (∀ x : Setting, written.field? x.place = none) ∧
      ∃ reason, load s path = .error (.config reason) := by
  let s := Surroundings.withFile "x.___figment_value_id=true" []
  let written : Table := [("x", .table [(Value.forbiddenName, .flag true)])]
  have hcontent := Surroundings.content?_withFile "x.___figment_value_id=true" []
  have hkey : Toml.keyEquals? "x.___figment_value_id=true".toList =
      some (["x", Value.forbiddenName], ['t', 'r', 'u', 'e']) := by rfl
  have hparse : Toml.parse? "x.___figment_value_id=true" = some written :=
    Toml.parse?_of_pair rfl rfl (by decide) hkey (Toml.value?_true _ _)
  have hheld : Value.heldEntries? written = none := by rfl
  refine ⟨s, some (.fromRoot "c"), _, written, hcontent, hparse, nofun, nofun, rfl, ?_, ?_⟩
  · intro x
    cases x <;> rfl
  · have htable : fileTable (some "x.___figment_value_id=true".toUTF8) =
        .error (.config "the file is not valid TOML") := by
      rw [fileTable, Text.fromUTF8?_toUTF8]
      simp only [hparse, Option.bind_some, hheld]
    refine ⟨"the file is not valid TOML", ?_⟩
    rw [load, Option.getD_some, hcontent, htable]
    rfl

end Settings

end JobScheduler
