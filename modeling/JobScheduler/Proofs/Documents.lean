import JobScheduler.Proofs.Layering
import JobScheduler.Settings.Json

/-!
Settings in documents. The shape of a document alone says whether it holds settings and which: its
sections are structures, and each setting is what stands in its field, or the default. Settings
written as a document are read back as they were (`Settings.document_grammar`).
-/

namespace JobScheduler

/-- A section of the settings. -/
inductive Section where
  | logging
  | scheduler
deriving DecidableEq, Repr

namespace Section

def name : Section → String
  | logging => "logging"
  | scheduler => "scheduler"

/-- The names of all sections, in order. -/
def names : List String := [logging.name, scheduler.name]

/-- The names of the settings of a section, in order. -/
def fields : Section → List String
  | logging => ["level", "format"]
  | scheduler => ["metrics"]

/-- The settings of a section. -/
def Kind : Section → Type
  | logging => LoggingSettings
  | scheduler => SchedulerSettings

/-- A section among all settings. -/
def of : (x : Section) → Settings → x.Kind
  | logging => Settings.logging
  | scheduler => Settings.scheduler

/-- What a section is in settings without it. -/
protected def default : (x : Section) → x.Kind
  | logging => LoggingSettings.default
  | scheduler => SchedulerSettings.default

theorem of_default (x : Section) : x.of .default = x.default := by
  cases x <;> rfl

def readBy {δ : Type} (r : Reading δ) : (x : Section) → δ → Option x.Kind
  | logging => LoggingSettings.read r
  | scheduler => SchedulerSettings.read r

end Section

namespace Setting

def inSection : Setting → Section
  | level => .logging
  | format => .logging
  | metrics => .scheduler

def readBy {δ : Type} (r : Reading δ) : (x : Setting) → δ → Option x.Kind
  | level => r.text?
  | format => r.format?
  | metrics => r.flag?

end Setting

namespace Json

/-- Whether a document is a structure: an object, which may have other fields too, or an array of
no more values than there are names of fields. -/
inductive IsStructure (names : List String) : Json → Prop where
  | object (fields : List (String × Json)) : IsStructure names (.object fields)
  | list {items : List Json} : items.length ≤ names.length → IsStructure names (.list items)

/-- What stands in a field of a structure: under its name, or in the position of its name. -/
def field? (names : List String) (name : String) : Json → Option Json
  | object fields => fields.lookup name
  | list items => items[names.idxOf name]?
  | _ => none

def section? (v : Json) (x : Section) : Option Json := v.field? Section.names x.name

def setting? (v : Json) (x : Setting) : Option Json :=
  (v.section? x.inSection).bind (field? x.inSection.fields x.place.2)

/-- Whether a document is a format: the name of it, or an object with that name alone and nothing
in it. -/
inductive IsFormat (f : LogFormat) : Json → Prop where
  | name : IsFormat f (.text f.name)
  | object : IsFormat f (.object [(f.name, .null)])

end Json

namespace Setting

/-- Whether a choice of a setting is written as a document. -/
def WrittenAs : (x : Setting) → x.Kind → Json → Prop
  | level => fun s d => d = .text s
  | format => fun f d => d.IsFormat f
  | metrics => fun b d => d = .flag b

/-- Whether a choice is the one that stands in the field of a setting, or the default where nothing
stands there. -/
def Takes (x : Setting) (a : x.Kind) : Option Json → Prop
  | some d => x.WrittenAs a d
  | none => a = x.default

end Setting

/-- Whether a document is one of settings. -/
structure Json.IsSettings (v : Json) : Prop where
  isStructure : v.IsStructure Section.names
  sections : ∀ x w, v.section? x = some w → w.IsStructure x.fields
  settings : ∀ x d, v.setting? x = some d → ∃ a, Setting.WrittenAs x a d

theorem fieldOr_replace {δ α : Type} {name n : String} {d d' : δ} {read : δ → Option α}
    (h : n = name → read d = read d') (before after : List (String × δ)) (default : α) :
    fieldOr (before ++ (n, d) :: after) name read default =
      fieldOr (before ++ (n, d') :: after) name read default := by
  unfold fieldOr
  rw [List.lookup_append, List.lookup_append, List.lookup_cons, List.lookup_cons]
  cases before.lookup name with
  | some _ => rfl
  | none =>
      by_cases hn : name = n
      · rw [beq_iff_eq.mpr hn]
        exact h hn.symm
      · rw [beq_eq_false_iff_ne.mpr hn]

section Reading

variable {δ : Type} {r : Reading δ}

namespace Section

theorem eq_of_name {x y : Section} (h : x.name = y.name) : x = y := by
  cases x <;> cases y <;> first | rfl | exact absurd h (by decide)

theorem of_eq_default_iff (x : Section) (c : Settings) :
    x.of c = x.default ↔ ∀ y : Setting, y.inSection = x → y.of c = y.default := by
  rw [← x.of_default]
  simp only [← Setting.of_default]
  constructor
  · rintro h y rfl
    cases y with
    | level => exact congrArg LoggingSettings.level h
    | format => exact congrArg LoggingSettings.format h
    | metrics => exact congrArg SchedulerSettings.metrics h
  · intro h
    cases x with
    | logging =>
        have hlevel : c.logging.level = LoggingSettings.default.level := h .level rfl
        have hformat : c.logging.format = LoggingSettings.default.format := h .format rfl
        show LoggingSettings.mk c.logging.level c.logging.format = _
        rw [hlevel, hformat]
        rfl
    | scheduler =>
        have hmetrics : c.scheduler.metrics = SchedulerSettings.default.metrics := h .metrics rfl
        exact congrArg SchedulerSettings.mk hmetrics

theorem readBy_congr {x : Section} {w w' : δ} (h : r.fields? x.fields w = r.fields? x.fields w') :
    x.readBy r w = x.readBy r w' := by
  cases x with
  | logging => exact congrArg (Option.bind · _) h
  | scheduler => exact congrArg (Option.bind · _) h

theorem readBy_of_none {x : Section} {w : δ} (h : r.fields? x.fields w = none) :
    x.readBy r w = none := by
  cases x with
  | logging => exact congrArg (Option.bind · _) h
  | scheduler => exact congrArg (Option.bind · _) h

theorem readBy_of_fields? {x : Section} {w : δ} {fields : List (String × δ)}
    (h : r.fields? x.fields w = some fields) (c : Settings) :
    x.readBy r w = some (x.of c) ↔ ∀ y : Setting, y.inSection = x →
      fieldOr fields y.place.2 (y.readBy r) y.default = some (y.of c) := by
  cases x with
  | logging =>
      have hread : LoggingSettings.read r w =
          (fieldOr fields "level" r.text? defaultLevel).bind fun l =>
            (fieldOr fields "format" r.format? .default).bind fun f =>
              some ⟨l, f⟩ := congrArg (Option.bind · _) h
      show LoggingSettings.read r w = some c.logging ↔ _
      rw [hread]
      constructor
      · intro hc y hy
        obtain ⟨l, hlevel, hc⟩ := Option.bind_eq_some_iff.mp hc
        obtain ⟨f, hformat, hc⟩ := Option.bind_eq_some_iff.mp hc
        have hlogging : ⟨l, f⟩ = c.logging := Option.some_inj.mp hc
        cases y with
        | level => exact hlevel.trans (congrArg (some ∘ LoggingSettings.level) hlogging)
        | format => exact hformat.trans (congrArg (some ∘ LoggingSettings.format) hlogging)
        | metrics => exact absurd hy nofun
      · intro hc
        have hlevel : fieldOr fields "level" r.text? defaultLevel =
            some c.logging.level := hc .level rfl
        have hformat : fieldOr fields "format" r.format? .default =
            some c.logging.format := hc .format rfl
        rw [hlevel, hformat]
        rfl
  | scheduler =>
      have hread : SchedulerSettings.read r w =
          (fieldOr fields "metrics" r.flag? metricsByDefault).bind fun m =>
            some ⟨m⟩ := congrArg (Option.bind · _) h
      show SchedulerSettings.read r w = some c.scheduler ↔ _
      rw [hread]
      constructor
      · intro hc y hy
        obtain ⟨m, hmetrics, hc⟩ := Option.bind_eq_some_iff.mp hc
        have hscheduler : ⟨m⟩ = c.scheduler := Option.some_inj.mp hc
        cases y with
        | metrics => exact hmetrics.trans (congrArg (some ∘ SchedulerSettings.metrics) hscheduler)
        | _ => exact absurd hy nofun
      · intro hc
        have hmetrics : fieldOr fields "metrics" r.flag? metricsByDefault =
            some c.scheduler.metrics := hc .metrics rfl
        rw [hmetrics]
        rfl

end Section

namespace Settings

theorem read_congr {v v' : δ} (h : r.fields? Section.names v = r.fields? Section.names v') :
    read r v = read r v' :=
  congrArg (Option.bind · _) h

theorem read_of_none {v : δ} (h : r.fields? Section.names v = none) : read r v = none :=
  congrArg (Option.bind · _) h

theorem read_of_fields? {v : δ} {fields : List (String × δ)}
    (h : r.fields? Section.names v = some fields) (c : Settings) :
    read r v = some c ↔
      ∀ x : Section, fieldOr fields x.name (x.readBy r) x.default = some (x.of c) := by
  have hread : read r v =
      (fieldOr fields "logging" (LoggingSettings.read r) .default).bind fun l =>
        (fieldOr fields "scheduler" (SchedulerSettings.read r) .default).bind fun s =>
          some ⟨l, s⟩ := congrArg (Option.bind · _) h
  rw [hread]
  constructor
  · intro hc x
    obtain ⟨l, hlogging, hc⟩ := Option.bind_eq_some_iff.mp hc
    obtain ⟨s, hscheduler, hc⟩ := Option.bind_eq_some_iff.mp hc
    rw [← Option.some_inj.mp hc]
    cases x with
    | logging => exact hlogging
    | scheduler => exact hscheduler
  · intro hc
    have hlogging : fieldOr fields "logging" (LoggingSettings.read r) .default = some c.logging :=
      hc .logging
    have hscheduler : fieldOr fields "scheduler" (SchedulerSettings.read r) .default =
        some c.scheduler := hc .scheduler
    rw [hlogging, hscheduler]
    rfl

end Settings

end Reading

theorem lookup_zip {δ : Type} {names : List String} {items : List δ}
    (h : items.length ≤ names.length) (name : String) :
    (names.zip items).lookup name = items[names.idxOf name]? := by
  induction names generalizing items with
  | nil =>
      rw [List.eq_nil_of_length_eq_zero (Nat.le_zero.mp h)]
      rfl
  | cons n rest ih =>
      cases items with
      | nil => rfl
      | cons d items =>
          rw [List.zip_cons_cons, List.lookup_cons]
          by_cases hn : name = n
          · rw [hn, beq_self_eq_true, List.idxOf_cons_self]
            rfl
          · have hidx : (n :: rest).idxOf name = rest.idxOf name + 1 := by
              rw [List.idxOf_cons, beq_eq_false_iff_ne.mpr (Ne.symm hn), cond_false]
            rw [beq_eq_false_iff_ne.mpr hn, hidx, List.getElem?_cons_succ]
            exact ih (Nat.le_of_succ_le_succ h)

namespace Json

theorem fields?_list {names : List String} {items : List Json}
    (h : items.length ≤ names.length) :
    fields? names (.list items) = fields? names (.object (names.zip items)) :=
  if_pos h

theorem isStructure_of_fields? {names : List String} {v : Json} {fields : List (String × Json)}
    (h : fields? names v = some fields) : v.IsStructure names := by
  cases v with
  | object fields => exact .object fields
  | list items =>
      by_cases hitems : items.length ≤ names.length
      · exact .list hitems
      · exact absurd ((if_neg hitems).symm.trans h) nofun
  | _ => exact absurd h nofun

theorem isStructure_iff (names : List String) (v : Json) :
    v.IsStructure names ↔ ∃ fields, fields? names v = some fields := by
  constructor
  · rintro (fields | hitems)
    · exact ⟨fields, rfl⟩
    · exact ⟨_, fields?_list hitems⟩
  · rintro ⟨fields, h⟩
    exact isStructure_of_fields? h

theorem lookup_of_fields? {names : List String} {v : Json} {fields : List (String × Json)}
    (h : fields? names v = some fields) (name : String) :
    fields.lookup name = v.field? names name := by
  rcases isStructure_of_fields? h with _ | hitems
  · rw [← Option.some_inj.mp h]
    rfl
  · rw [fields?_list hitems] at h
    rw [← Option.some_inj.mp h]
    exact lookup_zip hitems name

end Json

theorem LogFormat.ofName?_eq_some_iff (s : String) (f : LogFormat) :
    ofName? s = some f ↔ s = f.name := by
  constructor
  · intro h
    have hname := List.find?_some h
    exact (of_decide_eq_true hname).symm
  · rintro rfl
    cases f <;> rfl

theorem Json.format?_eq_some_iff (d : Json) (f : LogFormat) :
    d.format? = some f ↔ d.IsFormat f := by
  constructor
  · intro h
    unfold format? at h
    split at h
    · rw [(LogFormat.ofName?_eq_some_iff _ f).mp h]
      exact .name
    · rw [(LogFormat.ofName?_eq_some_iff _ f).mp h]
      exact .object
    · exact absurd h nofun
  · rintro (_ | _) <;> exact (LogFormat.ofName?_eq_some_iff _ f).mpr rfl

namespace Setting

theorem readBy_eq_some_iff (x : Setting) (d : Json) (a : x.Kind) :
    x.readBy Json.reading d = some a ↔ x.WrittenAs a d := by
  cases x with
  | level =>
      cases d with
      | text s =>
          constructor
          · intro h
            exact congrArg Json.text (Option.some_inj.mp h)
          · intro h
            exact congrArg some (Json.text.inj h)
      | _ => exact ⟨nofun, nofun⟩
  | format => exact Json.format?_eq_some_iff d a
  | metrics =>
      cases d with
      | flag b =>
          constructor
          · intro h
            exact congrArg Json.flag (Option.some_inj.mp h)
          · intro h
            exact congrArg some (Json.flag.inj h)
      | _ => exact ⟨nofun, nofun⟩

theorem fieldOr_eq_some_iff {names : List String} {w : Json} {fields : List (String × Json)}
    (h : Json.fields? names w = some fields) (x : Setting) (a : x.Kind) :
    fieldOr fields x.place.2 (x.readBy Json.reading) x.default = some a ↔
      x.Takes a (w.field? names x.place.2) := by
  unfold fieldOr
  rw [Json.lookup_of_fields? h]
  cases w.field? names x.place.2 with
  | none => exact Option.some_inj.trans eq_comm
  | some d => exact readBy_eq_some_iff x d a

end Setting

namespace Section

theorem readBy_eq_some_iff (x : Section) (w : Json) (c : Settings) :
    x.readBy Json.reading w = some (x.of c) ↔ w.IsStructure x.fields ∧
      ∀ y : Setting, y.inSection = x → y.Takes (y.of c) (w.field? x.fields y.place.2) := by
  rw [Json.isStructure_iff]
  cases hfields : Json.fields? x.fields w with
  | none =>
      rw [readBy_of_none hfields]
      apply iff_of_false nofun
      rintro ⟨⟨_, h⟩, -⟩
      exact absurd h nofun
  | some fields =>
      rw [readBy_of_fields? hfields]
      constructor
      · intro h
        refine ⟨⟨fields, rfl⟩, ?_⟩
        intro y hy
        exact (Setting.fieldOr_eq_some_iff hfields y _).mp (h y hy)
      · rintro ⟨-, h⟩ y hy
        exact (Setting.fieldOr_eq_some_iff hfields y _).mpr (h y hy)

theorem fieldOr_eq_some_iff {v : Json} {fields : List (String × Json)}
    (h : Json.fields? names v = some fields) (x : Section) (c : Settings) :
    fieldOr fields x.name (x.readBy Json.reading) x.default = some (x.of c) ↔
      (∀ w, v.section? x = some w → w.IsStructure x.fields) ∧
      ∀ y : Setting, y.inSection = x → y.Takes (y.of c) (v.setting? y) := by
  have hsetting : ∀ y : Setting, y.inSection = x →
      v.setting? y = (v.section? x).bind (Json.field? x.fields y.place.2) := by
    rintro y rfl
    rfl
  have hlookup : fields.lookup x.name = v.section? x := Json.lookup_of_fields? h x.name
  unfold fieldOr
  rw [hlookup]
  cases hw : v.section? x with
  | none =>
      have hnone : ∀ y : Setting, y.inSection = x → v.setting? y = none := by
        intro y hy
        rw [hsetting y hy, hw]
        rfl
      dsimp only
      rw [Option.some_inj, eq_comm, of_eq_default_iff]
      constructor
      · intro h
        refine ⟨nofun, ?_⟩
        intro y hy
        rw [hnone y hy]
        exact h y hy
      · rintro ⟨-, h⟩ y hy
        have htakes := h y hy
        rwa [hnone y hy] at htakes
  | some w =>
      have hsome : ∀ y : Setting, y.inSection = x →
          v.setting? y = w.field? x.fields y.place.2 := by
        intro y hy
        rw [hsetting y hy, hw]
        rfl
      dsimp only
      rw [readBy_eq_some_iff]
      constructor
      · rintro ⟨hstructure, h⟩
        refine ⟨?_, ?_⟩
        · rintro _ ⟨⟩
          exact hstructure
        · intro y hy
          rw [hsome y hy]
          exact h y hy
      · rintro ⟨hstructure, h⟩
        refine ⟨hstructure w rfl, ?_⟩
        intro y hy
        rw [← hsome y hy]
        exact h y hy

end Section

namespace Settings

/-- The settings in a document are what stands in their fields, or the defaults. -/
theorem ofJson?_eq_some_iff (v : Json) (c : Settings) :
    ofJson? v = some c ↔ v.IsSettings ∧ ∀ x : Setting, x.Takes (x.of c) (v.setting? x) := by
  constructor
  · intro h
    cases hfields : Json.fields? Section.names v with
    | none => exact absurd ((read_of_none hfields).symm.trans h) nofun
    | some fields =>
        have hread := (read_of_fields? hfields c).mp h
        have hsections := fun x => (Section.fieldOr_eq_some_iff hfields x c).mp (hread x)
        have htakes : ∀ x : Setting, x.Takes (x.of c) (v.setting? x) :=
          fun x => (hsections x.inSection).2 x rfl
        have hstructure := (Json.isStructure_iff Section.names v).mpr ⟨_, hfields⟩
        refine ⟨⟨hstructure, fun x => (hsections x).1, ?_⟩, htakes⟩
        intro x d hd
        have hx := htakes x
        rw [hd] at hx
        exact ⟨_, hx⟩
  · rintro ⟨hv, htakes⟩
    obtain ⟨fields, hfields⟩ := (Json.isStructure_iff _ v).mp hv.isStructure
    apply (read_of_fields? hfields c).mpr
    intro x
    apply (Section.fieldOr_eq_some_iff hfields x c).mpr
    exact ⟨hv.sections x, fun y _ => htakes y⟩

theorem exists_ofJson?_iff (v : Json) : (∃ c, ofJson? v = some c) ↔ v.IsSettings := by
  constructor
  · rintro ⟨c, h⟩
    exact ((ofJson?_eq_some_iff v c).mp h).1
  · intro hv
    have hchoice : ∀ x : Setting, ∃ a, x.Takes a (v.setting? x) := by
      intro x
      cases hd : v.setting? x with
      | none => exact ⟨x.default, rfl⟩
      | some d => exact hv.settings x d hd
    obtain ⟨level, hlevel⟩ := hchoice .level
    obtain ⟨format, hformat⟩ := hchoice .format
    obtain ⟨metrics, hmetrics⟩ := hchoice .metrics
    refine ⟨⟨⟨level, format⟩, ⟨metrics⟩⟩, (ofJson?_eq_some_iff v _).mpr ⟨hv, ?_⟩⟩
    intro x
    cases x with
    | level => exact hlevel
    | format => exact hformat
    | metrics => exact hmetrics

theorem of_eq_default {v : Json} {c : Settings} (h : ofJson? v = some c) {x : Section}
    (hx : v.section? x = none) : x.of c = x.default := by
  obtain ⟨-, htakes⟩ := (ofJson?_eq_some_iff v c).mp h
  apply (Section.of_eq_default_iff x c).mpr
  rintro y rfl
  have hnone : v.setting? y = none := by
    rw [Json.setting?, hx]
    rfl
  have hy := htakes y
  rwa [hnone] at hy

theorem not_isSettings_of_null {v : Json}
    (h : v = .null ∨ (∃ x, v.section? x = some .null) ∨ ∃ x, v.setting? x = some .null) :
    ¬v.IsSettings := by
  intro hv
  rcases h with rfl | ⟨x, hx⟩ | ⟨x, hx⟩
  · exact absurd hv.isStructure nofun
  · exact absurd (hv.sections x _ hx) nofun
  · obtain ⟨a, ha⟩ := hv.settings x _ hx
    cases x <;> exact absurd ha nofun

theorem ofJson?_replace {x : Section} {w w' : Json}
    (h : x.readBy Json.reading w = x.readBy Json.reading w') (before after : List (String × Json)) :
    ofJson? (.object (before ++ (x.name, w) :: after)) =
      ofJson? (.object (before ++ (x.name, w') :: after)) := by
  apply Option.ext
  intro c
  rw [ofJson?, read_of_fields? rfl, ofJson?, read_of_fields? rfl]
  apply forall_congr'
  intro y
  have hread : x.name = y.name → y.readBy Json.reading w = y.readBy Json.reading w' := by
    intro hname
    rwa [← Section.eq_of_name hname]
  rw [fieldOr_replace hread]

theorem ofJson?_toJson (c : Settings) : ofJson? c.toJson = some c := by
  obtain ⟨⟨level, format⟩, ⟨metrics⟩⟩ := c
  cases format <;> rfl

/-- Settings in documents. A document holds settings if and only if it is a structure with sections
that are structures and settings that are choices of them. Then each setting is the choice that
stands in its field, or the default where nothing does, and a section that is missing has the
defaults. Null holds no settings, in whatever place. An array is read as the object of its values
under the names of the fields, and likewise in place of a section. Settings are read back from their
document, so writing them and reading them again changes nothing. -/
theorem document_grammar (v : Json) :
    ((∃ c, ofJson? v = some c) ↔ v.IsSettings) ∧
    (∀ c, ofJson? v = some c → (∀ x : Setting, x.Takes (x.of c) (v.setting? x)) ∧
      ∀ x : Section, v.section? x = none → x.of c = x.default) ∧
    (v = .null ∨ (∃ x, v.section? x = some .null) ∨ (∃ x, v.setting? x = some .null) →
      ofJson? v = none) ∧
    (∀ items : List Json, items.length ≤ Section.names.length →
      ofJson? (.list items) = ofJson? (.object (Section.names.zip items))) ∧
    (∀ (x : Section) (items : List Json) (before after : List (String × Json)),
      items.length ≤ x.fields.length →
      ofJson? (.object (before ++ (x.name, .list items) :: after)) =
        ofJson? (.object (before ++ (x.name, .object (x.fields.zip items)) :: after))) ∧
    (∀ c, ofJson? (toJson c) = some c) ∧
    (ofJson? v).bind (fun c => ofJson? c.toJson) = ofJson? v := by
  refine ⟨exists_ofJson?_iff v, ?_, ?_, ?_, ?_, ofJson?_toJson, ?_⟩
  · intro c h
    exact ⟨((ofJson?_eq_some_iff v c).mp h).2, fun _ => of_eq_default h⟩
  · intro hnull
    apply Option.eq_none_iff_forall_ne_some.mpr
    intro c h
    exact not_isSettings_of_null hnull ((exists_ofJson?_iff v).mp ⟨c, h⟩)
  · intro items hitems
    exact read_congr (Json.fields?_list hitems)
  · intro x items before after hitems
    have hread : x.readBy Json.reading (.list items) =
        x.readBy Json.reading (.object (x.fields.zip items)) :=
      Section.readBy_congr (Json.fields?_list hitems)
    exact ofJson?_replace hread before after
  · cases hread : ofJson? v with
    | none => rfl
    | some c => exact ofJson?_toJson c

/-- An array in an array is a document of settings, and null in its place is none. -/
theorem settings_of_array :
    ∃ (v : Json) (c : Settings), v = .list [.list [.text "x"]] ∧ v.IsSettings ∧
      v.section? .scheduler = none ∧ ofJson? v = some c ∧ c.logging.level = "x" ∧
      c.logging.format = .pretty ∧ c.scheduler = .default ∧
      ofJson? v = ofJson? (.object [("logging", .object [("level", .text "x")])]) ∧
      (Json.list [.null]).section? .logging = some .null ∧ ofJson? (.list [.null]) = none := by
  let v : Json := .list [.list [.text "x"]]
  have hlogging : v.section? .logging = some (.list [.text "x"]) := rfl
  have hscheduler : v.section? .scheduler = none := rfl
  have hlevel : v.setting? .level = some (.text "x") := rfl
  have hformat : v.setting? .format = none := rfl
  have hmetrics : v.setting? .metrics = none := rfl
  have hv : v.IsSettings := by
    refine ⟨.list (by decide), ?_, ?_⟩
    · intro x w hw
      cases x with
      | logging =>
          rw [← Option.some_inj.mp (hlogging.symm.trans hw)]
          exact .list (by decide)
      | scheduler => exact absurd (hscheduler.symm.trans hw) nofun
    · intro x d hd
      cases x with
      | level => exact ⟨"x", (Option.some_inj.mp (hlevel.symm.trans hd)).symm⟩
      | format => exact absurd (hformat.symm.trans hd) nofun
      | metrics => exact absurd (hmetrics.symm.trans hd) nofun
  obtain ⟨haccepts, htakes, -, harray, hnested, -⟩ := document_grammar v
  obtain ⟨c, hc⟩ := haccepts.mpr hv
  obtain ⟨hsettings, hsections⟩ := htakes c hc
  have htext : Setting.level.Takes c.logging.level (v.setting? .level) := hsettings .level
  rw [hlevel] at htext
  have hpretty : Setting.format.Takes c.logging.format (v.setting? .format) := hsettings .format
  rw [hformat] at hpretty
  have hobject := (harray [.list [.text "x"]] (by decide)).trans
    (hnested .logging [.text "x"] [] [] (by decide))
  have hnull : (Json.list [.null]).section? .logging = some .null := rfl
  have hnone := (document_grammar (.list [.null])).2.2.1 (.inr (.inl ⟨.logging, hnull⟩))
  exact ⟨v, c, rfl, hv, hscheduler, hc, (Json.text.inj htext).symm, hpretty,
    hsections .scheduler hscheduler, hobject, hnull, hnone⟩

end Settings

end JobScheduler
