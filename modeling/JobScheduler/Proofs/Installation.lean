import JobScheduler.Error
import JobScheduler.LogOutput
import Mathlib.Data.List.Induction

/-!
Log output set up more than once in a process. The first call that has a filter installs it and
succeeds, every other call fails and changes nothing, and the event that tells of the installation
is written at most once (`Process.installed_once`).
-/

namespace JobScheduler.LogOutput

/-- A process that sets up log output: what is installed, what each call answered, and the layouts
of the events that told of an installation. -/
structure Process where
  installed : Option Subscriber := none
  answers : List (Except SetupError Unit) := []
  told : List LogFormat := []

/-- What a call has to install. -/
def subscriber? (environment : Option String) (s : LoggingSettings) : Option Subscriber :=
  (filter? environment s).map fun filter => ⟨filter, s.format⟩

/-- Which call is the first that has a filter. -/
def first? (environment : Option String) (calls : List LoggingSettings) : Option Nat :=
  calls.findIdx? fun s => (subscriber? environment s).isSome

namespace Process

/-- One more call. If it installs something it succeeds and writes an event, which has to pass what
is installed; otherwise it fails for some reason. -/
def call (environment : Option String) (reason : Option Subscriber → LoggingSettings → String)
    (p : Process) (s : LoggingSettings) : Process :=
  match install environment p.installed s with
  | (installed, true) =>
    ⟨installed, p.answers ++ [.ok ()], p.told ++ (announcement? installed).toList⟩
  | (installed, false) =>
    ⟨installed, p.answers ++ [.error (.logging (reason p.installed s))], p.told⟩

/-- A process after some calls. -/
def after (environment : Option String) (reason : Option Subscriber → LoggingSettings → String)
    (calls : List LoggingSettings) : Process :=
  calls.foldl (call environment reason) {}

/-- What a process is like after some calls. -/
structure Settled (environment : Option String) (calls : List LoggingSettings) (p : Process) :
    Prop where
  /-- What is installed is what the first call that has a filter has to install, if there is one. -/
  installed : p.installed = calls.findSome? (subscriber? environment)
  enabled : ∀ target, LogOutput.enabled p.installed target =
    match calls.findSome? (filter? environment) with
    | some filter => (filter.verbosity target none).rank
    | none => 0
  answered : p.answers.length = calls.length
  /-- That call succeeds, and every other one fails. -/
  answers : ∀ i answer, p.answers[i]? = some answer →
    if first? environment calls = some i then answer = .ok ()
    else ∃ text, answer = .error (.logging text)
  /-- It is told at most once, in the layout of that call, if and only if its filter lets such an
  event pass. -/
  told : p.told =
    match calls.findSome? (subscriber? environment) with
    | some s =>
      if Verbosity.debug.rank ≤ (s.filter.verbosity ownTarget (some ownFields)).rank
        then [s.layout] else []
    | none => []

variable {environment : Option String} {reason : Option Subscriber → LoggingSettings → String}
  {p : Process} {s : LoggingSettings} {calls : List LoggingSettings}

theorem call_cases (environment : Option String)
    (reason : Option Subscriber → LoggingSettings → String) (p : Process) (s : LoggingSettings) :
    (∃ subscriber, p.installed = none ∧ subscriber? environment s = some subscriber ∧
      p.call environment reason s = ⟨some subscriber, p.answers ++ [.ok ()],
        p.told ++ (announcement? (some subscriber)).toList⟩) ∨
    ((p.installed = none → subscriber? environment s = none) ∧
      p.call environment reason s =
        { p with answers := p.answers ++ [.error (.logging (reason p.installed s))] }) := by
  cases hfilter : filter? environment s with
  | none => exact .inr ⟨fun _ => by simp [subscriber?, hfilter], by simp [call, install, hfilter]⟩
  | some filter =>
      have hs : subscriber? environment s = some ⟨filter, s.format⟩ := by
        simp [subscriber?, hfilter]
      cases hp : p.installed with
      | none => exact .inl ⟨_, rfl, hs, by simp [call, install, hfilter, hp]⟩
      | some installed => exact .inr ⟨nofun, by simp [call, install, hfilter, hp]⟩

theorem after_concat (calls : List LoggingSettings) (s : LoggingSettings) :
    after environment reason (calls ++ [s]) =
      (after environment reason calls).call environment reason s :=
  List.foldl_append

theorem installed_after (calls : List LoggingSettings) :
    (after environment reason calls).installed = calls.findSome? (subscriber? environment) := by
  induction calls using List.reverseRecOn with
  | nil => rfl
  | append_singleton calls s ih =>
      rw [after_concat, List.findSome?_append, ← ih]
      rcases (after environment reason calls).call_cases environment reason s with
        ⟨subscriber, hnone, hs, hcall⟩ | ⟨hs, hcall⟩
      · simp [hcall, hnone, hs]
      · rw [hcall]
        cases hp : (after environment reason calls).installed with
        | none => simp [hs hp]
        | some installed => rfl

theorem told_after (calls : List LoggingSettings) : (after environment reason calls).told =
    (announcement? (after environment reason calls).installed).toList := by
  induction calls using List.reverseRecOn with
  | nil => rfl
  | append_singleton calls s ih =>
      rw [after_concat]
      rcases (after environment reason calls).call_cases environment reason s with
        ⟨subscriber, hnone, -, hcall⟩ | ⟨-, hcall⟩
      · rw [hcall, ih, hnone]
        rfl
      · rw [hcall]
        exact ih

theorem length_answers_after (calls : List LoggingSettings) :
    (after environment reason calls).answers.length = calls.length := by
  induction calls using List.reverseRecOn with
  | nil => rfl
  | append_singleton calls s ih =>
      rw [after_concat]
      rcases (after environment reason calls).call_cases environment reason s with
        ⟨_, -, -, hcall⟩ | ⟨-, hcall⟩ <;> simp [hcall, ih]

theorem findSome?_filter? (calls : List LoggingSettings) :
    calls.findSome? (filter? environment) =
      (calls.findSome? (subscriber? environment)).map (·.filter) := by
  induction calls with
  | nil => rfl
  | cons s rest ih =>
      rw [List.findSome?_cons, List.findSome?_cons, subscriber?]
      cases filter? environment s with
      | none => exact ih
      | some filter => rfl

theorem first?_concat (calls : List LoggingSettings) (s : LoggingSettings) :
    first? environment (calls ++ [s]) = (first? environment calls).or
      (if (subscriber? environment s).isSome then some calls.length else none) := by
  rw [first?, List.findIdx?_append, List.findIdx?_singleton]
  cases (subscriber? environment s).isSome <;> simp [first?]

theorem installed_eq_none_iff : (after environment reason calls).installed = none ↔
    first? environment calls = none := by
  rw [installed_after, List.findSome?_eq_none_iff, first?, List.findIdx?_eq_none_iff]
  simp only [Option.isSome_eq_false_iff, Option.isNone_iff_eq_none]

theorem lt_of_first? {i : Nat} (h : first? environment calls = some i) : i < calls.length :=
  (List.findIdx?_eq_some_iff_getElem.mp h).1

theorem last_answer (environment : Option String)
    (reason : Option Subscriber → LoggingSettings → String) (calls : List LoggingSettings)
    (s : LoggingSettings) : ∃ answer, (after environment reason (calls ++ [s])).answers =
        (after environment reason calls).answers ++ [answer] ∧
      if first? environment (calls ++ [s]) = some calls.length then answer = .ok ()
        else ∃ text, answer = .error (.logging text) := by
  rw [after_concat, first?_concat]
  rcases (after environment reason calls).call_cases environment reason s with
    ⟨subscriber, hnone, hs, hcall⟩ | ⟨hs, hcall⟩
  · refine ⟨.ok (), by rw [hcall], ?_⟩
    simp [installed_eq_none_iff.mp hnone, hs]
  · refine ⟨.error (.logging _), by rw [hcall], ?_⟩
    rw [if_neg]
    · exact ⟨_, rfl⟩
    · intro hfirst
      cases hbefore : first? environment calls with
      | some i =>
          rw [hbefore, Option.some_or] at hfirst
          have hlt := lt_of_first? hbefore
          have hi := Option.some_inj.mp hfirst
          omega
      | none =>
          rw [hbefore, hs (installed_eq_none_iff.mpr hbefore)] at hfirst
          exact absurd hfirst nofun

theorem answers_after (calls : List LoggingSettings) (i : Nat) (answer : Except SetupError Unit)
    (h : (after environment reason calls).answers[i]? = some answer) :
    if first? environment calls = some i then answer = .ok ()
      else ∃ text, answer = .error (.logging text) := by
  induction calls using List.reverseRecOn with
  | nil => exact absurd h nofun
  | append_singleton calls s ih =>
      obtain ⟨last, hanswers, hlast⟩ := last_answer environment reason calls s
      rw [hanswers, List.getElem?_append, length_answers_after] at h
      split at h
      · rename_i hlt
        have hsame : first? environment (calls ++ [s]) = some i ↔
            first? environment calls = some i := by
          rw [first?_concat]
          cases hbefore : first? environment calls with
          | some k => rfl
          | none =>
              have hne : calls.length ≠ i := Nat.ne_of_gt hlt
              simp [hne]
        simp only [hsame]
        exact ih h
      · rename_i hlt
        have hi : i = calls.length := by
          have := (List.getElem?_eq_some_iff.mp h).1
          simp only [List.length_singleton] at this
          omega
        subst hi
        rw [Nat.sub_self] at h
        obtain rfl : last = answer := Option.some_inj.mp h
        exact hlast

theorem call_eq (environment : Option String)
    (reason : Option Subscriber → LoggingSettings → String) (p : Process) (s : LoggingSettings) :
    (p.call environment reason s).installed = (install environment p.installed s).1 ∧
      (p.call environment reason s).answers.map Except.isOk =
        p.answers.map Except.isOk ++ [(install environment p.installed s).2] := by
  unfold call
  split <;> rename_i h <;> rw [h] <;> simp [Except.isOk, Except.toBool]

theorem foldl_call_eq (environment : Option String)
    (reason : Option Subscriber → LoggingSettings → String) (p : Process)
    (calls : List LoggingSettings) :
    (calls.foldl (call environment reason) p).installed =
        (installAll environment p.installed calls).1 ∧
      (calls.foldl (call environment reason) p).answers.map Except.isOk =
        p.answers.map Except.isOk ++ (installAll environment p.installed calls).2 := by
  induction calls generalizing p with
  | nil => simp [installAll]
  | cons s rest ih =>
      obtain ⟨hinstalled, hanswers⟩ := call_eq environment reason p s
      obtain ⟨hfinal, hall⟩ := ih (p.call environment reason s)
      rw [hinstalled] at hfinal hall
      refine ⟨hfinal, hall.trans ?_⟩
      rw [hanswers, List.append_assoc]
      rfl

theorem after_eq (environment : Option String)
    (reason : Option Subscriber → LoggingSettings → String) (calls : List LoggingSettings) :
    ((after environment reason calls).installed,
      (after environment reason calls).answers.map Except.isOk) =
      installAll environment none calls := by
  obtain ⟨hinstalled, hanswers⟩ := foldl_call_eq environment reason {} calls
  exact Prod.ext hinstalled hanswers

/-- In every sequence of calls, the first that has a filter, the environment's if it can be read and
otherwise its own, installs it and succeeds, and every other call fails. What is enabled is decided
by this filter from then on, and nothing is before. That it is installed is told at most once, in
the layout of that call, if and only if the filter lets an event with that target and these fields
pass. If the environment's filter can be read, then it is the first call that installs it, whatever
its settings are. -/
theorem installed_once (environment : Option String)
    (reason : Option Subscriber → LoggingSettings → String) (calls : List LoggingSettings) :
    (after environment reason calls).Settled environment calls ∧
    (∀ later, (after environment reason calls).installed.isSome →
      (after environment reason (calls ++ later)).installed =
        (after environment reason calls).installed) ∧
    ∀ filter, environment.bind LogFilter.parse? = some filter → ∀ s rest, calls = s :: rest →
      first? environment calls = some 0 ∧
        (after environment reason calls).installed = some ⟨filter, s.format⟩ := by
  refine ⟨?_, ?_, ?_⟩
  · constructor
    · exact installed_after calls
    · intro target
      rw [findSome?_filter?, installed_after]
      cases calls.findSome? (subscriber? environment) <;> rfl
    · exact length_answers_after calls
    · exact answers_after calls
    · rw [told_after, installed_after]
      cases calls.findSome? (subscriber? environment) with
      | none => rfl
      | some s =>
          simp only [announcement?, Option.bind_some]
          split <;> rfl
  · intro later hsome
    rw [installed_after] at hsome
    rw [installed_after, installed_after, List.findSome?_append, Option.or_of_isSome hsome]
  · rintro filter hfilter s rest rfl
    have hs : subscriber? environment s = some ⟨filter, s.format⟩ := by
      simp [subscriber?, filter?, hfilter]
    refine ⟨by simp [first?, List.findIdx?_cons, hs], ?_⟩
    rw [installed_after, List.findSome?_cons, hs]

theorem installed_of_second : ∃ filter p,
    p = after (some "=") (fun _ _ => "no filter")
      [{ level := "!" }, { level := "debug", format := .json }] ∧
    p.installed = some ⟨filter, .json⟩ ∧ p.told = [.json] := by
  have hfirst : [{ level := "!" }, { level := "debug", format := .json }].findSome?
      (subscriber? (some "=")) = some ⟨[{ level := .debug }], .json⟩ := by decide +kernel
  obtain ⟨hsettled, -⟩ := installed_once (some "=") (fun _ _ => "no filter")
    [{ level := "!" }, { level := "debug", format := .json }]
  have htold := hsettled.told
  rw [hfirst] at htold
  exact ⟨_, _, rfl, hsettled.installed.trans hfirst, htold⟩

/-- A filter for events with a field enables them for every target, and does not let the event pass
that tells of the installation, since it has no such field. -/
theorem untold_of_field : ∃ s : LoggingSettings, ∀ reason,
    (after none reason [s]).answers = [.ok ()] ∧
      Verbosity.debug.rank ≤ LogOutput.enabled (after none reason [s]).installed ownTarget ∧
      (after none reason [s]).told = [] :=
  ⟨{ level := "[\x7bfoo\x7d]=debug", format := .compact }, fun _ => ⟨rfl, Nat.le_refl 4, rfl⟩⟩

end Process

end JobScheduler.LogOutput
