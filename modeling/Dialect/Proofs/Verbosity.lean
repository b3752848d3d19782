import Dialect.Shell.Session

/-!
# Verbosity

A verbose command does what a quiet one does and tells more about it.  What it tells are
lines in front of the error stream, so standard output and the exit code are those of the
quiet command.  It does not matter whether an option or a settings file made the command
verbose.
-/

namespace Dialect

namespace Settings

def quiet (s : Settings) : Settings := { s with verbose := false }

@[simp] theorem databaseUrl_quiet (s : Settings) : s.quiet.databaseUrl = s.databaseUrl := rfl

@[simp] theorem format_quiet (s : Settings) : s.quiet.format = s.format := rfl

@[simp] theorem verbose_quiet (s : Settings) : s.quiet.verbose = false := rfl

end Settings

namespace Transcript

/-- `t` is `u`, perhaps with lines in front of its error stream. -/
def Prefaced (t u : Transcript) : Prop :=
  ∃ notes : List Text, t = { u with stderr := notes.flatMap (· ++ ['\n']) ++ u.stderr }

section Prefaced

variable {t u : Transcript}

theorem Prefaced.refl (t : Transcript) : t.Prefaced t := ⟨[], rfl⟩

theorem withNoteIf_false (note : Text) (t : Transcript) : t.withNoteIf false note = t := rfl

theorem Prefaced.withNoteIf (h : t.Prefaced u) (condition : Bool) (note : Text) :
    (t.withNoteIf condition note).Prefaced u := by
  obtain ⟨notes, rfl⟩ := h
  cases condition with
  | false => exact ⟨notes, rfl⟩
  | true => exact ⟨note :: notes, by simp [Transcript.withNoteIf]⟩

theorem Prefaced.stdout_eq (h : t.Prefaced u) : t.stdout = u.stdout := by
  obtain ⟨notes, rfl⟩ := h
  rfl

theorem Prefaced.code_eq (h : t.Prefaced u) : t.code = u.code := by
  obtain ⟨notes, rfl⟩ := h
  rfl

end Prefaced
end Transcript

open Transcript

/-! ## One command -/

namespace Session

section Commands

variable {executor : Executor} {world world' : Surroundings} {settings : Settings}

theorem prefaced_reading {next next' : Text → Transcript}
    (h : ∀ text, (next text).Prefaced (next' text)) (source : Source) :
    (reading world source next).Prefaced (reading world source next') := by
  unfold reading
  cases source.read world with
  | ok text => exact h text
  | error message => exact .refl _

theorem prefaced_connecting {next next' : executor.Connection → Transcript}
    (h : ∀ db, (next db).Prefaced (next' db)) :
    (connecting executor settings next).Prefaced (connecting executor settings.quiet next') := by
  rw [connecting, connecting, Settings.databaseUrl_quiet, Settings.verbose_quiet]
  cases settings.databaseUrl with
  | none => exact .refl _
  | some url =>
    simp only [withNoteIf_false]
    refine Prefaced.withNoteIf ?_ _ _
    cases executor.connect url with
    | ok db => exact h db
    | error detail => exact .refl _

theorem prefaced_compiled (text : Text) :
    (compiled settings text).Prefaced (compiled settings.quiet text) := by
  rw [compiled, compiled, Settings.format_quiet]
  cases settings.format with
  | json => exact .refl _
  | text => exact (Prefaced.refl _).withNoteIf _ _

theorem prefaced_executed (db : executor.Connection) (text : Text) :
    (executed executor settings db text).Prefaced (executed executor settings.quiet db text) :=
  (Prefaced.refl _).withNoteIf _ _

theorem prefaced_conversation (stdin : Text) :
    (conversation executor settings stdin).Prefaced
      (conversation executor settings.quiet stdin) := by
  rw [conversation, conversation, Settings.databaseUrl_quiet, Settings.format_quiet]
  split
  · exact .refl _
  · exact prefaced_connecting fun db => .refl _

theorem prefaced_ofCommand (executor : Executor) (world : Surroundings) (settings : Settings)
    (command : Command) :
    (ofCommand executor world settings command).Prefaced
      (ofCommand executor world settings.quiet command) := by
  cases command with
  | overview => exact .refl _
  | compile source => exact prefaced_reading prefaced_compiled source
  | validate source => exact .refl _
  | lint source => exact .refl _
  | types => exact .refl _
  | functions => exact .refl _
  | exec source =>
    exact prefaced_reading
      (fun text => prefaced_connecting fun db => prefaced_executed db text) source
  | tables => exact prefaced_connecting fun db => .refl _
  | schema table => exact prefaced_connecting fun db => .refl _
  | repl => exact prefaced_conversation world.stdin

/-- Of its surroundings a command reads its statement or standard input, and nothing
else. -/
theorem ofCommand_congr {command : Command} (hstdin : world.stdin = world'.stdin)
    (hread : ∀ source ∈ source? command, source.read world = source.read world') :
    ofCommand executor world settings command = ofCommand executor world' settings command := by
  have reads {source : Source} (h : source? command = some source) (next : Text → Transcript) :
      reading world source next = reading world' source next := by
    rw [reading, reading, hread source h]
  cases command with
  | overview => rfl
  | compile source => exact reads rfl _
  | validate source => exact reads rfl _
  | lint source => exact reads rfl _
  | types => rfl
  | functions => rfl
  | exec source => exact reads rfl _
  | tables => rfl
  | schema table => rfl
  | repl => rw [ofCommand, ofCommand, hstdin]

end Commands
end Session

/-! ## Two command lines -/

/-- Two ways to run a command on the same input, under settings that differ in verbosity at
most. -/
structure Twins (command : Command) (world world' : Surroundings) (flags flags' : Flags) :
    Prop where
  settings : (Settings.resolve world flags).map Settings.quiet =
    (Settings.resolve world' flags').map Settings.quiet
  stdin : world.stdin = world'.stdin
  input : ∀ source ∈ Session.source? command, source.read world = source.read world'

section CommandLines

variable {executor : Executor} {command : Command} {world world' : Surroundings}
  {flags flags' : Flags} {words words' : List Text}

/-- Options that differ in verbosity, over settings files that differ in verbosity. -/
theorem map_quiet_resolve
    (hbase : (Settings.base world flags.config).map Settings.quiet =
      (Settings.base world' flags'.config).map Settings.quiet)
    (hdatabase : flags.database.or world.database = flags'.database.or world'.database)
    (hformat : flags.format = flags'.format) :
    (Settings.resolve world flags).map Settings.quiet =
      (Settings.resolve world' flags').map Settings.quiet := by
  have resolved (world : Surroundings) (flags : Flags) :
      (Settings.resolve world flags).map Settings.quiet =
        ((Settings.base world flags.config).map Settings.quiet).map fun s =>
          (s.change (.database (flags.database.or world.database))).change
            (.format flags.format) := by
    rw [Settings.resolve]
    cases Settings.base world flags.config <;> rfl
  rw [resolved, resolved, hbase, hdatabase, hformat]

/-- Both ways print what the quiet one prints, and put lines in front of its error stream. -/
theorem exists_prefaced_of_twins (executor : Executor)
    (h : Twins command world world' flags flags') :
    ∃ t, (Session.ofRequest executor world (.run command flags)).Prefaced t ∧
      (Session.ofRequest executor world' (.run command flags')).Prefaced t := by
  have same := h.settings
  rw [Session.ofRequest, Session.ofRequest]
  cases hs : Settings.resolve world flags with
  | error fault =>
    cases hs' : Settings.resolve world' flags' with
    | error fault' =>
      rw [hs, hs'] at same
      obtain rfl : fault = fault' := Except.error.inj same
      exact ⟨_, .refl _, .refl _⟩
    | ok settings' =>
      rw [hs, hs'] at same
      contradiction
  | ok settings =>
    cases hs' : Settings.resolve world' flags' with
    | error fault' =>
      rw [hs, hs'] at same
      contradiction
    | ok settings' =>
      rw [hs, hs'] at same
      have quiet : settings.quiet = settings'.quiet := Except.ok.inj same
      refine ⟨_, Session.prefaced_ofCommand executor world settings command, ?_⟩
      rw [Session.ofCommand_congr h.stdin h.input, quiet]
      exact Session.prefaced_ofCommand executor world' settings' command

/-- A command prints the same and ends with the same exit code, verbose or not. -/
theorem stdout_and_code_of_twins (executor : Executor)
    (asks : Arguments.request words = .run command flags)
    (asks' : Arguments.request words' = .run command flags')
    (h : Twins command world world' flags flags') :
    (Session.ofWords executor world words).stdout =
        (Session.ofWords executor world' words').stdout ∧
      (Session.ofWords executor world words).code =
        (Session.ofWords executor world' words').code := by
  obtain ⟨t, left, right⟩ := exists_prefaced_of_twins executor h
  rw [Session.ofWords, Session.ofWords, asks, asks']
  exact ⟨left.stdout_eq.trans right.stdout_eq.symm, left.code_eq.trans right.code_eq.symm⟩

/-- A settings file makes the command verbose. -/
def chatty : Surroundings where
  stdin := "create table t (a int)"
  files := { contents := [("liteql.toml", "verbose = true\n")] }
  userDirectory := none
  database := some "sqlite::memory:"

/-- One command line has an option that the other lacks, and a settings file that the other
lacks says the same. -/
theorem stdout_and_code_of_exec :
    (Session.ofWords .scratch chatty ["-v", "exec", "-"]).stdout =
        (Session.ofWords .scratch { chatty with files := ⟨[]⟩ } ["exec", "-"]).stdout ∧
      (Session.ofWords .scratch chatty ["-v", "exec", "-"]).code =
        (Session.ofWords .scratch { chatty with files := ⟨[]⟩ } ["exec", "-"]).code := by
  have file : Settings.base chatty none = .ok { Settings.default with verbose := true } := by
    have parsed : Toml.parse? "verbose = true\n" >>= Settings.ofFields? =
        some { Settings.default with verbose := true } := by decide +kernel
    show Settings.ofToml "verbose = true\n" = _
    rw [Settings.ofToml, parsed]
  have asks : Arguments.request ["-v", "exec", "-"] =
      .run (.exec { sql := some "-".toList, file := none })
        { format := none, verbose := true, database := none, config := none } := by
    decide +kernel
  have asks' : Arguments.request ["exec", "-"] =
      .run (.exec { sql := some "-".toList, file := none })
        { format := none, verbose := false, database := none, config := none } := by
    decide +kernel
  refine stdout_and_code_of_twins .scratch asks asks' ⟨?_, rfl, ?_⟩
  · exact map_quiet_resolve (by rw [file]; rfl) rfl rfl
  · rintro source ⟨⟩
    rfl

end CommandLines
end Dialect
