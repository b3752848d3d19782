import Dialect.Shell.Session

/-!
# Layers of settings

The settings of a command have three layers: one settings file or none, the environment and
the options.  One file at most is consulted, and when it cannot be used there are no
settings, whatever the layers above it say.

Any number of changes can be made to settings.  A database or a format that is not the last
one is lost, one that is not named changes nothing, and verbosity stays on once it is on.
So of all the changes three count at most, and these in any order.
-/

namespace Dialect

/-! ## Changes -/

namespace Change

def url? : Change → Option Text
  | database url => url
  | _ => none

def format? : Change → Option Format
  | format f => f
  | _ => none

def turnsOn : Change → Bool
  | verbose on => on
  | _ => false

/-- The database that is named last. -/
def lastUrl (changes : List Change) : Option Text := (changes.filterMap url?).getLast?

def lastFormat (changes : List Change) : Option Format := (changes.filterMap format?).getLast?

/-- The changes that count: the last database that is named, the last format that is named,
and whether any of them turns verbosity on. -/
def essence (changes : List Change) : List Change :=
  ((lastUrl changes).map fun url => database (some url)).toList ++
    ((lastFormat changes).map fun f => format (some f)).toList ++
    [verbose (changes.any turnsOn)]

theorem getLast?_filterMap_cons {α β : Type} (f : α → Option β) (a : α) (l : List α) :
    ((a :: l).filterMap f).getLast? = (l.filterMap f).getLast?.or (f a) := by
  cases h : f a with
  | none => rw [List.filterMap_cons_none h, Option.or_none]
  | some b =>
    rw [List.filterMap_cons_some h, List.getLast?_cons]
    cases (l.filterMap f).getLast? <;> rfl

end Change

open Change

namespace Settings

section Changes

variable {base : Settings} {changes l : List Change}

/-- One change. -/
theorem change_eq (s : Settings) (c : Change) :
    s.change c = { databaseUrl := c.url?.or s.databaseUrl, format := c.format?.getD s.format,
                   verbose := s.verbose || c.turnsOn } := by
  cases c with
  | database url => simp [change, url?, format?, turnsOn]
  | format f => simp [change, url?, format?, turnsOn]
  | verbose on => simp [change, url?, format?, turnsOn]

/-- Any number of changes. -/
theorem foldl_change (base : Settings) (changes : List Change) :
    changes.foldl change base =
      { databaseUrl := (lastUrl changes).or base.databaseUrl,
        format := (lastFormat changes).getD base.format,
        verbose := base.verbose || changes.any turnsOn } := by
  induction changes generalizing base with
  | nil => simp [lastUrl, lastFormat]
  | cons c changes ih =>
    have url : lastUrl (c :: changes) = (lastUrl changes).or c.url? :=
      getLast?_filterMap_cons url? c changes
    have form : lastFormat (c :: changes) = (lastFormat changes).or c.format? :=
      getLast?_filterMap_cons format? c changes
    rw [List.foldl_cons, ih, change_eq, url, form, List.any_cons, Option.or_assoc, Bool.or_assoc]
    cases lastFormat changes <;> rfl

theorem filterMap_essence (changes : List Change) :
    (essence changes).filterMap url? = (lastUrl changes).toList ∧
      (essence changes).filterMap format? = (lastFormat changes).toList ∧
      (essence changes).any turnsOn = changes.any turnsOn := by
  simp only [essence]
  cases lastUrl changes <;> cases lastFormat changes <;>
    exact ⟨rfl, rfl, by simp [turnsOn]⟩

theorem getLast?_of_perm_toList {α : Type} {l : List α} {a : Option α} (h : l.Perm a.toList) :
    l.getLast? = a := by
  cases a with
  | none => rw [h.eq_nil]; rfl
  | some a => rw [List.perm_singleton.mp h]; rfl

/-- The changes that count do the same as all of them, in any order. -/
theorem foldl_change_of_perm (h : l.Perm (essence changes)) (base : Settings) :
    l.foldl change base = changes.foldl change base := by
  obtain ⟨urls, formats, on⟩ := filterMap_essence changes
  have url : lastUrl l = lastUrl changes :=
    getLast?_of_perm_toList (urls ▸ h.filterMap url?)
  have form : lastFormat l = lastFormat changes :=
    getLast?_of_perm_toList (formats ▸ h.filterMap format?)
  rw [foldl_change, foldl_change, url, form, h.any_eq, on]

end Changes

/-! ## Layers -/

/-- Settings under the database that the environment names and under options. -/
def under (base : Settings) (environment : Option Text) (flags : Flags) : Settings where
  databaseUrl := flags.database.or (environment.or base.databaseUrl)
  format := flags.format.getD base.format
  verbose := base.verbose || flags.verbose

/-- The settings file of the working directory. -/
def localPath : Text := "liteql.toml"

/-- The user's own settings file. -/
def ownPath (directory : Text) : Text := directory ++ "/liteql/config.toml".toList

/-- Which settings file is consulted: the one that is asked for, and without one the first
that is there. -/
inductive Consulted (world : Surroundings) : Option Text → Option Text → Prop
  | asked (path : Text) : Consulted world (some path) (some path)
  | localFile (h : world.hasFile localPath = true) : Consulted world none (some localPath)
  | ownFile {directory : Text} (hn : world.hasFile localPath = false)
      (hd : world.userDirectory = some directory)
      (h : world.hasFile (ownPath directory) = true) :
      Consulted world none (some (ownPath directory))
  | nothing (hn : world.hasFile localPath = false)
      (h : ∀ directory ∈ world.userDirectory, world.hasFile (ownPath directory) = false) :
      Consulted world none none

section Layers

variable {world : Surroundings} {flags : Flags} {asked : Option Text}

def consulted (world : Surroundings) (asked : Option Text) : Option Text :=
  asked.or ((places world.userDirectory).find? fun path => world.hasFile path)

theorem base_eq (world : Surroundings) (asked : Option Text) :
    base world asked =
      match consulted world asked with
      | some path => ofFile world path
      | none => .ok default := by
  cases asked <;> rfl

theorem places_eq (userDirectory : Option Text) :
    places userDirectory = localPath :: (userDirectory.map ownPath).toList := rfl

theorem Consulted.eq {c : Option Text} (h : Consulted world asked c) :
    c = consulted world asked := by
  cases h with
  | asked path => rfl
  | localFile h => simp [consulted, places_eq, h]
  | ownFile hn hd h => simp [consulted, places_eq, hn, hd, h]
  | nothing hn h =>
    cases hd : world.userDirectory with
    | none => simp [consulted, places_eq, hn, hd]
    | some directory => simp [consulted, places_eq, hn, hd, h directory hd]

/-- One of the four cases is always there. -/
theorem exists_consulted (world : Surroundings) (asked : Option Text) :
    ∃ c, Consulted world asked c := by
  cases asked with
  | some path => exact ⟨_, .asked path⟩
  | none =>
    cases hn : world.hasFile localPath with
    | true => exact ⟨_, .localFile hn⟩
    | false =>
      cases hd : world.userDirectory with
      | none => exact ⟨_, .nothing hn (by simp [hd])⟩
      | some directory =>
        cases h : world.hasFile (ownPath directory) with
        | true => exact ⟨_, .ownFile hn hd h⟩
        | false => exact ⟨_, .nothing hn (by simpa [hd] using h)⟩

theorem resolve_eq (world : Surroundings) (flags : Flags) :
    resolve world flags = (base world flags.config).map (under · world.database flags) := by
  have layered (s : Settings) : [Change.database (flags.database.or world.database),
      .format flags.format, .verbose flags.verbose].foldl change s =
        s.under world.database flags := by
    rw [under, ← Option.or_assoc]
    rfl
  simp only [resolve, layered]

theorem resolve_of_error {fault : Fault} (h : resolve world flags = .error fault)
    (environment : Option Text) {flags' : Flags} (hconfig : flags'.config = flags.config) :
    resolve { world with database := environment } flags' = .error fault := by
  rw [resolve_eq] at h ⊢
  have same : base { world with database := environment } flags'.config =
      base world flags.config := by rw [hconfig]; rfl
  rw [same]
  cases hb : base world flags.config with
  | error f => rw [hb] at h; exact h
  | ok s => rw [hb] at h; contradiction

end Layers

/-- The settings that a command runs with come from the one file that is consulted, with the
environment above it and the options above both, and when this file cannot be read or its
document is refused the command fails, whatever the environment and the options say.  Changes
to any settings come to the last database and the last format that they name and to whether
one of them turns verbosity on, in any order. -/
theorem settings_of_layers (executor : Executor) (world : Surroundings) (flags : Flags) :
    (∃ c, (∀ d, Consulted world flags.config d ↔ d = c) ∧
      (c = none → resolve world flags = .ok (default.under world.database flags)) ∧
      ∀ path ∈ c,
        (∀ document, world.read path = .ok document →
          resolve world flags =
            (world.readDocument document).map (under · world.database flags)) ∧
        ∀ reason, world.read path = .error reason → resolve world flags = .error (.io reason)) ∧
      (∀ command fault, resolve world flags = .error fault →
        Session.ofRequest executor world (.run command flags) =
            .failure ("loading config: " ++ Session.account fault) ∧
          ∀ environment flags', flags'.config = flags.config →
            resolve { world with database := environment } flags' = .error fault) ∧
      (∀ command settings, resolve world flags = .ok settings →
        Session.ofRequest executor world (.run command flags) =
          Session.ofCommand executor world settings command) ∧
      ∀ (base : Settings) (changes : List Change),
        changes.foldl change base =
            { databaseUrl := (lastUrl changes).or base.databaseUrl,
              format := (lastFormat changes).getD base.format,
              verbose := base.verbose || changes.any turnsOn } ∧
          ∀ l : List Change, l.Perm (essence changes) →
            l.foldl change base = changes.foldl change base := by
  refine ⟨?_, fun command fault h => ⟨?_, fun environment flags' => resolve_of_error h environment⟩,
    fun command settings h => ?_, fun base changes => ⟨foldl_change base changes, fun l hl =>
      foldl_change_of_perm hl base⟩⟩
  · obtain ⟨c, hc⟩ := exists_consulted world flags.config
    refine ⟨c, fun d => ⟨fun hd => hd.eq.trans hc.eq.symm, fun hd => hd ▸ hc⟩, ?_, ?_⟩
    · rintro rfl
      rw [resolve_eq, base_eq, ← hc.eq]
      rfl
    · rintro path rfl
      rw [resolve_eq, base_eq, ← hc.eq]
      refine ⟨fun document h => ?_, fun reason h => ?_⟩
      · simp only [ofFile, h]
      · simp only [ofFile, h]
        rfl
  · simp only [Session.ofRequest, h]
  · simp only [Session.ofRequest, h]

end Settings
end Dialect
