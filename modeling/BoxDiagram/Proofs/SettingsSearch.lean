import BoxDiagram.Command.Run

/-!
Where the settings of a run come from. A file that is asked for counts whether it is there or not; else the
first that is there of the project's and the user's files does, and if there is none, the standard settings
are taken. Only one place counts, and whatever is wrong with a file that counts ends the run: nothing else
is tried. Settings that a run goes on with have been accepted.
-/

namespace BoxDiagram.Command

inductive Origin where
  | file (path : String)
  | standard
  deriving DecidableEq, Repr

def usualFiles (user : Option String) : List String := projectSettings :: user.toList

inductive Settles (files : FileTree) (user : Option String) : Option String → Origin → Prop
  | asked {path : String} : Settles files user (some path) (.file path)
  | found {before after : List String} {path : String}
      (listed : usualFiles user = before ++ path :: after)
      (absent : ∀ earlier ∈ before, files.isPresent earlier = false)
      (present : files.isPresent path = true) : Settles files user none (.file path)
  | standard (absent : ∀ path ∈ usualFiles user, files.isPresent path = false) :
      Settles files user none .standard

inductive Origin.Yields (files : FileTree) : Origin → Except Failure (Settings Float32) → Prop
  | standard : Yields files .standard (.ok .default)
  | missing {path : String} (absent : files.isPresent path = false) :
      Yields files (.file path) (.error (.settings (.missingFile path)))
  | unread {path : String} {fault : IoFault} (present : files.isPresent path = true)
      (unread : files.readText path = .error fault) : Yields files (.file path) (.error (.io fault))
  | unreadable {path text : String} (present : files.isPresent path = true)
      (read : files.readText path = .ok text) (senseless : Settings.ofToml? text = none) :
      Yields files (.file path) (.error (.settings (.unreadable path)))
  | invalid {path text : String} {settings : Settings Float32} {error : SettingsError Float32}
      (present : files.isPresent path = true) (read : files.readText path = .ok text)
      (means : Settings.ofToml? text = some settings) (refused : settings.validate = .error error) :
      Yields files (.file path) (.error (.settings (.invalid error)))
  | accepted {path text : String} {settings : Settings Float32}
      (present : files.isPresent path = true) (read : files.readText path = .ok text)
      (means : Settings.ofToml? text = some settings) (accepted : settings.validate = .ok ()) :
      Yields files (.file path) (.ok settings)

theorem validate_default : (Settings.default : Settings Float32).validate = .ok () := rfl

theorem Origin.Yields.validate {files : FileTree} {origin : Origin} {settings : Settings Float32}
    (yields : origin.Yields files (.ok settings)) : settings.validate = .ok () := by
  cases yields with
  | standard => exact validate_default
  | accepted _ _ _ accepted => exact accepted

def Origin.ofFile? : Option String → Origin
  | some path => .file path
  | none => .standard

variable {files : FileTree} {user asked : Option String}

/-- One origin counts, and it is the one that is chosen. -/
theorem settles_iff {origin : Origin} :
    Settles files user asked origin ↔ origin = .ofFile? (chosenSettings files asked user) := by
  constructor
  · intro settles
    cases settles with
    | asked => rfl
    | @found before after path listed absent present =>
      have first : (projectSettings :: user.toList).find? files.isPresent = some path :=
        List.find?_eq_some_iff_append.mpr ⟨present, before, after, listed, by simpa using absent⟩
      rw [chosenSettings, first]
      rfl
    | standard absent =>
      have none : (projectSettings :: user.toList).find? files.isPresent = none :=
        List.find?_eq_none.mpr fun path member => by simp [absent path member]
      rw [chosenSettings, none]
      rfl
  · rintro rfl
    unfold chosenSettings
    cases asked with
    | some path => exact .asked
    | none =>
      dsimp only
      cases chosen : (projectSettings :: user.toList).find? files.isPresent with
      | some path =>
        obtain ⟨present, before, after, listed, absent⟩ := List.find?_eq_some_iff_append.mp chosen
        exact .found listed (by simpa using absent) present
      | none => exact .standard fun path member => by simpa using List.find?_eq_none.mp chosen path member

def Origin.load (files : FileTree) (origin : Origin) : Except Failure (Settings Float32) := do
  let settings ← match origin with
    | .file path => readSettings files path
    | .standard => .ok .default
  match settings.validate with
  | .ok () => .ok settings
  | .error error => .error (.settings (.invalid error))

theorem loadSettings_eq (files : FileTree) (user asked : Option String) :
    loadSettings files asked user = (Origin.ofFile? (chosenSettings files asked user)).load files := by
  unfold loadSettings
  cases chosenSettings files asked user <;> rfl

theorem Origin.yields_load (files : FileTree) (origin : Origin) :
    origin.Yields files (origin.load files) := by
  unfold load
  cases origin with
  | standard =>
    simp only [bind, Except.bind, validate_default]
    exact .standard
  | file path =>
    simp only [bind, Except.bind, readSettings]
    cases present : files.isPresent path with
    | false => exact .missing present
    | true =>
      rw [if_pos rfl]
      cases read : files.readText path with
      | error fault => exact .unread present read
      | ok text =>
        dsimp only
        cases means : Settings.ofToml? text with
        | none => exact .unreadable present read means
        | some settings =>
          dsimp only
          cases valid : settings.validate with
          | error error => exact .invalid present read means valid
          | ok => exact .accepted present read means valid

theorem Origin.Yields.unique {origin : Origin} {first second : Except Failure (Settings Float32)}
    (yields : origin.Yields files first) (again : origin.Yields files second) : first = second := by
  cases yields <;> cases again <;> simp_all

theorem loadSettings_of_settles {origin : Origin} {result : Except Failure (Settings Float32)}
    (settles : Settles files user asked origin) (yields : origin.Yields files result) :
    loadSettings files asked user = result := by
  rw [loadSettings_eq, ← settles_iff.mp settles]
  exact (origin.yields_load files).unique yields

end BoxDiagram.Command
