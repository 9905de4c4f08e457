import BoxDiagram.Proofs.Exports
import BoxDiagram.Proofs.SettingsSearch
import Mathlib.Logic.ExistsUnique

/-!
What a run does to the files. It reads first and writes last: when the settings fail, the input cannot be
read or a strict run refuses the diagram, nothing has been written. Else the document of the diagram goes to
the file at the output path, and no other place changes, even where that file was read before. There is one
way only in which a run with given files and arguments can end.
-/

namespace BoxDiagram

namespace FileTree

variable {tree : FileTree} {path : String} {place : Place}

/-- A path leads where it did when something is put where no directory is: what it leads through are
directories. -/
theorem walk_put {entry : FileEntry} (plain : tree.entryAt? place ≠ some .directory) {first target : Place}
    {parts : List String} (leads : tree.walk first parts = .ok target) :
    (tree.put place entry).walk first parts = .ok target := by
  have inner : place ≠ [] := by
    rintro rfl
    exact plain rfl
  induction parts generalizing first with
  | nil => exact leads
  | cons part rest ih =>
    unfold walk at leads ⊢
    rw [entryAt?_put tree place first entry inner]
    cases found : tree.entryAt? first with
    | none => simp [found] at leads
    | some there =>
      cases there with
      | file => simp [found] at leads
      | directory =>
        have apart : first ≠ place := by
          rintro rfl
          exact plain found
        rw [found] at leads
        rw [if_neg apart]
        dsimp only at leads ⊢
        split at leads
        next => cases leads
        next short =>
          rw [if_neg short]
          exact ih leads

theorem locate_put {entry : FileEntry} (plain : tree.entryAt? place ≠ some .directory)
    (leads : tree.locate path = .ok place) : (tree.put place entry).locate path = .ok place := by
  unfold locate at leads ⊢
  cases checked : checkPath path with
  | error fault =>
    rw [checked] at leads
    cases leads
  | ok =>
    rw [checked] at leads
    exact walk_put plain leads

/-- A file is written where its path leads, which is no directory. -/
theorem locate_of_writable (writable : tree.writable path = .ok place) :
    tree.locate path = .ok place ∧ tree.entryAt? place ≠ some .directory := by
  unfold FileTree.writable at writable
  cases checked : checkPath path with
  | error fault =>
    rw [checked] at writable
    cases writable
  | ok =>
    rw [checked] at writable
    simp only [bind, Except.bind] at writable
    split at writable
    next =>
      split at writable
      next => cases writable
      next => cases writable
    next =>
      split at writable
      next => cases writable
      next found located =>
        split at writable
        next => cases writable
        next plain =>
          cases writable
          exact ⟨located, plain⟩

/-- The file at a path is written and nothing else: the path leads where it did, there is a file with the
text now, and at every other place is what was there. -/
structure Writes (tree after : FileTree) (path text : String) : Prop where
  here : after.here = tree.here
  place : ∃ place, tree.locate path = .ok place ∧ after.locate path = .ok place ∧
    after.entryAt? place = some (.file text.toUTF8) ∧
    ∀ other, other ≠ place → after.entryAt? other = tree.entryAt? other
  holds : after.readText path = .ok text

theorem fromUTF8?_toUTF8 (text : String) : String.fromUTF8? text.toUTF8 = some text := by
  unfold String.fromUTF8?
  split
  next => rfl
  next invalid => exact absurd text.isValidUTF8 invalid

theorem writes_put (writable : tree.writable path = .ok place) (text : String) :
    Writes tree (tree.put place (.file text.toUTF8)) path text := by
  obtain ⟨leads, plain⟩ := locate_of_writable writable
  have inner : place ≠ [] := by
    rintro rfl
    exact plain rfl
  have still : (tree.put place (.file text.toUTF8)).locate path = .ok place := locate_put plain leads
  have there : (tree.put place (.file text.toUTF8)).entryAt? place = some (.file text.toUTF8) := by
    rw [entryAt?_put tree place place _ inner, if_pos rfl]
  refine ⟨rfl, ⟨place, leads, still, there, ?_⟩, ?_⟩
  · intro other apart
    rw [entryAt?_put tree place other _ inner, if_neg apart]
  · simp only [readText, read, still, bind, Except.bind, there, fromUTF8?_toUTF8]

end FileTree

namespace Command

def documentText (diagram : Diagram Float32) : String := diagram.graph.document.pretty ++ "\n"

theorem document_prepared (prepared : Prepared) :
    prepared.document = ({ content := documentText prepared.diagram }, none) := by
  simp only [Prepared.document, Graph.exportTo, Sink.exportChunks, Sink.writeAll_unlimited, Sink.write,
    Sink.flush, String.empty_append]
  rfl

structure Draws (files : FileTree) (user : Option String) (arguments : Arguments) (source : String)
    (diagram : Diagram Float32) : Prop where
  read : files.readText arguments.input = .ok source
  laidOut : ∃ origin settings, Settles files user arguments.config origin ∧
    origin.Yields files (.ok settings) ∧ diagram = Diagram.ofSource settings source

inductive Ends (files : FileTree) (user : Option String) (arguments : Arguments) : Outcome → Prop
  | unsettled {origin : Origin} {failure : Failure} (settles : Settles files user arguments.config origin)
      (yields : origin.Yields files (.error failure)) :
      Ends files user arguments ⟨.error failure, files, ""⟩
  | unread {origin : Origin} {settings : Settings Float32} {fault : IoFault}
      (settles : Settles files user arguments.config origin) (yields : origin.Yields files (.ok settings))
      (unread : files.readText arguments.input = .error fault) :
      Ends files user arguments ⟨.error (.io fault), files, ""⟩
  | refused {source : String} {diagram : Diagram Float32}
      (draws : Draws files user arguments source diagram) (strict : arguments.isStrict = true)
      (found : diagram.diagnostics ≠ []) :
      Ends files user arguments ⟨.error (.strict diagram.diagnostics source), files, ""⟩
  | printed {source : String} {diagram : Diagram Float32}
      (draws : Draws files user arguments source diagram)
      (accepted : arguments.isStrict = true → diagram.diagnostics = []) (unasked : arguments.output = none) :
      Ends files user arguments ⟨.ok ⟨source, diagram.diagnostics⟩, files, documentText diagram⟩
  | unwritable {source path : String} {diagram : Diagram Float32} {fault : IoFault}
      (draws : Draws files user arguments source diagram)
      (accepted : arguments.isStrict = true → diagram.diagnostics = [])
      (asked : arguments.output = some path) (unwritable : files.writable path = .error fault) :
      Ends files user arguments ⟨.error (.io fault), files, ""⟩
  | written {source path : String} {diagram : Diagram Float32} {place : Place} {after : FileTree}
      (draws : Draws files user arguments source diagram)
      (accepted : arguments.isStrict = true → diagram.diagnostics = [])
      (asked : arguments.output = some path) (writable : files.writable path = .ok place)
      (writes : files.Writes after path (documentText diagram)) :
      Ends files user arguments ⟨.ok ⟨source, diagram.diagnostics⟩, after, ""⟩

variable {files : FileTree} {user : Option String} {arguments : Arguments}

theorem run_of_draws {source : String} {diagram : Diagram Float32}
    (draws : Draws files user arguments source diagram)
    (accepted : arguments.isStrict = true → diagram.diagnostics = []) :
    run files user arguments = write files arguments.output ⟨source, diagram⟩ := by
  obtain ⟨read, origin, settings, settles, yields, rfl⟩ := draws
  have loaded := loadSettings_of_settles settles yields
  simp only [run, prepare, loaded, read, Diagram.build_accepted accepted, bind, Except.bind]

theorem run_of_refused {source : String} {diagram : Diagram Float32}
    (draws : Draws files user arguments source diagram) (strict : arguments.isStrict = true)
    (found : diagram.diagnostics ≠ []) :
    run files user arguments = ⟨.error (.strict diagram.diagnostics source), files, ""⟩ := by
  obtain ⟨read, origin, settings, settles, yields, rfl⟩ := draws
  have loaded := loadSettings_of_settles settles yields
  simp only [run, prepare, loaded, read, strict, Diagram.build_refused found, bind, Except.bind]

theorem write_none (prepared : Prepared) :
    write files none prepared =
      ⟨.ok prepared.summary, files, documentText prepared.diagram⟩ := by
  rw [write, document_prepared]

theorem write_some (prepared : Prepared) (path : String) :
    write files (some path) prepared =
      match files.writable path with
      | .error fault => ⟨.error (.io fault), files, ""⟩
      | .ok place =>
        ⟨.ok prepared.summary, files.put place (.file (documentText prepared.diagram).toUTF8), ""⟩ := by
  cases found : files.writable path with
  | error fault => simp only [write, found]
  | ok place => simp only [write, document_prepared, found]

theorem ends_run (files : FileTree) (user : Option String) (arguments : Arguments) :
    Ends files user arguments (run files user arguments) := by
  have settles : Settles files user arguments.config _ := settles_iff.mpr rfl
  have yields := Origin.yields_load files (.ofFile? (chosenSettings files arguments.config user))
  rw [← loadSettings_eq] at yields
  cases loaded : loadSettings files arguments.config user with
  | error failure =>
    rw [loaded] at yields
    simp only [run, prepare, loaded, bind, Except.bind]
    exact .unsettled settles yields
  | ok settings =>
    rw [loaded] at yields
    cases read : files.readText arguments.input with
    | error fault =>
      simp only [run, prepare, loaded, read, bind, Except.bind]
      exact .unread settles yields read
    | ok source =>
      have draws : Draws files user arguments source (Diagram.ofSource settings source) :=
        ⟨read, _, settings, settles, yields, rfl⟩
      by_cases accepted : arguments.isStrict = true → (Diagram.ofSource settings source).diagnostics = []
      · rw [run_of_draws draws accepted]
        cases asked : arguments.output with
        | none =>
          rw [write_none]
          exact .printed draws accepted asked
        | some path =>
          rw [write_some]
          cases writable : files.writable path with
          | error fault => exact .unwritable draws accepted asked writable
          | ok place => exact .written draws accepted asked writable (FileTree.writes_put writable _)
      · obtain ⟨strict, found⟩ := Classical.not_imp.mp accepted
        rw [run_of_refused draws strict found]
        exact .refused draws strict found

structure Outcome.Agrees (first second : Outcome) : Prop where
  result : second.result = first.result
  printed : second.printed = first.printed
  files : ∀ place, second.files.entryAt? place = first.files.entryAt? place

theorem Outcome.Agrees.of_eq {first second : Outcome} (same : second = first) : first.Agrees second := by
  rw [same]
  exact ⟨rfl, rfl, fun _ => rfl⟩

theorem Ends.agrees {outcome : Outcome} (ends : Ends files user arguments outcome) :
    outcome.Agrees (run files user arguments) := by
  cases ends with
  | unsettled settles yields =>
    have loaded := loadSettings_of_settles settles yields
    apply Outcome.Agrees.of_eq
    simp only [run, prepare, loaded, bind, Except.bind]
  | unread settles yields unread =>
    have loaded := loadSettings_of_settles settles yields
    apply Outcome.Agrees.of_eq
    simp only [run, prepare, loaded, unread, bind, Except.bind]
  | refused draws strict found => exact .of_eq (run_of_refused draws strict found)
  | printed draws accepted unasked =>
    apply Outcome.Agrees.of_eq
    rw [run_of_draws draws accepted, unasked, write_none]
    rfl
  | unwritable draws accepted asked unwritable =>
    apply Outcome.Agrees.of_eq
    rw [run_of_draws draws accepted, asked, write_some, unwritable]
  | @written source path diagram place after draws accepted asked writable writes =>
    rw [run_of_draws draws accepted, asked, write_some, writable]
    refine ⟨rfl, rfl, fun other => ?_⟩
    obtain ⟨found, leads, -, there, elsewhere⟩ := writes.place
    obtain ⟨target, leadsAgain, -, thereAgain, elsewhereAgain⟩ :=
      (FileTree.writes_put writable (documentText diagram)).place
    obtain rfl : found = target := Except.ok.inj (leads.symm.trans leadsAgain)
    by_cases same : other = found
    · rw [same, there]
      exact thereAgain
    · rw [elsewhere other same]
      exact elsewhereAgain other same

/-- A run that fails leaves the files alone and prints nothing. -/
theorem Ends.unchanged {outcome : Outcome} (ends : Ends files user arguments outcome) {failure : Failure}
    (failed : outcome.result = .error failure) : outcome.files = files ∧ outcome.printed = "" := by
  cases ends with
  | unsettled | unread | refused | unwritable => exact ⟨rfl, rfl⟩
  | printed => cases failed
  | written => cases failed

/-- A run that succeeds hands on a diagram: it prints the document if no path is asked for, and else writes
it there. -/
theorem Ends.delivers {outcome : Outcome} (ends : Ends files user arguments outcome) {summary : Summary}
    (succeeded : outcome.result = .ok summary) :
    ∃ diagram, Draws files user arguments summary.source diagram ∧
      summary.diagnostics = diagram.diagnostics ∧
      (arguments.isStrict = true → diagram.diagnostics = []) ∧
      match arguments.output with
      | none => outcome.printed = documentText diagram ∧ outcome.files = files
      | some path => outcome.printed = "" ∧ files.Writes outcome.files path (documentText diagram) := by
  cases ends with
  | unsettled => cases succeeded
  | unread => cases succeeded
  | refused => cases succeeded
  | unwritable => cases succeeded
  | @printed source diagram draws accepted none =>
    cases succeeded
    refine ⟨diagram, draws, rfl, accepted, ?_⟩
    rw [none]
    exact ⟨rfl, rfl⟩
  | @written source path diagram place after draws accepted asked writable writes =>
    cases succeeded
    refine ⟨diagram, draws, rfl, accepted, ?_⟩
    rw [asked]
    exact ⟨rfl, writes⟩

/-- A run ends in one of the ways that are listed, and only in one. One origin counts for its settings, and
that comes to one thing only: a failure that ends the run, or settings that are accepted. Whenever a run
fails, be it for its settings, its input or a strict refusal, every file is left as it was, the one at the
output path too. A run that succeeds has laid out the diagram of its input with those settings; with an
output path it changes the file there and nothing else, and the file holds the document of the diagram with
a line break behind it. -/
theorem run_ends (files : FileTree) (user : Option String) (arguments : Arguments) :
    let outcome := run files user arguments
    Ends files user arguments outcome ∧
    (∀ other, Ends files user arguments other → other.Agrees outcome) ∧
    (∃! origin, Settles files user arguments.config origin) ∧
    (∀ origin, ∃! result, Origin.Yields files origin result) ∧
    (∀ origin settings, Origin.Yields files origin (.ok settings) → settings.validate = .ok ()) ∧
    (∀ failure, outcome.result = .error failure → outcome.files = files ∧ outcome.printed = "") ∧
    ∀ summary, outcome.result = .ok summary →
      ∃ diagram, Draws files user arguments summary.source diagram ∧
        summary.diagnostics = diagram.diagnostics ∧
        (arguments.isStrict = true → diagram.diagnostics = []) ∧
        match arguments.output with
        | none => outcome.printed = documentText diagram ∧ outcome.files = files
        | some path => outcome.printed = "" ∧ files.Writes outcome.files path (documentText diagram) := by
  have ends := ends_run files user arguments
  refine ⟨ends, fun other again => again.agrees, ?_, ?_, ?_, ?_, ?_⟩
  · exact ⟨_, settles_iff.mpr rfl, fun other settles => settles_iff.mp settles⟩
  · intro origin
    have yields := origin.yields_load files
    exact ⟨_, yields, fun other again => again.unique yields⟩
  · exact fun origin settings yields => yields.validate
  · exact fun failure failed => ends.unchanged failed
  · exact fun summary succeeded => ends.delivers succeeded

end Command

end BoxDiagram
