import BoxDiagram.Command.Transcript

/-!
The command: gathers the files that a run can read, runs, and hands on what the run leaves.
-/

namespace BoxDiagram.Main

def userSettings : IO (Option String) := do
  let name := "/trellis/config.toml"
  match ← IO.getEnv "XDG_CONFIG_HOME", ← IO.getEnv "HOME" with
  | some directory, _ => return some (directory ++ name)
  | none, some home => return some (home ++ "/.config" ++ name)
  | none, none => return none

def look (path : String) : IO (Option FileEntry) := do
  try
    return some (.file (← IO.FS.readBinFile path))
  catch
    | .inappropriateType .. => return some .directory
    | _ => return none

def gather (user : Option String) (arguments : Arguments) : IO FileTree := do
  let here := (FileTree.mk [] []).placeOf (toString (← IO.currentDir))
  let paths := arguments.config.toList ++ [Command.projectSettings] ++ user.toList ++
    [arguments.input]
  let found ← paths.filterMapM fun path => do
    return (← look path).map fun entry => (path, entry)
  return ((FileTree.mk here []).plant here .directory).plantAll found

def report (lines : List String) : IO Unit := lines.forM IO.eprintln

def save (output : Option String) (document : String) : IO UInt32 := do
  try
    match output with
    | none => IO.print document
    | some path => IO.FS.writeFile path document
    return 0
  catch fault =>
    report [toString fault]
    return 1

def execute (words : List String) : IO UInt32 := do
  match Arguments.read words with
  | .error refusal =>
    if refusal.isAnswer then IO.println refusal.message else IO.eprintln refusal.message
    return if refusal.isAnswer then 0 else 2
  | .ok arguments =>
    let user ← userSettings
    let files ← gather user arguments
    let result := Command.prepare files user arguments
    report (Command.transcript files user arguments (result.map Command.Prepared.summary))
    match result with
    | .error _ => return 1
    | .ok prepared => save arguments.output prepared.document.1.content

end BoxDiagram.Main

def main (words : List String) : IO UInt32 := BoxDiagram.Main.execute words
