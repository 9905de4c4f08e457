import BoxDiagram.Text.Basic

/-!
The arguments of the command line: a path to read, and options. An option takes its value from
behind an equals sign, from the same word behind its letter, or from the next word that does not
look like an option. Behind `--` every word is a path.
-/

namespace BoxDiagram

structure Arguments where
  input : String
  output : Option String
  config : Option String
  logLevel : String
  isStrict : Bool
  deriving DecidableEq, Inhabited, Repr

inductive Refusal where
  | helpAsked
  | versionAsked
  | unknownWord (word : String)
  | repeated (option : String)
  | valueMissing (option : String)
  | valueUnexpected (option : String)
  | inputMissing
  deriving DecidableEq, Repr

def Refusal.message : Refusal → String
  | .helpAsked =>
    "usage: boxdiagram [--output FILE] [--config FILE] [--log-level LEVEL] [--strict] INPUT"
  | .versionAsked => "boxdiagram 0.1.0"
  | .unknownWord word => "unexpected argument: " ++ word
  | .repeated option => "option given twice: --" ++ option
  | .valueMissing option => "value missing for option: --" ++ option
  | .valueUnexpected option => "value given to option that takes none: --" ++ option
  | .inputMissing => "no input file given"

/-- Whether the answer to a command line is what was asked for. -/
def Refusal.isAnswer : Refusal → Bool
  | .helpAsked | .versionAsked => true
  | _ => false

namespace Arguments

inductive Setting where
  | output
  | config
  | logLevel
  deriving DecidableEq, Repr

def Setting.name : Setting → String
  | .output => "output"
  | .config => "config"
  | .logLevel => "log-level"

inductive Flag where
  | strict
  | help
  | version
  deriving DecidableEq, Repr

def Flag.name : Flag → String
  | .strict => "strict"
  | .help => "help"
  | .version => "version"

def defaultLogLevel : String := "info"

inductive Shape where
  | path
  | endOfOptions
  | named (name : String) (value : Option String)
  | lettered (letter : Char) (rest : List Char)
  deriving DecidableEq, Repr

def behindEquals? : List Char → Option (List Char)
  | '=' :: value => some value
  | _ => none

def Shape.ofWord (word : String) : Shape :=
  match word.toList with
  | ['-', '-'] => .endOfOptions
  | '-' :: '-' :: text =>
    .named (String.ofList (text.takeWhile (· ≠ '=')))
      ((behindEquals? (text.dropWhile (· ≠ '='))).map String.ofList)
  | '-' :: letter :: rest => .lettered letter rest
  | _ => .path

/-- What has been read so far. The last option may not have been looked at yet, and may still wait
for its value. -/
structure Draft where
  input : Option String := none
  values : List (Setting × String) := []
  isStrict : Bool := false
  pending : Option (Setting × Option String) := none
  areOptionsOver : Bool := false
  deriving DecidableEq, Repr

namespace Draft

/-- Takes the value of an option, which may be given once. -/
def take (draft : Draft) (setting : Setting) (value : String) : Except Refusal Draft :=
  if (draft.values.lookup setting).isSome then .error (.repeated setting.name)
  else .ok { draft with values := draft.values ++ [(setting, value)] }

def settle (draft : Draft) : Except Refusal Draft :=
  match draft.pending with
  | none => .ok draft
  | some (setting, none) => .error (.valueMissing setting.name)
  | some (setting, some value) => { draft with pending := none }.take setting value

def readSetting (draft : Draft) (setting : Setting) (value : Option String) :
    Except Refusal Draft := do
  let draft ← draft.settle
  match value with
  | some value => draft.take setting value
  | none => .ok { draft with pending := some (setting, none) }

def readFlag (draft : Draft) (flag : Flag) : Except Refusal Draft := do
  let draft ← draft.settle
  match flag with
  | .help => .error .helpAsked
  | .version => .error .versionAsked
  | .strict =>
    if draft.isStrict then .error (.repeated flag.name) else .ok { draft with isStrict := true }

/-- Reads a word that is no option: the value that an option waits for, or the input. -/
def readPath (draft : Draft) (word : String) : Except Refusal Draft :=
  match draft.pending, draft.areOptionsOver with
  | some (setting, none), false => .ok { draft with pending := some (setting, some word) }
  | _, _ =>
    if draft.input.isSome then .error (.unknownWord word)
    else do
      let draft ← draft.settle
      .ok { draft with input := some word }

def readNamed (draft : Draft) (name : String) (value : Option String) : Except Refusal Draft :=
  match [Setting.output, .config, .logLevel].find? (·.name = name) with
  | some setting => draft.readSetting setting value
  | none =>
    match [Flag.strict, .help, .version].find? (·.name = name) with
    | some flag => if value.isSome then .error (.valueUnexpected name) else draft.readFlag flag
    | none => .error (.unknownWord ("--" ++ name))

def attached? : List Char → Option String
  | [] => none
  | rest => some (String.ofList ((behindEquals? rest).getD rest))

def readLettered (draft : Draft) (letter : Char) (rest : List Char) : Except Refusal Draft :=
  match letter with
  | 'o' => draft.readSetting .output (attached? rest)
  | 'c' => draft.readSetting .config (attached? rest)
  | 'h' => draft.readFlag .help
  | 'V' => draft.readFlag .version
  | _ => .error (.unknownWord (String.ofList ['-', letter]))

def readWord (draft : Draft) (word : String) : Except Refusal Draft :=
  if draft.areOptionsOver then draft.readPath word
  else match Shape.ofWord word with
    | .path => draft.readPath word
    | .endOfOptions => .ok { draft with areOptionsOver := true }
    | .named name value => draft.readNamed name value
    | .lettered letter rest => draft.readLettered letter rest

def finish (draft : Draft) : Except Refusal Arguments := do
  let draft ← draft.settle
  match draft.input with
  | none => .error .inputMissing
  | some input => .ok {
      input
      output := draft.values.lookup .output
      config := draft.values.lookup .config
      logLevel := (draft.values.lookup .logLevel).getD defaultLogLevel
      isStrict := draft.isStrict }

end Draft

def read (words : List String) : Except Refusal Arguments := do
  (← words.foldlM Draft.readWord {}).finish

end Arguments

end BoxDiagram
