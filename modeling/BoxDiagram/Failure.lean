import BoxDiagram.Diagnostic
import BoxDiagram.Settings

/-!
Why a run ends without a result. Reading and laying out a diagram never fail; what can fail is
files, settings, and a diagram with findings that must not have any.
-/

namespace BoxDiagram

inductive IoFault where
  | notFound
  | notDirectory
  | isDirectory
  | nameTooLong
  | nulInPath
  | invalidUtf8
  | diskFull
  | flushFailed
  deriving DecidableEq, Repr

def IoFault.message : IoFault → String
  | .notFound => "No such file or directory (os error 2)"
  | .notDirectory => "Not a directory (os error 20)"
  | .isDirectory => "Is a directory (os error 21)"
  | .nameTooLong => "File name too long (os error 36)"
  | .nulInPath => "file name contained an unexpected NUL byte"
  | .invalidUtf8 => "stream did not contain valid UTF-8"
  | .diskFull => "disk full"
  | .flushFailed => "flush failed"

inductive SettingsFault where
  | invalid (error : SettingsError Float32)
  | missingFile (path : String)
  | unreadable (path : String)
  deriving DecidableEq

def SettingsFault.message : SettingsFault → String
  | .invalid error => error.message
  | .missingFile path => "Missing configuration file: " ++ path
  | .unreadable path => "Failed to parse TOML configuration in " ++ path

inductive Failure where
  | io (fault : IoFault)
  | settings (fault : SettingsFault)
  | strict (diagnostics : List Diagnostic) (source : String)
  | document (fault : IoFault)
  deriving DecidableEq

def Failure.message : Failure → String
  | .io fault => "I/O error: " ++ fault.message
  | .settings fault => "Configuration error: " ++ fault.message
  | .strict diagnostics _ =>
    toString diagnostics.length ++ " diagnostic(s) reported in strict mode"
  | .document fault => "Export error: " ++ fault.message

end BoxDiagram
