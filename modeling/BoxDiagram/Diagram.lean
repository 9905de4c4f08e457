import BoxDiagram.Failure
import BoxDiagram.Layout
import BoxDiagram.Parse

/-!
From a text to a diagram: read it, lay it out, and in a strict run refuse any findings.
-/

namespace BoxDiagram

structure Diagram (α : Type) where
  graph : Graph α
  diagnostics : List Diagnostic
  deriving DecidableEq

namespace Diagram

variable {α : Type} [Scalar α]

def ofSource (settings : Settings α) (source : String) : Diagram α :=
  let parsed := parse source
  let (graph, warnings) := parsed.graph.layout settings
  ⟨graph, parsed.diagnostics ++ warnings⟩

/-- The diagram of a text; a strict run refuses one with findings. -/
def build (settings : Settings α) (isStrict : Bool) (source : String) :
    Except Failure (Diagram α) :=
  let diagram := ofSource settings source
  if isStrict && !diagram.diagnostics.isEmpty then .error (.strict diagram.diagnostics source)
  else .ok diagram

theorem build_accepted {settings : Settings α} {isStrict : Bool} {source : String}
    (accepted : isStrict = true → (ofSource settings source).diagnostics = []) :
    build settings isStrict source = .ok (ofSource settings source) := by
  unfold build
  cases isStrict with
  | false => rfl
  | true => simp [accepted rfl]

theorem build_refused {settings : Settings α} {source : String}
    (found : (ofSource settings source).diagnostics ≠ []) :
    build settings true source = .error (.strict (ofSource settings source).diagnostics source) := by
  simp [build, found]

end Diagram

end BoxDiagram
