import BoxDiagram.Proofs.SourceSpans
import BoxDiagram.Report

/-!
Strict runs and what is reported of them. A strict run gives the diagram of a lenient one, or refuses it
with all of its findings. The reports of a refusal are one of the whole, and one for each finding, from
which the finding can be told again; all that they mark is within the source that goes with them.
-/

namespace BoxDiagram

variable {α : Type}

theorem Code.text_injective : Function.Injective Code.text := by
  intro first second same
  have read : some first = some second := by
    rw [← ofText?_text first, ← ofText?_text second, same]
  exact Option.some.inj read

structure Remark.Shows (remark : Remark) (label : Label) : Prop where
  offset : remark.offset = label.span.start
  length : remark.length = label.span.length
  text : remark.text = label.text
  isPrimary : remark.isPrimary = label.isPrimary

structure Report.Shows (report : Report) (diagnostic : Diagnostic) : Prop where
  text : report.text = diagnostic.message
  code : report.code = diagnostic.code.map Code.text
  severity : report.severity = some diagnostic.severity
  help : report.help = diagnostic.help
  hasSource : report.hasSource = true
  remarks : List.Forall₂ Remark.Shows report.remarks diagnostic.labels

theorem Remark.Shows.stop {remark : Remark} {label : Label} (shows : remark.Shows label) :
    remark.offset + remark.length = label.span.stop := by
  have ordered := label.span.start_le_stop
  rw [shows.offset, shows.length, Span.length]
  omega

theorem Remark.rightUnique_shows : Relator.RightUnique Remark.Shows := by
  intro remark first second one other
  have spans : first.span = second.span := by
    apply Span.ext
    · rw [← one.offset, other.offset]
    · rw [← one.stop, other.stop]
  obtain ⟨span, text, isPrimary⟩ := first
  obtain ⟨again, _, _⟩ := second
  have texts := one.text.symm.trans other.text
  have marks := one.isPrimary.symm.trans other.isPrimary
  simp_all

theorem Report.rightUnique_shows : Relator.RightUnique Report.Shows := by
  intro report first second one other
  have severities := Option.some.inj (one.severity.symm.trans other.severity)
  have codes := Option.map_injective Code.text_injective (one.code.symm.trans other.code)
  have messages := one.text.symm.trans other.text
  have labels := Remark.rightUnique_shows.forall₂ one.remarks other.remarks
  have helps := one.help.symm.trans other.help
  obtain ⟨severity, code, message, marked, help⟩ := first
  obtain ⟨_, _, _, _, _⟩ := second
  simp_all

theorem Report.shows_ofDiagnostic (diagnostic : Diagnostic) :
    (Report.ofDiagnostic diagnostic).Shows diagnostic where
  text := rfl
  code := rfl
  severity := rfl
  help := rfl
  hasSource := rfl
  remarks := List.forall₂_map_left_iff.mpr (List.forall₂_same.mpr fun _ _ => ⟨rfl, rfl, rfl, rfl⟩)

theorem Report.Shows.inside {report : Report} {diagnostic : Diagnostic} {source : String}
    (shows : report.Shows diagnostic) (within : diagnostic.Within source.toList) :
    ∀ remark ∈ report.remarks, remark.offset + remark.length ≤ source.utf8ByteSize := by
  intro remark member
  obtain ⟨label, marked, same⟩ := exists_of_forall₂ shows.remarks.flip remark member
  have slice := (within label marked).isSlice
  rw [same.stop]
  exact slice.inside

variable [Scalar α]

/-- A lenient run never fails. A strict run of the same settings and source gives the same diagram exactly
if nothing is found, and else fails with just what the lenient run finds, in the same order, and with the
source. The reports of that failure are one summary, which marks nothing, and one report for each finding in
order, which keeps all of it and marks nothing outside of the source. -/
theorem build_strict (settings : Settings α) (source : String) :
    ∃ lenient : Diagram α, Diagram.build settings false source = .ok lenient ∧
      (∀ strict, Diagram.build settings true source = .ok strict ↔
        lenient.diagnostics = [] ∧ strict = lenient) ∧
      (∀ failure, Diagram.build settings true source = .error failure ↔
        lenient.diagnostics ≠ [] ∧ failure = .strict lenient.diagnostics source) ∧
      ∃ summary entries,
        Report.allOfFailure (.strict lenient.diagnostics source) = summary :: entries ∧
        summary.text = toString lenient.diagnostics.length ++ " diagnostic(s) reported in strict mode" ∧
        summary.remarks = [] ∧
        List.Forall₂ Report.Shows entries lenient.diagnostics ∧
        (∀ others, List.Forall₂ Report.Shows entries others → others = lenient.diagnostics) ∧
        ∀ entry ∈ entries, ∀ remark ∈ entry.remarks,
          remark.offset + remark.length ≤ source.utf8ByteSize := by
  let lenient := Diagram.ofSource settings source
  have shown : List.Forall₂ Report.Shows (lenient.diagnostics.map Report.ofDiagnostic)
      lenient.diagnostics :=
    List.forall₂_map_left_iff.mpr (List.forall₂_same.mpr fun diagnostic _ =>
      Report.shows_ofDiagnostic diagnostic)
  have accepted (none : lenient.diagnostics = []) : Diagram.build settings true source = .ok lenient :=
    Diagram.build_accepted fun _ => none
  refine ⟨lenient, rfl, ?_, ?_, _, _, rfl, rfl, rfl, shown, ?_, ?_⟩
  · intro strict
    by_cases none : lenient.diagnostics = []
    · simp [accepted none, none, eq_comm]
    · simp [Diagram.build_refused none, none]
  · intro failure
    by_cases none : lenient.diagnostics = []
    · simp [accepted none, none]
    · simp [Diagram.build_refused none, none, lenient, eq_comm]
  · exact fun others same => Report.rightUnique_shows.forall₂ same shown
  · intro entry member
    obtain ⟨diagnostic, found, shows⟩ := exists_of_forall₂ shown.flip entry member
    exact shows.inside (within_ofSource settings source diagnostic found)

end BoxDiagram
