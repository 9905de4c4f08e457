import BoxDiagram.Diagnostic.Catalog
import BoxDiagram.Statement
import BoxDiagram.Statement.Grammar

/-!
Reads what a logical line says. A line is tried as a declaration, then as a connection, then as a
title; a line that is none of these but has the look of one is malformed.
-/

namespace BoxDiagram.Statement

open Text Grammar

def locate (start : Nat) (part : List Char) : Located String :=
  ⟨String.ofList part, Span.ofLength start (byteLength part)⟩

def locateDeclaration (start : Nat) (parts : DeclarationParts) : Declaration where
  name := locate start parts.name
  properties := parts.body.map
    (locate (start + byteLength parts.name + byteLength parts.gap + 1))

/-- The hops behind a name; the label belongs to the last one. -/
def locateHops (label : Option String) (source : Located String) : List HopParts → List Hop
  | [] => []
  | parts :: rest =>
    let target := locate (source.span.stop + byteLength parts.arrow) parts.target
    ⟨source, target, parts.kind, if rest.isEmpty then label else none⟩ ::
      locateHops label target rest

def locateConnection (start : Nat) (parts : ConnectionParts) : List Hop :=
  locateHops (parts.label.map String.ofList) (locate start parts.first) parts.hops

/-- The span of an arrow behind a text, with the head that the text may end in. -/
def arrowSpan (start : Nat) (before : List Char) : Span :=
  let arrow := start + byteLength before
  if before.getLast? = some '<' then Span.ofLength (arrow - 1) 3 else Span.ofLength arrow 2

def diagnose (line : List Char) (start : Nat) : Statement :=
  let span := Span.ofLength start (byteLength line)
  if line.head? = some '[' || line.head? = some '{' then
    .malformed (.missingName span)
  else match beforeArrow? false 0 line with
    | some before => .malformed (.malformedConnection span (arrowSpan start before))
    | none =>
      match beforeBracket? line with
      | some before =>
        let skipped := byteLength before
        .malformed (.malformedList
          (Span.ofLength (start + skipped) (byteLength (line.drop before.length))))
      | none => .ignorable

def classify (line : List Char) (start : Nat) : Statement :=
  match line with
  | [] => .ignorable
  | '#' :: _ | '/' :: '/' :: _ => .comment
  | ['}'] => .containerClose
  | ['{'] => .blockOpen
  | _ =>
    match declaration? line with
    | some parts =>
      let declaration := locateDeclaration start parts
      if parts.opens then .containerOpen declaration else .leaf declaration
    | none =>
      match connection? line with
      | some parts => .connection (locateConnection start parts)
      | none =>
        match title? line with
        | some [] => .ignorable
        | some text => .title (String.ofList text)
        | none => diagnose line start

end BoxDiagram.Statement
