import BoxDiagram.Proofs.LineCover

/-!
Lines in a text that stands further right. Positions are only ever moved on by lengths of the text, so
what a text says does not depend on where it begins, and all of its spans move together.
-/

namespace BoxDiagram

open Text Grammar

theorem Span.shift_ofLength (distance start length : Nat) :
    (Span.ofLength start length).shift distance = Span.ofLength (start + distance) length :=
  Span.ext rfl (Nat.add_right_comm start length distance)

namespace Statement

variable (distance start : Nat)

theorem shift_locate (part : List Char) :
    (locate start part).shift distance = locate (start + distance) part := by
  rw [locate, locate, Located.shift, Span.shift_ofLength]

theorem shift_locateDeclaration (parts : DeclarationParts) :
    (locateDeclaration start parts).shift distance = locateDeclaration (start + distance) parts := by
  have list : start + byteLength parts.name + byteLength parts.gap + 1 + distance =
      start + distance + byteLength parts.name + byteLength parts.gap + 1 := by omega
  rw [locateDeclaration, Declaration.shift, shift_locate, Option.map_map, locateDeclaration, ← list]
  congr 2
  exact funext (shift_locate distance _)

theorem shift_locateHops (label : Option String) (source : Located String) (parts : List HopParts) :
    (locateHops label source parts).map (Hop.shift distance) =
      locateHops label (source.shift distance) parts := by
  induction parts generalizing source with
  | nil => rfl
  | cons first rest ih =>
    have target : (locate (source.span.stop + byteLength first.arrow) first.target).shift distance =
        locate ((source.shift distance).span.stop + byteLength first.arrow) first.target := by
      rw [shift_locate, Nat.add_right_comm]
      rfl
    rw [locateHops, List.map_cons, ih, target, locateHops, Hop.shift, target]

theorem shift_locateConnection (parts : ConnectionParts) :
    (locateConnection start parts).map (Hop.shift distance) =
      locateConnection (start + distance) parts := by
  rw [locateConnection, shift_locateHops, shift_locate, locateConnection]

theorem shift_arrowSpan (before : List Char) :
    (arrowSpan start before).shift distance = arrowSpan (start + distance) before := by
  unfold arrowSpan
  extract_lets arrow moved
  split
  next head =>
    have positive : 0 < byteLength before := by
      apply byteLength_pos
      rintro rfl
      cases head
    have begins : arrow - 1 + distance = moved - 1 := by omega
    rw [Span.shift_ofLength, begins]
  next =>
    have begins : arrow + distance = moved := by omega
    rw [Span.shift_ofLength, begins]

theorem shift_diagnose (line : List Char) :
    (diagnose line start).shift distance = diagnose line (start + distance) := by
  unfold diagnose
  extract_lets span moved
  have whole : span.shift distance = moved := Span.shift_ofLength distance start _
  split
  next =>
    rw [← whole]
    rfl
  next =>
    split
    next before _ =>
      rw [← whole, ← shift_arrowSpan]
      rfl
    next =>
      split
      next before _ =>
        extract_lets skipped
        have begins : start + distance + skipped = start + skipped + distance :=
          Nat.add_right_comm start distance skipped
        rw [begins, ← Span.shift_ofLength distance]
        rfl
      next => rfl

theorem shift_classify (line : List Char) :
    (classify line start).shift distance = classify line (start + distance) := by
  unfold classify
  split
  next => rfl
  next => rfl
  next => rfl
  next => rfl
  next => rfl
  next =>
    split
    next parts _ =>
      rw [← shift_locateDeclaration]
      dsimp only
      split <;> rfl
    next =>
      split
      next parts _ =>
        rw [← shift_locateConnection]
        rfl
      next =>
        split
        next => rfl
        next => rfl
        next => exact shift_diagnose distance start line

end Statement

namespace Line

variable (distance start : Nat)

theorem shift_ofText? (text : List Char) :
    (ofText? start text).map (shift distance) = ofText? (start + distance) text := by
  unfold ofText?
  extract_lets body
  split
  next => rfl
  next =>
    rw [Option.map_some, shift, Span.shift_ofLength, Statement.shift_classify, Nat.add_right_comm]

theorem shift_ofPieces (pieces : List Piece) :
    (ofPieces start pieces).map (shift distance) = ofPieces (start + distance) pieces := by
  induction pieces generalizing start with
  | nil => rfl
  | cons piece pieces ih =>
    have further := ih (start + byteLength piece.text)
    rw [Nat.add_right_comm] at further
    unfold ofPieces
    extract_lets more moved
    have later : more.map (shift distance) = moved := further
    cases piece with
    | statement text =>
      have first := shift_ofText? distance start text
      dsimp only
      rw [List.map_append, later, ← first]
      cases ofText? start text <;> rfl
    | separator => exact later
    | remark words => exact later

theorem shift_ofPhysicalLines (physicals : List (List Char)) :
    (ofPhysicalLines start physicals).map (shift distance) =
      ofPhysicalLines (start + distance) physicals := by
  induction physicals generalizing start with
  | nil => rfl
  | cons physical others ih =>
    have next : start + byteLength physical + 1 + distance =
        start + distance + byteLength physical + 1 := by omega
    rw [ofPhysicalLines, List.map_append, shift_ofPieces, ih, next, ofPhysicalLines]

end Line

end BoxDiagram
