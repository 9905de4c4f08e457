/-!
Characters of a text and the bytes they take in UTF-8. Texts are scanned as lists of characters;
every position that is handed out counts bytes.
-/

namespace BoxDiagram.Text

def byteLength : List Char → Nat
  | [] => 0
  | char :: rest => char.utf8Size + byteLength rest

@[simp] theorem byteLength_nil : byteLength [] = 0 := rfl

@[simp] theorem byteLength_cons (char : Char) (rest : List Char) :
    byteLength (char :: rest) = char.utf8Size + byteLength rest := rfl

@[simp] theorem byteLength_append (left right : List Char) :
    byteLength (left ++ right) = byteLength left + byteLength right := by
  induction left with
  | nil => simp
  | cons char rest ih => simp [ih, Nat.add_assoc]

/-- Cuts a text at every separator; `n` separators leave `n + 1` parts. -/
def splitOn (isSeparator : Char → Bool) : List Char → List (List Char)
  | [] => [[]]
  | char :: rest =>
    match splitOn isSeparator rest with
    | [] => [[char]]
    | part :: parts => if isSeparator char then [] :: part :: parts else (char :: part) :: parts

theorem splitOn_ne_nil (isSeparator : Char → Bool) (text : List Char) :
    splitOn isSeparator text ≠ [] := by
  cases text with
  | nil => simp [splitOn]
  | cons char rest => unfold splitOn; split <;> (try split) <;> simp

def dropEndWhile (test : Char → Bool) (text : List Char) : List Char :=
  (text.reverse.dropWhile test).reverse

def physicalLines (text : List Char) : List (List Char) :=
  splitOn (· == '\n') text

end BoxDiagram.Text
