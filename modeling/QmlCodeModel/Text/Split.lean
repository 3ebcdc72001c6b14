import QmlCodeModel.Text.CharClass

/-! Cutting texts at separators and at blanks. -/
namespace QmlCodeModel

/-- The parts between the separators. There is one part more than there are separators. -/
def splitOnChar (separator : Char) : List Char → List (List Char)
  | [] => [[]]
  | c :: rest =>
    if c == separator then [] :: splitOnChar separator rest
    else
      match splitOnChar separator rest with
      | part :: parts => (c :: part) :: parts
      | [] => [[c]]

/-- The text before the first separator, and the text after it if there is one. -/
def splitOnce (separator : Char) (text : List Char) : List Char × Option (List Char) :=
  match text.dropWhile (· != separator) with
  | _ :: rest => (text.takeWhile (· != separator), some rest)
  | [] => (text, none)

/-- Drops the blanks at both ends. -/
def trimBlanks (text : List Char) : List Char :=
  ((text.dropWhile CharClass.blank.contains).reverse.dropWhile CharClass.blank.contains).reverse

/-- The runs of characters that are no blanks. -/
def words (text : List Char) : List (List Char) :=
  let (word, rest) := text.foldr
    (fun c (word, rest) =>
      if CharClass.blank.contains c then ([], if word.isEmpty then rest else word :: rest)
      else (c :: word, rest))
    (([] : List Char), ([] : List (List Char)))
  if word.isEmpty then rest else word :: rest

end QmlCodeModel
