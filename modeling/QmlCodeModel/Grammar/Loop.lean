import QmlCodeModel.Grammar.State

/-! Loops of the grammar. A round that goes on has taken a token, so there are no more rounds than
tokens to come; a loop with more rounds than that would never end, and then has no answer. -/
namespace QmlCodeModel.Grammar

/-- What one round of a loop gives: the items it read, and whether another round follows. -/
structure Round (α : Type) where
  items : List α
  more : Bool

/-- Runs at most `rounds` rounds and puts their items together. -/
def collectWithin {α : Type} (round : Parser (Round α)) : Nat → Parser (List α)
  | 0 => stay
  | rounds + 1 => do
    let r ← round
    if r.more then
      let later ← collectWithin round rounds
      pure (r.items ++ later)
    else pure r.items

def collect {α : Type} (round : Parser (Round α)) : Parser (List α) := do
  let tokens ← upcoming
  collectWithin round (tokens.length + 1)

/-- Applies a step at most `rounds` times, until it gives nothing. -/
def iterateWithin {α : Type} (step : α → Parser (Option α)) : Nat → α → Parser α
  | 0, _ => stay
  | rounds + 1, a => do
    match ← step a with
    | some next => iterateWithin step rounds next
    | none => pure a

def iterate {α : Type} (step : α → Parser (Option α)) (a : α) : Parser α := do
  let tokens ← upcoming
  iterateWithin step (tokens.length + 1) a

/-- Takes a token if the part read has taken none. -/
def progressing {α : Type} (p : Parser α) : Parser α := do
  let before ← taken
  let result ← p
  skipIf ((← taken) == before)
  pure result

/-- A round that is the last one at the end of the source and at a token where the rounds stop. -/
def roundUntil {α : Type} (stops : Token → Bool) (round : Parser (Round α)) :
    Parser (Round α) := do
  let t ← peek
  if stops t || t.kind == .eof then pure ⟨[], false⟩ else round

/-- Runs rounds until the end of the source or a token where they stop. -/
def collectUntil {α : Type} (stops : Token → Bool) (round : Parser (Round α)) :
    Parser (List α) :=
  collect (roundUntil stops round)

/-- A part as a list of one. -/
def one {α : Type} (part : Parser α) : Parser (List α) := do return [← part]

/-- A round with one part, which another always follows. -/
def everyRound {α : Type} (part : Parser (List α)) : Parser (Round α) := do
  return ⟨← progressing part, true⟩

/-- A round with one part, which another follows after a comma. -/
def commaRound {α : Type} (part : Parser (List α)) : Parser (Round α) := do
  let items ← progressing part
  return ⟨items, ← eatPunct ","⟩

/-- Reads parts separated by commas up to a closing punctuator. A part that takes nothing is skipped
by a token. -/
def commaSeparated {α : Type} (close : String) (part : Parser (List α)) : Parser (List α) :=
  collectUntil (·.isPunct close) (commaRound part)

end QmlCodeModel.Grammar
