/-! # Words with a meaning

A vocabulary lists the spellings of the values that a setting can take.  Words are compared
without regard to the case of the letters `A` to `Z`; that is the full case folding here, because
no word of a vocabulary holds a letter (such as `k`) that is also the lower case of a character
outside ASCII. -/

namespace TypeStream.Text

/-- A text that no word of a vocabulary matches. -/
structure UnknownWord where
  /-- What was to be named, such as `charset`. -/
  noun : String
  /-- The text as it was given. -/
  text : String
  /-- The main spellings, as a phrase. -/
  choices : String
deriving DecidableEq, Repr

/-- The report shown to the user. -/
def UnknownWord.message (e : UnknownWord) : String :=
  "Unknown " ++ e.noun ++ ": " ++ e.text ++ ". Use " ++ e.choices

/-- The spellings of the values of `α`. -/
structure Vocabulary (α : Type) where
  /-- What the words name. -/
  noun : String
  /-- The main spellings, as a phrase. -/
  choices : String
  /-- Every spelling in lower case, with its meaning. -/
  words : List (String × α)

namespace Vocabulary

variable {α : Type}

/-- The meaning of `text`, upper and lower case being alike. -/
def parse (v : Vocabulary α) (text : String) : Except UnknownWord α :=
  match v.words.lookup text.toLower with
  | some meaning => .ok meaning
  | none => .error ⟨v.noun, text, v.choices⟩

end Vocabulary

end TypeStream.Text
