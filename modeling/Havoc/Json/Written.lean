/-! # Documents as written

    A document in the notation of JSON, as it stands in the bytes: numbers and texts keep their
    spelling, and the members of an object keep their order and their repetitions.  What a number
    or a text means is decided later, and only where somebody asks for it: a member that nobody
    asks for may hold a number beyond every range. -/

namespace Havoc.Json

/-- A document as written. -/
inductive Written where
  | null
  | bool (b : Bool)
  /-- A number by its spelling. -/
  | number (lexeme : List Char)
  /-- A text by the bytes between its quotes, escapes included. -/
  | text (raw : List UInt8)
  | array (items : List Written)
  | object (members : List (List UInt8 × Written))
  deriving Repr

end Havoc.Json
