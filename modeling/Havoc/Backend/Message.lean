import Havoc.Text.Cut
import Havoc.Draw.Select

/-! # Made-up messages

    Ten to twenty words of the usual filler, for a broker job that is given no message. -/

namespace Havoc.Backend

/-- The words after the first. -/
def fillerWords : List String :=
  ["ipsum", "dolor", "sit", "amet", "consectetur", "adipiscing", "elit", "sed", "do", "eiusmod",
    "tempor", "incididunt", "ut", "labore", "et", "dolore", "magna", "aliqua", "enim", "ad", "minim",
    "veniam", "quis", "nostrud", "exercitation", "ullamco", "laboris", "nisi", "aliquip", "ex", "ea",
    "commodo", "consequat"]

/-- Ten to twenty drawn words. -/
def fillerText : Draw String := do
  let count ← Draw.belowShort 11
  let words ← Draw.times (10 + count) (Draw.choose "lorem" fillerWords)
  return " ".intercalate words

end Havoc.Backend
