import Havoc.Time.Calendar

/-! # Pages

    Every page has a title, a heading, a background colour, some content and the time at which it
    was made.  Text from elsewhere is escaped on its way into a page, so that it can open no tag
    and close no attribute. -/

namespace Havoc.Http

/-- How a page writes a character of a text. -/
def escapeChar : Char → List Char
  | '&' => "&amp;".toList
  | '<' => "&lt;".toList
  | '>' => "&gt;".toList
  | '"' => "&quot;".toList
  | '\'' => "&#39;".toList
  | c => [c]

/-- How a page writes a text. -/
def escape (s : String) : String := String.ofList (s.toList.flatMap escapeChar)

/-- A paragraph of markup. -/
def paragraph (markup : String) : String := "<p>" ++ markup ++ "</p>"

/-- A page; the colour and the content are markup. -/
def layout (title heading color content : String) (now : Moment) : String :=
  "<html>\n<head><title>" ++ title ++ "</title></head>\n<body style=\"background-color:" ++ color ++
    ";\">\n<h1>" ++ heading ++ "</h1>\n" ++ content ++ "\n" ++
    paragraph ("requested_at: " ++ now.precise) ++ "\n</body>\n</html>\n"

end Havoc.Http
