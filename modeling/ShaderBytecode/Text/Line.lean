/-!
# Lines of text

`Line.split` cuts a text at its line ends, and `Line.trim` takes the blanks off both ends of a line.
What counts as blank is the Unicode property `White_Space`.
-/

namespace ShaderBytecode
namespace Line

/-- The characters with the property `White_Space`, as ranges from first to last. -/
def blankRanges : List (Char × Char) :=
  [('\t', '\r'), (' ', ' '), ('\u0085', '\u0085'), ('\u00a0', '\u00a0'), ('\u1680', '\u1680'),
    ('\u2000', '\u200a'), ('\u2028', '\u2029'), ('\u202f', '\u202f'), ('\u205f', '\u205f'),
    ('\u3000', '\u3000')]

def isBlank (c : Char) : Bool := blankRanges.any fun (first, last) => first ≤ c && c ≤ last

/-- The characters between the line ends. A line end that nothing follows starts no further line. -/
def split : List Char → List (List Char)
  | [] => []
  | c :: text =>
    if c = '\n' then [] :: split text
    else
      match split text with
      | [] => [[c]]
      | line :: lines => (c :: line) :: lines

/-- A line without the blanks at its ends. -/
def trim (line : List Char) : List Char :=
  ((line.dropWhile isBlank).reverse.dropWhile isBlank).reverse

/-- The lines of a text, each without the blanks at its ends. -/
def trimmed (text : String) : List String :=
  (split text.toList).map fun line => String.ofList (trim line)

end Line
end ShaderBytecode
