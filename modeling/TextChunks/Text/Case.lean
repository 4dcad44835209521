import TextChunks.Text.Basic

namespace TextChunks.Text

/-- The characters beyond ASCII whose upper case is ASCII; a ligature has several letters. -/
def asciiCapitals : List (Char × String) :=
  [('\u00DF', "SS"), ('\u0131', "I"), ('\u017F', "S"), ('\uFB00', "FF"), ('\uFB01', "FI"),
    ('\uFB02', "FL"), ('\uFB03', "FFI"), ('\uFB04', "FFL"), ('\uFB05', "ST"), ('\uFB06', "ST")]

def upperChar (c : Char) : Text :=
  match asciiCapitals.lookup c with
  | some letters => letters.toList
  | none => [c.toUpper]

def upper (s : Text) : Text := s.flatMap upperChar

/-- Of the characters beyond ASCII only the Kelvin sign has a lower case in ASCII. -/
def lower (s : Text) : Text := s.map fun c => if c = '\u212A' then 'k' else c.toLower

def asciiLower (s : Text) : Text := s.map Char.toLower

end TextChunks.Text
