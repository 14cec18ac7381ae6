/-!
# Capital letters

The capitals of the letters whose capital is an ASCII letter. This is enough to compare a text with
names in ASCII capitals, whatever other letters it holds.
-/

namespace MonkeyFront.Text

/-- The capital of a letter, where that is an ASCII letter. The dotless i and the long s are the two
letters outside ASCII that have one. -/
def capital (c : Char) : Char :=
  if c = '\u0131' then 'I' else if c = '\u017f' then 'S' else c.toUpper

def capitals (text : String) : String := text.map capital

end MonkeyFront.Text
