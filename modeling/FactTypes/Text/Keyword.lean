import FactTypes.Text.Blank

/-! Words that are written by hand in options and markers are read leniently.
Letters beyond ASCII keep their case, so `ALWAYS` with a long s is not a keyword. -/

namespace FactTypes

namespace Text

/-- The form under which keywords are compared: trimmed of blanks, with its
    ASCII capitals lowered. -/
def keyword (word : String) : String :=
  String.ofList ((trim word.toList).map Char.toLower)

end Text

end FactTypes
