/-!
Places in source files.
-/

namespace OverloadDocs

/-- Where a declaration stands: its file, the line it starts on, and the line its parameter list
closes on. An empty file or a zero line is unknown. -/
structure Location where
  file : String := ""
  line : Int := 0
  endLine : Int := 0
  deriving DecidableEq, Inhabited

namespace Location

def render (l : Location) : String :=
  if l.file = "" then
    if l.line = 0 then "" else s!"line {l.line}"
  else s!"{l.file}:{l.line}"

/-- The text of a place, with words for an unknown one. -/
def describe (l : Location) : String :=
  if l.render = "" then "unknown location" else l.render

end Location

end OverloadDocs
