/-!
What depends on the clock and the disk. The outer layer takes these readings; everything else that is
answered follows from the sources and the store.
-/

namespace OverloadDocs

/-- Texts for measured things: how long a run took, when a project was last indexed, and how large the
database is. -/
structure Readings where
  duration : String
  indexedAt : String
  indexSize : String
  deriving DecidableEq, Inhabited

end OverloadDocs
