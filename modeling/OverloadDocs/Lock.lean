/-!
The lock that keeps builds apart. A second build does not wait; it is refused.
-/

namespace OverloadDocs

/-- Whether a build holds the lock. -/
structure BuildLock where
  held : Bool := false
  deriving DecidableEq, Inhabited

namespace BuildLock

/-- Takes the lock if it is free, and says whether it did. -/
def tryAcquire (l : BuildLock) : Bool × BuildLock := (!l.held, ⟨true⟩)

def release (_ : BuildLock) : BuildLock := ⟨false⟩

end BuildLock

end OverloadDocs
