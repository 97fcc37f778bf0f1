/-!
A map of bounded size that forgets the entry used longest ago.
-/

namespace OverloadDocs

/-- Entries with the most recently used first. -/
structure Cache (κ ν : Type) where
  capacity : Nat
  entries : List (κ × ν) := []
  deriving Inhabited

namespace Cache

variable {κ ν : Type} [DecidableEq κ]

def size (c : Cache κ ν) : Nat := c.entries.length

/-- The entries of all keys but one. -/
def without (k : κ) (entries : List (κ × ν)) : List (κ × ν) := entries.filter (·.1 ≠ k)

def erase (c : Cache κ ν) (k : κ) : Cache κ ν := { c with entries := without k c.entries }

def clear (c : Cache κ ν) : Cache κ ν := { c with entries := [] }

def find? (c : Cache κ ν) (k : κ) : Option ν := (c.entries.find? (·.1 = k)).map (·.2)

/-- The cache after a use of a key. -/
def touch (c : Cache κ ν) (k : κ) : Cache κ ν :=
  match c.find? k with
  | some v => { c with entries := (k, v) :: without k c.entries }
  | none => c

/-- Remembers a value, forgetting the entry used longest ago when there are too many. -/
def insert (c : Cache κ ν) (k : κ) (v : ν) : Cache κ ν :=
  { c with entries := ((k, v) :: without k c.entries).take c.capacity }

end Cache

end OverloadDocs
