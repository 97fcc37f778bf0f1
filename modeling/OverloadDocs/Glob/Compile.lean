import OverloadDocs.Glob.Matcher
import OverloadDocs.Glob.Path

/-!
From the parts of a path pattern to a matcher. What alternatives have in common at their ends is taken out
of them; matchers that stand side by side are glued together where their widths are known or they are runs
and single characters of one kind; the rest is split at the widest matcher.
-/

namespace OverloadDocs.Glob

mutual

def Part.same : Part → Part → Bool
  | .text s, .text t => s == t
  | .run, .run => true
  | .anything, .anything => true
  | .one, .one => true
  | .listed m cs, .listed n ds => m == n && cs == ds
  | .ranged m lo hi, .ranged n lo' hi' => m == n && lo == lo' && hi == hi'
  | .nothing, .nothing => true
  | .sequence ps, .sequence qs => sameParts ps qs
  | .choice ps, .choice qs => sameParts ps qs
  | _, _ => false

def sameParts : List Part → List Part → Bool
  | [], [] => true
  | p :: ps, q :: qs => p.same q && sameParts ps qs
  | _, _ => false

end

/-- The parts of a sequence. -/
def Part.inner? : Part → Option (List Part)
  | .sequence parts => some parts
  | _ => none

/-- The shortest of several lists of parts, the first of them counting. -/
def shortestOf (first : List Part) (others : List (List Part)) : List Part :=
  others.foldl (fun least parts => if parts.length < least.length then parts else least) first

/-- How far the search for common parts has come at both ends: how many have been found, and whether it
goes on there. -/
structure Common where
  left : Nat := 0
  right : Nat := 0
  stopLeft : Bool := false
  stopRight : Bool := false

/-- Compares the part at a position from the left, and the one at the same position from the right, with
those of another alternative. Where the positions meet, a common part counts on the left. -/
def Common.compare (least : List Part) (i : Nat) (c : Common) (other : List Part) : Common :=
  if c.stopLeft && c.stopRight then c
  else
    let j := least.length - 1 - i
    let sameAt (k l : Nat) := match least[k]?, other[l]? with
      | some p, some q => p.same q
      | _, _ => false
    let stopLeft := c.stopLeft || !sameAt i i
    let stopRight := c.stopRight || (!stopLeft && j ≤ i)
    let stopRight := stopRight || !sameAt j (j + other.length - least.length)
    { c with stopLeft, stopRight }

/-- Looks at positions from a given one on. -/
def Common.search (least : List Part) (others : List (List Part)) (fuel i : Nat) (c : Common) : Common :=
  match fuel with
  | 0 => c
  | fuel + 1 =>
    if least.length ≤ c.left + c.right || least.length ≤ i || (c.stopLeft && c.stopRight) then c
    else
      let c := others.foldl (Common.compare least i) c
      let c := if c.stopLeft then c else { c with left := c.left + 1 }
      let c := if c.stopRight then c else { c with right := c.right + 1 }
      Common.search least others fuel (i + 1) c

/-- How many parts alternatives have in common at their left and right ends. The shortest alternative is
not compared with itself. -/
def commonEnds (alternatives : List (List Part)) : Nat × Nat :=
  match alternatives with
  | [] => (0, 0)
  | [_] => (0, 0)
  | first :: others =>
    let least := shortestOf first others
    let place := (alternatives.findIdx? fun parts => parts.length = least.length).getD 0
    let c := Common.search least (alternatives.eraseIdx place) least.length 0 {}
    (c.left, c.right)

def addNew (parts : List Part) (p : Part) : List Part := if parts.any (·.same p) then parts else parts ++ [p]

/-- Alternatives with what they have in common taken out, if they have anything in common. -/
def factored? (alternatives : List Part) : Option Part := do
  let inners ← alternatives.mapM Part.inner?
  let (left, right) := commonEnds inners
  if left = 0 ∧ right = 0 then none
  else
    let first := inners.headD []
    let middles := inners.foldl (fun found parts =>
      let middle := (parts.drop left).take (parts.length - left - right)
      addNew found (if middle.isEmpty then .nothing else .sequence middle)) []
    let middle := match middles with
      | [.nothing] => []
      | [p] => [p]
      | ps => [.choice ps]
    some (.sequence ((if left = 0 then [] else [.sequence (first.take left)]) ++ middle ++
      (if right = 0 then [] else [.sequence (first.drop (first.length - right))])))

namespace Matcher

/-- The characters that a run or a single character may not be. -/
def excluded? : Matcher → Option (List Char)
  | .anything => some []
  | .run separators => some separators
  | .one separators => some separators
  | .listed true chars => some chars
  | _ => none

/-- Whether a matcher is a run without separators. -/
def isRun : Matcher → Bool
  | .run _ => true
  | _ => false

/-- Whether a matcher is any run. -/
def isAnything : Matcher → Bool
  | .anything => true
  | _ => false

/-- Runs and single characters that may not be the same characters, as one matcher: it only counts the
characters and excludes some. -/
def gluedRuns? (matchers : List Matcher) : Option Matcher := do
  let excluded ← matchers.mapM excluded?
  let separators ← excluded.head?
  if matchers.length ≤ 1 || excluded.any (· ≠ separators) then none
  else
    let runs := matchers.any isRun
    let anythings := matchers.any isAnything
    let count := (matchers.filter fun m => !m.isRun && !m.isAnything).length
    if anythings && !runs && count = 0 then some .anything
    else if runs && !anythings && count = 0 then some (.run separators)
    else if (runs || anythings) && 0 < count && separators.isEmpty then some (.atLeast count)
    else
      let counted := if count = 0 then []
        else if runs || anythings then [.atLeast count]
        else [.atLeast count, .atMost count]
      let excluding := if separators.isEmpty then [] else [.holds true (Text.bytesOfChars separators)]
      some (.every (counted ++ excluding))

/-- Matchers of known widths, as a row. -/
def gluedRow? (matchers : List Matcher) : Option Matcher := do
  let widths ← matchers.mapM width
  if matchers.length ≤ 1 then none else some (.row (widths.foldl Nat.add 0) matchers)

/-- Matchers that stand side by side, as one. -/
def glued? (matchers : List Matcher) : Option Matcher := (gluedRuns? matchers).orElse fun _ => gluedRow? matchers

/-- Matchers of a list that can be glued: from where to where, and what they are together. -/
structure Glued where
  start : Nat
  stop : Nat
  matcher : Matcher

/-- Whether gluing other matchers is better: they are more, or wider. -/
def Glued.isWorse (g h : Glued) : Bool :=
  (match g.matcher.width, h.matcher.width with
    | some m, some n => decide (m < n)
    | _, _ => false) || decide (g.stop - g.start < h.stop - h.start)

/-- All matchers side by side that can be glued, from the left, the longest first. -/
def allGlued (matchers : List Matcher) : List Glued :=
  let n := matchers.length
  (List.range n).flatMap fun l =>
    (List.range (n - l)).filterMap fun k =>
      let r := n - k
      (glued? ((matchers.drop l).take (r - l))).map fun m => ⟨l, r, m⟩

/-- The best matchers to glue. -/
def bestGlued? (matchers : List Matcher) : Option Glued :=
  (allGlued matchers).foldl (fun best g =>
    match best with
    | none => some g
    | some b => if b.isWorse g then some g else best) none

def glueAll (fuel : Nat) (matchers : List Matcher) : List Matcher :=
  match fuel with
  | 0 => matchers
  | fuel + 1 =>
    match bestGlued? matchers with
    | none => matchers
    | some g => glueAll fuel (matchers.take g.start ++ g.matcher :: matchers.drop g.stop)

/-- The width of a part of a split; nothing is zero wide. -/
def partWidth (m : Option Matcher) : Option Nat :=
  match m with
  | none => some 0
  | some m => m.width

def ofSplit (value : Matcher) (left right : Option Matcher) : Matcher :=
  let width := do
    let l ← partWidth left
    let v ← value.width
    let r ← partWidth right
    return l + v + r
  .split value left right (partWidth left) (partWidth right) width

/-- The position of the widest matcher, the last of several. -/
def widest? (matchers : List Matcher) : Option Nat :=
  ((matchers.mapIdx fun i m => (i, m.width)).foldl (fun best (i, width) =>
    match width, best with
    | none, _ => best
    | some w, none => some (i, w)
    | some w, some (_, most) => if most ≤ w then some (i, w) else best) none).map (·.1)

/-- The matcher of several, one after the other. -/
def joined (fuel : Nat) (matchers : List Matcher) : Option Matcher :=
  match fuel, matchers with
  | _, [] => none
  | _, [m] => some m
  | 0, _ => none
  | fuel + 1, m :: ms =>
    match glued? (m :: ms) with
    | some g => some g
    | none =>
      match widest? (m :: ms) with
      | none => some (ofSplit m none (joined fuel ms))
      | some i =>
        ((m :: ms)[i]?).map fun value =>
          ofSplit value (joined fuel ((m :: ms).take i)) (joined fuel ((m :: ms).drop (i + 1)))

mutual

/-- A matcher in a simpler form. -/
def simplified : Matcher → Matcher
  | .run [] => .anything
  | .anyOf [m] => m
  | .listed false [c] => .text (String.utf8EncodeChar c)
  | .split value left right leftWidth rightWidth width =>
    let left := simplifiedPart left
    let right := simplifiedPart right
    match value, left, right with
    | .text s, none, none => .text s
    | .text s, some .anything, some .anything => .holds false s
    | .text s, some .anything, none => .ends s
    | .text s, none, some .anything => .starts s
    | .text s, none, some (.ends t) => .startsAndEnds s t
    | .text s, some (.starts t), none => .startsAndEnds t s
    | .text s, some (.run separators), none => .runThenEnds separators s
    | .text s, none, some (.run separators) => .startsThenRun s separators
    | value, left, right => .split value left right leftWidth rightWidth width
  | m => m

/-- A part of a split in a simpler form. -/
def simplifiedPart : Option Matcher → Option Matcher
  | none => none
  | some m => some m.simplified

end

/-- The matcher of a part. The fuel bounds the depth of the parts. -/
def ofPart (fuel : Nat) (separators : List Char) (p : Part) : Matcher :=
  match fuel with
  | 0 => .nothing
  | fuel + 1 =>
    match p with
    | .text s => .text (Text.bytesOfChars s)
    | .run => (Matcher.run separators).simplified
    | .anything => .anything
    | .one => .one separators
    | .listed negated chars => (Matcher.listed negated chars).simplified
    | .ranged negated lo hi => .ranged negated lo hi
    | .nothing => .nothing
    | .sequence parts =>
      let matchers := parts.map fun p => (ofPart fuel separators p).simplified
      ((joined (matchers.length + 1) (glueAll matchers.length matchers)).getD .nothing).simplified
    | .choice alternatives =>
      match factored? alternatives with
      | some p => ofPart fuel separators p
      | none => .anyOf (alternatives.map fun p => (ofPart fuel separators p).simplified)

/-- The matcher of the pattern that a text spells. -/
def ofPath (separators : List Char) (text : String) : Except PathError Matcher :=
  (partsOf text).map fun parts => ofPart (4 * text.length + 8) separators (.sequence parts)

end Matcher

end OverloadDocs.Glob
