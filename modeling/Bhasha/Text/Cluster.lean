import Bhasha.Text.ClusterBreak

/-!
Characters as a reader sees them: the extended grapheme clusters of a text.

Between two code points there is a boundary unless a rule joins them. Most rules look at the two
alone. Three look further back: a flag is two regional indicators, so an even number of them
before a place leaves nothing open; a pictograph is joined to one before it over marks and one
joiner; and a consonant is joined to one before it over marks of which one at least is a linker.
What these need to know of the text before a place is kept in `Before`.
-/

namespace Bhasha.Text

/-- How far a sequence of pictographs has come. -/
inductive PictographState where
  /-- No pictograph is open. -/
  | closed
  /-- A pictograph, and marks that extend it. -/
  | opened
  /-- The same, and a joiner behind them. -/
  | joined
deriving DecidableEq, Repr

/-- How far a conjunct of consonants has come. -/
inductive ConjunctState where
  /-- No consonant is open. -/
  | closed
  /-- A consonant, and marks without a linker. -/
  | opened
  /-- A consonant, and marks with a linker. -/
  | linked
deriving DecidableEq, Repr

/-- What the text before a place ends in. -/
structure Before where
  /-- The part that the last character plays. -/
  last : ClusterBreak := .control
  /-- Whether it ends in an odd number of regional indicators. -/
  halfFlag : Bool := false
  /-- The pictograph it ends in. -/
  pictograph : PictographState := .closed
  /-- The conjunct it ends in. -/
  conjunct : ConjunctState := .closed
deriving DecidableEq, Repr

namespace Before

/-- What the text ends in after one more character. -/
def next (b : Before) (c : Char) : Before where
  last := .of c
  halfFlag := ClusterBreak.of c == .regional && !b.halfFlag
  pictograph :=
    match ClusterBreak.of c, b.pictograph with
    | .pictograph, _ => .opened
    | .extend, .opened => .opened
    | .joiner, .opened => .joined
    | _, _ => .closed
  conjunct :=
    match ConjunctBreak.of c, b.conjunct with
    | .consonant, _ => .opened
    | .linker, .opened | .linker, .linked => .linked
    | .extend, state => state
    | _, _ => .closed

end Before

namespace ClusterBreak

/-- Whether there is a boundary on both sides, whatever stands there. -/
def isolated (k : ClusterBreak) : Bool :=
  k == .cr || k == .lf || k == .control

/-- Whether two parts of a syllable of Hangul follow each other. -/
def inSyllable : ClusterBreak → ClusterBreak → Bool
  | .hangulL, k => k == .hangulL || k == .hangulV || k == .hangulLV || k == .hangulLVT
  | .hangulLV, k | .hangulV, k => k == .hangulV || k == .hangulT
  | .hangulLVT, k | .hangulT, k => k == .hangulT
  | _, _ => false

end ClusterBreak

/-- Whether a character belongs to the cluster that the text before it ends in. -/
def Before.joins (b : Before) (c : Char) : Bool :=
  let k := ClusterBreak.of c
  if b.last == .cr && k == .lf then
    true
  else if b.last.isolated || k.isolated then
    false
  else
    b.last.inSyllable k
      || (k == .extend || k == .joiner || k == .spacing)
      || b.last == .prepended
      || (b.conjunct == .linked && ConjunctBreak.of c == .consonant)
      || (b.pictograph == .joined && k == .pictograph)
      || (b.halfFlag && k == .regional)

/-- The clusters with one more character in front of the first of them. -/
def attach (c : Char) : List (List Char) → List (List Char)
  | [] => [[c]]
  | g :: rest => (c :: g) :: rest

/-- The clusters of a text that stands behind another. -/
def clustersAfter (b : Before) : List Char → List (List Char)
  | [] => []
  | c :: cs =>
    let b := b.next c
    let rest := clustersAfter b cs
    if cs.head?.any b.joins then attach c rest else [c] :: rest

/-- The clusters of a text. -/
def clusters (cs : List Char) : List (List Char) :=
  clustersAfter {} cs

/-- A character in front of the first cluster is a character in front of the text. -/
theorem flatten_attach (c : Char) (gs : List (List Char)) :
    (attach c gs).flatten = c :: gs.flatten := by
  cases gs with
  | nil => rfl
  | cons g rest => rfl

/-- Cutting a text into clusters loses nothing and adds nothing. -/
theorem flatten_clustersAfter (b : Before) (cs : List Char) :
    (clustersAfter b cs).flatten = cs := by
  induction cs generalizing b with
  | nil => rfl
  | cons c cs ih =>
    rw [clustersAfter]
    split
    · rw [flatten_attach, ih]
    · rw [List.flatten_cons, ih, List.singleton_append]

end Bhasha.Text
