import CrateAudit.Bytes.Utf8
import CrateAudit.Display.Properties

/-!
# Clusters

A terminal shows a cluster of characters as one sign: a letter with its accents, a syllable, a flag or a
joined pictograph. Which characters belong together is decided by the class of each character and a
little memory of what is in front of it (`Joint`). The width of a cluster is counted in cells.
-/

namespace CrateAudit.Display

/-- The classes of characters that matter for clusters. -/
inductive Class where
  | other
  | carriageReturn
  | lineFeed
  | control
  | extend
  | joiner
  | regional
  | prepend
  | spacingMark
  | leadingConsonant
  | vowel
  | trailingConsonant
  | openSyllable
  | closedSyllable
  | pictograph
  deriving DecidableEq

/-- The class of a character by its number. -/
def Class.ofNumber (n : Nat) : Class :=
  if 0x20 ≤ n && n < 0x7f then .other
  else if n = 0x0d then .carriageReturn
  else if n = 0x0a then .lineFeed
  else if n = 0x200d then .joiner
  else if 0x1f1e6 ≤ n && n ≤ 0x1f1ff then .regional
  else if (0x1100 ≤ n && n ≤ 0x115f) || (0xa960 ≤ n && n ≤ 0xa97c) then .leadingConsonant
  else if (0x1160 ≤ n && n ≤ 0x11a7) || (0xd7b0 ≤ n && n ≤ 0xd7c6) then .vowel
  else if (0x11a8 ≤ n && n ≤ 0x11ff) || (0xd7cb ≤ n && n ≤ 0xd7fb) then .trailingConsonant
  else if 0xac00 ≤ n && n ≤ 0xd7a3 then if (n - 0xac00) % 28 = 0 then .openSyllable else .closedSyllable
  else if inRanges controls n then .control
  else if inRanges extenders n then .extend
  else if inRanges prepended n then .prepend
  else if inRanges spacingMarks n then .spacingMark
  else if inRanges pictographs n then .pictograph
  else .other

/-- Whether nothing joins a character of the class. -/
def Class.stands : Class → Bool
  | .carriageReturn | .lineFeed | .control => true
  | _ => false

/-- What of a cluster decides whether the next character belongs to it. -/
structure Joint where
  last : Class
  /-- the cluster ends with a pictograph and characters that extend it -/
  picture : Bool
  /-- and a joiner stands behind these -/
  joined : Bool
  /-- the cluster ends with an odd number of regional indicators -/
  oddRegional : Bool

/-- The joint behind the first character of a cluster. -/
def Joint.first (c : Class) : Joint := ⟨c, c = .pictograph, false, c = .regional⟩

/-- The joint with one more character. -/
def Joint.next (j : Joint) (c : Class) : Joint where
  last := c
  picture := c = .pictograph || (j.picture && c = .extend)
  joined := j.picture && c = .joiner
  oddRegional := c = .regional && !(j.last = .regional && j.oddRegional)

/-- Whether a character belongs to the cluster in front of it. -/
def Joint.joins (j : Joint) (c : Class) : Bool :=
  if j.last = .carriageReturn && c = .lineFeed then true
  else if j.last.stands || c.stands then false
  else match j.last, c with
    | .leadingConsonant, .leadingConsonant | .leadingConsonant, .vowel
    | .leadingConsonant, .openSyllable | .leadingConsonant, .closedSyllable => true
    | .openSyllable, .vowel | .openSyllable, .trailingConsonant => true
    | .vowel, .vowel | .vowel, .trailingConsonant => true
    | .closedSyllable, .trailingConsonant | .trailingConsonant, .trailingConsonant => true
    | _, .extend | _, .joiner | _, .spacingMark => true
    | .prepend, _ => true
    | _, .pictograph => j.joined
    | .regional, .regional => j.oddRegional
    | _, _ => false

/-! ### Widths -/

/-- The cells that a character takes by itself. -/
def charWidth (n : Nat) : Class → Nat
  | .control | .carriageReturn | .lineFeed | .extend | .joiner => 0
  | .regional => 2
  | .pictograph => if inRanges colourful n then 2 else 1
  | _ =>
    -- the two long dashes
    if n = 0x2e3a then 3
    else if n = 0x2e3b then 4
    else if inRanges wide n then 2
    else 1

/-- The cells of a cluster with one more character: the variation selectors choose how a pictograph is
shown, flags and syllables are as wide as their first character, and others add up. -/
def widen (first : Class) (width n : Nat) (c : Class) : Nat :=
  match first with
  | .pictograph => if n = 0xfe0e then 1 else if n = 0xfe0f then 2 else width
  | .regional | .leadingConsonant => width
  | _ => width + charWidth n c

/-- The number of the character that starts `bs` and the size of its encoding; a stray byte stands for
the replacement character. -/
def decode (bs : Bytes) : Nat × Nat :=
  match Utf8.leading? bs with
  | some (c, size) => (c.toNat, size)
  | none => (0xfffd, 1)

/-- The size in bytes and the width of a cluster that was read so far, with what follows; `skip` bytes
of a character are still to be passed over. -/
def clusterGo (first : Class) : Nat → Bytes → Joint → Nat × Nat → Nat × Nat
  | _, [], _, found => found
  | skip + 1, _ :: rest, j, found => clusterGo first skip rest j found
  | 0, b :: rest, j, (size, width) =>
    let (n, bytes) := decode (b :: rest)
    let c := Class.ofNumber n
    if j.joins c then
      clusterGo first (bytes - 1) rest (j.next c) (size + bytes, widen first width n c)
    else (size, width)

/-- The size in bytes and the width of the cluster that starts a byte string. -/
def cluster (bs : Bytes) : Nat × Nat :=
  let (n, size) := decode bs
  let c := Class.ofNumber n
  clusterGo c 0 (bs.drop size) (Joint.first c) (size, charWidth n c)

end CrateAudit.Display
