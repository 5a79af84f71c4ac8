import CrateAudit.Display.Cluster

/-!
# The width of text on a terminal

Text may hold control sequences, which a terminal obeys and does not show. The width of a line is the
number of cells that it takes: one for every printable character of ASCII, that of the cluster for other
text, and none for controls, control sequences and stray bytes.
-/

namespace CrateAudit.Display

/-- Where in a control sequence a terminal is. -/
inductive Sequence where
  /-- outside of any -/
  | ground
  | escape
  | escapeIntermediate
  | controlEntry
  | controlParameter
  | controlIntermediate
  | deviceEntry
  | deviceParameter
  | deviceIntermediate
  /-- a device control string, up to its terminator -/
  | deviceString
  /-- an operating system command, up to its terminator -/
  | commandString
  /-- any other string, up to its terminator -/
  | plainString
  deriving DecidableEq

/-- What a terminal does with a byte. -/
inductive Reaction where
  /-- nothing is shown -/
  | silent (next : Sequence)
  /-- one cell is filled -/
  | cell
  /-- a cluster outside ASCII starts here -/
  | cluster

namespace Sequence

/-- The reaction to bytes that mean the same everywhere; others have none. -/
def anywhere (b : UInt8) : Option Reaction :=
  if b = 0x18 || b = 0x1a then some (.silent .ground)
  else if b = 0x1b then some (.silent .escape)
  else if b < 0x80 then none
  else if b = 0x90 then some (.silent .deviceEntry)
  else if b = 0x9b then some (.silent .controlEntry)
  else if b = 0x9d then some (.silent .commandString)
  else if b = 0x98 || b = 0x9e || b = 0x9f then some (.silent .plainString)
  else if 0xc2 ≤ b && b ≤ 0xf4 then some .cluster
  else some (.silent .ground)

/-- The reaction to a byte of ASCII behind an escape. -/
def afterEscape (b : UInt8) : Sequence :=
  if b < 0x20 || b = 0x7f then .escape
  else if b < 0x30 then .escapeIntermediate
  else if b = 0x50 then .deviceEntry
  else if b = 0x58 || b = 0x5e || b = 0x5f then .plainString
  else if b = 0x5b then .controlEntry
  else if b = 0x5d then .commandString
  else .ground

/-- The reaction to a byte. -/
def react (s : Sequence) (b : UInt8) : Reaction :=
  match s with
  | .commandString =>
    if b = 0x1b then .silent .escape
    else if b = 0x07 || b = 0x18 || b = 0x1a || b = 0x9c then .silent .ground
    else .silent .commandString
  | .deviceString =>
    if b = 0x1b then .silent .escape
    else if b = 0x18 || b = 0x1a || b = 0x9c then .silent .ground
    else .silent .deviceString
  | .deviceEntry =>
    if b = 0x1b || (0x08 ≤ b && b ≤ 0x0d) || (0x40 ≤ b && b < 0x7f) then .silent .deviceString
    else (anywhere b).getD (.silent (
      if b < 0x20 || b = 0x7f then .deviceEntry
      else if b < 0x30 then .deviceIntermediate
      else .deviceParameter))
  | s =>
    (anywhere b).getD <|
      match s with
      | .ground => if 0x20 ≤ b && b < 0x7f then .cell else .silent .ground
      | .escape => .silent (afterEscape b)
      | .escapeIntermediate => .silent (if b < 0x30 || b = 0x7f then .escapeIntermediate else .ground)
      | .controlEntry => .silent (
        if b < 0x20 || b = 0x7f then .controlEntry
        else if b < 0x30 then .controlIntermediate
        else if b < 0x40 then .controlParameter
        else .ground)
      | .controlParameter => .silent (
        if b < 0x20 || b = 0x7f then .controlParameter
        else if b < 0x30 then .controlIntermediate
        else if b < 0x40 then .controlParameter
        else .ground)
      | .controlIntermediate => .silent (if b < 0x30 || b = 0x7f then .controlIntermediate else .ground)
      | .deviceParameter => .silent (
        if b < 0x20 || b = 0x7f then .deviceParameter
        else if b < 0x30 then .deviceIntermediate
        else if b < 0x40 then .deviceParameter
        else .deviceString)
      | .deviceIntermediate => .silent (if b < 0x30 || b = 0x7f then .deviceIntermediate else .deviceString)
      | s => .silent s

end Sequence

/-- The cells of a text behind `total` cells; `skip` bytes of a cluster are still to be passed over. -/
def widthGo : Nat → Sequence → Bytes → Nat → Nat
  | _, _, [], total => total
  | skip + 1, s, _ :: rest, total => widthGo skip s rest total
  | 0, s, b :: rest, total =>
    match s.react b with
    | .silent next => widthGo 0 next rest total
    | .cell => widthGo 0 .ground rest (total + 1)
    | .cluster =>
      let (size, width) := cluster (b :: rest)
      widthGo (size - 1) .ground rest (total + width)

/-- The number of cells that a line takes. -/
def width (line : Bytes) : Nat := widthGo 0 .ground line 0

end CrateAudit.Display
