import CrateAudit.Bytes.Basic

/-!
# Lines

Two ways of cutting text into lines meet in the library. Diagnostics are cut at line feeds and nothing
else (`lines`). Lists that a person edits are read with a buffer of fixed size: a carriage return in
front of the line feed belongs to the line's end, and a line that does not fit into the buffer ends the
reading (`ListLine`).
-/

namespace CrateAudit.Bytes

/-- The lines of a text. The empty stretch behind a final line feed is no line. -/
def lines (bs : Bytes) : List Bytes :=
  let cut := pieces newline bs
  if cut.getLast? = some [] then cut.dropLast else cut

/-- The lines, each closed by a line feed. -/
def unlines (ls : List Bytes) : Bytes := ls.flatMap (· ++ [newline])

/-- The line without one carriage return at its end. -/
def dropCarriageReturn (line : Bytes) : Bytes :=
  if line.getLast? = some carriageReturn then line.dropLast else line

/-- The size of the buffer that list files are read with: a line together with its line feed must
fit. -/
def bufferSize : Nat := 65536

/-- What the reading of a list file delivers, line by line. -/
inductive ListLine where
  /-- a line, without its end -/
  | line (text : Bytes)
  /-- a line that does not fit into the buffer; nothing behind it is read -/
  | tooLong
  deriving DecidableEq

/-- The lines of a list file: all of them, or those in front of the first that does not fit. -/
def listLines (bs : Bytes) : List ListLine :=
  let all := lines bs
  let fit := all.takeWhile (·.length < bufferSize)
  fit.map (fun l => .line (dropCarriageReturn l)) ++ if fit.length < all.length then [.tooLong] else []

end CrateAudit.Bytes
