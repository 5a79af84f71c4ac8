import CrateAudit.Bytes.Quoted
import CrateAudit.Bytes.Space
import CrateAudit.Environment

/-!
# Environment files

A file may set environment variables, one assignment after the other: a name, `=` or `:`, and a value. A
value without quotes goes to the end of its line and ends at a comment; a value between quotes may have
several lines. Values that are not between single quotes may refer to variables that the same file has set
before. Variables that are set already keep their values.
-/

namespace CrateAudit.EnvironmentFile

open Bytes

/-- What is wrong with an environment file. -/
inductive Error where
  /-- a name holds a character that no name may hold -/
  | badName (c : Char) (rest : Bytes)
  /-- there is no assignment behind the word `export` -/
  | nothingExported
  /-- a value lacks its closing quote -/
  | unterminated (line : Bytes)
  deriving DecidableEq

/-- The wording of an error. -/
def Error.message : Error → Bytes
  | .badName c rest =>
    lit "unexpected character " ++ Bytes.quoted (String.utf8EncodeChar c) ++ lit " in variable name near " ++
      rest.quoted
  | .nothingExported => lit "zero length string"
  | .unterminated line => lit "unterminated quoted value " ++ line

/-! ### White space inside a line -/

/-- The white-space characters that may stand around names and values. -/
def isSpace (c : Char) : Bool :=
  c = ' ' || c = '\t' || c = '\x0b' || c = '\x0c' || c = '\r' || c = '\u0085' || c = '\u00a0'

/-- The length of the white-space character of this kind that starts a byte string, or zero. -/
def innerSpace (bs : Bytes) : Nat :=
  match Utf8.leading? bs with
  | some (c, size) => if isSpace c then size else 0
  | none => 0

/-- Drops white space inside a line. -/
def dropInner (bs : Bytes) : Bytes := dropSpaces innerSpace 0 bs

/-! ### Names -/

/-- Whether a byte may stand in a name. Names are read byte by byte: a byte above ASCII counts as the
character with its number. -/
def isNameByte (b : UInt8) : Bool :=
  isWord b || b = 0x2e || [0xaa, 0xb2, 0xb3, 0xb5, 0xb9, 0xba, 0xbc, 0xbd, 0xbe].contains b ||
    (0xc0 ≤ b && b ≠ 0xd7 && b ≠ 0xf7)

/-- The text of an assignment without the word `export` in front. -/
def unexported (bs : Bytes) : Bytes :=
  match after? (lit "export") bs with
  | some rest => if 0 < innerSpace rest then dropInner rest else bs
  | none => bs

/-- Splits an assignment into its name and the rest. Without a sign between them there is no name. -/
def splitName (bs : Bytes) : Except Error (Bytes × Bytes) :=
  match bs.findIdx? fun b => !(isNameByte b || isSpace (Char.ofNat b.toNat)) with
  | none => if bs.isEmpty then .error .nothingExported else .ok ([], dropInner bs)
  | some i =>
    let sign := (bs.drop i).head?.getD 0
    if sign = 0x3d || sign = 0x3a then
      .ok ((dropSpaces trailingSpace 0 (bs.take i).reverse).reverse, dropInner (bs.drop (i + 1)))
    else .error (.badName (Char.ofNat sign.toNat) bs)

/-! ### References -/

/-- The text of a reference to a variable at the start of a byte string, behind its dollar sign, and the
name of the variable. -/
def reference (bs : Bytes) : Bytes × Bytes :=
  let opening := (if bs.head? = some 0x28 then 1 else 0)
  let opening := opening + (if (bs.drop opening).head? = some 0x7b then 1 else 0)
  let name := (bs.drop opening).takeWhile fun b => (0x41 ≤ b && b ≤ 0x5a) || isDigit b || b = 0x5f
  let size := opening + name.length
  (bs.take (size + if (bs.drop size).head? = some 0x7d then 1 else 0), name)

/-- Replaces the references in a value; one behind a backslash is kept and loses the backslash. The
counter holds how many bytes of a reference are still to be passed over. -/
def replaceReferences (vars : Environment) : Nat → Bytes → Bytes
  | _, [] => []
  | skip + 1, _ :: rest => replaceReferences vars skip rest
  | 0, b :: rest =>
    if b = 0x5c && rest.head? = some 0x24 then
      let (text, _) := reference (rest.drop 1)
      0x24 :: text ++ replaceReferences vars (text.length + 1) rest
    else if b = 0x24 then
      let (text, name) := reference rest
      (if name.isEmpty then b :: text else vars.get name) ++ replaceReferences vars text.length rest
    else b :: replaceReferences vars 0 rest

/-! ### Values -/

/-- Replaces the escapes for line ends. -/
def lineEscapes : Bytes → Bytes
  | 0x5c :: c :: rest =>
    if c = newline then 0x5c :: lineEscapes (c :: rest)
    else (if c = 0x6e then [newline] else if c = 0x72 then [carriageReturn] else [0x5c, c]) ++ lineEscapes rest
  | c :: rest => c :: lineEscapes rest
  | [] => []

/-- Drops the backslash of every escape, except in front of a dollar sign. -/
def dropBackslashes : Bytes → Bytes
  | 0x5c :: c :: rest =>
    if c = 0x24 then 0x5c :: dropBackslashes (c :: rest) else c :: dropBackslashes rest
  | c :: rest => c :: dropBackslashes rest
  | [] => []

/-- The characters of a line; stray bytes become the replacement character. -/
def lineCharacters (bs : Bytes) : List Char :=
  (Utf8.pieces bs).map fun
    | .char c => c
    | .stray _ => '\ufffd'

/-- The part of a reversed line in front of its last comment, reversed. A comment follows white space. -/
def beforeComment? : List Char → Option (List Char)
  | '#' :: c :: rest => if isSpace c then some (c :: rest) else beforeComment? (c :: rest)
  | _ :: rest => beforeComment? rest
  | [] => none

/-- The value on a line without quotes. -/
def plainValue (vars : Environment) (line : Bytes) : Bytes :=
  let back := (lineCharacters line).reverse
  let back := (beforeComment? back).getD back
  let text := (back.dropWhile isSpace).reverse.dropWhile isSpace
  replaceReferences vars 0 (text.flatMap String.utf8EncodeChar)

/-- Where a quoted value ends: at the next quote that has no backslash in front. -/
def closing? (quote : UInt8) : UInt8 → Bytes → Option Nat
  | _, [] => none
  | before, b :: rest =>
    if b = quote && before ≠ 0x5c then some 0 else (closing? quote b rest).map (· + 1)

/-- The value between quotes, the opening one included. -/
def quotedValue (vars : Environment) (quote : UInt8) (text : Bytes) : Bytes :=
  let inner := ((text.reverse.dropWhile (· = quote)).reverse).dropWhile (· = quote)
  if quote = 0x22 then replaceReferences vars 0 (dropBackslashes (lineEscapes inner)) else inner

/-- Reads a value: what it is, and what is left. -/
def value (vars : Environment) (bs : Bytes) : Except Error (Bytes × Bytes) :=
  match bs with
  | [] => .ok ([], [])
  | quote :: rest =>
    if quote = 0x22 || quote = 0x27 then
      match closing? quote quote rest with
      | some n => .ok (quotedValue vars quote (bs.take (n + 1)), rest.drop (n + 1))
      | none => .error (.unterminated (bs.takeWhile (· ≠ newline)))
    else
      let line := bs.takeWhile fun b => b ≠ newline && b ≠ carriageReturn
      .ok (plainValue vars line, bs.drop line.length)

/-! ### Files -/

/-- The next assignment: white space and comments are passed over, with as many steps as there are
bytes. -/
def nextAssignment : Nat → Bytes → Bytes
  | 0, _ => []
  | steps + 1, bs =>
    let bs := dropSpaces leadingSpace 0 bs
    if bs.head? = some 0x23 then nextAssignment steps (bs.dropWhile (· ≠ newline)) else bs

/-- Reads assignments, with as many steps as there are bytes. -/
def assignments : Nat → Environment → Bytes → Except Error Environment
  | 0, vars, _ => .ok vars
  | steps + 1, vars, bs =>
    match nextAssignment (bs.length + 1) bs with
    | [] => .ok vars
    | text => do
      let (name, rest) ← splitName (unexported (dropInner text))
      let (v, rest) ← value vars rest
      assignments steps (vars.set name v) rest

/-- Reads an environment file. -/
def read (bs : Bytes) : Except Error Environment :=
  let bs := replaceAll (lit "\r\n") (lit "\n") bs
  assignments (bs.length + 1) ⟨[]⟩ bs

/-- Whether a setting is one that an environment can hold. -/
def isSettable (name v : Bytes) : Bool := !name.isEmpty && !name.contains 0x3d && !name.contains 0 && !v.contains 0

/-- The environment with the variables of a file that it does not set itself. -/
def extend (env vars : Environment) : Environment :=
  ⟨env.bindings ++ vars.bindings.filter fun (name, _) =>
    isSettable name (vars.get name) && (env.get? name).isNone⟩

end CrateAudit.EnvironmentFile
