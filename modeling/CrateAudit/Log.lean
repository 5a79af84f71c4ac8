import CrateAudit.Bytes.Printable
import CrateAudit.Bytes.Quoted
import CrateAudit.Bytes.Space
import CrateAudit.Json

/-!
# Log lines

A log record has a level, a message and named attributes. Loggers are derived from one another by adding
attributes or by opening a group; contexts are derived by adding attributes. A record is written as one
JSON object a line: the attributes of the logger stand in the group that was open when they were added,
the record's own attributes and then those of the context stand in the innermost group, and groups that
would be empty are left out.

An attribute can be a group of attributes itself. Such a group is left out when it is empty, and it stands
for its members when it has no name.

Before logging is configured, records are written as plain text instead.
-/

namespace CrateAudit.Log

open Bytes

/-- How important a record is. -/
structure Level where
  rank : Int
  deriving DecidableEq

namespace Level

/-- The lowest level with a name of its own. -/
def debug : Level := ⟨-4⟩

/-- The level of what is of interest to everyone. -/
def info : Level := ⟨0⟩

/-- The level of warnings. -/
def warn : Level := ⟨4⟩

/-- The level of errors. -/
def error : Level := ⟨8⟩

/-- The name of the nearest level below that has one, and the distance from it. Below the lowest one the distance is
negative. -/
def name (l : Level) : Bytes :=
  let (name, base) :=
    if l.rank < info.rank then ("DEBUG", debug)
    else if l.rank < warn.rank then ("INFO", info)
    else if l.rank < error.rank then ("WARN", warn)
    else ("ERROR", error)
  let distance := l.rank - base.rank
  lit name ++ if distance = 0 then [] else (if 0 < distance then lit "+" else []) ++ integer distance

end Level

/-- What an attribute holds: a document, or a group of attributes. -/
inductive Value where
  | document (j : Json)
  | group (attrs : List (Bytes × Value))

/-- Text. -/
def Value.text (s : Bytes) : Value := .document (.text s)

/-- A whole number. -/
def Value.number (i : Int) : Value := .document (.number i)

/-- A named value. -/
abbrev Attr := Bytes × Value

/-- An attribute that holds text. -/
def Attr.text (name : String) (value : Bytes) : Attr := (lit name, .text value)

/-- An attribute that holds a whole number. -/
def Attr.number (name : String) (value : Int) : Attr := (lit name, .number value)

/-- What is to be logged. -/
structure Record where
  level : Level
  message : Bytes
  attrs : List Attr := []

/-- A record whose message is a literal. -/
def record (level : Level) (message : String) (attrs : List Attr) : Record :=
  ⟨level, lit message, attrs⟩

/-! ### Loggers and contexts -/

/-- One derivation of a logger. -/
inductive Layer where
  | attrs (attrs : List Attr)
  | group (name : Bytes)

/-- A logger: whether it writes records down to the lowest level with a name, and its derivations, the first one
first. -/
structure Logger where
  verbose : Bool
  layers : List Layer := []

namespace Logger

/-- The logger with more attributes. -/
def withAttrs (l : Logger) (attrs : List Attr) : Logger := { l with layers := l.layers ++ [.attrs attrs] }

/-- The logger with a group opened. -/
def withGroup (l : Logger) (name : Bytes) : Logger := { l with layers := l.layers ++ [.group name] }

/-- Whether records of a level are written. -/
def isEnabled (l : Logger) (level : Level) : Bool :=
  (if l.verbose then Level.debug else Level.info).rank ≤ level.rank

end Logger

/-- The attributes that a context adds to every record, those of the outermost context first. -/
structure Context where
  attrs : List Attr := []

/-- The context with more attributes. -/
def Context.withAttrs (c : Context) (attrs : List Attr) : Context := ⟨c.attrs ++ attrs⟩

/-! ### Lines -/

/-- Some members in an object under a name; without any there is no object, either. -/
def inObject (name : Bytes) : List (Bytes × Json) → List (Bytes × Json)
  | [] => []
  | members => [(name, .object members)]

mutual

/-- The members by which a value is shown under a name: none if there is nothing, not even a name. -/
def Value.shown (name : Bytes) : Value → List (Bytes × Json)
  | .document .null => if name.isEmpty then [] else [(name, .null)]
  | .document j => [(name, j)]
  | .group attrs => if name.isEmpty then shown attrs else inObject name (shown attrs)

/-- The members by which some attributes are shown. -/
def shown : List (Bytes × Value) → List (Bytes × Json)
  | [] => []
  | (name, value) :: rest => value.shown name ++ shown rest

end

/-- Some members inside the groups and behind the attributes of a logger. -/
def nest : List Layer → List (Bytes × Json) → List (Bytes × Json)
  | [], inner => inner
  | .attrs outer :: rest, inner => shown outer ++ nest rest inner
  | .group name :: rest, inner => inObject name (nest rest inner)

/-- Log lines escape what JSON wants escaped and nothing more. -/
def layout : Json.Layout := Json.oneLine { markup := false, shortControls := false }

/-- The members that every line begins with. -/
def builtIn (now : Bytes) (r : Record) : List (Bytes × Json) :=
  [(lit "time", .text now), (lit "level", .text r.level.name), (lit "msg", .text r.message)]

/-- The line that a logger writes for a record at a time; it is empty when the level is not enabled. -/
def Logger.line (l : Logger) (now : Bytes) (c : Context) (r : Record) : Bytes :=
  if l.isEnabled r.level then
    Json.write layout 0 (.object (builtIn now r ++ nest l.layers (shown (r.attrs ++ c.attrs)))) ++ [newline]
  else []

/-! ### Plain lines -/

/-- Whether a piece of a value has to stand between quotes. -/
def needsQuotes : Utf8.Piece → Bool
  | .stray _ => true
  | .char c =>
    let n := c.toNat
    if n < 0x80 then n ≤ 0x20 || c = '=' || c = '"'
    else n = 0xfffd || wideSpaces.contains (String.utf8EncodeChar c) || !Printable.isPrintable c

/-- A name or value of a plain line. -/
def plainText (bs : Bytes) : Bytes :=
  if bs.isEmpty || (Utf8.pieces bs).any needsQuotes then bs.quoted else bs

/-- A name with a value that is no group. -/
def plainPair (name : Bytes) (value : Json) : Bytes :=
  lit " " ++ plainText name ++ lit "=" ++ match value with
    | .text s => plainText s
    | v => Json.write layout 0 v

mutual

/-- A value of a plain line. The members of a group have its name in front, which stands behind the names of the groups
above. -/
def Value.plain (above name : Bytes) : Value → Bytes
  | .document .null => if name.isEmpty then [] else plainPair (above ++ name) .null
  | .document j => plainPair (above ++ name) j
  | .group attrs => plain (if name.isEmpty then above else above ++ name ++ lit ".") attrs

/-- The attributes of a plain line. -/
def plain (above : Bytes) : List (Bytes × Value) → Bytes
  | [] => []
  | (name, value) :: rest => value.plain above name ++ plain above rest

end

/-- The plain line of a record, without a date. -/
def Record.plainLine (r : Record) : Bytes := r.level.name ++ lit " " ++ r.message ++ plain [] r.attrs

end CrateAudit.Log
