import CrateAudit.Number.Reading
import CrateAudit.Yaml.Node

/-!
# The values of documents

A document denotes a tree: scalars get the type that their tag says or that their spelling shows, the
keys of mappings become labels, and mappings that are merged into others by the key `<<` are spread out.
A label that occurs twice keeps both of its values; it is for the reader of the tree to put them
together.
-/

namespace CrateAudit.Yaml

open Bytes

/-- The value of a scalar. -/
inductive Scalar where
  | null
  | bool (b : Bool)
  | int (i : Int)
  /-- a number that is written as a fraction -/
  | fraction
  | text (s : Bytes)
  /-- binary data -/
  | binary
  deriving DecidableEq

/-- The label of a field. -/
structure Label where
  mark : Mark
  name : Bytes
  deriving DecidableEq

/-- The value of a document. -/
inductive Tree where
  | scalar (mark : Mark) (value : Scalar)
  | list (mark : Mark) (items : List Tree)
  | record (mark : Mark) (fields : List (Label × Tree))

/-- Where a tree starts. -/
def Tree.mark : Tree → Mark
  | .scalar m _ | .list m _ | .record m _ => m

/-! ### Plain spellings -/

/-- The spellings that mean no value, truth values and special numbers. -/
def words : List (Bytes × Scalar) :=
  (["", "~", "null", "Null", "NULL"].map fun s => (lit s, .null)) ++
  (["true", "True", "TRUE"].map fun s => (lit s, .bool true)) ++
  (["false", "False", "FALSE"].map fun s => (lit s, .bool false)) ++
  ([".nan", ".NaN", ".NAN", ".inf", ".Inf", ".INF", "+.inf", "+.Inf", "+.INF", "-.inf", "-.Inf", "-.INF"].map
    fun s => (lit s, .fraction))

/-- Splits off a sign. -/
def signed (bs : Bytes) : Bool × Bytes :=
  match bs with
  | 0x2d :: rest => (true, rest)
  | 0x2b :: rest => (false, rest)
  | rest => (false, rest)

/-- The bases of whole numbers, by what the digits start with. -/
def bases : List (Bytes × Nat) :=
  [(lit "0x", 16), (lit "0X", 16), (lit "0o", 8), (lit "0O", 8), (lit "0b", 2), (lit "0B", 2), (lit "0", 8)]

/-- The base that some digits are written in, and the digits themselves. -/
def baseOf (bs : Bytes) : Nat × Bytes :=
  if bs = lit "0" then (10, bs)
  else match bases.find? fun b => b.1.isPrefixOf bs with
    | some (start, base) => (base, bs.drop start.length)
    | none => (10, bs)

/-- Reads a whole number without underscores that fits into 64 bits. -/
def wholeNumber? (bs : Bytes) : Option Int :=
  let (negative, digits) := signed bs
  let (base, digits) := baseOf digits
  if digits.isEmpty || !digits.all fun b => (Binary64.digitValue? base b).isSome then none
  else
    let n := Binary64.digitsIn base digits
    if negative then if n ≤ Nat.pow 2 63 then some (-n) else none
    else if n < Nat.pow 2 64 then some n else none

/-- Whether a text is a decimal fraction: digits, with or without a point, and an optional exponent. -/
def isFraction (bs : Bytes) : Bool :=
  let (_, body) := signed bs
  let whole := body.takeWhile isDigit
  let rest := body.dropWhile isDigit
  let (places, rest) := match rest with
    | 0x2e :: more => (more.takeWhile isDigit, more.dropWhile isDigit)
    | more => ([], more)
  let exponent := match rest with
    | [] => true
    | e :: more =>
      let digits := (signed more).2
      (e = 0x65 || e = 0x45) && !digits.isEmpty && digits.all isDigit
  (!whole.isEmpty || !places.isEmpty) && exponent

/-- The value that a plain spelling shows. Fractions that are out of range are text. -/
def plainScalar (bs : Bytes) : Scalar :=
  match words.find? (·.1 = bs) with
  | some (_, v) => v
  | none =>
    match bs.head? with
    | none => .null
    | some b =>
      let digits := bs.filter (· ≠ 0x5f)
      if isDigit b || b = 0x2b || b = 0x2d then
        match wholeNumber? digits with
        | some i => .int i
        | none => if isFraction digits && (Binary64.read? digits).isSome then .fraction else .text bs
      else if b = 0x2e && (Binary64.read? bs).isSome then .fraction
      else .text bs

/-- Whether every underscore of a number stands between two digits. -/
def underscoresFit (bs : Bytes) : Bool :=
  (pieces 0x5f bs).dropLast.all (fun p => (p.getLast?).any isWord) &&
    ((pieces 0x5f bs).drop 1).all fun p => (p.head?).any isWord

/-- Whether a number has zeros in front of a decimal. -/
def isPadded (bs : Bytes) : Bool :=
  match (signed bs).2 with
  | 0x30 :: rest => !rest.isEmpty && rest.all isDigit
  | _ => false

/-- The value that a plain spelling shows, when it is one that a number may have: underscores stand
between digits, and no zeros stand in front of a decimal. -/
def checkedScalar (m : Mark) (bs : Bytes) : Except Error Scalar :=
  match plainScalar bs with
  | .int i => if underscoresFit bs then .ok (.int i) else .error ⟨.badNumber, m⟩
  | .fraction => if underscoresFit bs && !isPadded bs then .ok .fraction else .error ⟨.badNumber, m⟩
  | v => .ok v

/-! ### Tags -/

/-- What the tags of the common types start with. -/
def commonTag : List Char := "tag:yaml.org,2002:".toList

/-- The types that tags name. -/
inductive TypeName where
  | text
  | bool
  | int
  | number
  | null
  | binary
  deriving DecidableEq

/-- The type that a tag names. -/
def typeOfTag? (tag : List Char) : Option TypeName :=
  if commonTag.isPrefixOf tag then
    let name := encode (tag.drop commonTag.length)
    if name = lit "str" || name = lit "timestamp" then some .text
    else if name = lit "bool" then some .bool
    else if name = lit "int" then some .int
    else if name = lit "float" then some .number
    else if name = lit "null" then some .null
    else if name = lit "binary" then some .binary
    else none
  else none

/-- Whether a text is binary data as letters, digits and two signs, filled up to a multiple of four. -/
def isBase64 (bs : Bytes) : Bool :=
  let bs := bs.filter fun b => b ≠ newline && b ≠ carriageReturn
  let body := bs.takeWhile fun b => isLetter b || isDigit b || b = 0x2b || b = 0x2f
  let padding := bs.drop body.length
  bs.length % 4 = 0 && padding.length ≤ 2 && padding.all (· = 0x3d)

/-- The value of a scalar with a tag. -/
def taggedScalar (m : Mark) (tag : List Char) (bs : Bytes) : Except Error Scalar :=
  match typeOfTag? tag with
  | none => .error ⟨.unknownTag, m⟩
  | some .text => .ok (.text bs)
  | some .binary => if isBase64 bs then .ok .binary else .error ⟨.badNumber, m⟩
  | some .null => .ok .null
  | some .bool => .ok (.bool (words.contains (bs, .bool true)))
  | some .int => do
    match ← checkedScalar m bs with
    | .int i => return .int i
    | _ => throw ⟨.badNumber, m⟩
  | some .number => do
    match ← checkedScalar m bs with
    | .int _ | .fraction => return .fraction
    | _ => throw ⟨.badNumber, m⟩

/-- The value of a scalar. -/
def scalarValue (m : Mark) (tag : Option (List Char)) (plain : Bool) (text : List Char) :
    Except Error Scalar :=
  let bs := encode text
  match tag.filter (· ≠ ['!']) with
  | some t => taggedScalar m t bs
  | none => if plain then checkedScalar m bs else .ok (.text bs)

/-! ### Trees -/

/-- Whether a key asks for a merge. -/
def isMerge : Node → Bool
  | .scalar _ none true text => text = ['<', '<']
  | _ => false

/-- The label of a key. -/
def label : Node → Except Error Label
  | .scalar m tag plain text => do
    let _ ← scalarValue m tag plain text
    return ⟨m, encode text⟩
  | .sequence m _ | .mapping m _ => .error ⟨.badKey, m⟩

/-- Puts a field behind others. Once something was merged, a field takes the place of one with the same
name. -/
def addField (merged : Bool) (fields : List (Label × Tree)) (l : Label) (v : Tree) : List (Label × Tree) :=
  if merged && fields.any (·.1.name = l.name) then
    let before := fields.takeWhile (·.1.name ≠ l.name)
    match fields.drop before.length with
    | (old, _) :: after => before ++ (old, v) :: after
    | [] => fields ++ [(l, v)]
  else fields ++ [(l, v)]

mutual

/-- The value of a node. -/
def Tree.ofNode : Node → Except Error Tree
  | .scalar m tag plain text => do return .scalar m (← scalarValue m tag plain text)
  | .sequence m items => do return .list m (← ofNodes items)
  | .mapping m entries => do return .record m (← addEntries entries false [])

/-- The values of some nodes. -/
def Tree.ofNodes : List Node → Except Error (List Tree)
  | [] => .ok []
  | n :: rest => do return (← ofNode n) :: (← ofNodes rest)

/-- Adds the entries of a mapping to some fields. -/
def Tree.addEntries : List (Node × Node) → Bool → List (Label × Tree) →
    Except Error (List (Label × Tree))
  | [], _, fields => .ok fields
  | (key, value) :: rest, merged, fields => do
    if isMerge key then
      addEntries rest true (← merge value fields)
    else
      let l ← label key
      addEntries rest merged (addField merged fields l (← ofNode value))

/-- Merges a mapping, or several, into some fields. -/
def Tree.merge : Node → List (Label × Tree) → Except Error (List (Label × Tree))
  | .mapping _ entries, fields => addEntries entries true fields
  | .sequence _ items, fields => mergeAll items fields
  | .scalar m .., _ => .error ⟨.badMerge, m⟩

/-- Merges several mappings, the last one first, so that the first one prevails. -/
def Tree.mergeAll : List Node → List (Label × Tree) → Except Error (List (Label × Tree))
  | [], fields => .ok fields
  | n :: rest, fields => do merge n (← mergeAll rest fields)

end

/-- The values of the documents of a byte string. -/
def parse (bs : Bytes) : Except Error (List Tree) := do Tree.ofNodes (← nodes bs)

end CrateAudit.Yaml
