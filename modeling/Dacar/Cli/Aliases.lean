import Dacar.HexText
import Dacar.JsValue
import Dacar.LineText

/-!
# The alias registry

Names for hashes, kept in a text file with one hash on a line.  The three ports differ in what
ends a line, what is stripped and what separates names.
-/

namespace Dacar.Cli

/-! ## The registry -/

/-- A line of the file: a hash with one or more names and a note. -/
structure AliasEntry (α : Type) where
  hash : Hash
  names : List (List α)
  note : Option (List α)

abbrev AliasRegistry (α : Type) := List (AliasEntry α)

namespace AliasRegistry

variable {α : Type} [DecidableEq α]

/-- Names that the entry does not have yet go to its end. -/
def addNames : List (List α) → List (List α) → List (List α)
  | names, [] => names
  | names, n :: more => addNames (if n ∈ names then names else names ++ [n]) more

/-- Give the hash these names, and the note if there is one; `parse` does so for a line. -/
def enter (hash : Hash) (names : List (List α)) (note : Option (List α)) :
    AliasRegistry α → AliasRegistry α
  | [] => [⟨hash, names, note⟩]
  | e :: entries =>
    if e.hash = hash then ⟨hash, addNames e.names names, note.or e.note⟩ :: entries
    else e :: enter hash names note entries

def add (name : List α) (hash : Hash) (note : Option (List α)) (r : AliasRegistry α) :
    AliasRegistry α :=
  r.enter hash [name] note

def resolve (r : AliasRegistry α) (name : List α) : Option Hash :=
  (r.find? fun e => name ∈ e.names).map AliasEntry.hash

/-- Take the name from the first entry that has it, and the entry with its last name; `none`
where there is no such name. -/
def remove (name : List α) : AliasRegistry α → Option (AliasRegistry α)
  | [] => none
  | e :: entries =>
    if name ∈ e.names then
      let names := e.names.erase name
      some (if names.isEmpty then entries else { e with names } :: entries)
    else (remove name entries).map (e :: ·)

end AliasRegistry

/-! ## The file -/

/-- How a port reads and writes the file. -/
structure AliasFormat (α : Type) where
  newline : α
  blank : α
  hash : α
  digit : ℕ → α
  /-- The value of a hex digit. -/
  nibble : α → Option ℕ
  selfAlias : List α
  /-- What ends a line. -/
  breaks : α → Bool
  lines : List α → List (List α)
  /-- What is stripped at both ends of a line. -/
  strips : α → Bool
  /-- What separates tokens. -/
  separates : α → Bool
  tokens : List α → List (List α)
  /-- Whether a note is written at all. -/
  writesNote : List α → Bool
  /-- What `set_self` leaves of an entry's names. -/
  withoutSelf : List (List α) → List (List α)

namespace AliasFormat

variable {α : Type} [DecidableEq α] (f : AliasFormat α)

/-- A token of 32 hex digits. -/
def hashOf (token : List α) : Option Hash :=
  match HexText.decode f.nibble token with
  | none => none
  | some b => if h : b.length = 16 then some ⟨b, h⟩ else none

/-- Hash, names and note of a stripped line; `none` where the line is skipped. -/
def readLine (line : List α) : Option (Hash × List (List α) × Option (List α)) :=
  let head := line.takeWhile (· ≠ f.hash)
  let note := LineText.strip f.strips ((line.dropWhile (· ≠ f.hash)).drop 1)
  match f.tokens head with
  | [] => none
  | hashHex :: names =>
    match f.hashOf hashHex with
    | none => none
    | some hash =>
      if names.isEmpty then none
      else some (hash, names, if note.isEmpty then none else some note)

def parse (text : List α) : AliasRegistry α :=
  (f.lines text).foldl
    (fun r raw =>
      match f.readLine (LineText.strip f.strips raw) with
      | none => r
      | some (hash, names, note) => r.enter hash names note) []

def serializeEntry (e : AliasEntry α) : List α :=
  HexText.encode f.digit e.hash.val ++ e.names.flatMap (f.blank :: ·) ++
    match e.note with
    | none => []
    | some note => if f.writesNote note then [f.blank, f.blank, f.hash, f.blank] ++ note else []

def serialize (r : AliasRegistry α) : List α :=
  r.flatMap fun e => f.serializeEntry e ++ [f.newline]

def setSelf (hash : Hash) (r : AliasRegistry α) : AliasRegistry α :=
  AliasRegistry.add f.selfAlias hash none
    ((r.map fun e => { e with names := f.withoutSelf e.names }).filter fun e => !e.names.isEmpty)

end AliasFormat

/-! ## Commands -/

inductive AliasCommand (α : Type)
  | add (name : List α) (hash : Hash) (note : Option (List α))
  | remove (name : List α)
  | setSelf (hash : Hash)
  /-- The registry is saved, and loaded again. -/
  | reload

/-- A command that is refused changes nothing. -/
def AliasCommand.run {α : Type} [DecidableEq α] (f : AliasFormat α) :
    AliasCommand α → AliasRegistry α → AliasRegistry α
  | .add name hash note, r =>
    match r.resolve name with
    | none => r.add name hash note
    | some existing => if existing = hash then r.add name hash note else r
  | .remove name, r => (r.remove name).getD r
  | .setSelf hash, r => f.setSelf hash r
  | .reload, r => f.parse (f.serialize r)

/-- The registry after these commands. -/
def AliasFormat.after {α : Type} [DecidableEq α] (f : AliasFormat α)
    (commands : List (AliasCommand α)) : AliasRegistry α :=
  commands.foldl (fun r c => c.run f r) []

/-! ## The ports -/

namespace Python

/-- `str.isspace` -/
def isSpace (c : Char) : Bool :=
  c.val ∈ [0x09, 0x0a, 0x0b, 0x0c, 0x0d, 0x1c, 0x1d, 0x1e, 0x1f, 0x20, 0x85, 0xa0, 0x1680, 0x2028,
    0x2029, 0x202f, 0x205f, 0x3000] || (0x2000 ≤ c.val && c.val ≤ 0x200a)

/-- Where `str.splitlines` ends a line. -/
def isLineBreak (c : Char) : Bool :=
  c.val ∈ [0x0a, 0x0b, 0x0c, 0x0d, 0x1c, 0x1d, 0x1e, 0x85, 0x2028, 0x2029]

/-- `str.splitlines`, with the line that is being read. -/
def splitLines : List Char → List Char → List (List Char)
  | [], line => if line.isEmpty then [] else [line]
  | '\r' :: '\n' :: rest, line => line :: splitLines rest []
  | c :: rest, line =>
    if isLineBreak c then line :: splitLines rest [] else splitLines rest (line ++ [c])

def aliasFormat : AliasFormat Char where
  newline := '\n'
  blank := ' '
  hash := '#'
  digit := Nat.digitChar
  nibble := Dacar.digit
  selfAlias := ['s', 'e', 'l', 'f']
  breaks := isLineBreak
  lines text := splitLines text []
  strips := isSpace
  separates := isSpace
  tokens head := LineText.words isSpace head
  writesNote note := !note.isEmpty
  withoutSelf names := names.erase ['s', 'e', 'l', 'f']

end Python

namespace Javascript

/-- `text.split(/\r?\n/)`, with the piece that is being read. -/
def splitLines : List Char → List Char → List (List Char)
  | [], line => [line]
  | '\r' :: '\n' :: rest, line => line :: splitLines rest []
  | c :: rest, line =>
    if c = '\n' then line :: splitLines rest [] else splitLines rest (line ++ [c])

def aliasFormat : AliasFormat Char where
  newline := '\n'
  blank := ' '
  hash := '#'
  digit := Nat.digitChar
  nibble := Dacar.digit
  selfAlias := ['s', 'e', 'l', 'f']
  breaks c := c = '\n'
  lines text := splitLines text []
  strips := isStrWhiteSpace
  separates := isStrWhiteSpace
  tokens head := LineText.words isStrWhiteSpace (LineText.strip isStrWhiteSpace head)
  writesNote note := !note.isEmpty
  withoutSelf names := names.filter (· ≠ ['s', 'e', 'l', 'f'])

end Javascript

namespace Cpp

/-- The byte of an ASCII character. -/
def byte (c : Char) : UInt8 := UInt8.ofNat c.toNat

/-- `std::isspace` -/
def isSpace (b : UInt8) : Bool := b = 0x20 || (0x09 ≤ b && b ≤ 0x0d)

def isBlank (b : UInt8) : Bool := b = byte ' ' || b = byte '\t'

def hexNibble (b : UInt8) : Option ℕ :=
  if byte '0' ≤ b ∧ b ≤ byte '9' then some (b.toNat - '0'.toNat)
  else if byte 'a' ≤ b ∧ b ≤ byte 'f' then some (b.toNat - 'a'.toNat + 10)
  else if byte 'A' ≤ b ∧ b ≤ byte 'F' then some (b.toNat - 'A'.toNat + 10)
  else none

/-- The hash of a line and `splitNames` of the rest. -/
def tokens (head : Bytes) : List Bytes :=
  let head := LineText.strip isSpace head
  LineText.strip isSpace (head.takeWhile (!isBlank ·)) ::
    LineText.words isBlank ((head.dropWhile (!isBlank ·)).drop 1)

/-- A note is written whenever there is one. -/
def aliasFormat : AliasFormat UInt8 where
  newline := byte '\n'
  blank := byte ' '
  hash := byte '#'
  digit n := byte n.digitChar
  nibble := hexNibble
  selfAlias := ['s', 'e', 'l', 'f'].map byte
  breaks b := b = byte '\n'
  lines text := text.splitOnP (· = byte '\n')
  strips := isSpace
  separates := isBlank
  tokens := tokens
  writesNote _ := true
  withoutSelf names := names.filter (· ≠ ['s', 'e', 'l', 'f'].map byte)

end Cpp

end Dacar.Cli
