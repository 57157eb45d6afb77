import Dacar.Bytes

/-!
# Namespace Label Privacy

Labels never leave a node in plaintext: relations and object segments are
replaced by their HMAC-SHA256 under the Privacy Salt, cut to 16 bytes.  The
HMAC itself is the platform's and stays a parameter.
-/

namespace Dacar

/-- HMAC-SHA256(salt, message) truncated to 16 bytes. -/
abbrev Hmac16 := Salt → Bytes → Hash

/-- `TextEncoder.encode`. -/
def utf8 (s : String) : Bytes := s.toUTF8.data.toList

/-- `split(":")`: the empty string has one empty segment. -/
def splitObject (objectId : String) : List String :=
  (objectId.toList.splitOn ':').map String.ofList

structure ParsedObject where
  segments : List String
  wildcard : Bool
  deriving DecidableEq

/-- The terminal `*` becomes the wildcard flag; any other `*` is a segment. -/
def parseObject (objectId : String) : ParsedObject :=
  if objectId = "*" then ⟨[], true⟩
  else
    let segments := splitObject objectId
    if segments.getLast? = some "*" then ⟨segments.dropLast, true⟩ else ⟨segments, false⟩

/-- A hasher is bound to exactly one salt. -/
structure NamespaceHasher where
  salt : Salt
  deriving DecidableEq

structure HashedObject where
  hashes : List Hash
  wildcard : Bool
  deriving DecidableEq

namespace NamespaceHasher

variable (hmac16 : Hmac16)

def hashRelation (h : NamespaceHasher) (relation : String) : Hash := hmac16 h.salt (utf8 relation)

def hashObject (h : NamespaceHasher) (objectId : String) : HashedObject where
  hashes := (parseObject objectId).segments.map fun seg => hmac16 h.salt (utf8 seg)
  wildcard := (parseObject objectId).wildcard

/-- The tag that names a salt on the wire. -/
def idTag (h : NamespaceHasher) : Hash := hmac16 h.salt (utf8 "dacar.salt.id")

end NamespaceHasher

/-- A wildcarded tuple covers every request its hashes are a prefix of; any other
tuple covers exactly its own object. -/
def covers (tupleHashes : List Hash) (wildcard : Bool) (requestHashes : List Hash) : Bool :=
  if wildcard then
    if tupleHashes.length > requestHashes.length then false
    else tupleHashes == requestHashes.take tupleHashes.length
  else tupleHashes == requestHashes

end Dacar
