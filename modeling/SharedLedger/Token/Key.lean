import SharedLedger.Json.Value

/-!
# Keys in headers

The header of a token may carry a key. Nobody uses it, but a header with a
member that is no key is not a header. A key is an object: it has the parts its
type asks for, each of them once, and the attributes that keys may have, each
of them once at most. What else it has does not matter.
-/

namespace SharedLedger

namespace Token

/-- The algorithms a header may name. -/
def algorithms : List String :=
  ["HS256", "HS384", "HS512", "ES256", "ES384", "RS256", "RS384", "RS512", "PS256", "PS384",
    "PS512", "EdDSA"]

namespace Key

/-! ## Kinds of parts -/

/-- A string. -/
def isText : Json → Bool
  | .str _ => true
  | _ => false

/-- An array of strings. -/
def isTexts : Json → Bool
  | .arr vs => vs.all isText
  | _ => false

/-- One of the given words, as a string or as the only member of an object,
with `null` under it. -/
def isWord (words : List String) : Json → Bool
  | .str s | .obj [(s, .null)] => words.contains s
  | _ => false

/-- The curves a key may lie on. -/
def curves : List String := ["P-256", "P-384", "P-521", "Ed25519"]

/-- An algorithm a key may be meant for. An empty object does for `null`. -/
def isUse : Json → Bool
  | .obj [(s, .obj [])] => isUse (.str s)
  | v => isWord (algorithms ++ ["RSA1_5", "RSA-OAEP", "RSA-OAEP-256"]) v

/-! ## Keys -/

/-- The parts of a key, for every type of key. -/
def types : List (List (String × (Json → Bool))) := [
  [("kty", isWord ["EC"]), ("crv", isWord curves), ("x", isText), ("y", isText)],
  [("kty", isWord ["RSA"]), ("n", isText), ("e", isText)],
  [("kty", isWord ["oct"]), ("k", isText)],
  [("kty", isWord ["OKP"]), ("crv", isWord curves), ("x", isText)]]

/-- The attributes of keys. Each may also be `null`. -/
def attributes : List (String × (Json → Bool)) := [
  ("use", isText), ("key_ops", isTexts), ("alg", isUse), ("kid", isText), ("x5u", isText),
  ("x5c", isTexts), ("x5t", isText), ("x5t#S256", isText)]

/-- Whether an object has a member of a name, just one, and of the given kind. -/
def hasPart (v : Json) (part : String × (Json → Bool)) : Bool :=
  match v.values part.1 with
  | [x] => part.2 x
  | _ => false

/-- Whether an object has an attribute of the given kind or does without it. -/
def allows (v : Json) (part : String × (Json → Bool)) : Bool :=
  match v.values part.1 with
  | [] | [.null] => true
  | [x] => part.2 x
  | _ => false

end Key

/-- Whether a value is a key. -/
def isKey (v : Json) : Bool :=
  Key.attributes.all (Key.allows v) && Key.types.any fun parts => parts.all (Key.hasPart v)

end Token

end SharedLedger
