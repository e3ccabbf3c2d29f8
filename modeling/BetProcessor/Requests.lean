import BetProcessor.Codec.Hex
import BetProcessor.Codec.Json
import BetProcessor.Processor

namespace BetProcessor
set_option autoImplicit true
open Codec

/-- The quotient, rounded to nearest, ties to even. -/
def roundDiv (a b : Nat) : Nat :=
  if 2 * (a % b) < b ∨ (2 * (a % b) = b ∧ a / b % 2 = 0) then a / b else a / b + 1

/-- The positive integer that the Number nearest to `n / d` is. -/
def nearestInteger (n d : Nat) : Option Nat :=
  if 2 * n < d then none
  else
    let k := Nat.log2 (2 * n / d)
    if k ≤ 53 then
      let s := roundDiv (n * 2 ^ (53 - k)) d
      if s % 2 ^ (53 - k) = 0 then some (s / 2 ^ (53 - k)) else none
    else
      let m := roundDiv n (d * 2 ^ (k - 53)) * 2 ^ (k - 53)
      if Nat.log2 m < 1024 then some m else none

/-- The sixteen bytes of 32 hex digits, as one number. -/
def hexNumber (s : List Char) : Option Nat :=
  s.foldlM (fun n c => (Hex.nibble c).map (n * 16 + ·)) 0

/-- Groups of 8, 4, 4, 4 and 12 hex digits between hyphens. -/
def hyphenated (s : List Char) : Option Uuid :=
  if s.length = 36 ∧ s[8]? = some '-' ∧ s[13]? = some '-' ∧ s[18]? = some '-' ∧
      s[23]? = some '-' then
    hexNumber (s.take 8 ++ (s.drop 9).take 4 ++ (s.drop 14).take 4 ++ (s.drop 19).take 4 ++
      s.drop 24)
  else none

/-- `z.string().uuid()` -/
def uuid : Option Json → Option Uuid
  | some (.string t) => hyphenated t.chars
  | _ => none

/-- `z.number().int().positive()` -/
def amount : Option Json → Option Int
  | some (.number n) =>
    let e := n.scale.getD 0
    if n.negative then none
    else (nearestInteger (n.mantissa * 10 ^ e.toNat) (10 ^ (-e).toNat)).map (↑)
  | _ => none

/-- `z.string().min(1)` -/
def string : Option Json → Option String
  | some (.string t) => if t.chars = [] then none else some (String.ofList t.chars)
  | _ => none

/-- `z.boolean()` -/
def boolean : Option Json → Option Bool
  | some (.bool b) => some b
  | _ => none

/-- `.optional()` -/
def optional (schema : Option Json → Option α) : Option Json → Option (Option α)
  | none => some none
  | some json => (schema (some json)).map some

def actionSchema : Json → Option ProcessAction
  | .object members => do
    let .string t ← Json.last? members "action" | none
    if t.chars = "bet".toList then
      let actionId ← uuid (Json.last? members "action_id")
      let amount ← amount (Json.last? members "amount")
      return .bet actionId amount
    else if t.chars = "win".toList then
      let actionId ← uuid (Json.last? members "action_id")
      let amount ← amount (Json.last? members "amount")
      return .win actionId amount
    else if t.chars = "rollback".toList then
      let actionId ← uuid (Json.last? members "action_id")
      let originalActionId ← uuid (Json.last? members "original_action_id")
      return .rollback actionId originalActionId
    else none
  | _ => none

/-- `z.array(…)` -/
def array (schema : Json → Option α) : Option Json → Option (List α)
  | some (.array items) => items.mapM schema
  | _ => none

def processRequestSchema : Json → Option ProcessRequest
  | .object members => do
    let userId ← string (Json.last? members "user_id")
    let currency ← string (Json.last? members "currency")
    let game ← string (Json.last? members "game")
    let gameId ← optional string (Json.last? members "game_id")
    let _finished ← optional boolean (Json.last? members "finished")
    let actions ← optional (array actionSchema) (Json.last? members "actions")
    return { userId, currency, game, gameId, actions }
  | _ => none

namespace Rust

/-- A field of a struct, `none` when it is given twice. -/
def field (members : List (Text × Json)) (key : String) : Option (Option Json) :=
  match (members.filter (·.1.chars = key.toList)).map (·.2) with
  | [] => some none
  | [json] => some (some json)
  | _ => none

/-- `Uuid::parse_str` -/
def parseUuid (s : List Char) : Option Uuid :=
  if s.length = 32 then hexNumber s
  else if s.length = 36 then hyphenated s
  else if s.length = 38 ∧ s.head? = some '\x7b' ∧ s.getLast? = some '\x7d' then
    hyphenated (s.tail.dropLast)
  else if s.length = 45 ∧ s.take 9 = "urn:uuid:".toList then hyphenated (s.drop 9)
  else none

def uuid : Option Json → Option Uuid
  | some (.string t) => if t.sound then parseUuid t.chars else none
  | _ => none

/-- `i64` -/
def amount : Option Json → Option Int
  | some (.number n) =>
    if n.scale = none ∧ ¬(n.negative ∧ n.mantissa = 0) ∧ IsBigint n.integer then some n.integer
    else none
  | _ => none

/-- `String` -/
def string : Option Json → Option String
  | some (.string t) => if t.sound then some (String.ofList t.chars) else none
  | _ => none

/-- `bool` -/
def boolean : Option Json → Option Bool
  | some (.bool b) => some b
  | _ => none

/-- `Option<T>`, of a field that may be missing. -/
def optional (type : Option Json → Option α) : Option Json → Option (Option α)
  | none => some none
  | some .null => some none
  | some json => (type (some json)).map some

/-- `Vec<T>` -/
def vec (type : Json → Option α) : Option Json → Option (List α)
  | some (.array items) => items.mapM type
  | _ => none

/-- The number is kept as `i64` or `u64`. -/
def IsInteger (n : Number) : Bool :=
  n.scale.isNone &&
    if n.negative then 0 < n.mantissa && n.mantissa ≤ 2 ^ 63 else n.mantissa < 2 ^ 64

section
variable (overflows : Number → Bool)

mutual

/-- The parser keeps the whole value, which may open `depth` arrays and objects inside each other.
A number that is no 64-bit integer may be outside `f64`. -/
def buffers (depth : Nat) : Json → Bool
  | .null => true
  | .bool _ => true
  | .number n => IsInteger n || !overflows n
  | .string t => t.sound
  | .array items => depth ≠ 0 && buffersItems (depth - 1) items
  | .object members => depth ≠ 0 && buffersMembers (depth - 1) members

def buffersItems (depth : Nat) : List Json → Bool
  | [] => true
  | json :: rest => buffers depth json && buffersItems depth rest

def buffersMembers (depth : Nat) : List (Text × Json) → Bool
  | [] => true
  | (key, json) :: rest => key.sound && buffers depth json && buffersMembers depth rest

end

/-- A variant of `ProcessAction` with its two fields. -/
def variant (tag : Text) (fieldOf : String → Option (Option Json)) : Option ProcessAction :=
  if tag.chars = "bet".toList then do
    let actionId ← fieldOf "action_id" >>= uuid
    let amount ← fieldOf "amount" >>= amount
    return .bet actionId amount
  else if tag.chars = "win".toList then do
    let actionId ← fieldOf "action_id" >>= uuid
    let amount ← fieldOf "amount" >>= amount
    return .win actionId amount
  else if tag.chars = "rollback".toList then do
    let actionId ← fieldOf "action_id" >>= uuid
    let originalActionId ← fieldOf "original_action_id" >>= uuid
    return .rollback actionId originalActionId
  else none

/-- `#[serde(tag = "action")]`: what is not the tag is buffered first, below a request, its actions
and the action itself. -/
def processAction : Json → Option ProcessAction
  | .object members =>
    if buffersMembers overflows 124 members then do
      let some (.string tag) ← field members "action" | none
      variant tag (field members)
    else none
  | .array [.string tag, first, second] =>
    if tag.sound && buffersItems overflows 124 [first, second] then
      variant tag fun key => some (if key = "action_id" then some first else some second)
    else none
  | _ => none

/-- `ProcessRequest`, from its named or its ordered fields. -/
def processRequest (fieldOf : String → Option (Option Json)) : Option ProcessRequest := do
  let userId ← fieldOf "user_id" >>= string
  let currency ← fieldOf "currency" >>= string
  let game ← fieldOf "game" >>= string
  let gameId ← fieldOf "game_id" >>= optional string
  let _finished ← fieldOf "finished" >>= optional boolean
  let actions ← fieldOf "actions" >>= optional (vec (processAction overflows))
  return { userId, currency, game, gameId, actions }

def ordered (items : List Json) (key : String) : Option (Option Json) :=
  some (items[["user_id", "currency", "game", "game_id", "finished", "actions"].idxOf key]?)

def fromValue : Json → Option ProcessRequest
  | .object members =>
    if members.all (·.1.sound) then processRequest overflows (field members) else none
  | .array items => if items.length = 6 then processRequest overflows (ordered items) else none
  | _ => none

end
end Rust
end BetProcessor
