import Mathlib.Data.List.Basic

namespace Codec
set_option autoImplicit true

/-- What a decoder of UTF-8 expects after the first bytes of a character. -/
structure Partial where
  needed : Nat
  point : Nat
  lower : Nat := 0x80
  upper : Nat := 0xBF

/-- The first byte of a character: the character, `none` for a byte that starts none, or what must
follow. -/
def utf8Start (b : Nat) : Option Char ⊕ Partial :=
  if b < 0x80 then .inl (some (Char.ofNat b))
  else if b < 0xC2 then .inl none
  else if b < 0xE0 then .inr { needed := 1, point := b - 0xC0 }
  else if b < 0xF0 then .inr {
    needed := 2
    point := b - 0xE0
    lower := if b = 0xE0 then 0xA0 else 0x80
    upper := if b = 0xED then 0x9F else 0xBF }
  else if b < 0xF5 then .inr {
    needed := 3
    point := b - 0xF0
    lower := if b = 0xF0 then 0x90 else 0x80
    upper := if b = 0xF4 then 0x8F else 0xBF }
  else .inl none

/-- The characters of some bytes, `none` for a sequence that is no character. -/
def decodeUtf8 : Option Partial → List UInt8 → List (Option Char)
  | none, [] => []
  | some _, [] => [none]
  | none, b :: rest =>
    match utf8Start b.toNat with
    | .inl c => c :: decodeUtf8 none rest
    | .inr p => decodeUtf8 (some p) rest
  | some p, b :: rest =>
    if p.lower ≤ b.toNat ∧ b.toNat ≤ p.upper then
      let point := p.point * 64 + (b.toNat - 0x80)
      if p.needed = 1 then some (Char.ofNat point) :: decodeUtf8 none rest
      else decodeUtf8 (some { needed := p.needed - 1, point }) rest
    else
      match utf8Start b.toNat with
      | .inl c => none :: c :: decodeUtf8 none rest
      | .inr p => none :: decodeUtf8 (some p) rest

/-- A string of a JSON text. It is sound when it has no half of a surrogate pair and no sequence of
bytes outside UTF-8; those stand in it as U+FFFD. -/
structure Text where
  chars : List Char
  sound : Bool := true
  deriving DecidableEq, Repr

/-- A number of a JSON text: `mantissa * 10 ^ scale`, without scale when it is written without point
and exponent. -/
structure Number where
  negative : Bool
  mantissa : Nat
  scale : Option Int
  deriving DecidableEq, Repr

/-- The integer that a number without scale is. -/
def Number.integer (n : Number) : Int := if n.negative then -n.mantissa else n.mantissa

/-- A JSON document, with the members of an object as they are written. -/
inductive Json where
  | null
  | bool (b : Bool)
  | number (n : Number)
  | string (t : Text)
  | array (items : List Json)
  | object (members : List (Text × Json))

inductive Token where
  | openBrace
  | closeBrace
  | openBracket
  | closeBracket
  | colon
  | comma
  | null
  | bool (b : Bool)
  | number (n : Number)
  | string (t : Text)
  deriving DecidableEq, Repr

def replacement : Char := Char.ofNat 0xFFFD

/-- A string that is being read, with the first half of a surrogate pair that waits for the
second. -/
structure Reading where
  chars : List Char := []
  sound : Bool := true
  high : Option Nat := none

namespace Reading

def flush (r : Reading) : Reading :=
  if r.high.isSome then { chars := r.chars ++ [replacement], sound := false } else r

def char (r : Reading) (c : Char) : Reading :=
  { r.flush with chars := r.flush.chars ++ [c] }

def unsound (r : Reading) : Reading := { r.char replacement with sound := false }

/-- A `\u` escape. -/
def escape (r : Reading) (n : Nat) : Reading :=
  if 0xD800 ≤ n ∧ n < 0xDC00 then { r.flush with high := some n }
  else if 0xDC00 ≤ n ∧ n < 0xE000 then
    match r.high with
    | some h =>
      { r with
        chars := r.chars ++ [Char.ofNat (0x10000 + (h - 0xD800) * 0x400 + (n - 0xDC00))]
        high := none }
    | none => r.unsound
  else r.char (Char.ofNat n)

def text (r : Reading) : Text := ⟨r.flush.chars, r.flush.sound⟩

end Reading

/-- Where in a number the reader is. -/
inductive Phase where
  | minus
  | zero
  | int
  | point
  | fraction
  | e
  | sign
  | exponent
  deriving DecidableEq

def digitOf (c : Char) : Option Nat :=
  if '0' ≤ c ∧ c ≤ '9' then some (c.toNat - 48) else none

/-- A number that is being read, with the sign and the digits of its exponent. -/
structure Counting where
  phase : Phase := .minus
  negative : Bool := false
  mantissa : Nat := 0
  decimals : Nat := 0
  down : Bool := false
  power : Nat := 0

namespace Counting

def finished (k : Counting) : Option Number :=
  match k.phase with
  | .zero | .int => some ⟨k.negative, k.mantissa, none⟩
  | .fraction => some ⟨k.negative, k.mantissa, some (0 - k.decimals)⟩
  | .exponent =>
    let power : Int := if k.down then 0 - k.power else k.power
    some ⟨k.negative, k.mantissa, some (power - k.decimals)⟩
  | _ => none

def digit (k : Counting) (d : Nat) : Option Counting :=
  match k.phase with
  | .minus => some { k with phase := if d = 0 then .zero else .int, mantissa := d }
  | .int => some { k with mantissa := k.mantissa * 10 + d }
  | .point | .fraction =>
    some { k with
      phase := .fraction
      mantissa := k.mantissa * 10 + d
      decimals := k.decimals + 1 }
  | .e | .sign | .exponent => some { k with phase := .exponent, power := k.power * 10 + d }
  | .zero => none

def next (k : Counting) (c : Char) : Option Counting :=
  match digitOf c with
  | some d => k.digit d
  | none =>
    if c = '.' ∧ (k.phase = .zero ∨ k.phase = .int) then some { k with phase := .point }
    else if (c = 'e' ∨ c = 'E') ∧ (k.phase = .zero ∨ k.phase = .int ∨ k.phase = .fraction) then
      some { k with phase := .e }
    else if (c = '+' ∨ c = '-') ∧ k.phase = .e then
      some { k with phase := .sign, down := c = '-' }
    else none

end Counting

/-- What the reader of tokens is in the middle of. -/
inductive Lexer where
  | idle
  | word (rest : List Char) (token : Token)
  | number (k : Counting)
  | string (r : Reading)
  | backslash (r : Reading)
  | hex (r : Reading) (digits n : Nat)

namespace Lexer

def start (c : Char) : Option (List Token × Lexer) :=
  if c = ' ' ∨ c = '\t' ∨ c = '\n' ∨ c = '\r' then some ([], idle)
  else if c = '\x7b' then some ([.openBrace], idle)
  else if c = '\x7d' then some ([.closeBrace], idle)
  else if c = '[' then some ([.openBracket], idle)
  else if c = ']' then some ([.closeBracket], idle)
  else if c = ':' then some ([.colon], idle)
  else if c = ',' then some ([.comma], idle)
  else if c = '"' then some ([], string { })
  else if c = 't' then some ([], word ['r', 'u', 'e'] (.bool true))
  else if c = 'f' then some ([], word ['a', 'l', 's', 'e'] (.bool false))
  else if c = 'n' then some ([], word ['u', 'l', 'l'] .null)
  else if c = '-' then some ([], number { negative := true })
  else
    match digitOf c with
    | some d => (Counting.digit { } d).map fun k => ([], number k)
    | none => none

def unescape (c : Char) : Option Char :=
  if c = '"' ∨ c = '\\' ∨ c = '/' then some c
  else if c = 'b' then some (Char.ofNat 8)
  else if c = 'f' then some (Char.ofNat 12)
  else if c = 'n' then some '\n'
  else if c = 'r' then some '\r'
  else if c = 't' then some '\t'
  else none

def hexOf (c : Char) : Option Nat :=
  if 'a' ≤ c ∧ c ≤ 'f' then some (c.toNat - 87)
  else if 'A' ≤ c ∧ c ≤ 'F' then some (c.toNat - 55)
  else digitOf c

def step : Lexer → Option Char → Option (List Token × Lexer)
  | string r, none => some ([], string r.unsound)
  | _, none => none
  | idle, some c => start c
  | word [] token, some c => (start c).map fun next => (token :: next.1, next.2)
  | word (x :: rest) token, some c => if c = x then some ([], word rest token) else none
  | number k, some c =>
    match k.next c with
    | some k => some ([], number k)
    | none => do
      let n ← k.finished
      let next ← start c
      return (.number n :: next.1, next.2)
  | string r, some c =>
    if c = '"' then some ([.string r.text], idle)
    else if c = '\\' then some ([], backslash r)
    else if c.toNat < 0x20 then none
    else some ([], string (r.char c))
  | backslash r, some c =>
    if c = 'u' then some ([], hex r 0 0)
    else (unescape c).map fun c => ([], string (r.char c))
  | hex r digits n, some c => do
    let d ← hexOf c
    if digits = 3 then return ([], string (r.escape (n * 16 + d)))
    else return ([], hex r (digits + 1) (n * 16 + d))

def finish : Lexer → Option (List Token)
  | idle => some []
  | word [] token => some [token]
  | number k => k.finished.map fun n => [.number n]
  | _ => none

/-- The tokens of a text. -/
def tokens : Lexer → List (Option Char) → Option (List Token)
  | l, [] => l.finish
  | l, c :: rest => do
    let next ← l.step c
    let later ← tokens next.2 rest
    return next.1 ++ later

end Lexer

/-- An array or an object that is still open, with the key of the member that is being read. -/
inductive Frame where
  | array (items : List Json)
  | object (members : List (Text × Json)) (key : Text)

/-- What the parser expects, inside the open arrays and objects. -/
inductive Parser where
  | value (stack : List Frame)
  | firstItem (stack : List Frame)
  | firstKey (stack : List Frame)
  | key (stack : List Frame) (members : List (Text × Json))
  | colon (stack : List Frame) (members : List (Text × Json)) (key : Text)
  | done (stack : List Frame) (json : Json)

namespace Parser

def open_ (stack : List Frame) : Token → Option Parser
  | .null => some (done stack .null)
  | .bool b => some (done stack (.bool b))
  | .number n => some (done stack (.number n))
  | .string t => some (done stack (.string t))
  | .openBracket => some (firstItem stack)
  | .openBrace => some (firstKey stack)
  | _ => none

def step : Parser → Token → Option Parser
  | value stack, token => open_ stack token
  | firstItem stack, .closeBracket => some (done stack (.array []))
  | firstItem stack, token => open_ (.array [] :: stack) token
  | firstKey stack, .closeBrace => some (done stack (.object []))
  | firstKey stack, .string k => some (colon stack [] k)
  | key stack members, .string k => some (colon stack members k)
  | colon stack members k, .colon => some (value (.object members k :: stack))
  | done (.array items :: stack) json, .comma => some (value (.array (items ++ [json]) :: stack))
  | done (.array items :: stack) json, .closeBracket => some (done stack (.array (items ++ [json])))
  | done (.object members k :: stack) json, .comma => some (key stack (members ++ [(k, json)]))
  | done (.object members k :: stack) json, .closeBrace =>
    some (done stack (.object (members ++ [(k, json)])))
  | _, _ => none

def result : Parser → Option Json
  | done [] json => some json
  | _ => none

end Parser

/-- The document of some bytes. -/
def parseJson (bytes : List UInt8) : Option Json := do
  let tokens ← Lexer.idle.tokens (decodeUtf8 none bytes)
  let parser ← tokens.foldlM Parser.step (Parser.value [])
  parser.result

namespace Json

/-- The value that JavaScript finds under a key, the last one. -/
def last? (members : List (Text × Json)) (key : String) : Option Json :=
  (members.reverse.find? (·.1.chars = key.toList)).map (·.2)

end Json
end Codec
