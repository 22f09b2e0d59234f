import MicroBus.Json.Number

/-!
# JSON tokens

A text falls into brackets, separators and scalars. The reader takes one character at a time:
numbers and words run on as long as characters may belong to them, texts end at a quotation
mark. Escaped surrogates count only in pairs, and control characters have to be escaped.
-/

namespace MicroBus.Json

/-- A piece of a JSON text. -/
inductive Token where
  /-- The start of an array. -/
  | openArray
  /-- The end of an array. -/
  | closeArray
  /-- The start of an object. -/
  | openObject
  /-- The end of an object. -/
  | closeObject
  /-- What stands between items. -/
  | comma
  /-- What stands between the name and the tree of a member. -/
  | colon
  /-- A number, a text or a literal. -/
  | scalar (j : Json)

/-- The piece that is being read; characters are kept newest first. -/
inductive Piece where
  /-- Nothing has begun. -/
  | blank
  /-- The characters of a number. -/
  | number (read : List Char)
  /-- The letters of a literal. -/
  | word (read : List Char)
  /-- The characters of a text. -/
  | text (read : List Char)
  /-- A text, just after a backslash. -/
  | escape (read : List Char)
  /-- A text, inside an escape of four hexadecimal digits, after a leading surrogate or not. -/
  | hex (read : List Char) (leading : Option Nat) (missing value : Nat)
  /-- A text, after a leading surrogate. -/
  | leading (read : List Char) (surrogate : Nat)
  /-- A text, after a leading surrogate and a backslash. -/
  | leadingEscape (read : List Char) (surrogate : Nat)

namespace Token

/-- What has been read of a JSON text: the tokens, newest first, and the piece begun. -/
structure Reader where
  /-- The finished tokens, newest first. -/
  tokens : List Token
  /-- The piece begun. -/
  piece : Piece

/-- Whether a character may belong to a number. -/
def inNumber (c : Char) : Bool :=
  (digit? c).isSome || c = '-' || c = '+' || c = '.' || c = 'e' || c = 'E'

/-- Whether a character may belong to a literal. -/
def inWord (c : Char) : Bool := 'a' ≤ c && c ≤ 'z'

/-- Whether a character is white space. -/
def isBlank (c : Char) : Bool := c = ' ' || c = '\n' || c = '\t' || c = '\r'

/-- The literal that a word is. -/
def literal? (w : List Char) : Option Json :=
  match w with
  | ['n', 'u', 'l', 'l'] => some .null
  | ['t', 'r', 'u', 'e'] => some (.bool true)
  | ['f', 'a', 'l', 's', 'e'] => some (.bool false)
  | _ => none

/-- The value of a hexadecimal digit. -/
def hexValue? (c : Char) : Option Nat :=
  if '0' ≤ c ∧ c ≤ '9' then some (c.toNat - 48)
  else if 'a' ≤ c ∧ c ≤ 'f' then some (c.toNat - 87)
  else if 'A' ≤ c ∧ c ≤ 'F' then some (c.toNat - 55)
  else none

/-- Starts a piece, or ends one of a single character. -/
def Reader.begin (tokens : List Token) (c : Char) : Option Reader :=
  match c with
  | '[' => some ⟨.openArray :: tokens, .blank⟩
  | ']' => some ⟨.closeArray :: tokens, .blank⟩
  | '{' => some ⟨.openObject :: tokens, .blank⟩
  | '}' => some ⟨.closeObject :: tokens, .blank⟩
  | ',' => some ⟨.comma :: tokens, .blank⟩
  | ':' => some ⟨.colon :: tokens, .blank⟩
  | '\x22' => some ⟨tokens, .text []⟩
  | _ =>
    if isBlank c then some ⟨tokens, .blank⟩
    else if inNumber c then some ⟨tokens, .number [c]⟩
    else if inWord c then some ⟨tokens, .word [c]⟩
    else none

/-- The character that a one-letter escape stands for. -/
def escaped? (c : Char) : Option Char :=
  match c with
  | '\x22' => some '\x22'
  | '\\' => some '\\'
  | '/' => some '/'
  | 'b' => some '\x08'
  | 'f' => some '\x0c'
  | 'n' => some '\n'
  | 'r' => some '\r'
  | 't' => some '\t'
  | _ => none

/-- Ends an escape of four digits: a character, the first half of a surrogate pair, or the
second half after the first. -/
def finishHex (read : List Char) (leading : Option Nat) (value : Nat) : Option Piece :=
  let high : Bool := 0xD800 ≤ value && value ≤ 0xDBFF
  let low : Bool := 0xDC00 ≤ value && value ≤ 0xDFFF
  match leading with
  | none =>
    if high then some (.leading read value)
    else if low then none
    else some (.text (Char.ofNat value :: read))
  | some first =>
    if low then
      some (.text (Char.ofNat (0x10000 + (first - 0xD800) * 0x400 + (value - 0xDC00)) :: read))
    else none

/-- Reads one character. -/
def Reader.step (r : Reader) (c : Char) : Option Reader :=
  match r.piece with
  | .blank => begin r.tokens c
  | .number read =>
    if inNumber c then some ⟨r.tokens, .number (c :: read)⟩
    else (number? read.reverse).bind fun j => begin (.scalar j :: r.tokens) c
  | .word read =>
    if inWord c then some ⟨r.tokens, .word (c :: read)⟩
    else (literal? read.reverse).bind fun j => begin (.scalar j :: r.tokens) c
  | .text read =>
    if c = '\x22' then some ⟨.scalar (.str (String.ofList read.reverse)) :: r.tokens, .blank⟩
    else if c = '\\' then some ⟨r.tokens, .escape read⟩
    else if c.toNat < 32 then none
    else some ⟨r.tokens, .text (c :: read)⟩
  | .escape read =>
    if c = 'u' then some ⟨r.tokens, .hex read none 4 0⟩
    else (escaped? c).map fun d => ⟨r.tokens, .text (d :: read)⟩
  | .hex read leading missing value =>
    (hexValue? c).bind fun d =>
      let value := value * 16 + d
      if missing ≤ 1 then (finishHex read leading value).map fun p => ⟨r.tokens, p⟩
      else some ⟨r.tokens, .hex read leading (missing - 1) value⟩
  | .leading read surrogate =>
    if c = '\\' then some ⟨r.tokens, .leadingEscape read surrogate⟩ else none
  | .leadingEscape read surrogate =>
    if c = 'u' then some ⟨r.tokens, .hex read (some surrogate) 4 0⟩ else none

/-- The tokens at the end of a text, newest first. A text that is still open is no token. -/
def Reader.finish (r : Reader) : Option (List Token) :=
  match r.piece with
  | .blank => some r.tokens
  | .number read => (number? read.reverse).map fun j => .scalar j :: r.tokens
  | .word read => (literal? read.reverse).map fun j => .scalar j :: r.tokens
  | _ => none

/-- The tokens of a text, in order. -/
def ofText (cs : List Char) : Option (List Token) := do
  let r ← cs.foldlM Reader.step ⟨[], .blank⟩
  let tokens ← r.finish
  some tokens.reverse

end Token

end MicroBus.Json
