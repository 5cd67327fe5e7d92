/-
This file reads JSON text. A first pass, `lexCharacter`, cuts the text into
tokens, one character at a time; a second pass, `build`, makes the value, one
token at a time, with the open arrays and objects on a stack. Both passes are
folds, so `parse?` always ends and nesting may be of any depth. What is skipped
by a decoder later still has to be grammatical here.
-/

import BytecodeFlow.Json.Value

namespace BytecodeFlow

namespace Json

/-! ### Strings -/

/-- A part of a string literal: a character, or the 16-bit unit of a `\u` escape. -/
inductive Piece where
  | character (value : Char)
  | unit (value : Nat)

def isHighSurrogate (unit : Nat) : Bool := 0xd800 ≤ unit && unit ≤ 0xdbff

def isLowSurrogate (unit : Nat) : Bool := 0xdc00 ≤ unit && unit ≤ 0xdfff

/-- The characters that pieces stand for; `none` when a surrogate is not one of a pair. -/
def assemble : List Piece → Option (List Char)
  | [] => some []
  | .character value :: rest => (assemble rest).map (value :: ·)
  | .unit high :: .unit low :: rest =>
    if isHighSurrogate high then
      if isLowSurrogate low then
        let point := 0x10000 + (high - 0xd800) * 0x400 + (low - 0xdc00)
        (assemble rest).map (Char.ofNat point :: ·)
      else none
    else if isLowSurrogate high then none
    else (assemble (.unit low :: rest)).map (Char.ofNat high :: ·)
  | .unit value :: rest =>
    if isHighSurrogate value || isLowSurrogate value then none
    else (assemble rest).map (Char.ofNat value :: ·)

/-- The character that a single-letter escape stands for. -/
def escapedCharacter? : Char → Option Char
  | '"' => some '"'
  | '\\' => some '\\'
  | '/' => some '/'
  | 'b' => some '\x08'
  | 'f' => some '\x0c'
  | 'n' => some '\n'
  | 'r' => some '\r'
  | 't' => some '\t'
  | _ => none

def hexDigit? (character : Char) : Option Nat :=
  if character.isDigit then some (character.toNat - '0'.toNat)
  else if 'a' ≤ character ∧ character ≤ 'f' then some (character.toNat - 'a'.toNat + 10)
  else if 'A' ≤ character ∧ character ≤ 'F' then some (character.toNat - 'A'.toNat + 10)
  else none

/-! ### Numbers and words -/

def digitValues (digits : List Char) : List Nat :=
  digits.map fun digit => digit.toNat - '0'.toNat

def valueOfDigits (digits : List Char) : Nat :=
  (digitValues digits).foldl (fun value digit => value * 10 + digit) 0

/-- The integer part of a number: digits, without a leading zero unless it is the only one. -/
def integerPart (characters : List Char) : Option (List Char × List Char) :=
  match characters.takeWhile Char.isDigit with
  | [] => none
  | '0' :: _ :: _ => none
  | digits => some (digits, characters.dropWhile Char.isDigit)

/-- The fraction part of a number: nothing, or a point and digits. -/
def fractionPart : List Char → Option (Option (List Char) × List Char)
  | '.' :: rest =>
    match rest.takeWhile Char.isDigit with
    | [] => none
    | digits => some (some digits, rest.dropWhile Char.isDigit)
  | rest => some (none, rest)

/-- The exponent part of a number, which ends it: nothing, or a mark, a sign and digits. -/
def exponentPart : List Char → Option (Option Int)
  | [] => some none
  | mark :: rest =>
    if mark = 'e' ∨ mark = 'E' then
      let (negative, digits) :=
        match rest with
        | '-' :: digits => (true, digits)
        | '+' :: digits => (false, digits)
        | digits => (false, digits)
      if !digits.isEmpty && digits.all Char.isDigit then
        let power : Int := valueOfDigits digits
        some (some (if negative then -power else power))
      else none
    else none

/-- A whole number in the 64-bit range is kept as such, any other number is a double. A zero with
a minus sign is a double as well. -/
def numberValue (negative : Bool) (integer : List Char) (fraction : Option (List Char))
    (power : Option Int) : Json :=
  let float :=
    match Binary64.ofDigits negative (digitValues integer)
        (digitValues (fraction.getD [])) (power.getD 0) with
    | some value => Json.float value
    | none => .unreadable
  if fraction.isSome || power.isSome then float
  else
    let value := valueOfDigits integer
    if negative then
      if 0 < value ∧ Int64.minValue.toInt ≤ -(value : Int) then .int (-(value : Int)) else float
    else if value < UInt64.size then .int value
    else float

def number? (characters : List Char) : Option Json := do
  let (negative, unsigned) :=
    match characters with
    | '-' :: rest => (true, rest)
    | rest => (false, rest)
  let (integer, rest) ← integerPart unsigned
  let (fraction, rest) ← fractionPart rest
  let power ← exponentPart rest
  return numberValue negative integer fraction power

/-- The value of a bare word: `null`, a truth value or a number. -/
def word? (characters : List Char) : Option Json :=
  match String.ofList characters with
  | "null" => some .null
  | "true" => some (.bool true)
  | "false" => some (.bool false)
  | _ => number? characters

/-! ### Tokens -/

inductive Token where
  | openArray
  | closeArray
  | openObject
  | closeObject
  | comma
  | colon
  /-- A string literal, `none` when it has an unpaired surrogate. -/
  | text (content : Option String)
  | word (value : Json)

/-- Where a string literal stands: between escapes, after a backslash, or inside a `\u` escape
with some hexadecimal digits read. -/
inductive Inside where
  | plain
  | escape
  | hex (count : Nat) (value : Nat)

/-- What is being read. Words and strings are kept in reverse. -/
inductive Reading where
  | blank
  | word (reversed : List Char)
  | text (inside : Inside) (reversed : List Piece)

structure Lexing where
  reading : Reading
  reversed : List Token

def isBlank (character : Char) : Bool :=
  character == ' ' || character == '\n' || character == '\t' || character == '\r'

def isWordCharacter (character : Char) : Bool :=
  character.isAlphanum || character == '+' || character == '-' || character == '.'

def punctuation? : Char → Option Token
  | '[' => some .openArray
  | ']' => some .closeArray
  | '\x7b' => some .openObject
  | '\x7d' => some .closeObject
  | ',' => some .comma
  | ':' => some .colon
  | _ => none

/-- Read a character outside strings and words. -/
def lexBlank (tokens : List Token) (character : Char) : Option Lexing :=
  if isBlank character then some ⟨.blank, tokens⟩
  else if character = '"' then some ⟨.text .plain [], tokens⟩
  else if isWordCharacter character then some ⟨.word [character], tokens⟩
  else (punctuation? character).map fun token => ⟨.blank, token :: tokens⟩

/-- Read a character of a string literal. A control character is not allowed there. -/
def lexText (tokens : List Token) (pieces : List Piece) (character : Char) :
    Inside → Option Lexing
  | .plain =>
    if character = '"' then
      some ⟨.blank, .text ((assemble pieces.reverse).map String.ofList) :: tokens⟩
    else if character = '\\' then some ⟨.text .escape pieces, tokens⟩
    else if character.toNat < 0x20 then none
    else some ⟨.text .plain (.character character :: pieces), tokens⟩
  | .escape =>
    if character = 'u' then some ⟨.text (.hex 0 0) pieces, tokens⟩
    else (escapedCharacter? character).map fun value =>
      ⟨.text .plain (.character value :: pieces), tokens⟩
  | .hex count value =>
    (hexDigit? character).map fun digit =>
      if count = 3 then ⟨.text .plain (.unit (value * 16 + digit) :: pieces), tokens⟩
      else ⟨.text (.hex (count + 1) (value * 16 + digit)) pieces, tokens⟩

def lexCharacter (state : Lexing) (character : Char) : Option Lexing :=
  match state.reading with
  | .blank => lexBlank state.reversed character
  | .word characters =>
    if isWordCharacter character then some ⟨.word (character :: characters), state.reversed⟩
    else do
      let value ← word? characters.reverse
      lexBlank (.word value :: state.reversed) character
  | .text inside pieces => lexText state.reversed pieces character inside

/-- The tokens of a text. -/
def tokens? (text : String) : Option (List Token) := do
  let state ← text.toList.foldlM lexCharacter ⟨.blank, []⟩
  match state.reading with
  | .blank => return state.reversed.reverse
  | .word characters => return (.word (← word? characters.reverse) :: state.reversed).reverse
  | .text _ _ => none

/-! ### Building the value -/

/-- An array or object that is still open, its content in reverse. An object has the key that
waits for its value, and remembers whether each of its keys could be read. -/
inductive Frame where
  | array (reversed : List Json)
  | object (reversed : List (String × Json)) (readable : Bool) (key : Option String)

/-- What may come next. -/
inductive Expecting where
  | value
  | itemOrClose
  | key
  | keyOrClose
  | colon
  | commaOrClose
  | ending (value : Json)

structure Building where
  expecting : Expecting
  frames : List Frame

/-- Put a finished value where it belongs. -/
def place (value : Json) : List Frame → Building
  | [] => ⟨.ending value, []⟩
  | .array items :: rest => ⟨.commaOrClose, .array (value :: items) :: rest⟩
  | .object members readable (some key) :: rest =>
    ⟨.commaOrClose, .object ((key, value) :: members) readable none :: rest⟩
  | .object members _ none :: rest => ⟨.commaOrClose, .object members false none :: rest⟩

/-- Close the innermost open array. -/
def closeArray : List Frame → Option Building
  | .array items :: rest => some (place (.array items.reverse) rest)
  | _ => none

/-- Close the innermost open object. -/
def closeObject : List Frame → Option Building
  | .object members readable _ :: rest =>
    some (place (if readable then .object members.reverse else .unreadable) rest)
  | _ => none

/-- Begin a value with a token. -/
def buildValue (frames : List Frame) : Token → Option Building
  | .openArray => some ⟨.itemOrClose, .array [] :: frames⟩
  | .openObject => some ⟨.keyOrClose, .object [] true none :: frames⟩
  | .text (some content) => some (place (.string content) frames)
  | .text none => some (place .unreadable frames)
  | .word value => some (place value frames)
  | _ => none

/-- Read the key of a member. -/
def buildKey : List Frame → Token → Option Building
  | .object members readable _ :: rest, .text content =>
    some ⟨.colon, .object members (readable && content.isSome) content :: rest⟩
  | _, _ => none

def build (state : Building) (token : Token) : Option Building :=
  match state.expecting, token with
  | .value, token => buildValue state.frames token
  | .itemOrClose, .closeArray => closeArray state.frames
  | .itemOrClose, token => buildValue state.frames token
  | .key, token => buildKey state.frames token
  | .keyOrClose, .closeObject => closeObject state.frames
  | .keyOrClose, token => buildKey state.frames token
  | .colon, .colon => some ⟨.value, state.frames⟩
  | .commaOrClose, .closeArray => closeArray state.frames
  | .commaOrClose, .closeObject => closeObject state.frames
  | .commaOrClose, .comma =>
    match state.frames with
    | .array _ :: _ => some ⟨.value, state.frames⟩
    | .object .. :: _ => some ⟨.key, state.frames⟩
    | [] => none
  | _, _ => none

/-- Read a text that holds one JSON value and nothing else. -/
def parse? (text : String) : Option Json := do
  let tokens ← tokens? text
  let state ← tokens.foldlM build ⟨.value, []⟩
  match state.expecting with
  | .ending value => return value
  | _ => none

end Json

end BytecodeFlow
