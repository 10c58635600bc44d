import Mathlib.Data.String.Basic
import Rp1.Support.Checked
import Rp1.Support.Loop
import Rp1.Support.Text

/-!
# Validation — the JSON of the journal

`json.rs`: the writer and the reader of the journal.  An object is written field by field, and a
flat one is read back from the characters of a line.  The two loops of the reader are loops over
what its iterator still holds.
-/

namespace Rp1.Validation.Json
open Codec Loop Text

/-! ### The writer -/

/-- A JSON object under construction. -/
structure Object where
  body : String
deriving DecidableEq, Repr

/-- One hexadecimal digit of a control character escape. -/
def hexDigit (value : Nat) : Char := if value < 16 then Nat.digitChar value else '0'

/-- The characters that stand for one character of a string. -/
def escape (character : Char) : List Char :=
  if character = '"' then ['\\', '"']
  else if character = '\\' then ['\\', '\\']
  else if character = '\n' then ['\\', 'n']
  else if character = '\r' then ['\\', 'r']
  else if character = '\t' then ['\\', 't']
  else if character.toNat < 0x20 then
    ['\\', 'u', '0', '0', hexDigit (character.toNat / 16), hexDigit (character.toNat % 16)]
  else [character]

/-- One JSON string literal. -/
def quote (value : String) : String :=
  String.ofList ('"' :: value.toList.flatMap escape ++ ['"'])

namespace Object

def new : Object := ⟨""⟩

def key (o : Object) (key : String) : Object :=
  ⟨(if o.body.isEmpty then o.body else o.body ++ ",") ++ quote key ++ ":"⟩

def string (o : Object) (key value : String) : Object := ⟨(o.key key).body ++ quote value⟩

def number (o : Object) (key : String) (value : UInt64) : Object :=
  ⟨(o.key key).body ++ toString value.toNat⟩

def encode (o : Object) : String := String.singleton '{' ++ o.body ++ String.singleton '}'

end Object

/-! ### The reader -/

/-- A value a journal entry can hold. -/
inductive Value where
  | string (text : String)
  | number (number : UInt64)
deriving DecidableEq, Repr

/-- What the iterator over the characters still holds. -/
abbrev Chars := List Char

def skipWhitespace (characters : Chars) : Chars := characters.dropWhile isWhitespace

def isAsciiHexdigit (c : Char) : Bool :=
  c.isDigit || ('a' ≤ c && c ≤ 'f') || ('A' ≤ c && c ≤ 'F')

/-- The value of a hexadecimal digit. -/
def hexValue (c : Char) : Nat :=
  if c.isDigit then c.toNat - '0'.toNat
  else if 'a' ≤ c then c.toNat - 'a'.toNat + 10
  else c.toNat - 'A'.toNat + 10

/-- The number that hexadecimal digits stand for. -/
def hexNumber (digits : List Char) : Nat := digits.foldl (fun n c => 16 * n + hexValue c) 0

/-- `u32::from_str_radix(digits, 16)`. -/
def fromStrRadix16 (digits : List Char) : Option Nat :=
  if digits.isEmpty then none else tryFit (2 ^ 32 - 1) (hexNumber digits)

/-- `char::from_u32`. -/
def charFromU32 (code : Nat) : Option Char :=
  if code.isValidChar then some (Char.ofNat code) else none

/-- The loop of `parse_unicode_escape`, with `n` digits to come. -/
def unicodeDigits : Nat → Chars → Except String (List Char × Chars)
  | 0, characters => .ok ([], characters)
  | _ + 1, [] => .error "a unicode escape needs four hexadecimal digits"
  | n + 1, digit :: characters =>
      if isAsciiHexdigit digit then do
        let (digits, characters) ← unicodeDigits n characters
        .ok (digit :: digits, characters)
      else .error "a unicode escape needs four hexadecimal digits"

def parseUnicodeEscape (characters : Chars) : Except String (Char × Chars) := do
  let (digits, characters) ← unicodeDigits 4 characters
  let code ← okOr (fromStrRadix16 digits) "a unicode escape holds a value the runner cannot read"
  let character ←
    okOr (charFromU32 code) "a unicode escape holds a value that is not a character"
  .ok (character, characters)

def parseEscape : Chars → Except String (Char × Chars)
  | '"' :: characters => .ok ('"', characters)
  | '\\' :: characters => .ok ('\\', characters)
  | '/' :: characters => .ok ('/', characters)
  | 'n' :: characters => .ok ('\n', characters)
  | 'r' :: characters => .ok ('\r', characters)
  | 't' :: characters => .ok ('\t', characters)
  | 'b' :: characters => .ok ('\x08', characters)
  | 'f' :: characters => .ok ('\x0c', characters)
  | 'u' :: characters => parseUnicodeEscape characters
  | _ => .error "a JSON string holds an escape the runner does not read"

/-- One round of the loop in `parse_string`, on the value so far and what is left. -/
def stringRound : List Char × Chars → (List Char × Chars) × Flow (Except String Unit)
  | (value, []) => ((value, []), .leave (.error "a JSON string must be closed"))
  | (value, character :: characters) =>
      if character = '"' then ((value, characters), .leave (.ok ()))
      else if character = '\\' then
        match parseEscape characters with
        | .ok (escaped, characters) => ((value ++ [escaped], characters), .again)
        | .error error => ((value, characters), .leave (.error error))
      else ((value ++ [character], characters), .again)

instance inhabitedResult : Inhabited (Except String Unit) := ⟨.ok ()⟩

/-- The loop in `parse_string`. -/
def stringLoop : List Char × Chars → (List Char × Chars) × Except String Unit :=
  run (fun s => s.2.length) stringRound

def parseString : Chars → Except String (String × Chars)
  | '"' :: characters =>
      let r := stringLoop ([], characters)
      r.2.map fun _ => (String.ofList r.1.1, r.1.2)
  | _ => .error "a JSON string must start with a quotation mark"

/-- `str::parse::<u64>` of decimal digits. -/
def parseU64 (digits : List Char) : Option UInt64 :=
  if digits.isEmpty then none
  else (tryFit u64Max (Nat.ofDigitChars 10 digits 0)).map UInt64.ofNat

def parseNumber (characters : Chars) : Except String (UInt64 × Chars) := do
  let number ← okOr (parseU64 (characters.takeWhile Char.isDigit))
    "a journal entry holds a number the runner cannot read"
  .ok (number, characters.dropWhile Char.isDigit)

/-- The value of a field. -/
def parseValue (characters : Chars) : Except String (Value × Chars) :=
  match characters with
  | [] => .error "a journal entry value must be a string or a number"
  | character :: _ =>
      if character = '"' then (parseString characters).map fun r => (.string r.1, r.2)
      else if character.isDigit then (parseNumber characters).map fun r => (.number r.1, r.2)
      else .error "a journal entry value must be a string or a number"

/-- A key, its value and the white space behind it. -/
def parseField (characters : Chars) : Except String ((String × Value) × Chars) := do
  let characters := skipWhitespace characters
  if characters.head? ≠ some '"' then .error "a journal entry key must be a string"
  else do
    let (key, characters) ← parseString characters
    match skipWhitespace characters with
    | ':' :: characters => do
        let (value, characters) ← parseValue (skipWhitespace characters)
        .ok ((key, value), skipWhitespace characters)
    | _ => .error "a journal entry key must be followed by a value"

/-- One round of the loop in `parse_flat_object`. -/
def fieldRound (s : List (String × Value) × Chars) :
    (List (String × Value) × Chars) × Flow (Except String Unit) :=
  match parseField s.2 with
  | .error error => (s, .leave (.error error))
  | .ok (field, ',' :: characters) => ((s.1 ++ [field], characters), .again)
  | .ok (field, '}' :: characters) => ((s.1 ++ [field], characters), .leave (.ok ()))
  | .ok (field, characters) =>
      ((s.1 ++ [field], characters),
        .leave (.error "a journal entry must end after its last value"))

/-- The loop in `parse_flat_object`. -/
def fieldLoop : List (String × Value) × Chars →
    (List (String × Value) × Chars) × Except String Unit :=
  run (fun s => s.2.length) fieldRound

/-- `parse_flat_object` on the trimmed text: the fields, and what the iterator holds at the end. -/
def parseObject : Chars → Except String (List (String × Value) × Chars)
  | '{' :: characters =>
      let characters := skipWhitespace characters
      if characters.head? = some '}' then .ok ([], characters)
      else
        let r := fieldLoop ([], characters)
        r.2.map fun _ => r.1
  | _ => .error "a journal entry must be a JSON object"

/-- One JSON object whose values are strings or numbers. -/
def parseFlatObject (text : String) : Except String (List (String × Value)) :=
  (parseObject (trim text.toList)).map Prod.fst

/-- The first string field of a name. -/
def stringField (fields : List (String × Value)) (key : String) : Option String :=
  fields.findSome? fun field =>
    match field.2 with
    | .string text => if field.1 = key then some text else none
    | .number _ => none

/-- The first number field of a name. -/
def numberField (fields : List (String × Value)) (key : String) : Option UInt64 :=
  fields.findSome? fun field =>
    match field.2 with
    | .number number => if field.1 = key then some number else none
    | .string _ => none

example : parseFlatObject (((Object.new.string "a" "x\n\x01").number "b" 17).encode) =
    .ok [("a", .string "x\n\x01"), ("b", .number 17)] := by decide +kernel

end Rp1.Validation.Json
