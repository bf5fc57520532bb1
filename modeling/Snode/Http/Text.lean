import Mathlib.Data.Nat.Digits.Defs

/-!
# Byte strings and the C++ text facilities

`std::string` as a list of bytes, with what the HTTP code uses of the C and
C++ libraries on it: character classes and comparisons in the classic locale,
and `std::istream` reading from a stream buffer.  Library behaviour is modelled
as documented, down to the stream flags.
-/

namespace Snode.Http

abbrev Bytes := List UInt8

/-- The bytes of an ASCII literal of the source. -/
def ascii (literal : String) : Bytes :=
  literal.toList.map fun character => UInt8.ofNat character.toNat

def cr : UInt8 := 13
def lf : UInt8 := 10

/-- `CRLF`. -/
def crlf : Bytes := [cr, lf]

/-- A byte as a plain `char`, which is signed. -/
def charVal (byte : UInt8) : Int :=
  if byte.toNat < 128 then byte.toNat else byte.toNat - 256

/-- `isspace` in the C locale. -/
def isSpace (byte : UInt8) : Bool :=
  byte == 32 || (decide (9 ≤ byte.toNat) && decide (byte.toNat ≤ 13))

/-- `std::toupper` in the classic locale. -/
def toUpper (byte : UInt8) : UInt8 :=
  if 97 ≤ byte.toNat ∧ byte.toNat ≤ 122 then byte - 32 else byte

/-- `boost::iequals`. -/
def iequals (left right : Bytes) : Bool :=
  left.map toUpper == right.map toUpper

def ltrimWhitespace (str : Bytes) : Bytes :=
  str.dropWhile isSpace

def rtrimWhitespace (str : Bytes) : Bytes :=
  (str.reverse.dropWhile isSpace).reverse

def trimWhitespace (str : Bytes) : Bytes :=
  rtrimWhitespace (ltrimWhitespace str)

/-- `boost::ifind_first(str, pattern)`, as a truth value. -/
def ifindFirst (pattern : Bytes) : Bytes → Bool
  | [] => pattern.isEmpty
  | byte :: rest => iequals ((byte :: rest).take pattern.length) pattern || ifindFirst pattern rest

/-- `std::istream` on a stream buffer that holds `rest`. -/
structure Istream where
  rest : Bytes
  eof : Bool
  fail : Bool

namespace Istream

def new (buffer : Bytes) : Istream :=
  ⟨buffer, false, false⟩

def good (stream : Istream) : Bool :=
  !stream.eof && !stream.fail

/-- The sentry of a formatted extraction: skips whitespace, and fails at the end. -/
def sentry (stream : Istream) : Istream :=
  if stream.good then
    match stream.rest.dropWhile isSpace with
    | [] => ⟨[], true, true⟩
    | rest => ⟨rest, false, false⟩
  else
    { stream with fail := true }

/-- `stream >> str`; a failed extraction leaves the string as it was. -/
def getString (stream : Istream) (str : Bytes) : Bytes × Istream :=
  let stream := stream.sentry
  if stream.fail then
    (str, stream)
  else
    let word := stream.rest.takeWhile (!isSpace ·)
    let rest := stream.rest.dropWhile (!isSpace ·)
    (word, ⟨rest, rest.isEmpty, word.isEmpty⟩)

/-- `std::getline(stream, str)`. -/
def getline (stream : Istream) (str : Bytes) : Bytes × Istream :=
  if stream.good then
    match stream.rest with
    | [] => ([], ⟨[], true, true⟩)
    | buffer =>
        let line := buffer.takeWhile (· != lf)
        match buffer.dropWhile (· != lf) with
        | [] => (line, ⟨[], true, false⟩)
        | _ :: rest => (line, ⟨rest, false, false⟩)
  else
    (str, { stream with fail := true })

end Istream

/-- The value of a hexadecimal digit. -/
def hexDigit? (byte : UInt8) : Option ℕ :=
  if 48 ≤ byte.toNat ∧ byte.toNat ≤ 57 then some (byte.toNat - 48)
  else if 65 ≤ byte.toNat ∧ byte.toNat ≤ 70 then some (byte.toNat - 55)
  else if 97 ≤ byte.toNat ∧ byte.toNat ≤ 102 then some (byte.toNat - 87)
  else none

/-- The value of a decimal digit. -/
def decDigit? (byte : UInt8) : Option ℕ :=
  if 48 ≤ byte.toNat ∧ byte.toNat ≤ 57 then some (byte.toNat - 48) else none

/-- The digits at the front of `buffer` accumulated onto `result`, how many they are, and
what follows them. -/
def takeDigits (base : ℕ) (digit? : UInt8 → Option ℕ) : ℕ → ℕ → Bytes → ℕ × ℕ × Bytes
  | result, count, [] => (result, count, [])
  | result, count, byte :: rest =>
      match digit? byte with
      | some digit => takeDigits base digit? (result * base + digit) (count + 1) rest
      | none => (result, count, byte :: rest)

/-- An optional sign: whether it is a minus, and what follows it. -/
def takeSign : Bytes → Bool × Bytes
  | 45 :: rest => (true, rest)
  | 43 :: rest => (false, rest)
  | buffer => (false, buffer)

/-- An optional `0x` or `0X`. -/
def takeHexPrefix : Bytes → Bytes
  | 48 :: 120 :: rest => rest
  | 48 :: 88 :: rest => rest
  | buffer => buffer

namespace Istream

/-- `stream >> std::hex >> value` for an `int`: the largest numeral at the front, `0` with the
fail flag when there is none, and the nearest `int` with the fail flag when it is out of
range.  When only whitespace is left nothing is stored. -/
def getHexInt (stream : Istream) (value : Int) : Int × Istream :=
  let stream := stream.sentry
  if stream.fail then
    (value, stream)
  else
    let (negative, digits) := takeSign stream.rest
    let (magnitude, count, rest) := takeDigits 16 hexDigit? 0 0 (takeHexPrefix digits)
    let number : Int := if negative then -magnitude else magnitude
    if count = 0 then
      (0, ⟨rest, rest.isEmpty, true⟩)
    else if number < -2 ^ 31 then
      (-2 ^ 31, ⟨rest, rest.isEmpty, true⟩)
    else if 2 ^ 31 ≤ number then
      (2 ^ 31 - 1, ⟨rest, rest.isEmpty, true⟩)
    else
      (number, ⟨rest, rest.isEmpty, false⟩)

/-- `stream >> value` for a `size_t`; a minus sign negates modulo the word size. -/
def getSize (stream : Istream) (value : ℕ) : ℕ × Istream :=
  let stream := stream.sentry
  if stream.fail then
    (value, stream)
  else
    let (negative, digits) := takeSign stream.rest
    let (magnitude, count, rest) := takeDigits 10 decDigit? 0 0 digits
    if count = 0 then
      (0, ⟨rest, rest.isEmpty, true⟩)
    else if 2 ^ 64 ≤ magnitude then
      (2 ^ 64 - 1, ⟨rest, rest.isEmpty, true⟩)
    else
      (if negative then (2 ^ 64 - magnitude) % 2 ^ 64 else magnitude,
        ⟨rest, rest.isEmpty, false⟩)

end Istream

end Snode.Http
