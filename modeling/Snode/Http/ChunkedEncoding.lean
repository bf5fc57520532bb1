import Snode.Http.Text

/-!
# Chunk delimiters

`chunked_encoding::add_chunked_delimiters` on the memory it is given.
-/

namespace Snode.Http.ChunkedEncoding

def additionalEncodingSpace : ℕ := 12
def dataOffset : ℕ := additionalEncodingSpace - 2

/-- An upper-case hexadecimal digit. -/
def hexDigit (digit : ℕ) : UInt8 :=
  if digit < 10 then UInt8.ofNat (48 + digit) else UInt8.ofNat (55 + digit)

/-- `"%zX"`: the digits of `number`, most significant first. -/
def hexDigits (number : ℕ) : Bytes :=
  ((Nat.digits 16 number).map hexDigit).reverse

/-- `snprintf(buffer, 9, "%8zX", number)`: padded with blanks on the left, and cut to the eight
characters there is room for beside the terminator. -/
def printHex8 (number : ℕ) : Bytes :=
  let digits := if number = 0 then [48] else hexDigits number
  (List.replicate (8 - digits.length) 32 ++ digits).take 8

/-- `data[index] = chars[0], data[index + 1] = chars[1], ...`. -/
def store (data : Bytes) (index : ℕ) (chars : Bytes) : Bytes :=
  data.take index ++ chars ++ data.drop (index + chars.length)

/-- The delimiters around `bytes_read` bytes: the offset at which the chunk starts, and the
memory. -/
def addChunkedDelimiters (data : Bytes) (bufferSize bytesRead : ℕ) : Except String (ℕ × Bytes) :=
  if bufferSize < bytesRead + additionalEncodingSpace then
    .error "Insufficient buffer size."
  else if bytesRead = 0 then
    .ok (7, store data 7 (48 :: crlf ++ crlf))
  else
    let data := store data 0 (printHex8 bytesRead)
    let offset := (data.takeWhile (· == 32)).length
    .ok (offset, store (store data 8 crlf) (10 + bytesRead) crlf)

end Snode.Http.ChunkedEncoding
