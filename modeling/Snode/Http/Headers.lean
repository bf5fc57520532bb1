import Snode.Http.Text

/-!
# HTTP headers

`http_headers`: a map from names to values ordered by a case-insensitive
comparison, kept as the list of its entries in map order.
-/

namespace Snode.Http

/-- `utility::cmp::tolower`. -/
def cmpTolower (byte : UInt8) : UInt8 :=
  if 65 ≤ byte.toNat ∧ byte.toNat ≤ 90 then byte + 32 else byte

/-- `utility::cmp::icmp`. -/
def icmp : Bytes → Bytes → Int
  | [], [] => 0
  | [], _ :: _ => -1
  | _ :: _, [] => 1
  | left :: lefts, right :: rights =>
      let l := charVal (cmpTolower left)
      let r := charVal (cmpTolower right)
      if r < l then 1 else if l < r then -1 else icmp lefts rights

/-- `case_insensitive_cmp_`. -/
def caseInsensitiveCmp (str1 str2 : Bytes) : Bool :=
  decide (icmp str1 str2 < 0)

/-- `http_headers`, in map order. -/
abbrev HttpHeaders := List (Bytes × Bytes)

namespace HttpHeaders

/-- `headers[name] = change(headers[name])`, where a missing entry is created empty. -/
def modify (name : Bytes) (change : Bytes → Bytes) : HttpHeaders → HttpHeaders
  | [] => [(name, change [])]
  | (key, value) :: rest =>
      if caseInsensitiveCmp name key then
        (name, change []) :: (key, value) :: rest
      else if caseInsensitiveCmp key name then
        (key, value) :: modify name change rest
      else
        (key, change value) :: rest

def find (name : Bytes) : HttpHeaders → Option Bytes
  | [] => none
  | (key, value) :: rest =>
      if caseInsensitiveCmp name key then none
      else if caseInsensitiveCmp key name then find name rest
      else some value

def set (headers : HttpHeaders) (name value : Bytes) : HttpHeaders :=
  headers.modify name fun _ => value

/-- `add`: values of an existing field are combined as a comma separated string. -/
def add (headers : HttpHeaders) (name value : Bytes) : HttpHeaders :=
  headers.modify name fun current =>
    if (headers.find name).isSome then current ++ ascii ", " ++ value else value

/-- `match` into a string. -/
def matchString (headers : HttpHeaders) (name value : Bytes) : Bool × Bytes :=
  match headers.find name with
  | some text => (true, text)
  | none => (false, value)

/-- `match` into a `size_t`: the whole value has to be one numeral, but an empty value
matches too and stores nothing. -/
def matchSize (headers : HttpHeaders) (name : Bytes) (value : ℕ) : Bool × ℕ :=
  match headers.find name with
  | some text =>
      if text.isEmpty then
        (true, value)
      else
        let (number, stream) := (Istream.new text).getSize value
        (!(stream.fail || !stream.eof), number)
  | none => (false, value)

end HttpHeaders

namespace HeaderNames

def connection : Bytes := ascii "Connection"
def contentLength : Bytes := ascii "Content-Length"
def transferEncoding : Bytes := ascii "Transfer-Encoding"

end HeaderNames

end Snode.Http
