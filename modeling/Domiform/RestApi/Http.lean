import Domiform.Adapters.Units
import Domiform.Compile.Words
import Domiform.Library.Utf8
import Domiform.RestApi.Intent

/-! Reading a request, and asking it for its token. A connection is the bytes the peer will have sent,
and whether it closes after them; if it does not, reading past them fails. -/
namespace Domiform
open Library

structure TcpStream where
  bytes : List UInt8
  closed : Bool

/-- The buffered reader over a connection, with the number of bytes it has collected so far. -/
structure Reader where
  stream : TcpStream
  held : ℕ

structure Request where
  method : String
  path : String
  body : List UInt8
  authorization : Option String
  deriving DecidableEq

/-- What the header lines read so far say, and their bytes. -/
structure HeaderState where
  contentLength : Option ℕ
  authorization : Option String
  bytes : ℕ

namespace Http

def maxBody : ℕ := 64*1024
def maxHeaderLines : ℕ := 64
def maxHeaderBytes : ℕ := 8*1024

/-- The bytes up to a newline, and with it. -/
def lineOf : List UInt8 → List UInt8
  | [] => []
  | b :: bs => if b = 10 then [b] else b :: lineOf bs

/-- `read_line`: the text of a line, and the number of its bytes. All of them are collected, however
many; then the line may turn out to be cut short, or not to be UTF-8. -/
def readLine (r : Reader) : Option (List Char × ℕ) × Reader :=
  let line := lineOf r.stream.bytes
  let r' : Reader := ⟨{ r.stream with bytes := r.stream.bytes.drop line.length },r.held+line.length⟩
  if 10 ∈ line ∨ r.stream.closed = true then
    ((Utf8.decode line).map fun text => (text,line.length),r')
  else (none,r')

/-- `read_exact` into a buffer of the length. -/
def readExact (length : ℕ) (r : Reader) : Option (List UInt8) × Reader :=
  let r' : Reader := ⟨{ r.stream with bytes := r.stream.bytes.drop length },r.held+length⟩
  if length ≤ r.stream.bytes.length then (some (r.stream.bytes.take length),r') else (none,r')

def malformedHeaders : Response := .error 400 "malformed_body" "malformed headers"

def tooManyLines : Response := .error 431 "payload_too_large" "too many header lines"

/-- One header line. -/
def readHeader (h : HeaderState) (line : List Char) : Except Response HeaderState :=
  match Text.splitOnce ':' line with
  | none => .ok h
  | some (name,value) =>
    let name := String.ofList (Text.trim name)
    if Text.eqIgnoreAsciiCase name "content-length" then
      match Text.parseUnsigned (2^64-1) (Text.trim value) with
      | some n => .ok { h with contentLength := some n }
      | none => .error (.error 400 "malformed_body" "invalid Content-Length")
    else if Text.eqIgnoreAsciiCase name "authorization" then
      .ok { h with authorization := some (.ofList (Text.trim value)) }
    else if Text.eqIgnoreAsciiCase name "transfer-encoding" then
      .error (.error 411 "malformed_body"
        "chunked transfer encoding is not supported; send Content-Length")
    else .ok h

/-- The end of the header section: the body, as long as announced. -/
def readBody (h : HeaderState) (r : Reader) : Except Response (List UInt8) × Reader :=
  let length := h.contentLength.getD 0
  if maxBody < length then
    (.error (.error 413 "payload_too_large"
      ("body of " ++ toString length ++ " bytes exceeds the " ++ toString maxBody ++ " byte limit")),r)
  else if length = 0 then (.ok [],r)
  else
    match readExact length r with
    | (some body,r) => (.ok body,r)
    | (none,r) => (.error (.error 400 "malformed_body"
        "request body was shorter than its Content-Length"),r)

/-- The header section, of so many lines at most, and the body. -/
def readHeaders : ℕ → HeaderState → Reader → Except Response (HeaderState × List UInt8) × Reader
  | 0,_,r => (.error tooManyLines,r)
  | lines+1,h,r =>
    match readLine r with
    | (none,r) => (.error malformedHeaders,r)
    | (some (_,0),r) => (.error tooManyLines,r)
    | (some (text,n+1),r) =>
      let h := { h with bytes := h.bytes+(n+1) }
      if maxHeaderBytes < h.bytes then
        (.error (.error 431 "payload_too_large" "header section too large"),r)
      else
        let line := Text.trimEnd text
        if line = [] then
          match readBody h r with
          | (.ok body,r) => (.ok (h,body),r)
          | (.error e,r) => (.error e,r)
        else
          match readHeader h line with
          | .ok h => readHeaders lines h r
          | .error e => (.error e,r)

/-- A header section that is read to its end, line by line. -/
theorem readHeaders_eq_ok {lines : ℕ} {h h' : HeaderState} {r r' : Reader} {body : List UInt8}
    (hr : readHeaders (lines+1) h r = (.ok (h',body),r')) : ∃ text n r₁,
      readLine r = (some (text,n+1),r₁) ∧ h.bytes+(n+1) ≤ maxHeaderBytes ∧
        ((Text.trimEnd text = [] ∧ h' = { h with bytes := h.bytes+(n+1) } ∧
            readBody h' r₁ = (.ok body,r')) ∨
          ∃ h₁, Text.trimEnd text ≠ [] ∧
            readHeader { h with bytes := h.bytes+(n+1) } (Text.trimEnd text) = .ok h₁ ∧
              readHeaders lines h₁ r₁ = (.ok (h',body),r')) := by
  rw [readHeaders] at hr
  split at hr
  · cases hr
  · cases hr
  · rename_i text n r₁ hline
    dsimp only at hr
    split_ifs at hr with hbytes hblank
    · cases hr
    · split at hr
      · rename_i hbody
        cases hr
        exact ⟨text,n,r₁,hline,not_lt.mp hbytes,.inl ⟨hblank,rfl,hbody⟩⟩
      · cases hr
    · split at hr
      · rename_i h₁ hheader
        exact ⟨text,n,r₁,hline,not_lt.mp hbytes,.inr ⟨h₁,hblank,hheader,hr⟩⟩
      · cases hr

/-- The method and the target of a request line. -/
def requestLine (text : List Char) : Option (List Char × List Char) :=
  match Text.nextWord text with
  | none => none
  | some (method,rest) => (Text.nextWord rest).map fun target => (method,target.1)

/-- A target without its query. -/
def pathOf (target : List Char) : List Char := target.takeWhile fun c => c ≠ '?' ∧ c ≠ '#'

/-- `read_request`. -/
def readRequest (s : TcpStream) : Except Response Request × Reader :=
  match readLine ⟨s,0⟩ with
  | (none,r) | (some (_,0),r) => (.error (.error 400 "malformed_body" "empty request"),r)
  | (some (text,_+1),r) =>
    match requestLine text with
    | none => (.error (.error 400 "malformed_body" "malformed request line"),r)
    | some (method,target) =>
      match readHeaders maxHeaderLines ⟨none,none,0⟩ r with
      | (.ok (h,body),r) => (.ok ⟨.ofList method,.ofList (pathOf target),body,h.authorization⟩,r)
      | (.error e,r) => (.error e,r)

/-- `constant_time_eq`: the differences of all bytes, folded into one. -/
def constantTimeEq (a b : List UInt8) : Bool :=
  if a.length ≠ b.length then false
  else (a.zip b).foldl (fun diff x => diff ||| (x.1 ^^^ x.2)) 0 == 0

/-- `check_auth`. -/
def checkAuth (expected : String) (provided : Option String) : Except Response Unit :=
  match provided with
  | none => .error (.error 401 "unauthorized"
      "this API requires an 'Authorization: Bearer <token>' header")
  | some header =>
    match (Text.splitBlank header.toList).filter fun p =>
        Text.eqIgnoreAsciiCase (.ofList p.1) "bearer" with
    | none => .error (.error 401 "unauthorized"
        "malformed Authorization header; expected 'Bearer <token>'")
    | some (_,rest) =>
      if constantTimeEq (Utf8.encode (Text.trim rest)) (Utf8.encode expected.toList) then .ok ()
      else .error (.error 403 "forbidden" "invalid token")

/-- Where a request gets to. -/
inductive Served
  | answered (response : Response)
  | streamed
  | routed (request : Request)

/-- `serve`: with a token configured, nothing is routed or streamed without it. -/
def serve (token : Option String) (s : TcpStream) : Served :=
  match (readRequest s).1 with
  | .error response => .answered response
  | .ok request =>
    match token.map fun expected => checkAuth expected request.authorization with
    | some (.error response) => .answered response
    | _ =>
      if request.method = "GET" ∧
          request.path.toList.rdropWhile (· == '/') = "/stream".toList then .streamed
      else .routed request

end Http
end Domiform
