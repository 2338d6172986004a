import Domiform.Compile.Spelling
import Domiform.Library.Delimited
import Domiform.RestApi.Auth
import Domiform.RestApi.Interrupted
import Domiform.RestApi.Routes

/-! A request and its answer on the wire. The answer says where it ends, and a client reads the status
and the JSON of the response from it. -/
namespace Domiform
open Library Resolve

namespace Http

/-- `reason_phrase`. -/
def reasonPhrase : ℕ → String
  | 200 => "OK"
  | 202 => "Accepted"
  | 400 => "Bad Request"
  | 404 => "Not Found"
  | 405 => "Method Not Allowed"
  | 411 => "Length Required"
  | 413 => "Payload Too Large"
  | 422 => "Unprocessable Entity"
  | 431 => "Request Header Fields Too Large"
  | 503 => "Service Unavailable"
  | _ => "OK"

/-- The head of a response, line by line. -/
def head (status length : ℕ) : List (List Char) := [
  ("HTTP/1.1 " ++ toString status ++ " " ++ reasonPhrase status).toList,
  "Content-Type: application/json".toList,
  ("Content-Length: " ++ toString length).toList,
  "Connection: close".toList]

section Writing
variable (toVec : Json → List UInt8) (fromSlice : List UInt8 → Except String Json)

/-- `write_response`. -/
def writeResponse (r : Response) : List UInt8 :=
  (head r.status (toVec r.body).length ++ [[]]).flatMap Sent.line ++ toVec r.body

/-- `serve`, with what it writes: nothing here where the connection becomes a stream. -/
def respond (token : Option String) (directory : NamedDirectory) (h : ApiHandle) (s : TcpStream) :
    Option (List UInt8) × ApiHandle :=
  match serve token s with
  | .answered response => (some (writeResponse toVec response),h)
  | .streamed => (none,h)
  | .routed request =>
    let (response,h) :=
      Routes.handle directory h fromSlice request.method request.path request.body
    (some (writeResponse toVec response),h)

end Writing

/-- A response as a client has it. -/
structure Reply where
  status : ℕ
  body : List UInt8
  deriving DecidableEq

/-- The length that a line of the head announces. -/
def announcedBy (line : List UInt8) : Option ℕ :=
  (Utf8.decode line).bind fun text =>
    (valueOf "content-length" (.ofList text)).bind fun value => Text.decimal value.toList

def announced (lines : List (List UInt8)) : Option ℕ := (lines.drop 1).findSome? announcedBy

/-- The second word of the first line. -/
def statusOf (lines : List (List UInt8)) : Option ℕ :=
  lines.head?.bind fun line => (Utf8.decode line).bind fun text =>
    (requestLine text).bind fun words => Text.decimal words.2

/-- What a client reads, and what it leaves. -/
def clientReads (bytes : List UInt8) : Option (Reply × List UInt8) :=
  (Delimited.read announced bytes).bind fun p =>
    (statusOf p.1.lines).map fun status => (⟨status,p.1.body⟩,p.2)

section Replies
variable {toVec : Json → List UInt8} {r : Response}

theorem compact_toDigits (n : ℕ) : Text.Compact (Nat.toDigits 10 n) :=
  Text.compact_of_digits fun _ hc => Nat.isDigit_of_mem_toDigits (by decide) (by decide) hc

theorem solid_toDigits (n : ℕ) : Text.Solid (Nat.toDigits 10 n) := fun c hc =>
  (compact_toDigits n c hc).1

theorem return_not_mem_reasonPhrase (status : ℕ) : '\r' ∉ (reasonPhrase status).toList := by
  unfold reasonPhrase
  split <;> decide

theorem head_lines (status length : ℕ) : ∀ l ∈ head status length, l ≠ [] ∧ '\r' ∉ l := by
  have digits (n : ℕ) : '\r' ∉ Nat.toDigits 10 n := fun h =>
    absurd (solid_toDigits n _ h) (by decide)
  have phrase := return_not_mem_reasonPhrase status
  simp [head,digits,phrase]

/-- The first line of the head, around its second word. -/
theorem requestLine_status (status : ℕ) : ∃ version,
    requestLine ("HTTP/1.1 " ++ toString status ++ " " ++ reasonPhrase status).toList =
      some (version,Nat.toDigits 10 status) := by
  have blank : Text.isWhitespace ' ' = true := by decide
  have hsplit : ("HTTP/1.1 " ++ toString status ++ " " ++ reasonPhrase status).toList =
      "HTTP/1.1".toList ++ ' ' :: (Nat.toDigits 10 status ++ ' ' :: (reasonPhrase status).toList) := by
    simp
  have version := @Text.nextWord_append
    (Nat.toDigits 10 status ++ ' ' :: (reasonPhrase status).toList) "HTTP/1.1".toList (by decide)
    (by decide) _ blank
  have word := @Text.nextWord_append (reasonPhrase status).toList (Nat.toDigits 10 status)
    (solid_toDigits status) Nat.toDigits_ne_nil _ blank
  refine ⟨"HTTP/1.1".toList,?_⟩
  rw [hsplit,requestLine,version]
  dsimp only
  rw [Text.nextWord_cons blank,word]
  rfl

/-- A header line, around its colon. -/
theorem valueOf_line {name value : List Char} {header : String} (colon : ':' ∉ name)
    (named : Text.eqIgnoreAsciiCase (.ofList (Text.trim name)) header = true) :
    valueOf header (.ofList (name ++ ':' :: value)) = some (.ofList (Text.trim value)) := by
  rw [valueOf,String.toList_ofList,Text.splitOnce_append colon,Option.bind_some]
  exact if_pos named

/-- The line of the length announces it. -/
theorem announcedBy_length (n : ℕ) :
    announcedBy (Utf8.encode ("Content-Length: " ++ toString n).toList) = some n := by
  have hsplit : ("Content-Length: " ++ toString n).toList =
      "Content-Length".toList ++ ':' :: (' ' :: Nat.toDigits 10 n) := by
    simp
  have value : Text.trim (' ' :: Nat.toDigits 10 n) = Nat.toDigits 10 n := by
    rw [← List.singleton_append,Text.trim_blank_append (by decide),
      Text.trim_of_solid (solid_toDigits n)]
  have found := @valueOf_line "Content-Length".toList (' ' :: Nat.toDigits 10 n) "content-length"
    (by decide) (by decide)
  rw [value,← hsplit] at found
  rw [announcedBy,Utf8.decode_encode,Option.bind_some,found,Option.bind_some,String.toList_ofList,
    Text.decimal_toDigits]

/-- The response as lines and a body. -/
def message (toVec : Json → List UInt8) (r : Response) : Delimited.Message :=
  ⟨(head r.status (toVec r.body).length).map Utf8.encode,toVec r.body⟩

theorem writeResponse_eq (toVec : Json → List UInt8) (r : Response) :
    writeResponse toVec r = Delimited.write (message toVec r) := by
  have hline : Sent.line = fun text => Utf8.encode text ++ [13,10] := funext Sent.line_eq
  simp [writeResponse,Delimited.write,message,hline,List.flatMap_map]

/-- Every response says how long its body is. -/
theorem message_lawful (toVec : Json → List UInt8) (r : Response) :
    Delimited.Lawful announced (message toVec r) where
  lines := by
    intro l hl
    obtain ⟨text,ht,rfl⟩ := List.mem_map.mp hl
    obtain ⟨nonempty,solid⟩ := head_lines _ _ text ht
    refine ⟨fun hnil => nonempty (Utf8.encode_injective hnil),fun hr => solid ?_⟩
    exact (Utf8.mem_encode_of_lt (by decide)).mp hr
  length := by
    have kind : announcedBy (Utf8.encode "Content-Type: application/json".toList) = none := by
      rw [announcedBy,Utf8.decode_encode]
      decide
    simp only [message,head,announced,List.map_cons,List.drop_succ_cons,List.drop_zero,
      List.findSome?_cons,kind,announcedBy_length]

/-- A client reads every response, and no part of one. -/
theorem clientReads_writeResponse (toVec : Json → List UInt8) (r : Response) (rest : List UInt8) :
    clientReads (writeResponse toVec r ++ rest) = some (⟨r.status,toVec r.body⟩,rest) := by
  obtain ⟨version,hline⟩ := requestLine_status r.status
  rw [writeResponse_eq,clientReads,Delimited.read_write (message_lawful toVec r),Option.bind_some]
  dsimp only
  rw [statusOf]
  simp only [message,head,List.map_cons,List.head?_cons,Option.bind_some,Utf8.decode_encode,hline,
    Text.decimal_toDigits,Option.map_some]

theorem clientReads_part {bytes : List UInt8} (part : bytes <+: writeResponse toVec r)
    (short : bytes ≠ writeResponse toVec r) : clientReads bytes = none := by
  rw [writeResponse_eq] at part short
  rw [clientReads,Delimited.read_part (message_lawful toVec r) part short]
  rfl

end Replies

/-- The token that a request brings, where one is asked for. -/
def Admitted (token provided : Option String) : Prop :=
  ∀ expected ∈ token, checkAuth expected provided = .ok ()

/-- A request that is read is refused for its token, or it is let through. -/
theorem serve_of_ok {token : Option String} {s : TcpStream} {request : Request}
    (read : (readRequest s).1 = .ok request) :
    (∃ e, serve token s = .answered e ∧ 400 ≤ e.status ∧ ¬Admitted token request.authorization) ∨
      Admitted token request.authorization ∧
        (serve token s = .streamed ∨ serve token s = .routed request) := by
  cases token with
  | none =>
    refine .inr ⟨nofun,?_⟩
    simp only [serve,read,Option.map_none]
    exact (ite_eq_or_eq _ _ _).imp_right id
  | some expected =>
    cases hauth : checkAuth expected request.authorization with
    | error e =>
      refine .inl ⟨e,?_,?_,fun admitted => ?_⟩
      · simp only [serve,read,Option.map_some,hauth]
      · rcases status_of_checkAuth hauth with he | he
        · exact he ▸ Nat.le_add_right 400 1
        · exact he ▸ Nat.le_add_right 400 3
      · rw [admitted expected rfl] at hauth
        cases hauth
    | ok u =>
      refine .inr ⟨?_,?_⟩
      · rintro _ ⟨⟩
        exact hauth
      · simp only [serve,read,Option.map_some,hauth]
        exact ite_eq_or_eq _ _ _

section Exchange
variable {toVec : Json → List UInt8} {fromSlice : List UInt8 → Except String Json}
  {token : Option String} {directory : NamedDirectory} {h h' : ApiHandle} {q : Sent}

/-- A client that sends a request within the limits, or a part of one, and is answered, reads one
whole response, and no part of it is one. Either it is an error and nothing is changed, and then the
request was not complete or did not bring the token; or the request was complete, brought the token and
was carried out as it was sent, with all of its body. -/
theorem exchanges_are_faithful (limits : q.WithinLimits) (flush : ∀ h ∈ q.headers, Sent.Flush h)
    {t bytes : List UInt8} (part : t <+: q.bytes) {closed : Bool}
    (written : respond toVec fromSlice token directory h ⟨t,closed⟩ = (some bytes,h')) :
    ∃ response,
      (∀ rest, clientReads (bytes ++ rest) = some (⟨response.status,toVec response.body⟩,rest)) ∧
      (∀ cut, cut <+: bytes → cut ≠ bytes → clientReads cut = none) ∧
      (400 ≤ response.status ∧ h' = h ∧
          (¬Sent.Complete q.bytes q.body ⟨t,closed⟩ ∨ ¬Admitted token q.authorization) ∨
        (response,h') = Routes.handle directory h fromSlice q.method
            (.ofList (pathOf q.target.toList)) q.body ∧
          Sent.Complete q.bytes q.body ⟨t,closed⟩ ∧ Admitted token q.authorization) := by
  suffices outcome : ∃ response, bytes = writeResponse toVec response ∧
      (400 ≤ response.status ∧ h' = h ∧
          (¬Sent.Complete q.bytes q.body ⟨t,closed⟩ ∨ ¬Admitted token q.authorization) ∨
        (response,h') = Routes.handle directory h fromSlice q.method
            (.ofList (pathOf q.target.toList)) q.body ∧
          Sent.Complete q.bytes q.body ⟨t,closed⟩ ∧ Admitted token q.authorization) by
    obtain ⟨response,rfl,outcome⟩ := outcome
    exact ⟨response,fun rest => clientReads_writeResponse toVec response rest,
      fun cut part short => clientReads_part part short,outcome⟩
  unfold respond at written
  rcases Sent.readRequest_part limits flush part closed with ⟨⟨e,he⟩,cut⟩ | ⟨hok,all⟩
  · have served : serve token ⟨t,closed⟩ = .answered e := by simp only [serve,he]
    rw [served] at written
    obtain ⟨hbytes,rfl⟩ := Prod.mk.inj written
    exact ⟨e,(Option.some.inj hbytes).symm,.inl ⟨status_readRequest he,rfl,.inl cut⟩⟩
  · rcases @serve_of_ok token _ _ hok with ⟨e,served,status,refused⟩ | ⟨admitted,served | served⟩
    · rw [served] at written
      obtain ⟨hbytes,rfl⟩ := Prod.mk.inj written
      exact ⟨e,(Option.some.inj hbytes).symm,.inl ⟨status,rfl,.inr refused⟩⟩
    · rw [served] at written
      cases (Prod.mk.inj written).1
    · rw [served] at written
      dsimp only at written
      cases answer : Routes.handle directory h fromSlice q.method (.ofList (pathOf q.target.toList))
          q.body with
      | mk response handle =>
        rw [answer] at written
        obtain ⟨hbytes,rfl⟩ := Prod.mk.inj written
        exact ⟨response,(Option.some.inj hbytes).symm,.inr ⟨rfl,all,admitted⟩⟩

end Exchange

/-- What is written where a body is missing. -/
def tooShort (_ : Json) : List UInt8 :=
  Utf8.encode ("\x7b\"error\":\x7b\"code\":\"malformed_body\",\"message\":\"request body was " ++
    "shorter than its Content-Length\"\x7d\x7d").toList

/-- The last byte of the body does not arrive. -/
theorem cut_request_changes_nothing : ∃ cfg : CompiledConfig,
    resolve plainLibraries .identity nightConfig = .ok cfg ∧
    ∃ bytes h' status,
      respond tooShort (fun _ => .ok (.ofFields [])) none (.fromConfig cfg) ⟨⟨.default⟩,∅,[],true⟩
        ⟨Sent.switchOn.bytes.dropLast,true⟩ = (some bytes,h') ∧
      h' = ⟨⟨.default⟩,∅,[],true⟩ ∧ 400 ≤ status ∧
      clientReads bytes = some (⟨status,tooShort .null⟩,[]) := by
  obtain ⟨cfg,accepted⟩ : ∃ cfg, resolve plainLibraries .identity nightConfig = .ok cfg := ⟨_,rfl⟩
  have part : Sent.switchOn.bytes.dropLast <+: Sent.switchOn.bytes := List.dropLast_prefix _
  have flush : ∀ h ∈ Sent.switchOn.headers, Sent.Flush h := by
    simp [Sent.switchOn,Sent.Flush,Text.isWhitespace]
  have missing : ¬Sent.Complete Sent.switchOn.bytes Sent.switchOn.body
      ⟨Sent.switchOn.bytes.dropLast,true⟩ := by
    rintro (same | ⟨nothing,-⟩)
    · have some_bytes : Sent.switchOn.bytes ≠ [] := by simp [Sent.bytes,Sent.line_eq]
      have hlen := congrArg List.length same
      rw [List.length_dropLast] at hlen
      have := List.length_pos_iff.mpr some_bytes
      omega
    · cases nothing
  obtain ⟨⟨e,he⟩,-⟩ :=
    (Sent.readRequest_part Sent.switchOn_withinLimits flush part true).resolve_right
      fun h => missing h.2
  have written : respond tooShort (fun _ => .ok (.ofFields [])) none (.fromConfig cfg)
      ⟨⟨.default⟩,∅,[],true⟩ ⟨Sent.switchOn.bytes.dropLast,true⟩ =
        (some (writeResponse tooShort e),⟨⟨.default⟩,∅,[],true⟩) := by
    simp only [respond,serve,he]
  obtain ⟨response,reads,-,⟨status,same,-⟩ | ⟨-,all,-⟩⟩ :=
    exchanges_are_faithful Sent.switchOn_withinLimits flush part written
  · have read := reads []
    rw [List.append_nil] at read
    exact ⟨cfg,accepted,_,_,response.status,written,same,status,read⟩
  · exact absurd all missing

end Http
end Domiform
