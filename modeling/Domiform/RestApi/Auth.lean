import Domiform.RestApi.Interrupted

/-! The token. A request is let through if the header it sends holds the configured token, as far as
trimming on the way to the comparison leaves the token what it is, and its header can be read. -/
namespace Domiform
open Library

namespace Http

/-- Bytes are compared to the end, and are equal if nothing differs. -/
theorem constantTimeEq_iff {a b : List UInt8} : constantTimeEq a b = true ↔ a = b := by
  have fold (xs : List (UInt8 × UInt8)) (acc : UInt8) :
      xs.foldl (fun diff x => diff ||| (x.1 ^^^ x.2)) acc = 0 ↔ acc = 0 ∧ ∀ x ∈ xs, x.1 = x.2 := by
    induction xs generalizing acc with
    | nil => simp
    | cons x xs ih =>
      rw [List.foldl_cons,ih,UInt8.or_eq_zero_iff,UInt8.xor_eq_zero_iff,List.forall_mem_cons,
        and_assoc]
  unfold constantTimeEq
  split_ifs with hlen
  · refine iff_of_false (by simp) ?_
    rintro rfl
    exact hlen rfl
  · rw [beq_iff_eq,fold,← List.forall₂_eq_eq_eq,List.forall₂_iff_zip]
    constructor
    · rintro ⟨-,h⟩
      exact ⟨not_not.mp hlen,fun {_ _} hm => h _ hm⟩
    · rintro ⟨-,h⟩
      exact ⟨rfl,fun x hx => h hx⟩

/-- `Bearer`, in any case, then white space, then the token. -/
def Credential (value token : List Char) : Prop :=
  ∃ scheme blank, Text.eqIgnoreAsciiCase (.ofList scheme) "bearer" = true ∧ blank ≠ [] ∧
    Text.Blank blank ∧ value = scheme ++ blank ++ token

/-- White space has no lower case. -/
theorem toLower_of_isWhitespace {c : Char} (h : Text.isWhitespace c = true) : c.toLower = c := by
  refine dif_neg ?_
  rintro ⟨lo,hi⟩
  have hlo : 65 ≤ c.toNat := lo
  have hhi : c.toNat ≤ 90 := hi
  simp only [Text.isWhitespace,Bool.or_eq_true,Bool.and_eq_true,decide_eq_true_eq,beq_iff_eq] at h
  omega

/-- The scheme has no white space in it. -/
theorem solid_of_bearer {scheme : List Char}
    (h : Text.eqIgnoreAsciiCase (.ofList scheme) "bearer" = true) : Text.Solid scheme := by
  rw [Text.eqIgnoreAsciiCase,String.toList_ofList,beq_iff_eq] at h
  intro c hc
  have hm : c.toLower ∈ "bearer".toList.map Char.toLower := h ▸ List.mem_map_of_mem hc
  by_contra hw
  rw [Bool.not_eq_false] at hw
  rw [toLower_of_isWhitespace hw] at hm
  have letters : Text.Solid ("bearer".toList.map Char.toLower) := by decide
  rw [letters c hm] at hw
  cases hw

/-- What is compared with the token, letter by letter. -/
theorem checkAuth_eq_ok {token value : String} (h : checkAuth token (some value) = .ok ()) :
    ∃ scheme c rest, Text.eqIgnoreAsciiCase (.ofList scheme) "bearer" = true ∧
      Text.isWhitespace c = true ∧ value.toList = scheme ++ c :: rest ∧
      Text.trim rest = token.toList := by
  rw [checkAuth] at h
  split at h
  · cases h
  · rename_i scheme rest hs
    obtain ⟨hsplit,hscheme⟩ := Option.filter_eq_some_iff.mp hs
    split_ifs at h with heq
    obtain ⟨c,hc,hv⟩ := Text.splitBlank_eq_some hsplit
    exact ⟨scheme,c,rest,hscheme,hc,hv,Utf8.encode_injective (constantTimeEq_iff.mp heq)⟩

theorem checkAuth_of_split {token value : String} {scheme rest : List Char}
    (bearer : Text.eqIgnoreAsciiCase (.ofList scheme) "bearer" = true)
    (hs : Text.splitBlank value.toList = some (scheme,rest)) (same : Text.trim rest = token.toList) :
    checkAuth token (some value) = .ok () := by
  have heq : constantTimeEq (Utf8.encode (Text.trim rest)) (Utf8.encode token.toList) = true := by
    rw [constantTimeEq_iff,same]
  simp only [checkAuth,hs,Option.filter_some,bearer,if_true,heq]

/-- Whoever is refused is told that the token is missing or wrong. -/
theorem status_of_checkAuth {token : String} {provided : Option String} {r : Response}
    (h : checkAuth token provided = .error r) : r.status = 401 ∨ r.status = 403 := by
  unfold checkAuth at h
  split at h
  · cases h
    exact .inl rfl
  · split at h
    · cases h
      exact .inl rfl
    · split_ifs at h
      cases h
      exact .inr rfl

/-- Trimming leaves the token as it is, and there is a token. -/
def Sendable (token : List Char) : Prop := token ≠ [] ∧ Text.trim token = token

/-- A trimmed value that is let through holds the token, and such a token can be sent. -/
theorem credential_of_ok {token : String} {raw : List Char}
    (h : checkAuth token (some (.ofList (Text.trim raw))) = .ok ()) :
    Sendable token.toList ∧ Credential (Text.trim raw) token.toList := by
  obtain ⟨scheme,c,rest,bearer,hc,hv,htoken⟩ := checkAuth_eq_ok h
  rw [String.toList_ofList] at hv
  have hend : Text.trimEnd (scheme ++ c :: rest) = scheme ++ c :: rest := by
    rw [← hv,Text.trimEnd_trim]
  -- were the rest blank, the value would end with the scheme
  have hne : Text.trimEnd rest ≠ [] := by
    intro hblank
    have hall : Text.Blank (c :: rest) :=
      List.forall_mem_cons.mpr ⟨hc,Text.trimEnd_eq_nil_iff.mp hblank⟩
    rw [Text.trimEnd_append_blank hall] at hend
    obtain ⟨b,-,hs⟩ := Text.exists_trimEnd scheme
    have hlen := congrArg List.length hs
    rw [hend] at hlen
    simp at hlen
  have hrest : Text.trimEnd rest = rest := by
    have hcons : scheme ++ c :: rest = (scheme ++ [c]) ++ rest := by simp
    rw [hcons,Text.trimEnd_append hne] at hend
    exact List.append_cancel_left hend
  obtain ⟨a,b,ha,hb,hr⟩ := Text.exists_trim rest
  have htrim : Text.trim rest ≠ [] := by
    intro hnil
    rw [hnil,List.append_nil] at hr
    refine hne (Text.trimEnd_eq_nil_iff.mpr fun d hd => ?_)
    exact (List.mem_append.mp (hr ▸ hd)).elim (ha d) (hb d)
  have hcut : rest = a ++ token.toList := by
    rw [← hrest,← htoken]
    conv_lhs => rw [hr]
    rw [Text.trimEnd_append_blank hb,Text.trimEnd_append (by rwa [Text.trimEnd_trim]),
      Text.trimEnd_trim]
  refine ⟨⟨?_,?_⟩,scheme,c :: a,bearer,by simp,List.forall_mem_cons.mpr ⟨hc,ha⟩,?_⟩
  · intro hnil
    rw [hcut,hnil,List.append_nil] at hne
    exact hne (Text.trimEnd_eq_nil_iff.mpr ha)
  · rw [← htoken,Text.trim_trim]
  · rw [hv,hcut]
    simp

/-- A value that holds a token which can be sent is let through. -/
theorem ok_of_credential {token value : String} (sendable : Sendable token.toList)
    (h : Credential value.toList token.toList) : checkAuth token (some value) = .ok () := by
  obtain ⟨scheme,blank,bearer,hne,hblank,hv⟩ := h
  cases blank with
  | nil => exact absurd rfl hne
  | cons c blank =>
    obtain ⟨hc,hb⟩ := List.forall_mem_cons.mp hblank
    have hs : Text.splitBlank value.toList = some (scheme,blank ++ token.toList) := by
      rw [hv,List.append_assoc,List.cons_append]
      exact Text.splitBlank_append (solid_of_bearer bearer) hc
    refine checkAuth_of_split bearer hs ?_
    rw [Text.trim_blank_append hb,sendable.2]

/-- The header `Authorization: Bearer t`, as it is read, holds a token that can be sent. -/
theorem credential_of_sendable {token : String} (sendable : Sendable token.toList) :
    Credential (Text.trim (" Bearer ".toList ++ token.toList)) token.toList := by
  obtain ⟨hne,htrim⟩ := sendable
  have hend : Text.trimEnd token.toList = token.toList := by
    rw [← htrim,Text.trimEnd_trim]
  have hcut : Text.trim (" Bearer ".toList ++ token.toList) = "Bearer ".toList ++ token.toList := by
    have hdrop : (" Bearer ".toList ++ token.toList).dropWhile Text.isWhitespace =
      "Bearer ".toList ++ token.toList := rfl
    rw [Text.trim_eq,hdrop,Text.trimEnd_append (by rwa [hend]),hend]
  refine ⟨"Bearer".toList,[' '],by decide,by simp,fun c hc => ?_,?_⟩
  · rw [List.mem_singleton.mp hc]
    rfl
  · rw [hcut]
    rfl

/-- A line ends where its newline is. -/
theorem lineOf_eq_append {bs a b : List UInt8} (h : lineOf bs = a ++ 10 :: b) : b = [] := by
  induction bs generalizing a with
  | nil => cases a <;> cases h
  | cons x bs ih =>
    rw [lineOf] at h
    split_ifs at h with hx
    · cases a with
      | nil => exact (List.cons.inj h).2.symm
      | cons y a => cases a <;> cases (List.cons.inj h).2
    · cases a with
      | nil => exact absurd (List.cons.inj h).1 hx
      | cons y a => exact ih (List.cons.inj h).2

/-- What is left of a line when its end is trimmed has no newline in it. -/
theorem newline_not_mem_line {r r' : Reader} {text : List Char} {n : ℕ}
    (h : readLine r = (some (text,n+1),r')) : '\n' ∉ Text.trimEnd text := by
  intro hm
  obtain ⟨a,b,hs⟩ := List.append_of_mem hm
  obtain ⟨t,-,ht⟩ := Text.exists_trimEnd text
  have whole := Utf8.decode_eq_some.mp (readLine_eq_some h).1.2.2
  have newline : Utf8.encode ['\n'] = [10] := by decide
  have line : lineOf r.stream.bytes = Utf8.encode a ++ 10 :: (Utf8.encode b ++ Utf8.encode t) := by
    rw [← whole,ht,hs,← List.singleton_append,Utf8.encode_append,Utf8.encode_append,
      Utf8.encode_append,newline]
    simp
  obtain ⟨hb,-⟩ := List.append_eq_nil_iff.mp (lineOf_eq_append line)
  obtain rfl : b = [] := Utf8.encode_injective hb
  -- then the trimmed text would end with white space
  have trimmed := @Text.trimEnd_trimEnd text
  rw [hs,Text.trimEnd_append_blank (fun c hc => by rw [List.mem_singleton.mp hc]; rfl)] at trimmed
  obtain ⟨u,-,hu⟩ := Text.exists_trimEnd a
  have length := congrArg List.length hu
  rw [trimmed] at length
  simp at length

/-- A header line leaves the authorization, or puts a trimmed value in its place. -/
theorem authorization_readHeader {h h' : HeaderState} {line : List Char} (unbroken : '\n' ∉ line)
    (hr : readHeader h line = .ok h') : h'.authorization = h.authorization ∨
      ∃ raw, '\n' ∉ raw ∧ h'.authorization = some (.ofList (Text.trim raw)) := by
  unfold readHeader at hr
  split at hr
  · cases hr
    exact .inl rfl
  · rename_i name value hs
    dsimp only at hr
    split_ifs at hr with hl ha ht
    · split at hr
      · cases hr
        exact .inl rfl
      · cases hr
    · cases hr
      refine .inr ⟨value,fun hm => unbroken ?_,rfl⟩
      rw [(Text.splitOnce_eq_some.mp hs).1]
      exact List.mem_append_right _ (List.mem_cons_of_mem _ hm)
    · cases hr
      exact .inl rfl

/-- A value that was read off one line. -/
def Heard (authorization : Option String) : Prop :=
  ∀ v, authorization = some v → ∃ raw, '\n' ∉ raw ∧ v = .ofList (Text.trim raw)

theorem authorization_readHeaders {lines : ℕ} {h h' : HeaderState} {r r' : Reader}
    {body : List UInt8} (heard : Heard h.authorization)
    (hr : readHeaders lines h r = (.ok (h',body),r')) : Heard h'.authorization := by
  induction lines generalizing h r with
  | zero => cases hr
  | succ lines ih =>
    obtain ⟨text,n,r₁,hline,-,⟨-,rfl,-⟩ | ⟨h₁,-,hheader,hrest⟩⟩ := readHeaders_eq_ok hr
    · exact heard
    · refine ih (fun v hv => ?_) hrest
      rcases authorization_readHeader (newline_not_mem_line hline) hheader with hsame | ⟨raw,hn,hraw⟩
      · exact heard v (hsame ▸ hv)
      · exact ⟨raw,hn,Option.some.inj (hv.symm.trans hraw)⟩

/-- Whatever a request says of its authorization is trimmed. -/
theorem authorization_trimmed {s : TcpStream} {request : Request}
    (h : (readRequest s).1 = .ok request) : Heard request.authorization := by
  unfold readRequest at h
  split at h
  · cases h
  · cases h
  · split at h
    · cases h
    · split at h
      · rename_i hr
        cases h
        exact authorization_readHeaders (by rintro v ⟨⟩) hr
      · cases h

/-! ### Sending the token -/

/-- The header that brings a token. -/
def bearer (token : String) : String := "Authorization: Bearer " ++ token

/-- A request that says nothing but what it asks for, and the token. -/
def Sent.bare (method target token : String) : Sent := ⟨method,target,[bearer token],[]⟩

section Bearer
variable {method target token : String}

theorem toList_bearer (token : String) :
    (bearer token).toList = "Authorization: Bearer ".toList ++ token.toList := String.toList_append

theorem splitOnce_bearer (token : String) : Text.splitOnce ':' (bearer token).toList =
    some ("Authorization".toList," Bearer ".toList ++ token.toList) := by
  have hs : (bearer token).toList =
      "Authorization".toList ++ ':' :: (" Bearer ".toList ++ token.toList) := by
    rw [toList_bearer]
    simp
  rw [hs]
  exact Text.splitOnce_append (by decide)

theorem valueOf_bearer (token : String) : valueOf "authorization" (bearer token) =
    some (.ofList (Text.trim (" Bearer ".toList ++ token.toList))) := by
  have named : Text.eqIgnoreAsciiCase (.ofList (Text.trim "Authorization".toList)) "authorization" =
    true := by decide
  rw [valueOf,splitOnce_bearer,Option.bind_some]
  exact if_pos named

theorem readHeader_bearer (st : HeaderState) (token : String) :
    readHeader st (bearer token).toList = .ok { st with
      authorization := some (.ofList (Text.trim (" Bearer ".toList ++ token.toList))) } := by
  have other : ¬Text.eqIgnoreAsciiCase (.ofList (Text.trim "Authorization".toList)) "content-length" =
    true := by decide
  have named : Text.eqIgnoreAsciiCase (.ofList (Text.trim "Authorization".toList)) "authorization" =
    true := by decide
  rw [readHeader,splitOnce_bearer]
  dsimp only
  rw [if_neg other,if_pos named]

theorem trimEnd_bearer (token : String) : Text.trimEnd (bearer token).toList ≠ [] := by
  intro h
  have blank := Text.trimEnd_eq_nil_iff.mp h 'A' (by simp [toList_bearer])
  have letter : Text.isWhitespace 'A' = false := by decide
  rw [letter] at blank
  cases blank

/-- The header takes up 24 bytes beside the token. -/
theorem length_line_bearer (token : String) :
    (Sent.line (bearer token).toList).length = (Utf8.encode token.toList).length+24 := by
  have start : (Utf8.encode "Authorization: Bearer ".toList).length = 22 := by
    simp [Utf8.encode,String.utf8EncodeChar]
  rw [Sent.line_eq,toList_bearer,Utf8.encode_append,List.length_append,
    List.length_append,start]
  simp only [List.length_cons,List.length_nil]
  omega

theorem newline_not_mem_bearer (unbroken : '\n' ∉ token.toList) :
    '\n' ∉ (bearer token).toList := by
  rw [toList_bearer,List.mem_append,not_or]
  exact ⟨by simp,unbroken⟩

/-- A bare request is read line by line. -/
theorem readRequest_bare (named : method.toList ≠ [] ∧ Text.Solid method.toList)
    (asked : target.toList ≠ [] ∧ Text.Solid target.toList) (further : List UInt8) (closed : Bool) :
    ∃ held, (readRequest ⟨(Sent.bare method target token).bytes ++ further,closed⟩).1 =
      (readHeaders maxHeaderLines ⟨none,none,0⟩
        ⟨⟨Sent.line (bearer token).toList ++ (Sent.line [] ++ further),closed⟩,held⟩).1.map fun p =>
          ⟨method,.ofList (pathOf target.toList),p.2,p.1.authorization⟩ := by
  have unbroken : '\n' ∉ (Sent.bare method target token).firstLine :=
    Sent.newline_not_mem_firstLine named.2 asked.2
  have words := Sent.requestLine_line (q := Sent.bare method target token) named asked
  have hbytes : (Sent.bare method target token).bytes ++ further =
      Sent.line (Sent.bare method target token).firstLine ++
        (Sent.line (bearer token).toList ++ (Sent.line [] ++ further)) := by
    simp [Sent.bytes,Sent.bare]
  refine ⟨0+(Sent.line (Sent.bare method target token).firstLine).length,?_⟩
  rw [hbytes,readRequest_of_whole (Sent.whole_line unbroken) words,pastLine,
    Sent.afterLine_line unbroken,Sent.lineOf_line unbroken]
  simp [Sent.bare]

/-- The bare request brings its token, as far as that fits. -/
theorem bare_is_read (named : method.toList ≠ [] ∧ Text.Solid method.toList)
    (asked : target.toList ≠ [] ∧ Text.Solid target.toList) (unbroken : '\n' ∉ token.toList)
    (fits : (Utf8.encode token.toList).length ≤ 8166) (further : List UInt8) (closed : Bool) :
    (readRequest ⟨(Sent.bare method target token).bytes ++ further,closed⟩).1 =
      .ok ⟨method,.ofList (pathOf target.toList),[],valueOf "authorization" (bearer token)⟩ := by
  obtain ⟨held,hr⟩ := @readRequest_bare method target token named asked further closed
  have oneLine := newline_not_mem_bearer unbroken
  have size := length_line_bearer token
  have read := readHeader_bearer ⟨none,none,0+(Sent.line (bearer token).toList).length⟩ token
  have line := @Sent.lineOf_line _ (Sent.line [] ++ further) oneLine
  have more : Text.trimEnd ((bearer token).toList ++ ['\r','\n']) ≠ [] := by
    rw [Sent.trimEnd_line]
    exact trimEnd_bearer token
  have within : 0+(Sent.line (bearer token).toList).length ≤ maxHeaderBytes := by
    rw [size,maxHeaderBytes]
    omega
  have first := @readHeaders_of_line 63 ⟨none,none,0⟩ _
    ⟨⟨Sent.line (bearer token).toList ++ (Sent.line [] ++ further),closed⟩,held⟩ _
    (Sent.whole_line oneLine) more (by rw [line]; exact within)
    (by rw [HeaderState.after,line,Sent.trimEnd_line,Sent.readHeader_trimEnd]; exact read)
  rw [pastLine,Sent.afterLine_line oneLine,line] at first
  obtain ⟨st,r,hend,hauth⟩ := @Sent.readHeaders_blank 62
    { (⟨none,none,0+(Sent.line (bearer token).toList).length⟩ : HeaderState) with
      authorization := some (.ofList (Text.trim (" Bearer ".toList ++ token.toList))) }
    [] further closed (held+(Sent.line (bearer token).toList).length)
    (by simp only [size,maxHeaderBytes]; omega) rfl (Nat.zero_le _)
  rw [List.nil_append] at hend
  rw [hr,show maxHeaderLines = 63+1 from rfl,first,hend,valueOf_bearer]
  simp only [Except.map,hauth]

/-- A bare request that is read to its end had room for its header. -/
theorem fits_of_read (named : method.toList ≠ [] ∧ Text.Solid method.toList)
    (asked : target.toList ≠ [] ∧ Text.Solid target.toList) (unbroken : '\n' ∉ token.toList)
    {further : List UInt8} {closed : Bool} {request : Request}
    (read : (readRequest ⟨(Sent.bare method target token).bytes ++ further,closed⟩).1 = .ok request) :
    (Utf8.encode token.toList).length ≤ 8166 := by
  obtain ⟨held,hr⟩ := @readRequest_bare method target token named asked further closed
  have oneLine := newline_not_mem_bearer unbroken
  have size := length_line_bearer token
  have line := @Sent.lineOf_line _ (Sent.line [] ++ further) oneLine
  rw [hr,show maxHeaderLines = 63+1 from rfl] at read
  rcases readHeaders_line 63 ⟨none,none,0⟩
      ⟨⟨Sent.line (bearer token).toList ++ (Sent.line [] ++ further),closed⟩,held⟩ with
    ⟨e,he⟩ | ⟨text,whole,blank,-⟩ | ⟨text,st,whole,more,first,header⟩
  · rw [he] at read
    cases read
  · obtain rfl := Option.some.inj (whole.2.2.symm.trans (Sent.whole_line oneLine).2.2)
    rw [Sent.trimEnd_line] at blank
    exact absurd blank (trimEnd_bearer token)
  rw [readHeaders_of_line whole more first header,pastLine,Sent.afterLine_line oneLine,
    show 63 = 62+1 from rfl] at read
  have bytes := bytes_readHeader header
  rw [HeaderState.after,line,size] at bytes
  have last := @Sent.whole_line [] further closed (by simp)
  have lineEnd := @Sent.lineOf_line [] further (by simp)
  have two : (Sent.line []).length = 2 := by decide
  rcases readHeaders_line 62 st ⟨⟨Sent.line [] ++ further,closed⟩,_⟩ with
    ⟨e,he⟩ | ⟨text,-,-,fits⟩ | ⟨text,_,whole,more,-⟩
  · rw [he] at read
    cases read
  · rw [lineEnd,bytes,two,maxHeaderBytes] at fits
    dsimp only at fits
    omega
  · obtain rfl := Option.some.inj (whole.2.2.symm.trans last.2.2)
    exact absurd (by decide) more

end Bearer

/-- A request was let through to the routes or the stream. -/
def Served.reaches : Served → Bool
  | .answered _ => false
  | _ => true

/-- Requests are let through exactly with the token: their header is a bearer credential of the token,
whoever sends the token as it is configured is let through, with nothing else to say or within the
limits of a request, and anyone else is told so. -/
structure Exact (token : String) : Prop where
  admits : ∀ raw, checkAuth token (some (.ofList (Text.trim raw))) = .ok () ↔
    Credential (Text.trim raw) token.toList
  bare : ∀ method target : String, method.toList ≠ [] ∧ Text.Solid method.toList →
    target.toList ≠ [] ∧ Text.Solid target.toList → ∀ further closed,
      (serve (some token) ⟨(Sent.bare method target token).bytes ++ further,closed⟩).reaches = true
  among : ∀ q : Sent, q.WithinLimits → q.authorization = valueOf "authorization" (bearer token) →
    ∀ further closed, (serve (some token) ⟨q.bytes ++ further,closed⟩).reaches = true
  refuses : ∀ provided r, checkAuth token provided = .error r → r.status = 401 ∨ r.status = 403
  serves : ∀ s request, (readRequest s).1 = .ok request →
    ((serve (some token) s).reaches = true ↔ checkAuth token request.authorization = .ok ()) ∧
      (∀ r, checkAuth token request.authorization = .error r → serve (some token) s = .answered r) ∧
      ∀ v, request.authorization = some v → ∃ raw, v = .ofList (Text.trim raw)
  compares : ∀ a b, constantTimeEq a b = true ↔ a = b

theorem serve_reaches_iff {token : String} {s : TcpStream} {request : Request}
    (h : (readRequest s).1 = .ok request) :
    ((serve (some token) s).reaches = true ↔ checkAuth token request.authorization = .ok ()) ∧
      ∀ r, checkAuth token request.authorization = .error r → serve (some token) s = .answered r := by
  unfold serve
  rw [h]
  cases hc : checkAuth token request.authorization with
  | error r => simp [hc,Served.reaches]
  | ok u =>
    simp only [Option.map_some,hc]
    split_ifs <;> simp [Served.reaches]

/-- Whatever lets a request through was read, and holds the token. -/
theorem read_of_reaches {token : String} {s : TcpStream}
    (h : (serve (some token) s).reaches = true) : ∃ request, (readRequest s).1 = .ok request ∧
      checkAuth token request.authorization = .ok () := by
  cases hr : (readRequest s).1 with
  | error e =>
    rw [serve,hr] at h
    cases h
  | ok request => exact ⟨request,rfl,(serve_reaches_iff hr).1.mp h⟩

/-- A token that lets a bare request through can be sent, in one line. -/
theorem sendable_of_reaches {token method target : String} {further : List UInt8} {closed : Bool}
    (h : (serve (some token) ⟨(Sent.bare method target token).bytes ++ further,closed⟩).reaches = true) :
    Sendable token.toList ∧ '\n' ∉ token.toList := by
  obtain ⟨request,read,ok⟩ := read_of_reaches h
  cases ha : request.authorization with
  | none =>
    rw [ha] at ok
    cases ok
  | some v =>
    obtain ⟨raw,unbroken,rfl⟩ := authorization_trimmed read v ha
    rw [ha] at ok
    obtain ⟨sendable,scheme,blank,-,-,-,hv⟩ := credential_of_ok ok
    refine ⟨sendable,fun hm => unbroken ?_⟩
    obtain ⟨a,b,-,-,hraw⟩ := Text.exists_trim raw
    rw [hraw,hv]
    simp [hm]

/-- Authentication is exact for the tokens that trimming leaves as they are, and whose header can be
read. -/
theorem authentication_exact_iff (token : String) : Exact token ↔
    Sendable token.toList ∧ '\n' ∉ token.toList ∧ (Utf8.encode token.toList).length ≤ 8166 := by
  have get : "GET".toList ≠ [] ∧ Text.Solid "GET".toList := by decide
  have root : "/".toList ≠ [] ∧ Text.Solid "/".toList := by decide
  constructor
  · intro exact'
    have reaches := exact'.bare "GET" "/" get root [] false
    obtain ⟨sendable,unbroken⟩ := sendable_of_reaches reaches
    obtain ⟨request,read,-⟩ := read_of_reaches reaches
    exact ⟨sendable,unbroken,fits_of_read get root unbroken read⟩
  · rintro ⟨sendable,unbroken,fits⟩
    have brought : checkAuth token (valueOf "authorization" (bearer token)) = .ok () := by
      rw [valueOf_bearer]
      exact ok_of_credential sendable
        (by rw [String.toList_ofList]; exact credential_of_sendable sendable)
    refine ⟨fun raw => ⟨fun h => (credential_of_ok h).2,fun h => ?_⟩,
      fun method target named asked further closed => ?_,fun q limits ha further closed => ?_,
      fun _ _ => status_of_checkAuth,fun s request h => ?_,fun _ _ => constantTimeEq_iff⟩
    · exact ok_of_credential sendable (by rwa [String.toList_ofList])
    · exact (serve_reaches_iff
        (bare_is_read named asked unbroken fits further closed)).1.mpr brought
    · obtain ⟨r,read⟩ := limits.readRequest further closed
      refine (serve_reaches_iff (congrArg Prod.fst read)).1.mpr ?_
      rw [ha]
      exact brought
    · obtain ⟨hreach,hanswer⟩ := @serve_reaches_iff token _ _ h
      refine ⟨hreach,hanswer,fun v hv => ?_⟩
      obtain ⟨raw,-,hraw⟩ := authorization_trimmed h v hv
      exact ⟨raw,hraw⟩

/-- A token with a blank behind it: its header is trimmed, and it is not. -/
theorem padded_token_locks_out :
    checkAuth "key " (some (.ofList (Text.trim (" Bearer ".toList ++ "key ".toList)))) =
        .error (.error 403 "forbidden" "invalid token") ∧ ¬Exact "key " := by
  refine ⟨rfl,fun exact' => ?_⟩
  have reaches := exact'.bare "GET" "/" (by decide) (by decide) [] false
  obtain ⟨⟨-,trimmed⟩,-⟩ := sendable_of_reaches reaches
  revert trimmed
  decide

end Http
end Domiform
