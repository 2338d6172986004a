import Domiform.Library.Rising
import Domiform.RestApi.Bounded

/-! Requests as they are sent. What a client writes within the limits is read as it was meant, and
nothing that follows gets into it. -/
namespace Domiform
open Library

namespace Http

/-- The value of a header line of the name, up to case and white space. -/
def valueOf (name header : String) : Option String :=
  (Text.splitOnce ':' header.toList).bind fun p =>
    if Text.eqIgnoreAsciiCase (.ofList (Text.trim p.1)) name then some (.ofList (Text.trim p.2)) else none

/-- A request as a client means it. -/
structure Sent where
  method : String
  target : String
  headers : List String
  body : List UInt8

namespace Sent

/-- One line on the wire. -/
def line (text : List Char) : List UInt8 := Utf8.encode (text ++ ['\r','\n'])

/-- The text of the request line. -/
def firstLine (q : Sent) : List Char :=
  q.method.toList ++ ' ' :: (q.target.toList ++ " HTTP/1.1".toList)

/-- The request on the wire. -/
def bytes (q : Sent) : List UInt8 :=
  line q.firstLine ++ ((q.headers.map String.toList ++ [[]]).flatMap line ++ q.body)

/-- The value of the last `Authorization` header. -/
def authorization (q : Sent) : Option String :=
  (q.headers.filterMap (valueOf "authorization")).getLast?

/-- A request within the limits, whose headers announce its body. -/
structure WithinLimits (q : Sent) : Prop where
  method : q.method.toList ≠ [] ∧ Text.Solid q.method.toList
  target : q.target.toList ≠ [] ∧ Text.Solid q.target.toList
  lines : q.headers.length ≤ 63
  printable : ∀ h ∈ q.headers, ¬Text.Blank h.toList ∧ '\r' ∉ h.toList ∧ '\n' ∉ h.toList
  size : ((q.headers.map String.toList ++ [[]]).flatMap line).length ≤ maxHeaderBytes
  unchunked : ∀ h ∈ q.headers, valueOf "transfer-encoding" h = none
  lengths : ∀ h ∈ q.headers, ∀ v ∈ valueOf "content-length" h,
    Text.parseUnsigned (2^64-1) v.toList = some q.body.length
  announced : q.body ≠ [] → ∃ h ∈ q.headers, valueOf "content-length" h ≠ none
  body : q.body.length ≤ maxBody

theorem line_eq (text : List Char) : line text = Utf8.encode text ++ [13,10] := by
  rw [line,Utf8.encode_append]
  rfl

theorem lineOf_append {a rest : List UInt8} (h : 10 ∉ a) : lineOf (a ++ 10 :: rest) = a ++ [10] := by
  induction a with
  | nil => exact if_pos rfl
  | cons b a ih =>
    rw [List.mem_cons,not_or] at h
    rw [List.cons_append,lineOf,if_neg (Ne.symm h.1),ih h.2]
    rfl

section Lines
variable {text : List Char} {rest : List UInt8} {closed : Bool}

/-- A line is read to its end and no further. -/
theorem lineOf_line (h : '\n' ∉ text) : lineOf (line text ++ rest) = line text := by
  have hn : 10 ∉ Utf8.encode text ++ [13] := by
    rw [List.mem_append,not_or,Utf8.newline_mem_encode]
    exact ⟨h,by decide⟩
  have hline : line text ++ rest = (Utf8.encode text ++ [13]) ++ 10 :: rest := by
    rw [line_eq]
    simp
  rw [hline,lineOf_append hn,line_eq]
  simp

theorem whole_line (h : '\n' ∉ text) :
    Whole ⟨line text ++ rest,closed⟩ (text ++ ['\r','\n']) := by
  rw [Whole,lineOf_line h]
  refine ⟨.inl ?_,?_,Utf8.decode_encode _⟩
  · rw [line_eq]
    simp
  · rw [line_eq]
    simp

theorem afterLine_line (h : '\n' ∉ text) :
    afterLine ⟨line text ++ rest,closed⟩ = ⟨rest,closed⟩ := by
  rw [afterLine,lineOf_line h,List.drop_left]

theorem trimEnd_line : Text.trimEnd (text ++ ['\r','\n']) = Text.trimEnd text :=
  Text.trimEnd_append_blank fun c hc => by
    rcases List.mem_cons.mp hc with rfl | hc
    · rfl
    · rw [List.mem_singleton.mp hc]
      rfl

end Lines

/-- White space at its end does not change what a header line says. -/
theorem readHeader_trimEnd (st : HeaderState) (text : List Char) :
    readHeader st (Text.trimEnd text) = readHeader st text := by
  unfold readHeader
  rw [Text.splitOnce_trimEnd (by decide)]
  cases Text.splitOnce ':' text with
  | none => rfl
  | some p => simp only [Option.map_some,Text.trim_trimEnd]

/-- A name is not that of two headers. -/
theorem eqIgnoreAsciiCase_right {s t u : String} (ht : Text.eqIgnoreAsciiCase s t = true)
    (hu : Text.eqIgnoreAsciiCase s u = true) : Text.eqIgnoreAsciiCase t u = true := by
  rw [Text.eqIgnoreAsciiCase,beq_iff_eq] at *
  exact ht.symm.trans hu

/-- What one header of a request within the limits leaves. -/
theorem WithinLimits.readHeader {q : Sent} (limits : q.WithinLimits) {h : String} (hh : h ∈ q.headers)
    (st : HeaderState) : ∃ st', Http.readHeader st h.toList = .ok st' ∧ st'.bytes = st.bytes ∧
      st'.authorization = (valueOf "authorization" h).or st.authorization ∧
        (st'.contentLength = st.contentLength ∧ valueOf "content-length" h = none ∨
          st'.contentLength = some q.body.length) := by
  have unchunked := limits.unchunked h hh
  have lengths := limits.lengths h hh
  unfold valueOf at *
  cases hs : Text.splitOnce ':' h.toList with
  | none => exact ⟨st,by rw [Http.readHeader,hs],rfl,rfl,.inl ⟨rfl,rfl⟩⟩
  | some p =>
    rw [hs,Option.bind_some] at unchunked lengths
    simp only [Option.bind_some]
    generalize hname : String.ofList (Text.trim p.1) = name at *
    by_cases hl : Text.eqIgnoreAsciiCase name "content-length" = true
    · have ha : ¬Text.eqIgnoreAsciiCase name "authorization" = true :=
        fun ha => absurd (eqIgnoreAsciiCase_right hl ha) (by decide)
      rw [if_pos hl] at lengths
      have hparse := lengths _ rfl
      rw [String.toList_ofList] at hparse
      refine ⟨{ st with contentLength := some q.body.length },?_,rfl,?_,.inr rfl⟩
      · simp only [Http.readHeader,hs,hname,hl,hparse,if_true]
      · rw [if_neg ha]
        rfl
    rw [if_neg hl]
    by_cases ha : Text.eqIgnoreAsciiCase name "authorization" = true
    · refine ⟨{ st with authorization := some (.ofList (Text.trim p.2)) },?_,rfl,?_,
        .inl ⟨rfl,rfl⟩⟩
      · simp [Http.readHeader,hs,hname,hl,ha]
      · rw [if_pos ha]
        rfl
    · have ht : ¬Text.eqIgnoreAsciiCase name "transfer-encoding" = true := fun ht => by
        rw [if_pos ht] at unchunked
        cases unchunked
      refine ⟨st,?_,rfl,?_,.inl ⟨rfl,rfl⟩⟩
      · simp [Http.readHeader,hs,hname,hl,ha,ht]
      · rw [if_neg ha]
        rfl

/-- An announced body is read, and nothing behind it. -/
theorem readBody_append {st : HeaderState} {body further : List UInt8} {closed : Bool} {held : ℕ}
    (announced : st.contentLength.getD 0 = body.length) (fits : body.length ≤ maxBody) :
    ∃ r, readBody st ⟨⟨body ++ further,closed⟩,held⟩ = (.ok body,r) := by
  unfold readBody
  dsimp only
  rw [announced,if_neg (not_lt.mpr fits)]
  split_ifs with hz
  · rw [List.length_eq_zero_iff.mp hz]
    exact ⟨_,rfl⟩
  · have hle : body.length ≤ (body ++ further).length := by simp
    simp only [readExact,if_pos hle,List.take_left]
    exact ⟨_,rfl⟩

/-- The blank line ends the section. -/
theorem readHeaders_blank {lines : ℕ} {st : HeaderState} {body further : List UInt8} {closed : Bool}
    {held : ℕ} (size : st.bytes+2 ≤ maxHeaderBytes)
    (announced : st.contentLength.getD 0 = body.length) (fits : body.length ≤ maxBody) :
    ∃ st' r', Http.readHeaders (lines+1) st ⟨⟨line [] ++ (body ++ further),closed⟩,held⟩ =
      (.ok (st',body),r') ∧ st'.authorization = st.authorization := by
  have hread := readLine_of_whole (r := ⟨⟨line [] ++ (body ++ further),closed⟩,held⟩)
    (whole_line (by simp))
  have hafter := @afterLine_line [] (body ++ further) closed (by simp)
  have hlen : (lineOf (line [] ++ (body ++ further))).length = 2 := by
    rw [lineOf_line (by simp)]
    rfl
  obtain ⟨r,hbody⟩ := @readBody_append { st with bytes := st.bytes+(1+1) } body further closed (held+2)
    announced fits
  rw [hlen,hafter] at hread
  refine ⟨{ st with bytes := st.bytes+(1+1) },r,?_,rfl⟩
  have hblank : Text.trimEnd ([] ++ ['\r','\n']) = [] := rfl
  rw [Http.readHeaders,hread]
  dsimp only
  rw [if_neg (not_lt.mpr size),if_pos hblank,hbody]

/-- The header section of a request within the limits, from one of its lines on. -/
theorem WithinLimits.readHeaders {q : Sent} (limits : q.WithinLimits) (further : List UInt8)
    (closed : Bool) {hs : List String} (mem : ∀ h ∈ hs, h ∈ q.headers) {lines : ℕ}
    (enough : hs.length < lines) {st : HeaderState}
    (size : st.bytes+((hs.map String.toList ++ [[]]).flatMap line).length ≤ maxHeaderBytes)
    (announced : st.contentLength = some q.body.length ∨ st.contentLength = none ∧
      (q.body ≠ [] → ∃ h ∈ hs, valueOf "content-length" h ≠ none)) (held : ℕ) :
    ∃ st' r', Http.readHeaders lines st
        ⟨⟨(hs.map String.toList ++ [[]]).flatMap line ++ (q.body ++ further),closed⟩,held⟩ =
          (.ok (st',q.body),r') ∧
      st'.authorization = ((hs.filterMap (valueOf "authorization")).getLast?).or st.authorization := by
  obtain ⟨lines,rfl⟩ := Nat.exists_eq_succ_of_ne_zero (Nat.ne_zero_of_lt enough)
  induction hs generalizing lines st held with
  | nil =>
    have hlen : st.contentLength.getD 0 = q.body.length := by
      rcases announced with ha | ⟨ha,hnamed⟩
      · rw [ha]
        rfl
      · have hnil : q.body = [] := by
          by_contra hne
          obtain ⟨h,hm,-⟩ := hnamed hne
          cases hm
        rw [ha,hnil]
        rfl
    have hline : ([].map String.toList ++ [[]]).flatMap line = line [] := by simp
    rw [hline] at size ⊢
    exact readHeaders_blank size hlen limits.body
  | cons h hs ih =>
    have hh : h ∈ q.headers := mem h List.mem_cons_self
    obtain ⟨visible,-,unbroken⟩ := limits.printable h hh
    obtain ⟨st₁,read,hbytes,hauth,hlength⟩ := limits.readHeader hh
      { st with bytes := st.bytes+(line h.toList).length }
    have hlines : lines ≠ 0 := by
      rintro rfl
      simp at enough
    obtain ⟨lines,rfl⟩ := Nat.exists_eq_succ_of_ne_zero hlines
    have hcons : ((h :: hs).map String.toList ++ [[]]).flatMap line =
      line h.toList ++ (hs.map String.toList ++ [[]]).flatMap line := rfl
    rw [hcons,List.length_append] at size
    rw [hcons,List.append_assoc]
    generalize hrest : (hs.map String.toList ++ [[]]).flatMap line = block at ih size ⊢
    have hline := @lineOf_line _ (block ++ (q.body ++ further)) unbroken
    have next : Next ⟨lines+1+1,st,⟨line h.toList ++ (block ++ (q.body ++ further)),closed⟩⟩
        ⟨lines+1,st₁,afterLine ⟨line h.toList ++ (block ++ (q.body ++ further)),closed⟩⟩ := by
      refine .line (whole_line unbroken) ?_ ?_ ?_
      · rw [hline]
        omega
      · rw [trimEnd_line]
        exact fun hblank => visible (Text.trimEnd_eq_nil_iff.mp hblank)
      · rw [hline,trimEnd_line,readHeader_trimEnd]
        exact read
    have hgo := (readHeaders_of_next (r := ⟨_,held⟩) next).1
    rw [pastLine,afterLine_line unbroken] at hgo
    have bytes_eq : st₁.bytes = st.bytes+(line h.toList).length := hbytes
    have tail (h' : String) (hm : h' ∈ hs) : h' ∈ q.headers := mem h' (List.mem_cons_of_mem _ hm)
    have announced' : st₁.contentLength = some q.body.length ∨ st₁.contentLength = none ∧
        (q.body ≠ [] → ∃ h ∈ hs, valueOf "content-length" h ≠ none) := by
      rcases hlength with ⟨he,unnamed⟩ | he
      · rw [he]
        rcases announced with ha | ⟨ha,named⟩
        · exact .inl ha
        · refine .inr ⟨ha,fun hne => ?_⟩
          obtain ⟨h',hm,hv⟩ := named hne
          rcases List.mem_cons.mp hm with rfl | hm
          · exact absurd unnamed hv
          · exact ⟨h',hm,hv⟩
      · exact .inl he
    have fits : st₁.bytes+block.length ≤ maxHeaderBytes := by omega
    obtain ⟨st',r',hr,hst⟩ := ih tail fits announced' (held+(line h.toList).length) lines
      (Nat.lt_of_succ_lt_succ enough)
    refine ⟨st',r',?_,?_⟩
    · rw [← hline] at hr
      exact hgo.trans hr
    · rw [hst,hauth,List.filterMap_cons]
      cases valueOf "authorization" h with
      | none => rfl
      | some v => exact (getLast_cons_or v _ st.authorization).symm

section Reading
variable {q : Sent}

theorem solid_newline {word : List Char} (h : Text.Solid word) : '\n' ∉ word := fun hm =>
  absurd (h _ hm) (by decide)

/-- The method and the target are the first two words of their line. -/
theorem requestLine_line (method : q.method.toList ≠ [] ∧ Text.Solid q.method.toList)
    (target : q.target.toList ≠ [] ∧ Text.Solid q.target.toList) :
    requestLine (q.firstLine ++ ['\r','\n']) = some (q.method.toList,q.target.toList) := by
  have blank : Text.isWhitespace ' ' = true := by decide
  have version : " HTTP/1.1".toList = ' ' :: "HTTP/1.1".toList := by decide
  have first (s : List Char) : Text.nextWord (q.method.toList ++ ' ' :: s) = _ :=
    Text.nextWord_append method.2 method.1 blank
  have second (s : List Char) : Text.nextWord (q.target.toList ++ ' ' :: s) = _ :=
    Text.nextWord_append target.2 target.1 blank
  rw [firstLine,version,List.append_assoc,List.cons_append,List.append_assoc,List.cons_append,
    requestLine,first]
  dsimp only
  rw [Text.nextWord_cons blank,second]
  rfl

theorem newline_not_mem_firstLine (method : Text.Solid q.method.toList)
    (target : Text.Solid q.target.toList) : '\n' ∉ q.firstLine := by
  rw [firstLine,List.mem_append,List.mem_cons,List.mem_append]
  rintro (h | h | h | h)
  · exact solid_newline method h
  · cases h
  · exact solid_newline target h
  · revert h
    decide

/-- A request is read to its end. -/
theorem WithinLimits.readRequest (limits : q.WithinLimits) (further : List UInt8) (closed : Bool) :
    ∃ r, Http.readRequest ⟨q.bytes ++ further,closed⟩ =
      (.ok ⟨q.method,.ofList (pathOf q.target.toList),q.body,q.authorization⟩,r) := by
  have unbroken := newline_not_mem_firstLine limits.method.2 limits.target.2
  let block := (q.headers.map String.toList ++ [[]]).flatMap line
  let start : HeaderState := ⟨none,none,0⟩
  have size : start.bytes+block.length ≤ maxHeaderBytes := by
    rw [Nat.zero_add]
    exact limits.size
  have announced : start.contentLength = some q.body.length ∨ start.contentLength = none ∧
      (q.body ≠ [] → ∃ h ∈ q.headers, valueOf "content-length" h ≠ none) := .inr ⟨rfl,limits.announced⟩
  have enough : q.headers.length < maxHeaderLines := Nat.lt_succ_of_le limits.lines
  obtain ⟨st,r,hread,hauth⟩ := limits.readHeaders further closed (fun h hh => hh) enough size announced
    (0+(line q.firstLine).length)
  have hr := readRequest_of_whole (@whole_line _ (block ++ (q.body ++ further)) closed unbroken)
    (requestLine_line limits.method limits.target)
  rw [pastLine,afterLine_line unbroken,lineOf_line unbroken,hread] at hr
  have hbytes : q.bytes ++ further = line q.firstLine ++ (block ++ (q.body ++ further)) := by
    rw [bytes,List.append_assoc,List.append_assoc]
  have hst : st.authorization = q.authorization := by
    rw [hauth,authorization]
    exact Option.or_none
  refine ⟨r,?_⟩
  rw [hbytes,hr,← hst]
  dsimp only [Except.map]
  rw [String.ofList_toList]

/-- A request within the limits is read as it was sent, whatever follows it. -/
theorem request_round_trip (limits : q.WithinLimits) (further : List UInt8) (closed : Bool) :
    (Http.readRequest ⟨q.bytes ++ further,closed⟩).1 =
      .ok ⟨q.method,.ofList (pathOf q.target.toList),q.body,q.authorization⟩ := by
  obtain ⟨r,h⟩ := limits.readRequest further closed
  rw [h]

/-- An intent with its token; the query is cut off, and the next request stays behind the body. -/
def switchOn : Sent where
  method := "POST"
  target := "/devices/lamp/intent?now"
  headers := ["content-length: 2","X-Trace","Authorization: Bearer b8","AUTHORIZATION:Bearer f1"]
  body := [123,125]

theorem switchOn_withinLimits : switchOn.WithinLimits where
  method := by decide
  target := by decide
  lines := by decide
  printable := by decide
  size := by decide
  unchunked := by decide
  lengths := by decide
  announced := by decide
  body := by decide

theorem switchOn_round_trip :
    (Http.readRequest ⟨switchOn.bytes ++ "GET".toUTF8.toList,false⟩).1 =
      .ok ⟨"POST","/devices/lamp/intent",[123,125],some "Bearer f1"⟩ :=
  request_round_trip switchOn_withinLimits _ false

end Reading

end Sent
end Http
end Domiform
