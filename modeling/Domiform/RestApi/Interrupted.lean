import Domiform.RestApi.Requests

/-! Requests that are cut short. A part of a request is refused, unless nothing is missing but the line
feed of the blank line. -/
namespace Domiform
open Library

namespace Http

section Parts
variable {α : Type*} {a b t : List α}

/-- A part of two pieces ends in the first, or in the second. -/
theorem part_append (h : t <+: a ++ b) : (t <+: a ∧ t ≠ a) ∨ ∃ u, t = a ++ u ∧ u <+: b := by
  by_cases ht : t <+: a ∧ t ≠ a
  · exact .inl ht
  · obtain ⟨u,rfl⟩ : a <+: t := by
      rcases List.prefix_or_prefix_of_prefix h (List.prefix_append a b) with hta | hat
      · rw [not_and_not_right.mp ht hta]
      · exact hat
    exact .inr ⟨u,rfl,(List.prefix_append_right_inj a).mp h⟩

end Parts

section Errors
variable {h h' : HeaderState} {r r' : Reader} {e : Response}

theorem status_readHeader {line : List Char} (he : readHeader h line = .error e) : 400 ≤ e.status := by
  unfold readHeader at he
  split at he
  · cases he
  · dsimp only at he
    split_ifs at he
    · split at he <;> cases he
      exact le_rfl
    all_goals cases he
    exact Nat.le_add_right 400 11

theorem status_readBody (he : (readBody h r).1 = .error e) : 400 ≤ e.status := by
  unfold readBody at he
  dsimp only at he
  split_ifs at he
  · cases he
    exact Nat.le_add_right 400 13
  · split at he <;> cases he
    exact le_rfl

theorem status_readHeaders {lines : ℕ} (he : (readHeaders lines h r).1 = .error e) :
    400 ≤ e.status := by
  induction lines generalizing h r with
  | zero =>
    cases he
    exact Nat.le_add_right 400 31
  | succ lines ih =>
    rw [readHeaders] at he
    split at he
    · cases he
      exact le_rfl
    · cases he
      exact Nat.le_add_right 400 31
    · dsimp only at he
      split_ifs at he
      · cases he
        exact Nat.le_add_right 400 31
      · split at he
        · cases he
        · rename_i hbody
          cases he
          exact status_readBody (congrArg Prod.fst hbody)
      · split at he
        · exact ih he
        · rename_i hline
          cases he
          exact status_readHeader hline

/-- What is not read as a request is answered with an error of the client's. -/
theorem status_readRequest {s : TcpStream} (he : (readRequest s).1 = .error e) : 400 ≤ e.status := by
  unfold readRequest at he
  split at he
  · cases he
    exact le_rfl
  · cases he
    exact le_rfl
  · split at he
    · cases he
      exact le_rfl
    · split at he
      · cases he
      · rename_i hheaders
        cases he
        exact status_readHeaders (congrArg Prod.fst hheaders)

end Errors

section Reading
variable {t body : List UInt8} {closed : Bool} {held lines : ℕ} {st st' : HeaderState} {r r' : Reader}
  {text : List Char}

theorem lineOf_self (h : 10 ∉ t) : lineOf t = t := by
  induction t with
  | nil => rfl
  | cons b t ih =>
    rw [List.mem_cons,not_or] at h
    rw [lineOf,if_neg (Ne.symm h.1),ih h.2]

/-- What a line leaves of the state: it has become longer. -/
def HeaderState.after (st : HeaderState) (s : TcpStream) : HeaderState :=
  { st with bytes := st.bytes+(lineOf s.bytes).length }

/-- A blank line is followed by the body. -/
theorem readHeaders_of_blank (whole : Whole r.stream text) (blank : Text.trimEnd text = [])
    (fits : st.bytes+(lineOf r.stream.bytes).length ≤ maxHeaderBytes) :
    (readHeaders (lines+1) st r).1 =
      (readBody (HeaderState.after st r.stream) (pastLine r)).1.map
        fun body => (HeaderState.after st r.stream,body) := by
  have hpos : (lineOf r.stream.bytes).length ≠ 0 := List.length_eq_zero_iff.not.mpr whole.2.1
  obtain ⟨n,hn⟩ := Nat.exists_eq_succ_of_ne_zero hpos
  rw [readHeaders,readLine_of_whole whole,HeaderState.after,pastLine,hn]
  rw [hn] at fits
  dsimp only
  rw [if_neg (not_lt.mpr fits),if_pos blank]
  split <;> (rename_i hb; rw [hb]; rfl)

/-- A header section is refused at its first line, ends with it, or goes on behind it. -/
theorem readHeaders_line (lines : ℕ) (st : HeaderState) (r : Reader) :
    (∃ e, (readHeaders (lines+1) st r).1 = .error e) ∨
      (∃ text, Whole r.stream text ∧ Text.trimEnd text = [] ∧
        st.bytes+(lineOf r.stream.bytes).length ≤ maxHeaderBytes) ∨
      ∃ text st', Whole r.stream text ∧ Text.trimEnd text ≠ [] ∧
        st.bytes+(lineOf r.stream.bytes).length ≤ maxHeaderBytes ∧
        readHeader (HeaderState.after st r.stream) (Text.trimEnd text) = .ok st' := by
  cases hr : readLine r with
  | mk found r₁ =>
    rcases found with _ | ⟨text,_ | n⟩
    · left
      rw [readHeaders,hr]
      exact ⟨_,rfl⟩
    · left
      rw [readHeaders,hr]
      exact ⟨_,rfl⟩
    · obtain ⟨whole,hn,rfl⟩ := readLine_eq_some hr
      by_cases fits : st.bytes+(lineOf r.stream.bytes).length ≤ maxHeaderBytes
      · by_cases blank : Text.trimEnd text = []
        · exact .inr (.inl ⟨text,whole,blank,fits⟩)
        · cases read : readHeader (HeaderState.after st r.stream) (Text.trimEnd text) with
          | ok st' => exact .inr (.inr ⟨text,st',whole,blank,fits,read⟩)
          | error e =>
            rw [HeaderState.after,← hn] at read
            rw [← hn] at fits
            left
            rw [readHeaders,hr]
            dsimp only
            rw [if_neg (not_lt.mpr fits),if_neg blank,read]
            exact ⟨e,rfl⟩
      · left
        rw [← hn,not_le] at fits
        rw [readHeaders,hr]
        dsimp only
        rw [if_pos fits]
        exact ⟨_,rfl⟩

/-- A header line that is understood, and then the rest of the section. -/
theorem readHeaders_of_line (whole : Whole r.stream text) (more : Text.trimEnd text ≠ [])
    (fits : st.bytes+(lineOf r.stream.bytes).length ≤ maxHeaderBytes)
    (read : readHeader (HeaderState.after st r.stream) (Text.trimEnd text) = .ok st') :
    readHeaders (lines+1) st r = readHeaders lines st' (pastLine r) :=
  (readHeaders_of_next (.line whole fits more read)).1

/-- A header section that ends without a blank line is refused. -/
theorem readHeaders_nil (lines : ℕ) : ∃ e, (readHeaders lines st ⟨⟨[],closed⟩,held⟩).1 = .error e := by
  cases lines with
  | zero => exact ⟨_,rfl⟩
  | succ lines =>
    rcases readHeaders_line lines st ⟨⟨[],closed⟩,held⟩ with he | ⟨text,whole,-⟩ | ⟨text,_,whole,-⟩
    · exact he
    · exact absurd rfl whole.2.1
    · exact absurd rfl whole.2.1

/-- A line without an end is all that there is. -/
theorem whole_part (h : 10 ∉ t) (whole : Whole ⟨t,closed⟩ text) :
    t = Utf8.encode text ∧ text ≠ [] ∧ afterLine ⟨t,closed⟩ = ⟨[],closed⟩ := by
  have hself := lineOf_self h
  have hd := whole.2.2
  have hne := whole.2.1
  rw [hself] at hd hne
  have henc := Utf8.decode_eq_some.mp hd
  refine ⟨henc.symm,?_,?_⟩
  · rintro rfl
    exact hne henc.symm
  · rw [afterLine,hself,List.drop_length]

end Reading

namespace Sent

theorem prefix_line {t : List UInt8} {text : List Char} (part : t <+: line text)
    (short : t ≠ line text) : t <+: Utf8.encode text ++ [13] := by
  have split : line text = (Utf8.encode text ++ [13]) ++ [10] := by
    rw [line_eq]
    simp
  rw [split] at part short
  exact (List.prefix_concat_iff.mp part).resolve_left short

theorem newline_not_mem_part {t : List UInt8} {text : List Char} (unbroken : '\n' ∉ text)
    (part : t <+: line text) (short : t ≠ line text) : 10 ∉ t := by
  intro h
  rcases List.mem_append.mp ((prefix_line part short).subset h) with h | h
  · exact unbroken (Utf8.newline_mem_encode.mp h)
  · revert h
    decide

/-- A header line starts with its name. -/
def Flush (header : String) : Prop := ∀ c ∈ header.toList.head?, Text.isWhitespace c = false

/-- All of a request has come; or it has no body, and the connection is closed behind the return of its
blank line. -/
def Complete (all body : List UInt8) (s : TcpStream) : Prop :=
  s.bytes = all ∨ body = [] ∧ s.closed = true ∧ s.bytes ++ [10] = all

section Complete
variable {all body a t u : List UInt8} {closed : Bool}

theorem complete_append_iff :
    Complete (a ++ all) body ⟨a ++ u,closed⟩ ↔ Complete all body ⟨u,closed⟩ := by
  simp [Complete]

/-- More than a line feed is missing from a part that ends before the last two bytes. -/
theorem incomplete_of_cut (part : t <+: a) (short : t ≠ a) (more : all ≠ []) :
    ¬Complete (a ++ all) body ⟨t,closed⟩ := by
  have hlt : t.length < a.length :=
    lt_of_le_of_ne part.length_le fun he => short (part.eq_of_length he)
  have hpos := List.length_pos_iff.mpr more
  rintro (same | ⟨-,-,same⟩) <;>
  · have hlen := congrArg List.length same
    simp only [List.length_append,List.length_singleton] at hlen
    omega

end Complete

section Headers
variable {t body : List UInt8} {closed : Bool} {held lines : ℕ} {st st' : HeaderState} {r' : Reader}

/-- What is there of a body is the body, or too short. -/
theorem readBody_part {st₁ : HeaderState} {held₁ : ℕ}
    (whole : (readBody st ⟨⟨body,closed⟩,held⟩).1 = .ok body) (part : t <+: body)
    (same : st₁.contentLength = st.contentLength) :
    (∃ e, (readBody st₁ ⟨⟨t,closed⟩,held₁⟩).1 = .error e) ∧ t ≠ body ∨
      (readBody st₁ ⟨⟨t,closed⟩,held₁⟩).1 = .ok body ∧ t = body := by
  unfold readBody at whole ⊢
  dsimp only at whole ⊢
  rw [same]
  split_ifs at whole ⊢ with big blank
  · obtain rfl : [] = body := Except.ok.inj whole
    exact .inr ⟨rfl,List.prefix_nil.mp part⟩
  · have hlen : st.contentLength.getD 0 = body.length := by
      unfold readExact at whole
      dsimp only at whole
      by_cases hle : st.contentLength.getD 0 ≤ body.length
      · rw [if_pos hle] at whole
        have hl := congrArg List.length (Except.ok.inj whole)
        rw [List.length_take,min_eq_left hle] at hl
        exact hl
      · rw [if_neg hle] at whole
        cases whole
    unfold readExact
    dsimp only
    rw [hlen]
    by_cases hle : body.length ≤ t.length
    · obtain rfl := part.eq_of_length_le hle
      refine .inr ⟨?_,rfl⟩
      rw [if_pos hle,List.take_length]
    · refine .inl ⟨?_,fun same => hle (same ▸ le_rfl)⟩
      rw [if_neg hle]
      exact ⟨_,rfl⟩

/-- A header line that is cut short ends the section without a blank line. -/
theorem readHeaders_cut {h : String} (visible : ¬Text.Blank h.toList) (flush : Flush h)
    (unbroken : '\n' ∉ h.toList) (part : t <+: line h.toList) (short : t ≠ line h.toList) :
    ∃ e, (readHeaders (lines+1) st ⟨⟨t,closed⟩,held⟩).1 = .error e := by
  have open_end := newline_not_mem_part unbroken part short
  rcases readHeaders_line lines st ⟨⟨t,closed⟩,held⟩ with he | ⟨text,whole,blank,-⟩ |
      ⟨text,st₁,whole,more,fits,read⟩
  · exact he
  · -- What there is of the line starts as the line does, and so it is not blank.
    obtain ⟨rfl,some_text,-⟩ := whole_part open_end whole
    obtain ⟨c,rest,rfl⟩ := List.exists_cons_of_ne_nil some_text
    have start : c :: rest <+: h.toList ++ ['\r','\n'] := Utf8.prefix_of_encode part
    have first : h.toList.head? = some c := by
      cases hh : h.toList with
      | nil => exact absurd (fun d hd => by rw [hh] at hd; cases hd) visible
      | cons d ds =>
        rw [hh] at start
        rw [(List.cons_prefix_cons.mp start).1]
        rfl
    have white := Text.trimEnd_eq_nil_iff.mp blank c List.mem_cons_self
    rw [flush c first] at white
    cases white
  · rw [readHeaders_of_line whole more fits read,pastLine,(whole_part open_end whole).2.2]
    exact readHeaders_nil lines

section Blank
variable {u : List UInt8}

/-- The blank line, and what there is of the body. -/
theorem readHeaders_blankLine (fits : st.bytes+(line []).length ≤ maxHeaderBytes) :
    (readHeaders (lines+1) st ⟨⟨line [] ++ u,closed⟩,held⟩).1 =
      (readBody { st with bytes := st.bytes+(line []).length }
        ⟨⟨u,closed⟩,held+(line []).length⟩).1.map
          fun body => ({ st with bytes := st.bytes+(line []).length },body) := by
  have hline := @lineOf_line [] u (by simp)
  have h := @readHeaders_of_blank lines st ⟨⟨line [] ++ u,closed⟩,held⟩ _
    (whole_line (by simp)) (by decide) (by rw [hline]; exact fits)
  rw [HeaderState.after,pastLine,afterLine_line (by simp),hline] at h
  exact h

/-- A section that is read to its end had room for its blank line. -/
theorem fits_of_blankLine {found : HeaderState × List UInt8}
    (whole : (readHeaders (lines+1) st ⟨⟨line [] ++ u,closed⟩,held⟩).1 = .ok found) :
    st.bytes+(line []).length ≤ maxHeaderBytes := by
  have hline := @lineOf_line [] u (by simp)
  rcases readHeaders_line lines st ⟨⟨line [] ++ u,closed⟩,held⟩ with ⟨e,he⟩ | ⟨_,_,_,hf⟩ |
      ⟨_,_,_,_,hf,_⟩
  · rw [he] at whole
    cases whole
  · rwa [hline] at hf
  · rwa [hline] at hf

/-- The blank line without its line feed is no line while more may come. -/
theorem readHeaders_return_open (lines : ℕ) :
    ∃ e, (readHeaders (lines+1) st ⟨⟨Utf8.encode [] ++ [13],false⟩,held⟩).1 = .error e := by
  have unended : 10 ∉ lineOf (Utf8.encode [] ++ [13]) := by decide
  rcases readHeaders_line lines st ⟨⟨Utf8.encode [] ++ [13],false⟩,held⟩ with he | ⟨_,hw,-⟩ |
      ⟨_,_,hw,-⟩
  · exact he
  · exact absurd (hw.1.resolve_right nofun) unended
  · exact absurd (hw.1.resolve_right nofun) unended

/-- It is a line once the connection is closed, and no body follows it. -/
theorem readHeaders_return_closed (fits : st.bytes+(line []).length ≤ maxHeaderBytes) :
    ∃ (st₁ : HeaderState) (held₁ : ℕ),
      (readHeaders (lines+1) st ⟨⟨Utf8.encode [] ++ [13],true⟩,held⟩).1 =
        (readBody st₁ ⟨⟨[],true⟩,held₁⟩).1.map (fun body => (st₁,body)) ∧
      st₁.contentLength = st.contentLength ∧ st₁.authorization = st.authorization := by
  have whole : Whole ⟨Utf8.encode [] ++ [13],true⟩ ['\r'] := ⟨.inr rfl,by decide,by decide⟩
  have one : st.bytes+(lineOf (Utf8.encode [] ++ [13])).length ≤ maxHeaderBytes :=
    le_trans (Nat.add_le_add_left (by decide) _) fits
  have open_end : 10 ∉ Utf8.encode [] ++ [13] := by decide
  refine ⟨HeaderState.after st ⟨Utf8.encode [] ++ [13],true⟩,
    held+(lineOf (Utf8.encode [] ++ [13])).length,?_,rfl,rfl⟩
  rw [readHeaders_of_blank whole (by decide) one,pastLine,(whole_part open_end whole).2.2]

end Blank

/-- The end of a header section and its body, cut short, are refused, or enough is there. -/
theorem readHeaders_end
    (whole : (readHeaders (lines+1) st ⟨⟨line [] ++ body,closed⟩,held⟩).1 = .ok (st',body))
    (part : t <+: line [] ++ body) :
    (∃ e, (readHeaders (lines+1) st ⟨⟨t,closed⟩,held⟩).1 = .error e) ∧
        ¬Complete (line [] ++ body) body ⟨t,closed⟩ ∨
      ∃ st₁, (readHeaders (lines+1) st ⟨⟨t,closed⟩,held⟩).1 = .ok (st₁,body) ∧
        st₁.authorization = st'.authorization ∧ Complete (line [] ++ body) body ⟨t,closed⟩ := by
  have fits := fits_of_blankLine whole
  rw [readHeaders_blankLine fits] at whole
  obtain ⟨hbody,hauth⟩ : (readBody { st with bytes := st.bytes+(line []).length }
      ⟨⟨body,closed⟩,held+(line []).length⟩).1 = .ok body ∧
        st'.authorization = st.authorization := by
    revert whole
    rcases readBody _ _ with ⟨_ | got,_⟩ <;> intro whole <;> cases whole
    exact ⟨rfl,rfl⟩
  -- The body that is there, after the blank line or a part of it.
  have rest {u : List UInt8} (st₁ : HeaderState) {held₁ : ℕ}
      (hu : u <+: body) (same : st₁.contentLength = st.contentLength) :
      (∃ e, (readBody st₁ ⟨⟨u,closed⟩,held₁⟩).1.map (fun body => (st₁,body)) = .error e) ∧ u ≠ body ∨
        (readBody st₁ ⟨⟨u,closed⟩,held₁⟩).1.map (fun body => (st₁,body)) = .ok (st₁,body) ∧
          u = body := by
    rcases readBody_part hbody hu same with ⟨⟨e,he⟩,hne⟩ | ⟨hok,hall⟩
    · exact .inl ⟨⟨e,by rw [he]; rfl⟩,hne⟩
    · exact .inr ⟨by rw [hok]; rfl,hall⟩
  rcases part_append part with ⟨cut,short⟩ | ⟨u,rfl,hu⟩
  · rcases List.prefix_concat_iff.mp (prefix_line cut short) with rfl | none_yet
    · -- Only the line feed is missing, and the line is one once the connection is closed.
      cases closed with
      | false =>
        refine .inl ⟨readHeaders_return_open lines,?_⟩
        rintro (same | ⟨-,hc,-⟩)
        · simp [line_eq] at same
        · cases hc
      | true =>
        obtain ⟨st₁,held₁,hread,hlen,same_auth⟩ := @readHeaders_return_closed held lines st fits
        rw [hread]
        rcases rest st₁ List.nil_prefix hlen with ⟨he,hne⟩ | ⟨hok,rfl⟩
        · refine .inl ⟨he,?_⟩
          rintro (same | ⟨hnil,-⟩)
          · simp [line_eq] at same
          · exact hne hnil.symm
        · refine .inr ⟨st₁,hok,same_auth.trans hauth.symm,.inr ⟨rfl,rfl,?_⟩⟩
          simp [line_eq]
    · obtain rfl := List.prefix_nil.mp none_yet
      refine .inl ⟨readHeaders_nil _,?_⟩
      rintro (same | ⟨-,-,same⟩) <;> simp [line_eq] at same
  · rw [readHeaders_blankLine fits,complete_append_iff]
    rcases rest { st with bytes := st.bytes+(line []).length } hu rfl with ⟨he,hne⟩ | ⟨hok,hall⟩
    · refine .inl ⟨he,?_⟩
      rintro (same | ⟨rfl,-,same⟩)
      · exact hne same
      · simp at same
    · exact .inr ⟨_,hok,hauth.symm,.inl hall⟩

/-- What there is of a header section and its body is refused, or read as all of it. -/
theorem readHeaders_part {hs : List String} (visible : ∀ h ∈ hs, ¬Text.Blank h.toList)
    (flush : ∀ h ∈ hs, Flush h) (unbroken : ∀ h ∈ hs, '\n' ∉ h.toList)
    (whole : (readHeaders (lines+1) st
      ⟨⟨(hs.map String.toList ++ [[]]).flatMap line ++ body,closed⟩,held⟩).1 = .ok (st',body))
    (part : t <+: (hs.map String.toList ++ [[]]).flatMap line ++ body) :
    (∃ e, (readHeaders (lines+1) st ⟨⟨t,closed⟩,held⟩).1 = .error e) ∧
        ¬Complete ((hs.map String.toList ++ [[]]).flatMap line ++ body) body ⟨t,closed⟩ ∨
      ∃ st₁, (readHeaders (lines+1) st ⟨⟨t,closed⟩,held⟩).1 = .ok (st₁,body) ∧
        st₁.authorization = st'.authorization ∧
        Complete ((hs.map String.toList ++ [[]]).flatMap line ++ body) body ⟨t,closed⟩ := by
  induction hs generalizing lines st held t with
  | nil =>
    have hline : ([].map String.toList ++ [[]]).flatMap line = line [] := by simp
    rw [hline] at whole part ⊢
    exact readHeaders_end whole part
  | cons h hs ih =>
    obtain ⟨visible_h,visible⟩ := List.forall_mem_cons.mp visible
    obtain ⟨flush_h,flush⟩ := List.forall_mem_cons.mp flush
    obtain ⟨unbroken_h,unbroken⟩ := List.forall_mem_cons.mp unbroken
    have hcons : ((h :: hs).map String.toList ++ [[]]).flatMap line ++ body =
      line h.toList ++ ((hs.map String.toList ++ [[]]).flatMap line ++ body) := by simp
    rw [hcons] at whole part ⊢
    rcases part_append part with ⟨cut,short⟩ | ⟨u,rfl,hu⟩
    · refine .inl ⟨readHeaders_cut visible_h flush_h unbroken_h cut short,
        incomplete_of_cut cut short ?_⟩
      simp [line_eq]
    · have hmore : Text.trimEnd (h.toList ++ ['\r','\n']) ≠ [] := by
        rw [trimEnd_line]
        exact fun hblank => visible_h (Text.trimEnd_eq_nil_iff.mp hblank)
      rcases readHeaders_line lines st ⟨⟨line h.toList ++
          ((hs.map String.toList ++ [[]]).flatMap line ++ body),closed⟩,held⟩ with ⟨e,he⟩ |
          ⟨text,hw,hblank,_⟩ | ⟨text,st₁,hw,more,fits,read⟩
      · rw [he] at whole
        cases whole
      · have htext := Option.some.inj (hw.2.2.symm.trans (whole_line unbroken_h).2.2)
        rw [htext] at hblank
        exact absurd hblank hmore
      · obtain rfl := Option.some.inj (hw.2.2.symm.trans (whole_line unbroken_h).2.2)
        have hline (v : List UInt8) := @lineOf_line _ v unbroken_h
        have next (v : List UInt8) :
            readHeaders (lines+1) st ⟨⟨line h.toList ++ v,closed⟩,held⟩ =
              readHeaders lines st₁ ⟨⟨v,closed⟩,held+(line h.toList).length⟩ := by
          rw [HeaderState.after,hline] at read
          rw [hline] at fits
          have hnext := @readHeaders_of_line lines st st₁ ⟨⟨line h.toList ++ v,closed⟩,held⟩ _
            (whole_line unbroken_h) more
            (by rw [hline]; exact fits) (by rw [HeaderState.after,hline]; exact read)
          rw [pastLine,afterLine_line unbroken_h,hline] at hnext
          exact hnext
        rw [next] at whole ⊢
        rw [complete_append_iff]
        cases lines with
        | zero => cases whole
        | succ lines => exact ih visible flush unbroken whole hu

end Headers

section Requests
variable {q : Sent}

/-- What is there of a request within the limits is refused, or it is complete and read as the request
is. -/
theorem readRequest_part (limits : q.WithinLimits) (flush : ∀ h ∈ q.headers, Flush h)
    {t : List UInt8} (part : t <+: q.bytes) (closed : Bool) :
    (∃ e, (readRequest ⟨t,closed⟩).1 = .error e) ∧ ¬Complete q.bytes q.body ⟨t,closed⟩ ∨
      (readRequest ⟨t,closed⟩).1 =
        .ok ⟨q.method,.ofList (pathOf q.target.toList),q.body,q.authorization⟩ ∧
      Complete q.bytes q.body ⟨t,closed⟩ := by
  have unbroken := newline_not_mem_firstLine limits.method.2 limits.target.2
  have named := requestLine_line limits.method limits.target
  rw [bytes] at part ⊢
  rcases part_append part with ⟨cut,short⟩ | ⟨u,rfl,hu⟩
  · refine .inl ⟨?_,incomplete_of_cut cut short (by simp [line_eq])⟩
    have open_end := newline_not_mem_part unbroken cut short
    unfold readRequest
    cases hr : readLine ⟨⟨t,closed⟩,0⟩ with
    | mk found r₁ =>
      rcases found with _ | ⟨text,_ | n⟩
      · exact ⟨_,rfl⟩
      · exact ⟨_,rfl⟩
      · obtain ⟨hw,-,rfl⟩ := readLine_eq_some hr
        dsimp only
        rw [(whole_part open_end hw).2.2]
        split
        · exact ⟨_,rfl⟩
        · obtain ⟨e,he⟩ := @readHeaders_nil closed (0+(lineOf t).length) ⟨none,none,0⟩
            maxHeaderLines
          split
          · rename_i hh
            rw [hh] at he
            cases he
          · exact ⟨_,rfl⟩
  · have reads (v : List UInt8) :
        (readRequest ⟨line q.firstLine ++ v,closed⟩).1 =
          (readHeaders maxHeaderLines ⟨none,none,0⟩
            ⟨⟨v,closed⟩,0+(line q.firstLine).length⟩).1.map fun p =>
              ⟨.ofList q.method.toList,.ofList (pathOf q.target.toList),p.2,p.1.authorization⟩ := by
      rw [readRequest_of_whole (whole_line unbroken) named,pastLine,afterLine_line unbroken,
        lineOf_line unbroken]
    have whole := request_round_trip limits [] closed
    rw [List.append_nil,bytes,reads] at whole
    rw [complete_append_iff]
    cases hh : (readHeaders maxHeaderLines ⟨none,none,0⟩
        ⟨⟨(q.headers.map String.toList ++ [[]]).flatMap line ++ q.body,closed⟩,
          0+(line q.firstLine).length⟩).1 with
    | error e =>
      rw [hh] at whole
      cases whole
    | ok p =>
      rw [hh] at whole
      obtain ⟨st',body⟩ := p
      have hq := Except.ok.inj whole
      obtain rfl : body = q.body := congrArg Request.body hq
      have hauth : st'.authorization = q.authorization := congrArg Request.authorization hq
      rcases readHeaders_part (fun h hm => (limits.printable h hm).1) flush
          (fun h hm => (limits.printable h hm).2.2) hh hu with ⟨⟨e,he⟩,hcut⟩ | ⟨st₁,hok,same,hall⟩
      · refine .inl ⟨⟨e,?_⟩,hcut⟩
        rw [reads,show maxHeaderLines = 63+1 from rfl,he]
        rfl
      · refine .inr ⟨?_,hall⟩
        rw [reads,show maxHeaderLines = 63+1 from rfl,hok,← hauth,← same]
        dsimp only [Except.map]
        rw [String.ofList_toList]

end Requests

end Sent

end Http
end Domiform
