import Domiform.RestApi.Http
import Mathlib.Logic.Relation

/-! How much a request may hold. The reader collects a line before it asks how long it was, so that what
it holds is bounded where the lines are, and only there. -/
namespace Domiform
open Library Relation

/-- Where the reader stands among the header lines: how many may still come, what the lines before
said, and the rest of the connection. -/
structure HeaderPlace where
  lines : ℕ
  headers : HeaderState
  stream : TcpStream

namespace Http

/-- The connection after one line. -/
def afterLine (s : TcpStream) : TcpStream := { s with bytes := s.bytes.drop (lineOf s.bytes).length }

/-- A line that comes whole, and its text. -/
def Whole (s : TcpStream) (text : List Char) : Prop :=
  (10 ∈ lineOf s.bytes ∨ s.closed = true) ∧ lineOf s.bytes ≠ [] ∧
    Utf8.decode (lineOf s.bytes) = some text

/-- One header line, after which the reader goes on to the next. -/
inductive Next : HeaderPlace → HeaderPlace → Prop
  | line {lines : ℕ} {h h' : HeaderState} {s : TcpStream} {text : List Char} (whole : Whole s text)
      (fits : h.bytes+(lineOf s.bytes).length ≤ maxHeaderBytes) (more : Text.trimEnd text ≠ [])
      (read : readHeader { h with bytes := h.bytes+(lineOf s.bytes).length } (Text.trimEnd text) =
        .ok h') : Next ⟨lines+1,h,s⟩ ⟨lines,h',afterLine s⟩

/-- The reader comes to a line: the request line, or a header line after it. -/
inductive ComesTo (s : TcpStream) : List UInt8 → Prop
  | request : ComesTo s (lineOf s.bytes)
  | header {text method target : List Char} {p : HeaderPlace} (whole : Whole s text)
      (named : requestLine text = some (method,target))
      (steps : ReflTransGen Next ⟨maxHeaderLines,⟨none,none,0⟩,afterLine s⟩ p)
      (more : p.lines ≠ 0) : ComesTo s (lineOf p.stream.bytes)

section Reading
variable {r r' : Reader} {text : List Char} {n : ℕ}

theorem readLine_snd : (readLine r).2 =
    ⟨afterLine r.stream,r.held+(lineOf r.stream.bytes).length⟩ := by
  unfold readLine
  dsimp only
  split_ifs <;> rfl

theorem readLine_eq_some (h : readLine r = (some (text,n+1),r')) : Whole r.stream text ∧
    n+1 = (lineOf r.stream.bytes).length ∧
      r' = ⟨afterLine r.stream,r.held+(lineOf r.stream.bytes).length⟩ := by
  have hr : r' = _ := (congrArg Prod.snd h).symm.trans readLine_snd
  unfold readLine at h
  dsimp only at h
  split_ifs at h with hw
  · obtain ⟨h₁,-⟩ := Prod.mk.inj h
    obtain ⟨text',hd,he⟩ := Option.map_eq_some_iff.mp h₁
    obtain ⟨rfl,hn⟩ := Prod.mk.inj he
    refine ⟨⟨hw,?_,hd⟩,hn.symm,hr⟩
    intro hnil
    rw [hnil] at hn
    cases hn
  · cases h

theorem readLine_of_whole (whole : Whole r.stream text) : readLine r =
    (some (text,(lineOf r.stream.bytes).length),
      ⟨afterLine r.stream,r.held+(lineOf r.stream.bytes).length⟩) := by
  unfold readLine
  dsimp only
  rw [if_pos whole.1,whole.2.2]
  rfl

end Reading

/-- A body is held up to the limit. -/
theorem readBody_held {h : HeaderState} {r : Reader} :
    r.held ≤ (readBody h r).2.held ∧ (readBody h r).2.held ≤ r.held+maxBody := by
  unfold readBody
  dsimp only
  split_ifs with hm hz
  · exact ⟨le_rfl,Nat.le_add_right _ _⟩
  · exact ⟨le_rfl,Nat.le_add_right _ _⟩
  · unfold readExact
    dsimp only
    split <;> (rename_i he; split_ifs at he <;> cases he; dsimp only; omega)

/-- The reader after a line. -/
def pastLine (r : Reader) : Reader :=
  ⟨afterLine r.stream,r.held+(lineOf r.stream.bytes).length⟩

/-- After a header line the reader stops, takes the body, or goes on to the next line. -/
theorem readHeaders_cases (lines : ℕ) (h : HeaderState) (r : Reader) :
    (readHeaders (lines+1) h r).2 = pastLine r ∨
      (∃ h', (readHeaders (lines+1) h r).2 = (readBody h' (pastLine r)).2) ∨
      ∃ h', Next ⟨lines+1,h,r.stream⟩ ⟨lines,h',afterLine r.stream⟩ ∧
        readHeaders (lines+1) h r = readHeaders lines h' (pastLine r) := by
  have hsnd := readLine_snd (r := r)
  cases hr : readLine r with
  | mk line r₁ =>
    rw [hr] at hsnd
    cases line with
    | none =>
      left
      rw [readHeaders,hr]
      exact hsnd
    | some line =>
      obtain ⟨text,n⟩ := line
      cases n with
      | zero =>
        left
        rw [readHeaders,hr]
        exact hsnd
      | succ n =>
        obtain ⟨whole,hn,rfl⟩ := readLine_eq_some hr
        rw [readHeaders,hr]
        dsimp only
        split_ifs with hbytes hblank
        · exact .inl rfl
        · refine .inr (.inl ⟨{ h with bytes := h.bytes+(n+1) },?_⟩)
          split <;> (rename_i hb; exact (congrArg Prod.snd hb).symm)
        · split
          · rename_i h' hh
            rw [hn] at hbytes hh
            exact .inr (.inr ⟨h',.line whole (not_lt.mp hbytes) hblank hh,rfl⟩)
          · exact .inl rfl

/-- Where the reader goes on to the next line, it does. -/
theorem readHeaders_of_next {lines : ℕ} {h : HeaderState} {r : Reader} {p : HeaderPlace}
    (next : Next ⟨lines+1,h,r.stream⟩ p) :
    readHeaders (lines+1) h r = readHeaders p.lines p.headers (pastLine r) ∧
      p.stream = afterLine r.stream := by
  cases next with
  | @line _ _ h' _ text whole fits more read =>
    refine ⟨?_,rfl⟩
    have hpos : (lineOf r.stream.bytes).length ≠ 0 := List.length_eq_zero_iff.not.mpr whole.2.1
    obtain ⟨n,hn⟩ := Nat.exists_eq_succ_of_ne_zero hpos
    rw [readHeaders,readLine_of_whole whole,hn]
    rw [hn] at fits read
    dsimp only
    rw [if_neg (not_lt.mpr fits),if_neg more,read,pastLine,hn]

/-- All that is read of a header section is held. -/
theorem le_readHeaders_held {lines : ℕ} {h : HeaderState} {r : Reader} :
    r.held ≤ (readHeaders lines h r).2.held := by
  induction lines generalizing h r with
  | zero => exact le_rfl
  | succ lines ih =>
    have hle : r.held ≤ (pastLine r).held := Nat.le_add_right _ _
    rcases readHeaders_cases lines h r with he | ⟨h',he⟩ | ⟨h',-,he⟩
    · rw [he]
      exact hle
    · rw [he]
      exact hle.trans readBody_held.1
    · rw [he]
      exact hle.trans ih

/-- A header line is held as soon as the reader has come to it. -/
theorem le_held_of_line {lines : ℕ} {h : HeaderState} {r : Reader} :
    r.held+(lineOf r.stream.bytes).length ≤ (readHeaders (lines+1) h r).2.held := by
  rcases readHeaders_cases lines h r with he | ⟨h',he⟩ | ⟨h',-,he⟩
  · rw [he]
    rfl
  · rw [he]
    exact (readBody_held (r := pastLine r)).1
  · rw [he]
    exact le_readHeaders_held (r := pastLine r)

/-- The reader comes to every place that follows from its own. -/
theorem readHeaders_of_steps {p q : HeaderPlace} (steps : ReflTransGen Next p q) {r : Reader}
    (at_ : r.stream = p.stream) : ∃ r' : Reader, r'.stream = q.stream ∧
      readHeaders p.lines p.headers r = readHeaders q.lines q.headers r' := by
  induction steps using ReflTransGen.head_induction_on generalizing r with
  | refl => exact ⟨r,at_,rfl⟩
  | @head p p' next _ ih =>
    obtain ⟨lines,h,s⟩ := p
    cases lines with
    | zero => cases next
    | succ lines =>
      cases at_
      obtain ⟨hread,hstream⟩ := readHeaders_of_next next
      obtain ⟨r',hr',he⟩ := ih (r := pastLine r) hstream.symm
      exact ⟨r',hr',hread.trans he⟩

theorem bytes_readHeader {h h' : HeaderState} {line : List Char}
    (hr : readHeader h line = .ok h') : h'.bytes = h.bytes := by
  unfold readHeader at hr
  split at hr
  · cases hr
    rfl
  · dsimp only at hr
    split_ifs at hr
    · split at hr <;> cases hr
      rfl
    · cases hr
      rfl
    · cases hr
      rfl

/-- What a header section holds, where its lines are bounded. -/
theorem readHeaders_held_le {limit lines : ℕ} {h : HeaderState} {r : Reader}
    (fits : h.bytes ≤ maxHeaderBytes)
    (bounded : ∀ p, ReflTransGen Next ⟨lines,h,r.stream⟩ p → p.lines ≠ 0 →
      (lineOf p.stream.bytes).length ≤ limit) :
    (readHeaders lines h r).2.held+h.bytes ≤ r.held+maxHeaderBytes+limit+maxBody := by
  induction lines generalizing h r with
  | zero =>
    change r.held+h.bytes ≤ _
    omega
  | succ lines ih =>
    have hline := bounded _ .refl (by simp)
    have hpast : (pastLine r).held = r.held+(lineOf r.stream.bytes).length := rfl
    dsimp only at hline
    rcases readHeaders_cases lines h r with he | ⟨h',he⟩ | ⟨h',next,he⟩
    · rw [he]
      omega
    · have hbody := (readBody_held (h := h') (r := pastLine r)).2
      rw [he]
      omega
    · have held := ih (h := h') (r := pastLine r) ?_ fun p hp => bounded p (.head next hp)
      · cases next with
        | line whole fits' more read =>
          have hbytes := bytes_readHeader read
          dsimp only at hbytes
          rw [he]
          omega
      · cases next with
        | line whole fits' more read =>
          rw [bytes_readHeader read]
          exact fits'

/-- A request that has a request line is what its header section makes of it. -/
theorem readRequest_of_whole {s : TcpStream} {text method target : List Char}
    (whole : Whole s text) (named : requestLine text = some (method,target)) :
    readRequest s =
      ((readHeaders maxHeaderLines ⟨none,none,0⟩ (pastLine ⟨s,0⟩)).1.map fun p =>
        ⟨.ofList method,.ofList (pathOf target),p.2,p.1.authorization⟩,
      (readHeaders maxHeaderLines ⟨none,none,0⟩ (pastLine ⟨s,0⟩)).2) := by
  have hpos : (lineOf s.bytes).length ≠ 0 := List.length_eq_zero_iff.not.mpr whole.2.1
  obtain ⟨n,hn⟩ := Nat.exists_eq_succ_of_ne_zero hpos
  have hr : readLine ⟨s,0⟩ = (some (text,n+1),pastLine ⟨s,0⟩) := by
    rw [← Nat.succ_eq_add_one,← hn]
    exact readLine_of_whole whole
  rw [readRequest,hr]
  dsimp only
  rw [named]
  dsimp only
  split <;> (rename_i hh; rw [hh]; rfl)

theorem readRequest_cases (s : TcpStream) : (readRequest s).2 = pastLine ⟨s,0⟩ ∨
    ∃ text method target, Whole s text ∧ requestLine text = some (method,target) := by
  have hsnd := readLine_snd (r := ⟨s,0⟩)
  cases hr : readLine ⟨s,0⟩ with
  | mk line r₁ =>
    rw [hr] at hsnd
    cases line with
    | none =>
      left
      rw [readRequest,hr]
      exact hsnd
    | some line =>
      obtain ⟨text,n⟩ := line
      cases n with
      | zero =>
        left
        rw [readRequest,hr]
        exact hsnd
      | succ n =>
        obtain ⟨whole,-,-⟩ := readLine_eq_some hr
        cases hl : requestLine text with
        | none =>
          left
          rw [readRequest,hr]
          dsimp only
          rw [hl]
          exact hsnd
        | some named => exact .inr ⟨text,named.1,named.2,whole,hl⟩

/-- Every line the reader comes to is held. -/
theorem ComesTo.le_held {s : TcpStream} {line : List UInt8} (h : ComesTo s line) :
    line.length ≤ (readRequest s).2.held := by
  have first : (pastLine ⟨s,0⟩).held = (lineOf s.bytes).length := Nat.zero_add _
  cases h with
  | request =>
    rcases readRequest_cases s with he | ⟨text,method,target,whole,named⟩
    · rw [he,first]
    · rw [readRequest_of_whole whole named,← first]
      exact le_readHeaders_held (r := pastLine ⟨s,0⟩)
  | @header text method target p whole named steps more =>
    obtain ⟨r,hr,he⟩ := readHeaders_of_steps steps (r := pastLine ⟨s,0⟩) rfl
    obtain ⟨lines,hlines⟩ := Nat.exists_eq_succ_of_ne_zero more
    have hle := @le_held_of_line lines p.headers r
    rw [readRequest_of_whole whole named,he,hlines,← hr]
    exact (Nat.le_add_left _ _).trans hle

/-- A request holds its longest lines and what the limits allow. -/
theorem held_le {s : TcpStream} {longest : ℕ} (h : ∀ line, ComesTo s line → line.length ≤ longest) :
    (readRequest s).2.held ≤ longest+maxHeaderBytes+longest+maxBody := by
  have first : (pastLine ⟨s,0⟩).held = (lineOf s.bytes).length := Nat.zero_add _
  have hline := h _ .request
  rcases readRequest_cases s with he | ⟨text,method,target,whole,named⟩
  · rw [he,first]
    omega
  · rw [readRequest_of_whole whole named]
    have hle := @readHeaders_held_le longest maxHeaderLines ⟨none,none,0⟩ (pastLine ⟨s,0⟩)
      (Nat.zero_le _) fun p hp more => h _ (.header whole named hp more)
    dsimp only at hle ⊢
    omega

/-- Over any class of connections, what a request holds is bounded exactly if the lines are that the
reader comes to. -/
theorem requests_bounded_iff (S : Set TcpStream) :
    (∃ most, ∀ s ∈ S, (readRequest s).2.held ≤ most) ↔
      ∃ longest, ∀ s ∈ S, ∀ line, ComesTo s line → line.length ≤ longest := by
  constructor
  · rintro ⟨most,h⟩
    exact ⟨most,fun s hs line hl => hl.le_held.trans (h s hs)⟩
  · rintro ⟨longest,h⟩
    exact ⟨longest+maxHeaderBytes+longest+maxBody,fun s hs => held_le (h s hs)⟩

/-- A request line without an end is held, however long it is. -/
theorem endless_line_is_held : ¬∃ most, ∀ s, (readRequest s).2.held ≤ most := by
  rintro ⟨most,h⟩
  have line (n : ℕ) : lineOf (List.replicate n 65) = List.replicate n 65 := by
    induction n with
    | zero => rfl
    | succ n ih => rw [List.replicate_succ,lineOf,if_neg (by decide),ih]
  have held := (ComesTo.request (s := ⟨List.replicate (most+1) 65,true⟩)).le_held.trans (h _)
  rw [line,List.length_replicate] at held
  omega

end Http
end Domiform
