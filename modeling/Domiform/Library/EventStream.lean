import Mathlib.Data.List.Basic
import Mathlib.Tactic

/-! Event streams as their clients read them. A line ends in a line feed, a carriage return, or both;
a blank line completes an event; a line that starts with a colon is a comment. -/
namespace Library.EventStream

structure Event where
  kind : List Char
  data : List Char
  deriving DecidableEq

/-- A client in the middle of a stream: the line so far, whether the last character was a carriage
return, the fields of the event so far, and the events that are complete. -/
structure Reader where
  line : List Char
  returned : Bool
  kind : List Char
  data : List (List Char)
  events : List Event

/-- A value without the blank that may stand before it. -/
def unpadded : List Char → List Char
  | ' ' :: value => value
  | value => value

/-- The name and the value of a line, around its first colon. -/
def field (line : List Char) : List Char × List Char :=
  (line.takeWhile (· ≠ ':'),unpadded ((line.dropWhile (· ≠ ':')).drop 1))

namespace Reader

def start : Reader := ⟨[],false,[],[],[]⟩

/-- A blank line: an event without data is none. -/
def dispatch (r : Reader) : Reader :=
  if r.data = [] then ⟨[],false,[],[],r.events⟩
  else
    ⟨[],false,[],[],r.events ++
      [⟨if r.kind = [] then "message".toList else r.kind,['\n'].intercalate r.data⟩]⟩

def endLine (r : Reader) : Reader :=
  if r.line = [] then r.dispatch
  else
    let (name,value) := field r.line
    if name = "event".toList then { r with line := [], kind := value }
    else if name = "data".toList then { r with line := [], data := r.data ++ [value] }
    else { r with line := [] }

def read (r : Reader) (c : Char) : Reader :=
  if c = '\n' then if r.returned then { r with returned := false } else r.endLine
  else if c = '\r' then { r.endLine with returned := true }
  else { r with line := r.line ++ [c], returned := false }

/-- Between two events. -/
def after (events : List Event) : Reader := ⟨[],false,[],[],events⟩

theorem events_endLine (r : Reader) : r.events <+: r.endLine.events := by
  rw [endLine]
  split_ifs with blank
  · rw [dispatch]
    by_cases hd : r.data = []
    · rw [if_pos hd]
    · rw [if_neg hd]
      exact List.prefix_append _ _
  · dsimp only
    split_ifs <;> exact List.prefix_rfl

/-- Nothing that was read is taken back. -/
theorem events_read (r : Reader) (c : Char) : r.events <+: (r.read c).events := by
  rw [read]
  split_ifs
  · exact List.prefix_rfl
  · exact events_endLine r
  · exact events_endLine r
  · exact List.prefix_rfl

theorem events_foldl (r : Reader) (text : List Char) :
    r.events <+: (text.foldl read r).events := by
  induction text generalizing r with
  | nil => exact List.prefix_rfl
  | cons c text ih => exact (events_read r c).trans (ih (r.read c))

end Reader

/-- The events of a text. -/
def read (text : List Char) : List Event := (text.foldl Reader.read .start).events

/-- A stream that is cut short is read to a part of its events. -/
theorem read_prefix {text whole : List Char} (h : text <+: whole) : read text <+: read whole := by
  obtain ⟨rest,rfl⟩ := h
  rw [read,read,List.foldl_append]
  exact Reader.events_foldl _ rest

/-- A text on one line. -/
def OneLine (text : List Char) : Prop := ∀ c ∈ text, c ≠ '\n' ∧ c ≠ '\r'

theorem OneLine.append {s t : List Char} (hs : OneLine s) (ht : OneLine t) : OneLine (s ++ t) := by
  intro c hc
  exact (List.mem_append.mp hc).elim (hs c) (ht c)

/-- A line is collected to its end. -/
theorem foldl_oneLine {text : List Char} (h : OneLine text) {r : Reader} (hr : r.returned = false) :
    text.foldl Reader.read r = { r with line := r.line ++ text } := by
  induction text generalizing r with
  | nil => simp
  | cons c text ih =>
    obtain ⟨hn,hc⟩ := h c List.mem_cons_self
    have step : r.read c = { r with line := r.line ++ [c] } := by
      rw [Reader.read,if_neg hn,if_neg hc,hr]
    have tail : OneLine text := fun d hd => h d (List.mem_cons_of_mem c hd)
    have hr' : ({ r with line := r.line ++ [c] } : Reader).returned = false := hr
    rw [List.foldl_cons,step,ih tail hr']
    simp

theorem foldl_line {text : List Char} (h : OneLine text) {r : Reader} (hl : r.line = [])
    (hr : r.returned = false) :
    (text ++ ['\n']).foldl Reader.read r = Reader.endLine { r with line := text } := by
  rw [List.foldl_append,foldl_oneLine h hr,hl]
  simp [Reader.read,hr]

/-- A field on a line of its own. -/
def fieldLine (name value : List Char) : List Char := name ++ ':' :: ' ' :: value

theorem field_fieldLine {name : List Char} (h : ':' ∉ name) (value : List Char) :
    field (fieldLine name value) = (name,value) := by
  have split (c : Char) (hc : c ∈ name) : (c ≠ ':') := fun he => h (he ▸ hc)
  rw [field,fieldLine,List.takeWhile_append_of_pos (by simpa using split),
    List.dropWhile_append_of_pos (by simpa using split)]
  simp [unpadded]

theorem OneLine.fieldLine {name value : List Char} (hn : OneLine name) (hv : OneLine value) :
    OneLine (fieldLine name value) := by
  refine hn.append fun c hc => ?_
  rcases List.mem_cons.mp hc with rfl | hc
  · decide
  · rcases List.mem_cons.mp hc with rfl | hc
    · decide
    · exact hv c hc

theorem endLine_event {r : Reader} {value : List Char}
    (hl : r.line = fieldLine "event".toList value) : r.endLine = { r with line := [], kind := value } := by
  rw [Reader.endLine,hl,if_neg (by simp [fieldLine]),field_fieldLine (by decide)]
  simp

theorem endLine_data {r : Reader} {value : List Char}
    (hl : r.line = fieldLine "data".toList value) :
    r.endLine = { r with line := [], data := r.data ++ [value] } := by
  rw [Reader.endLine,hl,if_neg (by simp [fieldLine]),field_fieldLine (by decide)]
  simp

/-- An event on the wire. -/
def encode (kind data : List Char) : List Char :=
  (fieldLine "event".toList kind ++ ['\n']) ++ ((fieldLine "data".toList data ++ ['\n']) ++ ['\n'])

/-- An event is read as it was meant. -/
theorem foldl_encode {kind data : List Char} (hk : OneLine kind) (hd : OneLine data)
    (named : kind ≠ []) (events : List Event) :
    (encode kind data).foldl Reader.read (.after events) = .after (events ++ [⟨kind,data⟩]) := by
  have he : OneLine "event".toList := by simp [OneLine]
  have hn : OneLine "data".toList := by simp [OneLine]
  rw [encode,List.foldl_append,foldl_line (he.fieldLine hk) rfl rfl,endLine_event rfl,
    List.foldl_append,foldl_line (hn.fieldLine hd) rfl rfl,endLine_data rfl]
  simp [Reader.read,Reader.endLine,Reader.dispatch,Reader.after,named]

/-- A comment is passed over. -/
theorem foldl_comment {text : List Char} (h : OneLine text) (events : List Event) :
    (':' :: text ++ ['\n'] ++ ['\n']).foldl Reader.read (.after events) = .after events := by
  have hc : OneLine (':' :: text) := by
    intro c hc
    rcases List.mem_cons.mp hc with rfl | hc
    · decide
    · exact h c hc
  have ends : Reader.endLine { Reader.after events with line := ':' :: text } = .after events := by
    rw [Reader.endLine,if_neg (List.cons_ne_nil _ _)]
    simp [field,Reader.after]
  rw [List.foldl_append,foldl_line hc rfl rfl,ends]
  simp [Reader.read,Reader.endLine,Reader.dispatch,Reader.after]

end Library.EventStream
