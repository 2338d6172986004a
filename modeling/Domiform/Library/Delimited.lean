import Mathlib.Tactic

/-! Messages that say where they end: lines up to a blank one, and after it as many bytes as the lines
announce. A reader that finds a message does not look behind it. -/
namespace Library.Delimited

/-- Up to the first end of a line, and what follows it. -/
def cut : List UInt8 → Option (List UInt8 × List UInt8)
  | a :: b :: rest =>
    if a = 13 ∧ b = 10 then some ([],rest) else (cut (b :: rest)).map fun p => (a :: p.1,p.2)
  | _ => none

/-- The lines up to a blank one, of so many at most. -/
def head : ℕ → List UInt8 → Option (List (List UInt8) × List UInt8)
  | 0,_ => none
  | n+1,bytes => (cut bytes).bind fun p =>
    if p.1 = [] then some ([],p.2) else (head n p.2).map fun q => (p.1 :: q.1,q.2)

/-- A message: its lines, and its body. -/
structure Message where
  lines : List (List UInt8)
  body : List UInt8
  deriving DecidableEq

def write (m : Message) : List UInt8 := m.lines.flatMap (· ++ [13,10]) ++ ([13,10] ++ m.body)

section Reading
variable (announced : List (List UInt8) → Option ℕ)

/-- The message at the start of the bytes, and the bytes after it. -/
def read (bytes : List UInt8) : Option (Message × List UInt8) :=
  (head bytes.length bytes).bind fun p => (announced p.1).bind fun n =>
    if n ≤ p.2.length then some (⟨p.1,p.2.take n⟩,p.2.drop n) else none

end Reading

/-- A message that is read as it was written: no line breaks, and the length is announced. -/
structure Lawful (announced : List (List UInt8) → Option ℕ) (m : Message) : Prop where
  lines : ∀ l ∈ m.lines, l ≠ [] ∧ 13 ∉ l
  length : announced m.lines = some m.body.length

section Cutting
variable {s line rest more : List UInt8}

theorem cut_append {p : List UInt8 × List UInt8} (h : cut s = some p) (more : List UInt8) :
    cut (s ++ more) = some (p.1,p.2 ++ more) := by
  induction s generalizing p with
  | nil => cases h
  | cons a s ih =>
    cases s with
    | nil => cases h
    | cons b s =>
      rw [cut] at h
      rw [List.cons_append,List.cons_append,cut]
      split_ifs at h ⊢ with hline
      · cases h
        rfl
      · obtain ⟨q,hq,rfl⟩ := Option.map_eq_some_iff.mp h
        rw [← List.cons_append,ih hq]
        rfl

theorem cut_line (h : 13 ∉ line) : cut (line ++ 13 :: 10 :: rest) = some (line,rest) := by
  induction line with
  | nil => rfl
  | cons a line ih =>
    rw [List.mem_cons,not_or] at h
    have hline := ih h.2
    cases line with
    | nil =>
      rw [List.cons_append,List.nil_append,cut,if_neg fun ha => h.1 ha.1.symm]
      rw [List.nil_append] at hline
      rw [hline]
      rfl
    | cons b line =>
      rw [List.cons_append] at hline ⊢
      rw [List.cons_append,cut,if_neg fun ha => h.1 ha.1.symm,hline]
      rfl

/-- Lines that are found are found again, whatever follows and however many may come. -/
theorem head_append {n m : ℕ} {p : List (List UInt8) × List UInt8} (h : head n s = some p)
    (hm : n ≤ m) (more : List UInt8) : head m (s ++ more) = some (p.1,p.2 ++ more) := by
  induction n generalizing m s p with
  | zero => cases h
  | succ n ih =>
    obtain ⟨m,rfl⟩ := Nat.exists_eq_succ_of_ne_zero (Nat.ne_zero_of_lt hm)
    rw [head] at h ⊢
    obtain ⟨q,hq,hp⟩ := Option.bind_eq_some_iff.mp h
    rw [cut_append hq more,Option.bind_some]
    dsimp only
    split_ifs at hp ⊢ with hblank
    · cases hp
      rfl
    · obtain ⟨r,hr,rfl⟩ := Option.map_eq_some_iff.mp hp
      rw [ih hr (Nat.le_of_succ_le_succ hm)]
      rfl

theorem head_write {lines : List (List UInt8)} (lawful : ∀ l ∈ lines, l ≠ [] ∧ 13 ∉ l) {n : ℕ}
    (hn : lines.length < n) :
    head n (lines.flatMap (· ++ [13,10]) ++ ([13,10] ++ rest)) = some (lines,rest) := by
  induction lines generalizing n with
  | nil =>
    obtain ⟨n,rfl⟩ := Nat.exists_eq_succ_of_ne_zero (Nat.ne_zero_of_lt hn)
    have blank : cut (13 :: 10 :: rest) = some ([],rest) := rfl
    simp [head,blank]
  | cons line lines ih =>
    obtain ⟨n,rfl⟩ := Nat.exists_eq_succ_of_ne_zero (Nat.ne_zero_of_lt hn)
    obtain ⟨⟨nonempty,solid⟩,tail⟩ := List.forall_mem_cons.mp lawful
    have hline : (line :: lines).flatMap (· ++ [13,10]) ++ ([13,10] ++ rest) =
        line ++ 13 :: 10 :: (lines.flatMap (· ++ [13,10]) ++ ([13,10] ++ rest)) := by simp
    rw [hline,head,cut_line solid,Option.bind_some]
    dsimp only
    rw [if_neg nonempty,ih tail (Nat.lt_of_succ_lt_succ hn)]
    rfl

theorem length_lines (lines : List (List UInt8)) :
    lines.length ≤ (lines.flatMap (· ++ [13,10])).length := by
  induction lines with
  | nil => exact le_rfl
  | cons line lines ih =>
    rw [List.flatMap_cons,List.length_append,List.length_append,List.length_cons]
    have two : ([13,10] : List UInt8).length = 2 := rfl
    omega

end Cutting

section Messages
variable {announced : List (List UInt8) → Option ℕ} {m : Message} {s : List UInt8}

/-- A message is read as it was written, and what follows it stays. -/
theorem read_write (h : Lawful announced m) (rest : List UInt8) :
    read announced (write m ++ rest) = some (m,rest) := by
  have long : m.lines.length < (write m ++ rest).length := by
    have hlen := length_lines m.lines
    simp only [write,List.length_append]
    have two : ([13,10] : List UInt8).length = 2 := rfl
    omega
  have hsplit : write m ++ rest =
      m.lines.flatMap (· ++ [13,10]) ++ ([13,10] ++ (m.body ++ rest)) := by simp [write]
  rw [hsplit] at long
  rw [read,hsplit,head_write h.lines long,Option.bind_some]
  dsimp only
  rw [h.length,Option.bind_some,if_pos (by simp)]
  simp

/-- A message that was found stays what it is when more arrives. -/
theorem read_append {p : Message × List UInt8} (h : read announced s = some p) (more : List UInt8) :
    read announced (s ++ more) = some (p.1,p.2 ++ more) := by
  obtain ⟨q,hq,h⟩ := Option.bind_eq_some_iff.mp h
  obtain ⟨n,hn,h⟩ := Option.bind_eq_some_iff.mp h
  split_ifs at h with hle
  cases h
  have longer : s.length ≤ (s ++ more).length := by simp
  rw [read,head_append hq longer,Option.bind_some]
  dsimp only
  rw [hn,Option.bind_some,if_pos (by rw [List.length_append]; omega),List.take_append_of_le_length hle,
    List.drop_append_of_le_length hle]

/-- No part of a message is one. -/
theorem read_part (h : Lawful announced m) (part : s <+: write m) (short : s ≠ write m) :
    read announced s = none := by
  obtain ⟨more,hmore⟩ := part
  rw [Option.eq_none_iff_forall_ne_some]
  intro p hp
  have whole := read_write h []
  rw [List.append_nil,← hmore,read_append hp more] at whole
  have hend := (Prod.mk.inj (Option.some.inj whole)).2
  rw [(List.append_eq_nil_iff.mp hend).2,List.append_nil] at hmore
  exact short hmore

end Messages

end Library.Delimited
