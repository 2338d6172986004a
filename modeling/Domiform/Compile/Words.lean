import Mathlib.Data.List.DropRight
import Domiform.Compile.Text

/-! Cutting texts: at a separator, at white space, and at the ends. -/
namespace Domiform.Text

/-- `s.trim_end()`. -/
def trimEnd (s : List Char) : List Char := s.rdropWhile isWhitespace

/-- The next of `s.split_whitespace()`, and what follows it. -/
def nextWord (s : List Char) : Option (List Char × List Char) :=
  match s.dropWhile isWhitespace with
  | [] => none
  | c :: cs => some ((c :: cs).takeWhile (!isWhitespace ·),(c :: cs).dropWhile (!isWhitespace ·))

/-- `s.split_once(char::is_whitespace)`. -/
def splitBlank : List Char → Option (List Char × List Char)
  | [] => none
  | c :: cs =>
    if isWhitespace c then some ([],cs) else (splitBlank cs).map fun p => (c :: p.1,p.2)

/-- `s.split('/')`, the empty segments left out. -/
def segments (s : List Char) : List (List Char) := (s.splitOn '/').filter (!·.isEmpty)

section Separator
variable {sep : Char} {s t a b : List Char}

theorem splitOnce_append (h : sep ∉ s) : splitOnce sep (s ++ sep :: t) = some (s,t) := by
  induction s with
  | nil => simp [splitOnce]
  | cons c s ih =>
    rw [List.mem_cons,not_or] at h
    rw [List.cons_append,splitOnce,if_neg (Ne.symm h.1),ih h.2]
    rfl

/-- The text is cut at the first separator. -/
theorem splitOnce_eq_some : splitOnce sep s = some (a,b) ↔ s = a ++ sep :: b ∧ sep ∉ a := by
  constructor
  · intro h
    induction s generalizing a with
    | nil => cases h
    | cons c s ih =>
      rw [splitOnce] at h
      split_ifs at h with hc
      · cases h
        simp [hc]
      · obtain ⟨⟨a',b'⟩,hs,⟨⟩⟩ := Option.map_eq_some_iff.mp h
        obtain ⟨rfl,hn⟩ := ih hs
        simp [hn,Ne.symm hc]
  · rintro ⟨rfl,hn⟩
    exact splitOnce_append hn

theorem splitOnce_of_mem (h : sep ∈ s) : ∃ a b, splitOnce sep s = some (a,b) := by
  induction s with
  | nil => cases h
  | cons c s ih =>
    by_cases hc : c = sep
    · exact ⟨[],s,by rw [splitOnce,if_pos hc]⟩
    · obtain ⟨a,b,hs⟩ := ih ((List.mem_cons.mp h).resolve_left (Ne.symm hc))
      exact ⟨c :: a,b,by rw [splitOnce,if_neg hc,hs]; rfl⟩

theorem splitOnce_eq_none (h : sep ∉ s) : splitOnce sep s = none := by
  cases hs : splitOnce sep s with
  | none => rfl
  | some p => simp [(splitOnce_eq_some.mp hs).1] at h

end Separator

section Blank
variable {s t blank : List Char}

/-- White space, all of it. -/
def Blank (s : List Char) : Prop := ∀ c ∈ s, isWhitespace c = true

/-- Nothing of it is white space. -/
def Solid (s : List Char) : Prop := ∀ c ∈ s, isWhitespace c = false

instance : Decidable (Blank s) := List.decidableBAll (isWhitespace · = true) s

instance : Decidable (Solid s) := List.decidableBAll (isWhitespace · = false) s

theorem trimEnd_eq_nil_iff : trimEnd s = [] ↔ Blank s := List.rdropWhile_eq_nil_iff

theorem trim_eq (s : List Char) : trim s = trimEnd (s.dropWhile isWhitespace) := rfl

/-- What is cut off at the end is white space. -/
theorem exists_trimEnd (s : List Char) : ∃ t, Blank t ∧ s = trimEnd s ++ t :=
  ⟨s.rtakeWhile isWhitespace,fun _ h => List.mem_rtakeWhile_imp h,
    List.rdropWhile_append_rtakeWhile.symm⟩

theorem trimEnd_append_blank (h : Blank t) : trimEnd (s ++ t) = trimEnd s := by
  induction t using List.reverseRecOn with
  | nil => rw [List.append_nil]
  | append_singleton t c ih =>
    have hc : isWhitespace c = true := h c (by simp)
    have ht : Blank t := fun d hd => h d (List.mem_append_left _ hd)
    rw [← List.append_assoc,trimEnd,List.rdropWhile_concat_pos _ _ _ hc]
    exact ih ht

/-- Where something is left of the second part, the first is left as it is. -/
theorem trimEnd_append (h : trimEnd t ≠ []) : trimEnd (s ++ t) = s ++ trimEnd t := by
  obtain ⟨u,hu,ht⟩ := exists_trimEnd t
  have hlast := List.rdropWhile_last_not isWhitespace t h
  conv_lhs => rw [ht,← List.append_assoc,trimEnd_append_blank hu]
  refine List.rdropWhile_eq_self_iff.mpr fun hne => ?_
  rw [List.getLast_append_of_ne_nil _ h]
  exact hlast

theorem trimEnd_trimEnd : trimEnd (trimEnd s) = trimEnd s := List.rdropWhile_idempotent _ _

theorem dropWhile_blank_append (h : Blank blank) :
    (blank ++ s).dropWhile isWhitespace = s.dropWhile isWhitespace := by
  rw [List.dropWhile_append,List.dropWhile_eq_nil_iff.mpr h]
  rfl

theorem trim_blank_append (h : Blank blank) : trim (blank ++ s) = trim s := by
  rw [trim_eq,trim_eq,dropWhile_blank_append h]

theorem trimEnd_trim : trimEnd (trim s) = trim s := trimEnd_trimEnd

/-- What trimming leaves is white space around the rest. -/
theorem exists_trim (s : List Char) : ∃ a b, Blank a ∧ Blank b ∧ s = a ++ trim s ++ b := by
  obtain ⟨b,hb,hs⟩ := exists_trimEnd (s.dropWhile isWhitespace)
  refine ⟨s.takeWhile isWhitespace,b,fun c hc => List.mem_takeWhile_imp hc,hb,?_⟩
  rw [List.append_assoc,trim_eq,← hs,List.takeWhile_append_dropWhile]

/-- A trimmed text does not begin with white space. -/
theorem dropWhile_trim : (trim s).dropWhile isWhitespace = trim s := by
  cases h : trim s with
  | nil => rfl
  | cons c cs =>
    obtain ⟨b,-,hd⟩ := exists_trimEnd (s.dropWhile isWhitespace)
    rw [← trim_eq,h] at hd
    have hc := List.head?_dropWhile_not isWhitespace s
    rw [hd] at hc
    exact List.dropWhile_cons_of_neg (by simpa using hc)

theorem trim_trim : trim (trim s) = trim s := by
  rw [trim_eq (trim s),dropWhile_trim,trimEnd_trim]

/-- The text is cut at the first white space. -/
theorem splitBlank_append {c : Char} (solid : Solid s) (hc : isWhitespace c = true) :
    splitBlank (s ++ c :: t) = some (s,t) := by
  induction s with
  | nil => rw [List.nil_append,splitBlank,if_pos hc]
  | cons d s ih =>
    have hd : isWhitespace d = false := solid d List.mem_cons_self
    have hs : Solid s := fun e he => solid e (List.mem_cons_of_mem _ he)
    rw [List.cons_append,splitBlank,if_neg (by simp [hd]),ih hs]
    rfl

theorem splitBlank_eq_some {a b : List Char} (h : splitBlank s = some (a,b)) :
    ∃ c, isWhitespace c = true ∧ s = a ++ c :: b := by
  induction s generalizing a with
  | nil => cases h
  | cons c s ih =>
    rw [splitBlank] at h
    split_ifs at h with hc
    · cases h
      exact ⟨c,hc,rfl⟩
    · obtain ⟨⟨a',b'⟩,hs,⟨⟩⟩ := Option.map_eq_some_iff.mp h
      obtain ⟨d,hd,rfl⟩ := ih hs
      exact ⟨d,hd,rfl⟩

theorem trimEnd_cons {c : Char} (h : isWhitespace c = false) : trimEnd (c :: s) = c :: trimEnd s := by
  by_cases hs : trimEnd s = []
  · have hc : trimEnd [c] = [c] := by
      rw [trimEnd,List.rdropWhile_singleton,if_neg (by simp [h])]
    rw [hs]
    exact (trimEnd_append_blank (s := [c]) (trimEnd_eq_nil_iff.mp hs)).trans hc
  · exact trimEnd_append (s := [c]) hs

theorem trim_trimEnd : trim (trimEnd s) = trim s := by
  obtain ⟨b,hb,hs⟩ := exists_trimEnd s
  conv_rhs => rw [hs]
  rw [trim_eq,trim_eq,List.dropWhile_append]
  split_ifs with hempty
  · rw [List.isEmpty_iff.mp hempty,List.dropWhile_eq_nil_iff.mpr hb]
  · exact (trimEnd_append_blank hb).symm

/-- White space at the end stays behind the separator. -/
theorem splitOnce_trimEnd {sep : Char} (h : isWhitespace sep = false) :
    splitOnce sep (trimEnd s) = (splitOnce sep s).map fun p => (p.1,trimEnd p.2) := by
  by_cases hs : sep ∈ s
  · obtain ⟨a,b,hab⟩ := splitOnce_of_mem hs
    obtain ⟨rfl,hn⟩ := splitOnce_eq_some.mp hab
    have hne : trimEnd (sep :: b) ≠ [] := by
      rw [trimEnd_cons h]
      simp
    rw [hab,trimEnd_append hne,trimEnd_cons h]
    exact splitOnce_append hn
  · obtain ⟨t,-,ht⟩ := exists_trimEnd s
    have hn : sep ∉ trimEnd s := by
      intro hm
      rw [ht] at hs
      exact hs (List.mem_append_left _ hm)
    rw [splitOnce_eq_none hs,splitOnce_eq_none hn]
    rfl

theorem nextWord_cons {c : Char} (h : isWhitespace c = true) : nextWord (c :: s) = nextWord s := by
  rw [nextWord,List.dropWhile_cons_of_pos h,nextWord]

/-- A word ends at white space. -/
theorem nextWord_append {word : List Char} (solid : Solid word) (nonempty : word ≠ []) {c : Char}
    (hc : isWhitespace c = true) : nextWord (word ++ c :: s) = some (word,c :: s) := by
  cases word with
  | nil => exact absurd rfl nonempty
  | cons d word =>
    have hd : isWhitespace d = false := solid d List.mem_cons_self
    have hw : ∀ e ∈ d :: word, (!isWhitespace e) = true := fun e he => by rw [solid e he]; rfl
    have hend : (!isWhitespace c) = false := by rw [hc]; rfl
    have htake : (d :: word ++ c :: s).takeWhile (!isWhitespace ·) = d :: word := by
      rw [List.takeWhile_append_of_pos hw,List.takeWhile_cons_of_neg (by simp [hc]),List.append_nil]
    have hdrop : (d :: word ++ c :: s).dropWhile (!isWhitespace ·) = c :: s := by
      rw [List.dropWhile_append_of_pos hw,List.dropWhile_cons_of_neg (by simp [hc])]
    have hskip : (d :: word ++ c :: s).dropWhile isWhitespace = d :: (word ++ c :: s) :=
      List.dropWhile_cons_of_neg (by simp [hd])
    unfold nextWord
    rw [hskip]
    dsimp only
    rw [← List.cons_append,htake,hdrop]

end Blank
end Domiform.Text
