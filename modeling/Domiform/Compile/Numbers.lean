import Domiform.Compile.Words

/-! Reading numbers: decimal digits, with the sign that an unsigned number may carry. -/
namespace Domiform.Text
variable {sep c : Char} {s t a b digits : List Char} {n bound : ℕ}

theorem rsplitOnce_eq_some : rsplitOnce sep s = some (a,b) ↔ s = a ++ sep :: b ∧ sep ∉ b := by
  rw [rsplitOnce,Option.map_eq_some_iff]
  constructor
  · rintro ⟨⟨x,y⟩,hs,h⟩
    obtain ⟨hs,hn⟩ := splitOnce_eq_some.mp hs
    cases h
    refine ⟨?_,by simpa using hn⟩
    simpa using congrArg List.reverse hs
  · rintro ⟨rfl,hn⟩
    exact ⟨(b.reverse,a.reverse),splitOnce_eq_some.mpr ⟨by simp,by simpa using hn⟩,by simp⟩

theorem rsplitOnce_eq_none (h : sep ∉ s) : rsplitOnce sep s = none := by
  rw [rsplitOnce,splitOnce_eq_none (by simpa using h)]
  rfl

theorem rsplitOnce_of_mem (h : sep ∈ s) : ∃ a b, rsplitOnce sep s = some (a,b) := by
  obtain ⟨x,y,hs⟩ := splitOnce_of_mem (List.mem_reverse.mpr h)
  exact ⟨y.reverse,x.reverse,by rw [rsplitOnce,hs]; rfl⟩

theorem stripPrefix_eq_some {p : String} : stripPrefix s p = some t ↔ s = p.toList ++ t := by
  constructor
  · intro h
    unfold stripPrefix startsWith at h
    split_ifs at h with hp
    obtain ⟨u,rfl⟩ := List.isPrefixOf_iff_prefix.mp hp
    cases h
    simp
  · rintro rfl
    simp [stripPrefix,startsWith]

/-- Decimal digits, at least one, and the number they make. -/
def Decimal (digits : List Char) (n : ℕ) : Prop :=
  digits ≠ [] ∧ digits.all Char.isDigit = true ∧ Nat.ofDigitChars 10 digits 0 = n

theorem Decimal.unique {m : ℕ} (hn : Decimal digits n) (hm : Decimal digits m) : n = m :=
  hn.2.2.symm.trans hm.2.2

theorem Decimal.isDigit (h : Decimal digits n) : ∀ c ∈ digits, c.isDigit = true :=
  List.all_eq_true.mp h.2.1

theorem Decimal.not_mem (h : Decimal digits n) (hc : c.isDigit = false) : c ∉ digits := by
  intro hm
  rw [h.isDigit c hm] at hc
  cases hc

/-- A number is written in digits, after a `+` or not. -/
theorem parseUnsigned_eq_some :
    parseUnsigned bound s = some n ↔
      (Decimal s n ∨ ∃ digits, s = '+' :: digits ∧ Decimal digits n) ∧ n ≤ bound := by
  have hread : ∀ digits : List Char,
      (if digits = [] then none
        else if digits.all Char.isDigit then
          if digits.foldl (fun n c => 10*n+(c.toNat-48)) 0 ≤ bound then
            some (digits.foldl (fun n c => 10*n+(c.toNat-48)) 0)
          else none
        else none) = some n ↔ Decimal digits n ∧ n ≤ bound := by
    intro digits
    have hval : Nat.ofDigitChars 10 digits 0 = digits.foldl (fun n c => 10*n+(c.toNat-48)) 0 :=
      Nat.ofDigitChars_eq_foldl
    rw [Decimal,hval]
    split_ifs with hne hall hle
    · simp [hne]
    · rw [Option.some.injEq]
      constructor
      · rintro rfl
        exact ⟨⟨hne,hall,rfl⟩,hle⟩
      · exact fun h => h.1.2.2
    · constructor
      · rintro ⟨⟩
      · rintro ⟨⟨-,-,rfl⟩,h⟩
        exact absurd h hle
    · simp [hall]
  by_cases hplus : ∃ digits, s = '+' :: digits
  · obtain ⟨digits,rfl⟩ := hplus
    have hsign : ¬Decimal ('+' :: digits) n := fun h =>
      h.not_mem (by decide : ('+' : Char).isDigit = false) List.mem_cons_self
    exact (hread digits).trans (by simp [hsign])
  · have hparse : parseUnsigned bound s = (if s = [] then none
        else if s.all Char.isDigit then
          if s.foldl (fun n c => 10*n+(c.toNat-48)) 0 ≤ bound then
            some (s.foldl (fun n c => 10*n+(c.toNat-48)) 0)
          else none
        else none) := by
      unfold parseUnsigned
      split
      · exact absurd ⟨_,rfl⟩ hplus
      · rfl
    rw [hparse,hread]
    constructor
    · exact fun h => ⟨.inl h.1,h.2⟩
    · rintro ⟨h | ⟨digits,rfl,-⟩,hle⟩
      · exact ⟨h,hle⟩
      · exact absurd ⟨digits,rfl⟩ hplus

/-- The number that decimal digits make, at least one of them. -/
def decimal (s : List Char) : Option ℕ :=
  if s ≠ [] ∧ s.all Char.isDigit = true then some (Nat.ofDigitChars 10 s 0) else none

theorem decimal_toDigits (n : ℕ) : decimal (Nat.toDigits 10 n) = some n := by
  have digits : (Nat.toDigits 10 n).all Char.isDigit = true := by
    rw [List.all_eq_true]
    exact fun c hc => Nat.isDigit_of_mem_toDigits (by decide) (by decide) hc
  rw [decimal,if_pos ⟨Nat.toDigits_ne_nil,digits⟩,Nat.ofDigitChars_ten_toDigits]

end Domiform.Text
