import Domiform.Library.Utf8

/-! Percent-encoding. The unreserved characters stand for themselves, and are the only ones that do. -/
namespace Library.Percent

def unreserved (c : Char) : Bool := c.isAlphanum || c == '-' || c == '.' || c == '_' || c == '~'

/-- A text that needs no encoding. -/
def Unreserved (cs : List Char) : Prop := ∀ c ∈ cs, unreserved c = true

/-- The characters of an encoded text. -/
def Clean (cs : List Char) : Prop := ∀ c ∈ cs, unreserved c = true ∨ c = '%'

instance (cs : List Char) : Decidable (Unreserved cs) := List.decidableBAll (unreserved · = true) cs

instance (cs : List Char) : Decidable (Clean cs) :=
  List.decidableBAll (fun c => unreserved c = true ∨ c = '%') cs

def digit (n : ℕ) : Char := if n < 10 then .ofNat (48+n) else .ofNat (55+n)

def encodeByte (b : UInt8) : List Char :=
  if unreserved (.ofNat b.toNat) then [.ofNat b.toNat] else ['%',digit (b.toNat/16),digit (b.toNat%16)]

def encode (cs : List Char) : List Char := (Utf8.encode cs).flatMap encodeByte

@[simp] theorem encode_cons (c : Char) (cs : List Char) :
    encode (c :: cs) = encode [c] ++ encode cs := by
  simp [encode]

theorem unreserved_digit {n : ℕ} (h : n < 16) : unreserved (digit n) = true := by
  interval_cases n <;> decide

theorem clean_encode (cs : List Char) : Clean (encode cs) := by
  intro c h
  obtain ⟨b,-,hc⟩ := List.mem_flatMap.mp h
  have hb := b.toNat_lt
  rw [encodeByte] at hc
  split_ifs at hc with hu
  · rw [List.mem_singleton.mp hc]
    exact .inl hu
  · simp only [List.mem_cons,List.not_mem_nil,or_false] at hc
    rcases hc with rfl | rfl | rfl
    · exact .inr rfl
    · exact .inl (unreserved_digit (by omega))
    · exact .inl (unreserved_digit (by omega))

theorem encodeByte_ne_nil (b : UInt8) : encodeByte b ≠ [] := by
  rw [encodeByte]
  split_ifs <;> simp

theorem lt_of_unreserved {c : Char} (h : unreserved c = true) : c.toNat < 128 := by
  have hc : (c.isAlphanum = true ∨ c = '-' ∨ c = '.' ∨ c = '_') ∨ c = '~' := by
    simpa [unreserved,or_assoc] using h
  rcases hc with (hc | rfl | rfl | rfl) | rfl
  · have alphanum : c.isAlphanum = (decide (65 ≤ c.val ∧ c.val ≤ 90) ||
        (decide (97 ≤ c.val) && decide (c.val ≤ 122)) || (decide (48 ≤ c.val) && decide (c.val ≤ 57))) :=
      rfl
    simp only [alphanum,Bool.or_eq_true,Bool.and_eq_true,decide_eq_true_eq,UInt32.le_iff_toNat_le,
      UInt32.reduceToNat] at hc
    change c.val.toNat < 128
    omega
  all_goals decide

section Characters
variable {c : Char}

/-- An ASCII character is one byte. -/
theorem encode_ascii (h : c.toNat < 128) :
    encode [c] = if unreserved c then [c]
      else ['%',digit (c.toNat/16),digit (c.toNat%16)] := by
  have hb : (UInt8.ofNat c.toNat).toNat = c.toNat := by
    rw [UInt8.toNat_ofNat']
    omega
  have he : Utf8.encode [c] = [UInt8.ofNat c.toNat] := by
    rw [Utf8.encode_cons,Utf8.encode_nil,List.append_nil]
    exact if_pos (Nat.le_of_lt_succ h)
  rw [encode,he,List.flatMap_singleton,encodeByte,hb,Char.ofNat_toNat]

theorem encode_unreserved (h : unreserved c = true) : encode [c] = [c] := by
  rw [encode_ascii (lt_of_unreserved h),if_pos h]

/-- Any other character is written in more than one. -/
theorem one_lt_length_encode (h : ¬unreserved c = true) : 1 < (encode [c]).length := by
  by_cases hc : c.toNat < 128
  · rw [encode_ascii hc,if_neg h]
    exact Nat.le_add_left 2 1
  · have hv : ¬c.val.toNat ≤ 127 := fun hv => hc (Nat.lt_succ_of_le hv)
    have bytes : ∃ a b bs, Utf8.encode [c] = a :: b :: bs := by
      rw [Utf8.encode_cons,Utf8.encode_nil,List.append_nil,String.utf8EncodeChar,if_neg hv]
      split_ifs <;> exact ⟨_,_,_,rfl⟩
    obtain ⟨a,b,bs,he⟩ := bytes
    have ha := List.length_pos_iff.mpr (encodeByte_ne_nil a)
    have hb := List.length_pos_iff.mpr (encodeByte_ne_nil b)
    rw [encode,he,List.flatMap_cons,List.flatMap_cons,List.length_append,List.length_append]
    omega

end Characters

section Texts
variable {cs : List Char}

theorem length_le_encode (cs : List Char) : cs.length ≤ (encode cs).length := by
  induction cs with
  | nil => exact Nat.zero_le _
  | cons c cs ih =>
    have hc : 1 ≤ (encode [c]).length := by
      by_cases h : unreserved c = true
      · rw [encode_unreserved h]
        rfl
      · exact (one_lt_length_encode h).le
    rw [encode_cons,List.length_append,List.length_cons]
    omega

theorem encode_ne_nil (h : cs ≠ []) : encode cs ≠ [] := by
  intro hn
  have hle := length_le_encode cs
  rw [hn,List.length_nil,Nat.le_zero,List.length_eq_zero_iff] at hle
  exact h hle

/-- The texts that stand for themselves are those of unreserved characters. -/
theorem encode_eq_self_iff : encode cs = cs ↔ Unreserved cs := by
  unfold Unreserved
  induction cs with
  | nil => simp [encode]
  | cons c cs ih =>
    rw [List.forall_mem_cons,← ih,encode_cons]
    by_cases h : unreserved c = true
    · rw [encode_unreserved h,List.singleton_append,List.cons.injEq]
      simp [h]
    · have hle := length_le_encode cs
      have hlt := one_lt_length_encode h
      constructor
      · intro he
        have hlen := congrArg List.length he
        rw [List.length_append,List.length_cons] at hlen
        omega
      · exact fun he => absurd he.1 h

end Texts
end Library.Percent
