import Mathlib.Tactic

/-! Numbers written out in decimal, under a fixed text. Distinct numbers have distinct texts, but the
order of the texts is that of the numbers only where the lengths agree. -/
namespace Library

/-- A number under a fixed text. -/
theorem numbered_injective (head : String) : Function.Injective fun n : ℕ => head ++ toString n := by
  intro n m h
  have ht := congrArg String.toList h
  have hd : Nat.toDigits 10 n = Nat.toDigits 10 m := by
    simpa using ht
  have hn := congrArg (fun l => Nat.ofDigitChars 10 l 0) hd
  simpa using hn

/-- The texts part at a character. -/
def Parts (s t : List Char) : Prop :=
  ∃ p a b s' t', s = p ++ a :: s' ∧ t = p ++ b :: t' ∧ a < b

theorem Parts.append {s t : List Char} (h : Parts s t) (u v : List Char) :
    Parts (s ++ u) (t ++ v) := by
  obtain ⟨p,a,b,s',t',rfl,rfl,hab⟩ := h
  exact ⟨p,a,b,s' ++ u,t' ++ v,by simp,by simp,hab⟩

theorem Parts.prepend {s t : List Char} (h : Parts s t) (u : List Char) :
    Parts (u ++ s) (u ++ t) := by
  obtain ⟨p,a,b,s',t',rfl,rfl,hab⟩ := h
  exact ⟨u ++ p,a,b,s',t',by simp,by simp,hab⟩

theorem Parts.lt {s t : List Char} (h : Parts s t) : s < t := by
  obtain ⟨p,a,b,s',t',rfl,rfl,hab⟩ := h
  induction p with
  | nil => exact List.Lex.rel hab
  | cons c p ih => exact List.Lex.cons ih

theorem digitChar_lt {d e : ℕ} (h : d < e) (he : e < 10) : d.digitChar < e.digitChar := by
  interval_cases e <;> interval_cases d <;> decide

theorem toDigits_snoc {n : ℕ} (h : 10 ≤ n) :
    Nat.toDigits 10 n = Nat.toDigits 10 (n/10) ++ [(n%10).digitChar] :=
  Nat.toDigits_of_base_le (by norm_num) h

/-- Numbers of one length are written in their order. -/
theorem toDigits_parts {n m : ℕ} (long : Nat.log 10 n = Nat.log 10 m) (h : n < m) :
    Parts (Nat.toDigits 10 n) (Nat.toDigits 10 m) := by
  induction m using Nat.strongRecOn generalizing n with
  | _ m ih =>
    by_cases hm : 10 ≤ m
    · have hn : 10 ≤ n := by
        have := Nat.log_pos (by norm_num) hm
        exact (Nat.log_pos_iff.mp (long ▸ this)).1
      rw [toDigits_snoc hn,toDigits_snoc hm]
      rcases Nat.lt_or_eq_of_le (Nat.div_le_div_right (c := 10) h.le) with hd | hd
      · -- the digits before the last decide
        refine (ih (m/10) (by omega) ?_ hd).append _ _
        rw [Nat.log_div_base,Nat.log_div_base,long]
      · rw [hd]
        have hlt := digitChar_lt (by omega : n%10 < m%10) (by omega)
        exact Parts.prepend ⟨[],_,_,[],[],rfl,rfl,hlt⟩ _
    · rw [Nat.toDigits_of_lt_base (by omega : n < 10),Nat.toDigits_of_lt_base (by omega : m < 10)]
      exact ⟨[],_,_,[],[],rfl,rfl,digitChar_lt h (by omega)⟩

/-- The first digits of a number, all but the last `k`. -/
theorem toDigits_leading {m k : ℕ} (h : k ≤ Nat.log 10 m) :
    ∃ last, Nat.toDigits 10 m = Nat.toDigits 10 (m/10^k) ++ last ∧ last.length = k := by
  induction k with
  | zero => exact ⟨[],by simp,rfl⟩
  | succ k ih =>
    obtain ⟨last,hm,hl⟩ := ih (by omega)
    have hlog : 0 < Nat.log 10 (m/10^k) := by
      rw [Nat.log_div_base_pow]
      omega
    rw [toDigits_snoc (Nat.log_pos_iff.mp hlog).1,Nat.div_div_eq_div_mul,← Nat.pow_succ] at hm
    exact ⟨_,by rw [hm,List.append_assoc],by simp [hl]⟩

/-- The number that the first digits of `m` make, as many as `n` has. -/
def leading (n m : ℕ) : ℕ := m/10^(Nat.log 10 m-Nat.log 10 n)

/-- Under one text, a number comes before a larger one exactly if it is at most what the first
digits of that one make. -/
theorem numbered_lt_iff (head : String) {n m : ℕ} (h : n < m) :
    head ++ toString n < head ++ toString m ↔ n ≤ leading n m := by
  have text (n : ℕ) : (head ++ toString n).toList = head.toList ++ Nat.toDigits 10 n := by
    simp
  have hlog : Nat.log 10 n ≤ Nat.log 10 m := Nat.log_mono_right h.le
  have long : Nat.log 10 (leading n m) = Nat.log 10 n := by
    rw [leading,Nat.log_div_base_pow]
    omega
  obtain ⟨last,hm,hl⟩ := toDigits_leading (m := m) (Nat.sub_le _ (Nat.log 10 n))
  change Nat.toDigits 10 m = Nat.toDigits 10 (leading n m) ++ last at hm
  rw [String.lt_iff,text,text,hm]
  rcases Nat.lt_trichotomy n (leading n m) with hn | hn | hn
  · have hp := (toDigits_parts long.symm hn).append [] last
    rw [List.append_nil] at hp
    exact iff_of_true (hp.prepend _).lt hn.le
  · -- the same digits, and more of them
    rw [← hn] at hm ⊢
    have hlast : last ≠ [] := by
      rintro rfl
      rw [List.append_nil] at hm
      have hnm : head ++ toString n = head ++ toString m :=
        String.toList_injective (by rw [text,text,hm])
      exact h.ne (numbered_injective head hnm)
    refine iff_of_true ?_ le_rfl
    rw [← List.append_assoc]
    obtain ⟨c,last,rfl⟩ := List.exists_cons_of_ne_nil hlast
    have hs : ([] : List Char) < c :: last := List.Lex.nil
    have hp : (head.toList ++ Nat.toDigits 10 n) ++ [] <
        (head.toList ++ Nat.toDigits 10 n) ++ c :: last := List.append_left_lt hs
    rwa [List.append_nil] at hp
  · have hp := (toDigits_parts long hn).append last []
    rw [List.append_nil] at hp
    exact iff_of_false (List.lt_asymm (hp.prepend _).lt) (by omega)

end Library
