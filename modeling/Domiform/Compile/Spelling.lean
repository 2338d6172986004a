import Domiform.Compile.Lower
import Domiform.Compile.Numbers
import Domiform.Compile.Schema

/-! Spellings. The compiler reads durations, times of day and colours in more spellings than the
patterns of the schema have; which ones it reads beyond them is told by the texts alone. -/
namespace Domiform
open Library

namespace Text
variable {s t : List Char} {c : Char} {n bound : ℕ}

/-- Neither white space nor a sign. -/
def Compact (s : List Char) : Prop := ∀ c ∈ s, isWhitespace c = false ∧ c ≠ '+'

theorem compact_append : Compact (s ++ t) ↔ Compact s ∧ Compact t := List.forall_mem_append

/-- To look at each character of a given text. -/
theorem compact_of_all (h : (s.all fun c => !isWhitespace c && c != '+') = true) : Compact s := by
  intro c hc
  simpa using List.all_eq_true.mp h c hc

theorem isDigit_iff : c.isDigit = true ↔ 48 ≤ c.toNat ∧ c.toNat ≤ 57 := by
  have hd : c.isDigit = (decide (48 ≤ c.val) && decide (c.val ≤ 57)) := rfl
  rw [hd,Bool.and_eq_true,decide_eq_true_eq,decide_eq_true_eq,UInt32.le_iff_toNat_le,
    UInt32.le_iff_toNat_le]
  rfl

theorem compact_of_digits (h : ∀ c ∈ s, c.isDigit = true) : Compact s := by
  intro c hc
  have hd := isDigit_iff.mp (h c hc)
  refine ⟨?_,?_⟩
  · simp only [isWhitespace,Bool.or_eq_false_iff,Bool.and_eq_false_iff,decide_eq_false_iff_not,
      beq_eq_false_iff_ne]
    omega
  · rintro rfl
    exact absurd hd.1 (by decide)

theorem trim_of_solid (h : Solid s) : trim s = s := by
  have hd : s.dropWhile isWhitespace = s := by
    cases s with
    | nil => rfl
    | cons c cs => exact List.dropWhile_cons_of_neg (by simp [h c List.mem_cons_self])
  rw [trim_eq,hd]
  exact List.rdropWhile_eq_self_iff.mpr fun hne => by simp [h _ (List.getLast_mem hne)]

/-- A compact number is digits and no more. -/
theorem Compact.decimal (h : Compact s) (hp : parseUnsigned bound (trim s) = some n) :
    Decimal s n := by
  rw [trim_of_solid fun c hc => (h c hc).1] at hp
  obtain ⟨hd | ⟨digits,rfl,-⟩,-⟩ := parseUnsigned_eq_some.mp hp
  · exact hd
  · exact absurd rfl (h '+' List.mem_cons_self).2

end Text

open Text

section Duration

theorem durationOf_eq_some {s : String} {ms : Millis} (h : durationOf s = some ms) :
    ∃ num unit n, trim s.toList = num ++ unit ∧ parseUnsigned (2^64-1) (trim num) = some n ∧
      unit ∈ [['m','s'],['s'],['m'],['h']] := by
  unfold durationOf at h
  dsimp only at h
  split at h
  · cases h
  · rename_i n hn
    refine ⟨_,_,n,List.takeWhile_append_dropWhile.symm,hn,?_⟩
    split at h
    · cases h
    · rename_i mult hm
      split_ifs at hm with hms hs hmin hh
      · simp [hms]
      · simp [hs]
      · simp [hmin]
      · simp [hh]

/-- A duration the compiler reads is spelled as the schema has it unless it has blanks or a sign. -/
theorem mem_durationPattern_iff {s : String} {ms : Millis} (h : durationOf s = some ms) :
    s.toList ∈ Schema.durationPattern ↔ Compact s.toList := by
  unfold Schema.durationPattern
  rw [Language.mem_mul]
  constructor
  · rintro ⟨num,hnum,unit,hunit,hs⟩
    rw [← hs,compact_append]
    refine ⟨compact_of_digits (mem_letters.mp hnum).2,?_⟩
    simp only [Language.mem_add,mem_lit] at hunit
    rcases hunit with ((rfl | rfl) | rfl) | rfl <;> exact compact_of_all rfl
  · intro compact
    obtain ⟨num,unit,n,hs,hn,hu⟩ := durationOf_eq_some h
    rw [trim_of_solid fun c hc => (compact c hc).1] at hs
    have hd := (compact_append.mp (hs ▸ compact)).1.decimal hn
    refine ⟨num,mem_letters.mpr ⟨hd.1,hd.isDigit⟩,unit,?_,hs.symm⟩
    simpa only [Language.mem_add,mem_lit,List.mem_cons,List.not_mem_nil,or_false,or_assoc] using hu

end Duration

section Clock

theorem clockOf_eq_some {s : String} {hour minute : ℕ} (h : clockOf s = some (hour,minute)) :
    ∃ a b, splitOnce ':' (trim s.toList) = some (a,b) ∧ parseUnsigned 65535 (trim a) = some hour ∧
      parseUnsigned 65535 (trim b) = some minute ∧ hour < 24 ∧ minute < 60 := by
  unfold clockOf at h
  split at h
  · cases h
  · rename_i a b hab
    split at h
    · rename_i x y hx hy
      split_ifs at h with hlt
      cases h
      exact ⟨a,b,hab,hx,hy,hlt⟩
    · cases h

theorem le_iff_toNat_le {c d : Char} : c ≤ d ↔ c.toNat ≤ d.toNat := by
  rw [Char.le_def,UInt32.le_iff_toNat_le]
  rfl

/-- The digits of a number of two digits. -/
theorem decimal_pair {c d : Char} {n : ℕ} (h : Decimal [c,d] n) :
    n = 10*(c.toNat-48)+(d.toNat-48) := by
  rw [← h.2.2,Nat.ofDigitChars_eq_foldl]
  simp

theorem mem_hourPattern {w : List Char} {n : ℕ} (h : Decimal w n) (short : w.length ≤ 2)
    (hn : n < 24) : w ∈ Schema.hourPattern := by
  unfold Schema.hourPattern
  rw [Language.mem_add]
  match w with
  | [] => exact absurd rfl h.1
  | [c] =>
    refine .inl (Language.mem_mul.mpr ⟨[],?_,[c],?_,rfl⟩)
    · exact .inl rfl
    · exact ⟨c,h.isDigit c (by simp),rfl⟩
  | [c,d] =>
    have hc := isDigit_iff.mp (h.isDigit c (by simp))
    have hd := isDigit_iff.mp (h.isDigit d (by simp))
    have hv := decimal_pair h
    by_cases small : c.toNat ≤ 49
    · refine .inl (Language.mem_mul.mpr ⟨[c],.inr ⟨c,?_,rfl⟩,[d],⟨d,?_,rfl⟩,rfl⟩)
      · rw [Bool.and_eq_true,decide_eq_true_eq,decide_eq_true_eq,le_iff_toNat_le,le_iff_toNat_le]
        exact ⟨hc.1,small⟩
      · exact h.isDigit d (by simp)
    · have two : c = '2' := Char.toNat_inj.mp (show c.toNat = 50 by omega)
      refine .inr (mem_lit_mul.mpr ⟨[d],⟨d,?_,rfl⟩,by rw [two]; rfl⟩)
      rw [Bool.and_eq_true,decide_eq_true_eq,decide_eq_true_eq,le_iff_toNat_le,le_iff_toNat_le]
      exact ⟨hd.1,show d.toNat ≤ 51 by omega⟩
  | _ :: _ :: _ :: _ => simp at short

theorem of_mem_hourPattern {w : List Char} (h : w ∈ Schema.hourPattern) :
    w.length ≤ 2 ∧ ∀ c ∈ w, c.isDigit = true := by
  have digit {c d : Char} (hd : d.toNat ≤ 57)
      (hc : (decide ('0' ≤ c) && decide (c ≤ d)) = true) : c.isDigit = true := by
    rw [Bool.and_eq_true,decide_eq_true_eq,decide_eq_true_eq,le_iff_toNat_le,le_iff_toNat_le] at hc
    exact isDigit_iff.mpr ⟨hc.1,hc.2.trans hd⟩
  unfold Schema.hourPattern at h
  rcases (Language.mem_add _ _ _).mp h with h | h
  · obtain ⟨x,hx,y,⟨d,hd,rfl⟩,rfl⟩ := Language.mem_mul.mp h
    rcases (Language.mem_add _ _ _).mp hx with rfl | ⟨c,hc,rfl⟩
    · simpa using hd
    · simpa using ⟨digit (d := '1') (by decide) hc,hd⟩
  · obtain ⟨x,⟨d,hd,rfl⟩,rfl⟩ := mem_lit_mul.mp h
    simpa using digit (d := '3') (by decide) hd

/-- Hours in at most two digits, minutes in two. -/
def PlainTime (s : List Char) : Prop :=
  Compact s ∧ ∀ h m, splitOnce ':' s = some (h,m) → h.length ≤ 2 ∧ m.length = 2

/-- A time the compiler reads is spelled as the schema has it unless it has blanks or a sign, or too
many or too few digits. -/
theorem mem_timePattern_iff {s : String} {hour minute : ℕ} (h : clockOf s = some (hour,minute)) :
    s.toList ∈ Schema.timePattern ↔ PlainTime s.toList := by
  unfold Schema.timePattern
  rw [Language.mem_mul]
  constructor
  · rintro ⟨a,ha,x,hx,hs⟩
    obtain ⟨b,hb,rfl⟩ := mem_lit_mul.mp hx
    obtain ⟨c,d,hc,hd,rfl⟩ := mem_letter_mul_letter.mp hb
    obtain ⟨hlen,hdigit⟩ := of_mem_hourPattern ha
    have hc' : c.isDigit = true := by
      rw [Bool.and_eq_true,decide_eq_true_eq,decide_eq_true_eq,le_iff_toNat_le,le_iff_toNat_le] at hc
      exact isDigit_iff.mpr ⟨hc.1,hc.2.trans (by decide)⟩
    rw [← hs]
    refine ⟨compact_append.mpr ⟨compact_of_digits hdigit,?_⟩,fun h m hsplit => ?_⟩
    · have hm : Compact [c,d] := compact_of_digits (by simpa using ⟨hc',hd⟩)
      exact List.forall_mem_cons.mpr ⟨by decide,hm⟩
    · have hcolon : ':' ∉ a := fun hm => absurd (hdigit _ hm) (by decide)
      obtain ⟨rfl,rfl⟩ : a = h ∧ [c,d] = m := by
        simpa using (splitOnce_append hcolon).symm.trans hsplit
      exact ⟨hlen,rfl⟩
  · rintro ⟨compact,hsplit⟩
    obtain ⟨a,b,hab,hx,hy,hlt,hlt'⟩ := clockOf_eq_some h
    rw [trim_of_solid fun c hc => (compact c hc).1] at hab
    obtain ⟨hla,hlb⟩ := hsplit a b hab
    obtain ⟨hs,-⟩ := splitOnce_eq_some.mp hab
    rw [hs,compact_append] at compact
    have ha := compact.1.decimal hx
    have hb := Compact.decimal (fun c hc => compact.2 c (List.mem_cons_of_mem _ hc)) hy
    refine ⟨a,mem_hourPattern ha hla hlt,':' :: b,mem_lit_mul.mpr ⟨b,?_,rfl⟩,hs.symm⟩
    match b with
    | [c,d] =>
      have hc := isDigit_iff.mp (hb.isDigit c (by simp))
      have hv := decimal_pair hb
      refine mem_letter_mul_letter.mpr ⟨c,d,?_,hb.isDigit d (by simp),rfl⟩
      rw [Bool.and_eq_true,decide_eq_true_eq,decide_eq_true_eq,le_iff_toNat_le,le_iff_toNat_le]
      exact ⟨hc.1,show c.toNat ≤ 53 by omega⟩
    | [] | [_] | _ :: _ :: _ :: _ => simp at hlb

end Clock

section Color

theorem isSome_hexDigit {c : Char} : (hexDigit c).isSome = true ↔ Schema.isHex c = true := by
  unfold hexDigit Schema.isHex
  simp only [Bool.or_eq_true,Bool.and_eq_true,decide_eq_true_eq]
  split_ifs with hd hl hu
  · exact ⟨fun _ => .inl (.inl hd),fun _ => rfl⟩
  · exact ⟨fun _ => .inr hl,fun _ => rfl⟩
  · exact ⟨fun _ => .inl (.inr hu),fun _ => rfl⟩
  · refine ⟨fun h => absurd h (by decide),?_⟩
    rintro ((h | h) | h)
    · exact absurd h hd
    · exact absurd h hu
    · exact absurd h hl

/-- Whatever is read letter by letter keeps its length. -/
theorem mapM_eq_some {α β : Type} {f : α → Option β} {xs : List α} {ys : List β}
    (h : xs.mapM f = some ys) : ys.length = xs.length ∧ ∀ x ∈ xs, (f x).isSome = true := by
  induction xs generalizing ys with
  | nil =>
    cases h
    simp
  | cons x xs ih =>
    rw [List.mapM_cons,Option.bind_eq_bind,Option.bind_eq_some_iff] at h
    obtain ⟨y,hy,h⟩ := h
    rw [Option.bind_eq_bind,Option.bind_eq_some_iff] at h
    obtain ⟨zs,hzs,h⟩ := h
    cases h
    obtain ⟨hl,hall⟩ := ih hzs
    exact ⟨congrArg Nat.succ hl,List.forall_mem_cons.mpr ⟨by rw [hy]; rfl,hall⟩⟩

/-- A colour text the compiler reads is spelled as the schema has it unless the `#` is missing. -/
theorem mem_hexPattern_iff {s : String} {rgb : UInt8 × UInt8 × UInt8}
    (h : hexToRgb s.toList = some rgb) :
    s.toList ∈ Schema.hexPattern ↔ startsWith s.toList "#" = true := by
  unfold Schema.hexPattern
  rw [mem_lit_mul]
  constructor
  · rintro ⟨t,-,hs⟩
    rw [hs]
    simp [startsWith]
  · intro hash
    obtain ⟨t,ht⟩ : ∃ t, stripPrefix s.toList "#" = some t := by
      unfold stripPrefix
      rw [if_pos hash]
      exact ⟨_,rfl⟩
    refine ⟨t,mem_letter_pow.mpr ?_,stripPrefix_eq_some.mp ht⟩
    unfold hexToRgb at h
    rw [ht] at h
    split at h
    · rename_i hm
      obtain ⟨hl,hall⟩ := mapM_eq_some hm
      exact ⟨hl.symm,fun c hc => isSome_hexDigit.mp (hall c hc)⟩
    · cases h

end Color

/-- Neither name in a reference to an event is empty, and that of the event has no dot. -/
def PlainReference (s : List Char) : Prop :=
  ∀ device event, splitOnce '.' s = some (device,event) → device ≠ [] ∧ event ≠ [] ∧ '.' ∉ event

theorem mem_eventPattern_iff {s a b : List Char} (h : splitOnce '.' s = some (a,b)) :
    s ∈ Schema.eventPattern ↔ PlainReference s := by
  have other {w : List Char} : (∀ c ∈ w, (c != '.') = true) ↔ '.' ∉ w := by
    constructor
    · exact fun hw hm => absurd (hw _ hm) (by decide)
    · intro hw c hc
      rw [bne_iff_ne]
      rintro rfl
      exact hw hc
  unfold Schema.eventPattern PlainReference
  rw [Language.mem_mul]
  constructor
  · rintro ⟨x,hx,y,hy,rfl⟩ device event hsplit
    obtain ⟨z,hz,rfl⟩ := mem_lit_mul.mp hy
    obtain ⟨hx,hxdot⟩ := mem_letters.mp hx
    obtain ⟨hz,hzdot⟩ := mem_letters.mp hz
    obtain ⟨rfl,rfl⟩ : x = device ∧ z = event := by
      simpa using (splitOnce_append (other.mp hxdot)).symm.trans hsplit
    exact ⟨hx,hz,other.mp hzdot⟩
  · intro plain
    obtain ⟨ha,hb,hdot⟩ := plain a b h
    obtain ⟨hs,hn⟩ := splitOnce_eq_some.mp h
    exact ⟨a,mem_letters.mpr ⟨ha,other.mpr hn⟩,'.' :: b,
      mem_lit_mul.mpr ⟨b,mem_letters.mpr ⟨hb,other.mpr hdot⟩,rfl⟩,hs.symm⟩

end Domiform
