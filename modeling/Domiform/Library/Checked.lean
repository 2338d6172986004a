import Mathlib.Data.List.Basic
import Mathlib.Tactic

/-! Checking passes that go on after a finding. A pass notes what it finds and may still fail to
produce a value; an honest pass only fails after noting something bad. -/
namespace Library
variable {N α β : Type}

/-- A value, when there is one, and everything noted on the way. -/
structure Checked (N α : Type) where
  value : Option α
  notes : List N

namespace Checked

instance : Monad (Checked N) where
  pure a := ⟨some a,[]⟩
  bind m f :=
    match m.value with
    | some a => ⟨(f a).value,m.notes ++ (f a).notes⟩
    | none => ⟨none,m.notes⟩

/-- Note something and fail. -/
def fail (n : N) : Checked N α := ⟨none,[n]⟩

def note (n : N) : Checked N Unit := ⟨some (),[n]⟩

/-- Fail without a word. -/
def silent : Checked N α := ⟨none,[]⟩

/-- Run a pass over a list, and keep the values it produced. -/
def collect (f : α → Checked N β) (xs : List α) : Checked N (List β) :=
  ⟨some (xs.filterMap fun x => (f x).value),xs.flatMap fun x => (f x).notes⟩

@[simp] theorem value_pure (a : α) : (pure a : Checked N α).value = some a := rfl

@[simp] theorem notes_pure (a : α) : (pure a : Checked N α).notes = [] := rfl

theorem pure_bind (a : α) (f : α → Checked N β) : (pure a >>= f : Checked N β) = f a := rfl

theorem value_bind_eq_some {m : Checked N α} {f : α → Checked N β} {b : β} :
    (m >>= f).value = some b ↔ ∃ a, m.value = some a ∧ (f a).value = some b := by
  change (match m.value with
    | some a => (⟨(f a).value,m.notes ++ (f a).notes⟩ : Checked N β)
    | none => ⟨none,m.notes⟩).value = some b ↔ _
  cases m.value <;> simp

theorem mem_notes_bind {m : Checked N α} {f : α → Checked N β} {n : N} :
    n ∈ (m >>= f).notes ↔ n ∈ m.notes ∨ ∃ a, m.value = some a ∧ n ∈ (f a).notes := by
  change n ∈ (match m.value with
    | some a => (⟨(f a).value,m.notes ++ (f a).notes⟩ : Checked N β)
    | none => ⟨none,m.notes⟩).notes ↔ _
  cases m.value <;> simp

variable {bad : N → Prop}

/-- Nothing bad was noted. -/
def Quiet (bad : N → Prop) (m : Checked N α) : Prop := ∀ n ∈ m.notes, ¬bad n

/-- Without a value, something bad was noted. -/
def Honest (bad : N → Prop) (m : Checked N α) : Prop := m.value = none → ∃ n ∈ m.notes, bad n

/-- Unless something bad is noted there is a value, and it meets `P`. -/
def Meets (bad : N → Prop) (P : α → Prop) (m : Checked N α) : Prop :=
  Quiet bad m → ∃ a, m.value = some a ∧ P a

section Meets
variable {P : α → Prop} {Q : β → Prop}

theorem Quiet.bind {m : Checked N α} {f : α → Checked N β} (h : Quiet bad (m >>= f)) :
    Quiet bad m ∧ ∀ a, m.value = some a → Quiet bad (f a) :=
  ⟨fun n hn => h n (mem_notes_bind.mpr (.inl hn)),
    fun a ha n hn => h n (mem_notes_bind.mpr (.inr ⟨a,ha,hn⟩))⟩

theorem Meets.pure {a : α} (h : P a) : Meets bad P (Pure.pure a : Checked N α) :=
  fun _ => ⟨a,rfl,h⟩

theorem Meets.fail {n : N} (h : bad n) : Meets bad P (Checked.fail n) :=
  fun hq => absurd h (hq n (List.mem_singleton_self n))

theorem Meets.note {n : N} {P : Unit → Prop} (h : bad n) : Meets bad P (Checked.note n) :=
  fun hq => absurd h (hq n (List.mem_singleton_self n))

/-- When nothing bad is noted, the first pass hands its value over to the second. -/
theorem Meets.next {m : Checked N α} {f : α → Checked N β} (hm : Meets bad P m)
    (h : Quiet bad (m >>= f)) : ∃ a, m.value = some a ∧ P a ∧ Quiet bad (f a) := by
  obtain ⟨a,ha,hp⟩ := hm h.bind.1
  exact ⟨a,ha,hp,h.bind.2 a ha⟩

theorem Meets.bind {m : Checked N α} {f : α → Checked N β} (hm : Meets bad P m)
    (hf : ∀ a, P a → Meets bad Q (f a)) : Meets bad Q (m >>= f) := by
  intro hq
  obtain ⟨a,ha,hp,hq⟩ := hm.next hq
  obtain ⟨b,hb,hpb⟩ := hf a hp hq
  exact ⟨b,value_bind_eq_some.mpr ⟨a,ha,hb⟩,hpb⟩

/-- A note is no obstacle. -/
theorem Meets.note_bind {n : N} {f : Unit → Checked N α} (h : Meets bad P (f ())) :
    Meets bad P (Checked.note n >>= f) := by
  intro hq
  obtain ⟨a,ha,hp⟩ := h (hq.bind.2 () rfl)
  exact ⟨a,value_bind_eq_some.mpr ⟨(),rfl,ha⟩,hp⟩

theorem Meets.ite {c : Prop} [Decidable c] {m m' : Checked N α} (h : c → Meets bad P m)
    (h' : ¬c → Meets bad P m') : Meets bad P (if c then m else m') := by
  split_ifs with hc
  · exact h hc
  · exact h' hc

theorem Meets.honest {m : Checked N α} (h : Meets bad P m) : Honest bad m := by
  intro hn
  by_contra hno
  obtain ⟨a,ha,-⟩ := h fun n hm hb => hno ⟨n,hm,hb⟩
  rw [hn] at ha
  cases ha

end Meets

/-- Whatever value the pass produces meets `P`. -/
def Ensures (P : α → Prop) (m : Checked N α) : Prop := ∀ a, m.value = some a → P a

theorem Ensures.pure {P : α → Prop} {a : α} (h : P a) :
    Ensures P (Pure.pure a : Checked N α) := by
  rintro _ ⟨⟩
  exact h

theorem Ensures.fail {P : α → Prop} {n : N} : Ensures P (Checked.fail n) := by
  rintro _ ⟨⟩

theorem Ensures.bind {P : β → Prop} {m : Checked N α} {f : α → Checked N β}
    (h : ∀ a, m.value = some a → Ensures P (f a)) : Ensures P (m >>= f) := by
  intro b hb
  obtain ⟨a,ha,hfa⟩ := value_bind_eq_some.mp hb
  exact h a ha b hfa

theorem Ensures.ite {P : α → Prop} {c : Prop} [Decidable c] {m m' : Checked N α}
    (h : c → Ensures P m) (h' : ¬c → Ensures P m') : Ensures P (if c then m else m') := by
  split_ifs with hc
  · exact h hc
  · exact h' hc

theorem Quiet.of_collect {f : α → Checked N β} {xs : List α} (h : Quiet bad (collect f xs)) {x : α}
    (hx : x ∈ xs) : Quiet bad (f x) :=
  fun n hn => h n (List.mem_flatMap.mpr ⟨x,hx,hn⟩)

theorem Quiet.of_pure (a : α) : Quiet bad (pure a : Checked N α) :=
  fun _ hn => absurd hn List.not_mem_nil

theorem Quiet.of_silent : Quiet bad (silent : Checked N α) :=
  fun _ hn => absurd hn List.not_mem_nil

theorem Quiet.of_fail {n : N} (h : ¬bad n) : Quiet bad (fail n : Checked N α) := by
  intro n' hn
  rwa [List.mem_singleton.mp hn]

theorem Quiet.of_note {n : N} (h : ¬bad n) : Quiet bad (note n) := by
  intro n' hn
  rwa [List.mem_singleton.mp hn]

/-- What follows a value has only that value to deal with. -/
theorem Quiet.of_bind_value {m : Checked N α} {f : α → Checked N β} (hm : Quiet bad m)
    (hf : ∀ a, m.value = some a → Quiet bad (f a)) : Quiet bad (m >>= f) := by
  intro n hn
  rcases mem_notes_bind.mp hn with hn | ⟨a,ha,hn⟩
  · exact hm n hn
  · exact hf a ha n hn

theorem Quiet.of_bind {m : Checked N α} {f : α → Checked N β} (hm : Quiet bad m)
    (hf : ∀ a, Quiet bad (f a)) : Quiet bad (m >>= f) := hm.of_bind_value fun a _ => hf a

theorem Quiet.ite {c : Prop} [Decidable c] {m m' : Checked N α} (h : c → Quiet bad m)
    (h' : ¬c → Quiet bad m') : Quiet bad (if c then m else m') := by
  split_ifs with hc
  · exact h hc
  · exact h' hc

theorem Quiet.either {c C : Prop} [Decidable c] {m m' : Checked N α}
    (h : Quiet bad (if c then m else m')) (yes : c → Quiet bad m → C)
    (no : ¬c → Quiet bad m' → C) : C := by
  split_ifs at h with hc
  · exact yes hc h
  · exact no hc h

theorem Quiet.of_ite {c : Prop} [Decidable c] {m m' : Checked N α} (h : Quiet bad m)
    (h' : Quiet bad m') : Quiet bad (if c then m else m') := .ite (fun _ => h) fun _ => h'

theorem Quiet.collect {f : α → Checked N β} {xs : List α} (h : ∀ x ∈ xs, Quiet bad (f x)) :
    Quiet bad (Checked.collect f xs) := by
  intro n hn
  obtain ⟨x,hx,hn⟩ := List.mem_flatMap.mp hn
  exact h x hx n hn

theorem mem_collect {f : α → Checked N β} {xs : List α} {ys : List β} {b : β}
    (h : (collect f xs).value = some ys) : b ∈ ys ↔ ∃ x ∈ xs, (f x).value = some b := by
  cases h
  simp

end Checked
end Library
