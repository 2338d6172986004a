import Mathlib.Tactic

/-! Timers, as their calls define them. A log holds what was asked and when; a timer is the call that
scheduled it, and what comes after that call decides at which tick it fires, if ever. -/
namespace Library
variable {K : Type}

inductive TimerCall (K : Type)
  | schedule (key : K) (after : ℕ)
  | cancel (key : K)
  | tick

/-- The calls, each with the instant it was made at. -/
abbrev TimerLog (K : Type) := List (ℕ × TimerCall K)

namespace TimerLog

/-- The call takes away a timer that is due at an instant: it is replaced, cancelled or fired. -/
def Ends (key : K) (due : ℕ) (x : ℕ × TimerCall K) : Prop :=
  (∃ after, x.2 = .schedule key after) ∨ x.2 = .cancel key ∨ x.2 = .tick ∧ due ≤ x.1

/-- The timer that a call scheduled is still there at the end. -/
def Stands (log : TimerLog K) (i : ℕ) (key : K) (due : ℕ) : Prop :=
  ∃ t after, log[i]? = some (t,.schedule key after) ∧ due = t+after ∧
    ∀ m x, i < m → log[m]? = some x → ¬Ends key due x

/-- The timer that the call at `i` scheduled fires at the tick at `j`: the tick is the first at or
after its time, and no call on its key comes between. -/
def Fires (log : TimerLog K) (i j : ℕ) (key : K) (due : ℕ) : Prop :=
  ∃ t after now, log[i]? = some (t,.schedule key after) ∧ due = t+after ∧ i < j ∧
    log[j]? = some (now,.tick) ∧ due ≤ now ∧
    ∀ m x, i < m → m < j → log[m]? = some x → ¬Ends key due x

variable {log : TimerLog K} {i i' j j' : ℕ} {key key' : K} {due due' : ℕ}

theorem Stands.lt_length (h : Stands log i key due) : i < log.length := by
  obtain ⟨t,after,hi,-⟩ := h
  exact (List.getElem?_eq_some_iff.mp hi).1

/-- There is one timer under a key at most. -/
theorem Stands.unique (h : Stands log i key due) (h' : Stands log i' key due') :
    i = i' ∧ due = due' := by
  obtain ⟨t,after,hi,rfl,later⟩ := h
  obtain ⟨t',after',hi',rfl,later'⟩ := h'
  rcases Nat.lt_trichotomy i i' with hlt | rfl | hlt
  · exact absurd (.inl ⟨after',rfl⟩) (later i' _ hlt hi')
  · cases hi.symm.trans hi'
    exact ⟨rfl,rfl⟩
  · exact absurd (.inl ⟨after,rfl⟩) (later' i _ hlt hi)

/-- A call schedules one timer. -/
theorem Stands.entry_unique (h : Stands log i key due) (h' : Stands log i key' due') :
    key = key' ∧ due = due' := by
  obtain ⟨t,after,hi,rfl,-⟩ := h
  obtain ⟨t',after',hi',rfl,-⟩ := h'
  cases hi.symm.trans hi'
  exact ⟨rfl,rfl⟩

theorem not_stands_nil : ¬Stands ([] : TimerLog K) i key due := by
  rintro ⟨t,after,hi,-⟩
  cases hi

/-- What one more call schedules, and what it leaves. -/
theorem stands_concat (x : ℕ × TimerCall K) : Stands (log ++ [x]) i key due ↔
    (i = log.length ∧ ∃ after, x.2 = .schedule key after ∧ due = x.1+after) ∨
      Stands log i key due ∧ ¬Ends key due x := by
  constructor
  · rintro ⟨t,after,hi,hdue,later⟩
    obtain ⟨hlen,-⟩ := List.getElem?_eq_some_iff.mp hi
    rw [List.length_append,List.length_singleton] at hlen
    rcases Nat.lt_succ_iff_lt_or_eq.mp hlen with hlt | rfl
    · right
      rw [List.getElem?_append_left hlt] at hi
      refine ⟨⟨t,after,hi,hdue,fun m y hm hy => ?_⟩,later log.length x hlt (by simp)⟩
      have hml := (List.getElem?_eq_some_iff.mp hy).1
      exact later m y hm (by rwa [List.getElem?_append_left hml])
    · left
      rw [List.getElem?_concat_length] at hi
      cases hi
      exact ⟨rfl,after,rfl,hdue⟩
  · rintro (⟨rfl,after,hx,hdue⟩ | ⟨⟨t,after,hi,hdue,later⟩,still⟩)
    · refine ⟨x.1,after,by rw [List.getElem?_concat_length,← hx],hdue,fun m y hm hy => ?_⟩
      have hml := (List.getElem?_eq_some_iff.mp hy).1
      rw [List.length_append,List.length_singleton] at hml
      omega
    · have hlt := (List.getElem?_eq_some_iff.mp hi).1
      refine ⟨t,after,by rwa [List.getElem?_append_left hlt],hdue,fun m y hm hy => ?_⟩
      by_cases hml : m < log.length
      · rw [List.getElem?_append_left hml] at hy
        exact later m y hm hy
      · have hmx := (List.getElem?_eq_some_iff.mp hy).1
        rw [List.length_append,List.length_singleton] at hmx
        obtain rfl : m = log.length := by omega
        rw [List.getElem?_concat_length] at hy
        cases hy
        exact still

theorem exists_stands_concat (x : ℕ × TimerCall K) : (∃ i, Stands (log ++ [x]) i key due) ↔
    (∃ after, x.2 = .schedule key after ∧ due = x.1+after) ∨
      (∃ i, Stands log i key due) ∧ ¬Ends key due x := by
  simp only [stands_concat,exists_or,exists_eq_left,exists_and_right]

/-- A tick fires what stands before it and is due. -/
theorem fires_iff : Fires log i j key due ↔
    ∃ now, log[j]? = some (now,.tick) ∧ due ≤ now ∧ Stands (log.take j) i key due := by
  constructor
  · rintro ⟨t,after,now,hi,hdue,hij,hj,reached,between⟩
    refine ⟨now,hj,reached,t,after,by rwa [List.getElem?_take_of_lt hij],hdue,fun m x hm hx => ?_⟩
    have hmj : m < j := by
      have := (List.getElem?_eq_some_iff.mp hx).1
      rw [List.length_take] at this
      omega
    exact between m x hm hmj (by rwa [List.getElem?_take_of_lt hmj] at hx)
  · rintro ⟨now,hj,reached,h⟩
    have hij : i < j := by
      have := h.lt_length
      rw [List.length_take] at this
      omega
    obtain ⟨t,after,hi,hdue,later⟩ := h
    refine ⟨t,after,now,by rwa [List.getElem?_take_of_lt hij] at hi,hdue,hij,hj,reached,
      fun m x hm hmj hx => ?_⟩
    exact later m x hm (by rwa [List.getElem?_take_of_lt hmj])

/-- A timer fires at one tick at most. -/
theorem Fires.unique (h : Fires log i j key due) (h' : Fires log i j' key' due') : j = j' := by
  obtain ⟨t,after,now,hi,rfl,hij,hj,reached,between⟩ := h
  obtain ⟨t',after',now',hi',rfl,hij',hj',reached',between'⟩ := h'
  cases hi.symm.trans hi'
  rcases Nat.lt_trichotomy j j' with hlt | rfl | hlt
  · exact absurd (.inr (.inr ⟨rfl,reached⟩)) (between' j _ hij hlt hj)
  · rfl
  · exact absurd (.inr (.inr ⟨rfl,reached'⟩)) (between j' _ hij' hlt hj')

end TimerLog
end Library
