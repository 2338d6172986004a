import Mathlib.Data.List.Chain
import Mathlib.Data.List.Range
import Mathlib.Tactic

/-! Repeated attempts. A job is issued once and then attempted until an attempt is accepted or refused
or the attempts run out; in the last two cases it is given up. Between two attempts lies a pause that
depends on how many there were. -/
namespace Library

/-- How an attempt ended. -/
inductive Verdict
  | accepted
  | again
  | refused
  deriving DecidableEq

/-- What an entry of a history means to one job. `O` is what an attempt returns. -/
inductive Mark (O : Type)
  | issued
  | tried (attempt : ℕ) (outcome : O)
  | failed
  | other

/-- `ready` counts the attempts from 1 and says from when on the next one may come; `lost` has to be
given up at once. -/
inductive Job
  | unborn
  | ready (attempt since : ℕ)
  | lost
  | accepted
  | failed
  deriving DecidableEq

namespace Job
variable {O : Type} (verdict : O → Verdict) (limit : ℕ) (pause : ℕ → ℕ)

/-- The job after an entry at time `now`; none when the entry comes out of turn. -/
def next (now : ℕ) : Mark O → Job → Option Job
  | .issued,unborn => some (ready 1 now)
  | .tried k o,ready k' t =>
    if k = k' ∧ t ≤ now then
      match verdict o with
      | .accepted => some accepted
      | .again => some (if k < limit then ready (k+1) (now+pause k) else lost)
      | .refused => some lost
    else none
  | .failed,lost => some failed
  | .failed,ready _ _ => some failed
  | .other,j => some j
  | _,_ => none

/-- Read a history. -/
def read (j : Job) (l : List (ℕ × Mark O)) : Option Job :=
  l.foldlM (fun j x => next verdict limit pause x.1 x.2 j) j

/-- The attempts of a history: when, the how-manieth, and what it returned. -/
def tries (l : List (ℕ × Mark O)) : List (ℕ × ℕ × O) :=
  l.filterMap fun x =>
    match x.2 with
    | .tried k o => some (x.1,k,o)
    | _ => none

/-- How often the job was issued. -/
def issues (l : List (ℕ × Mark O)) : ℕ :=
  l.countP fun x =>
    match x.2 with
    | .issued => true
    | _ => false

/-- How often the job was given up. -/
def failures (l : List (ℕ × Mark O)) : ℕ :=
  l.countP fun x =>
    match x.2 with
    | .failed => true
    | _ => false

/-- How many attempts were accepted. -/
def acceptances (l : List (ℕ × Mark O)) : ℕ :=
  (tries l).countP fun x => verdict x.2.2 == .accepted

variable {verdict limit pause} {l : List (ℕ × Mark O)} {j : Job}

theorem read_append (j : Job) (l l' : List (ℕ × Mark O)) :
    read verdict limit pause j (l ++ l') =
      (read verdict limit pause j l).bind fun j => read verdict limit pause j l' :=
  List.foldlM_append

theorem read_concat (j : Job) (l : List (ℕ × Mark O)) (x : ℕ × Mark O) :
    read verdict limit pause j (l ++ [x]) =
      (read verdict limit pause j l).bind (next verdict limit pause x.1 x.2) := by
  rw [read_append]
  congr 1
  funext j
  simp [read]

/-- Entries that mean nothing are passed over. -/
theorem read_of_other (h : ∀ x ∈ l, x.2 = .other) : read verdict limit pause j l = some j := by
  induction l with
  | nil => rfl
  | cons x l ih =>
    have hx := h x (List.mem_cons_self ..)
    unfold read
    rw [List.foldlM_cons,hx]
    exact ih fun y hy => h y (List.mem_cons_of_mem _ hy)

theorem tries_concat (l : List (ℕ × Mark O)) (x : ℕ × Mark O) : tries (l ++ [x]) =
    match x.2 with
    | .tried k o => tries l ++ [(x.1,k,o)]
    | _ => tries l := by
  unfold tries
  rw [List.filterMap_append]
  cases hx : x.2 <;> simp [hx]

theorem tries_of_other (h : ∀ x ∈ l, x.2 = .other) : tries l = [] := by
  unfold tries
  refine List.filterMap_eq_nil_iff.mpr fun x hx => ?_
  rw [h x hx]

theorem issues_of_other (h : ∀ x ∈ l, x.2 = .other) : issues l = 0 := by
  unfold issues
  refine List.countP_eq_zero.mpr fun x hx => ?_
  rw [h x hx]
  exact Bool.false_ne_true

theorem issues_concat (l : List (ℕ × Mark O)) (x : ℕ × Mark O) : issues (l ++ [x]) =
    match x.2 with
    | .issued => issues l+1
    | _ => issues l := by
  unfold issues
  rw [List.countP_append]
  cases hx : x.2 <;> simp [hx]

theorem failures_concat (l : List (ℕ × Mark O)) (x : ℕ × Mark O) : failures (l ++ [x]) =
    match x.2 with
    | .failed => failures l+1
    | _ => failures l := by
  unfold failures
  rw [List.countP_append]
  cases hx : x.2 <;> simp [hx]

theorem acceptances_concat (l : List (ℕ × Mark O)) (x : ℕ × Mark O) :
    acceptances verdict (l ++ [x]) =
      match x.2 with
      | .tried _ o => acceptances verdict l + if verdict o = .accepted then 1 else 0
      | _ => acceptances verdict l := by
  unfold acceptances
  rw [tries_concat]
  cases hx : x.2 with
  | tried k o =>
    simp only [List.countP_append,List.countP_singleton]
    by_cases ho : verdict o = .accepted <;> simp [ho]
  | _ => rfl

variable (verdict limit pause) in
/-- What a history says of a job in each of its states. -/
structure Told (l : List (ℕ × Mark O)) (j : Job) : Prop where
  once : issues l ≤ 1
  numbered : (tries l).map (fun x => x.2.1) = List.range' 1 (tries l).length
  spaced : (tries l).IsChain fun x y => x.1+pause x.2.1 ≤ y.1
  bounded : (tries l).length ≤ max 1 limit
  resolved : acceptances verdict l = (if j = accepted then 1 else 0) ∧
    failures l = if j = failed then 1 else 0
  waiting : ∀ k t, j = ready k t → k = (tries l).length+1 ∧ (k = 1 ∨ k ≤ limit) ∧
    ∀ x, (tries l).getLast? = some x → x.1+pause x.2.1 ≤ t
  unborn : j = .unborn → ∀ x ∈ l, x.2 = .other

theorem told_nil : Told verdict limit pause ([] : List (ℕ × Mark O)) .unborn := by
  refine ⟨Nat.zero_le _,rfl,.nil,Nat.zero_le _,⟨rfl,rfl⟩,?_,fun _ _ hx => absurd hx List.not_mem_nil⟩
  intro k t h
  cases h

/-- An entry that is no attempt moves the job on with what is known of its attempts. -/
theorem Told.keep {x : ℕ × Mark O} {j' : Job} (h : Told verdict limit pause l j)
    (hx : ∀ k o, x.2 ≠ .tried k o) (once : issues (l ++ [x]) ≤ 1)
    (resolved : acceptances verdict l = (if j' = accepted then 1 else 0) ∧
      failures (l ++ [x]) = if j' = failed then 1 else 0)
    (waiting : ∀ k t, j' = ready k t → k = (tries l).length+1 ∧ (k = 1 ∨ k ≤ limit) ∧
      ∀ x, (tries l).getLast? = some x → x.1+pause x.2.1 ≤ t)
    (unborn : j' = .unborn → ∀ y ∈ l ++ [x], y.2 = .other) :
    Told verdict limit pause (l ++ [x]) j' := by
  have ht : tries (l ++ [x]) = tries l := by
    rw [tries_concat]
    cases hm : x.2 with
    | tried k o => exact absurd hm (hx k o)
    | _ => rfl
  have ha : acceptances verdict (l ++ [x]) = acceptances verdict l := by
    unfold acceptances
    rw [ht]
  exact ⟨once,by rw [ht]; exact h.numbered,by rw [ht]; exact h.spaced,by rw [ht]; exact h.bounded,
    by rw [ha]; exact resolved,by rw [ht]; exact waiting,unborn⟩

/-- The next attempt, in its turn. -/
theorem Told.try {now k t : ℕ} {o : O} {j' : Job} (h : Told verdict limit pause l (ready k t))
    (hnow : t ≤ now) (accepts : verdict o = .accepted ↔ j' = accepted)
    (waiting : ∀ k' t', j' = ready k' t' → k' = k+1 ∧ k' ≤ limit ∧ t' = now+pause k)
    (unborn : j' ≠ .unborn) (failed : j' ≠ failed) :
    Told verdict limit pause (l ++ [(now,.tried k o)]) j' := by
  obtain ⟨hk,hlimit,hlast⟩ := h.waiting k t rfl
  obtain ⟨ha,hf⟩ := h.resolved
  have ht : tries (l ++ [(now,.tried k o)]) = tries l ++ [(now,k,o)] := tries_concat l _
  refine ⟨(issues_concat l _).trans_le h.once,?_,?_,?_,⟨?_,?_⟩,?_,fun hu => absurd hu unborn⟩
  · rw [ht,List.map_append,List.length_append,h.numbered,List.map_singleton,List.length_singleton,
      List.range'_concat,hk]
    simp [Nat.add_comm]
  · rw [ht,List.isChain_append]
    refine ⟨h.spaced,.singleton _,?_⟩
    intro x hx y hy
    obtain rfl : y = (now,k,o) := by simpa using hy.symm
    exact (hlast x hx).trans hnow
  · rw [ht,List.length_append,List.length_singleton]
    rcases hlimit with h₁ | h₁ <;> omega
  · rw [acceptances_concat,ha]
    by_cases ho : verdict o = .accepted
    · simp [ho,accepts.mp ho]
    · have hj : j' ≠ accepted := fun hj => ho (accepts.mpr hj)
      simp [ho,hj]
  · rw [failures_concat,hf]
    simp [failed]
  · intro k' t' hj
    obtain ⟨hk',hl,ht'⟩ := waiting k' t' hj
    rw [ht,List.length_append,List.length_singleton]
    refine ⟨by omega,.inr hl,fun x hx => ?_⟩
    obtain rfl : x = (now,k,o) := by simpa using hx.symm
    exact ht'.ge

/-- A history that reads to its end tells of a job attempted in order, in time, not too often, and
resolved at most once. -/
theorem told_of_read (h : read verdict limit pause .unborn l = some j) :
    Told verdict limit pause l j := by
  induction l using List.reverseRecOn generalizing j with
  | nil =>
    cases h
    exact told_nil
  | append_singleton l x ih =>
    obtain ⟨now,m⟩ := x
    rw [read_concat] at h
    obtain ⟨i,hi,hn⟩ := Option.bind_eq_some_iff.mp h
    have told := ih hi
    obtain ⟨ha,hf⟩ := told.resolved
    have hc := failures_concat l (now,m)
    have hs := issues_concat l (now,m)
    cases m with
    | issued =>
      cases i with
      | unborn =>
        cases hn
        have hnil := tries_of_other (told.unborn rfl)
        have h₁ : issues (l ++ [(now,.issued)]) ≤ 1 := by
          rw [hs,issues_of_other (told.unborn rfl)]
        refine told.keep nofun h₁ ⟨ha,hc.trans hf⟩ ?_ nofun
        intro k t hj
        cases hj
        rw [hnil]
        exact ⟨rfl,.inl rfl,nofun⟩
      | _ => cases hn
    | tried k o =>
      cases i with
      | ready k' t =>
        simp only [next] at hn
        by_cases hg : k = k' ∧ t ≤ now
        · rw [if_pos hg] at hn
          obtain ⟨rfl,hnow⟩ := hg
          cases ho : verdict o with
          | accepted | refused =>
            rw [ho] at hn
            cases hn
            exact told.try hnow (by simp [ho]) nofun nofun nofun
          | again =>
            rw [ho] at hn
            cases hn
            by_cases hk : k < limit
            · rw [if_pos hk]
              refine told.try hnow (by simp [ho]) ?_ nofun nofun
              intro k' t' hj
              cases hj
              exact ⟨rfl,hk,rfl⟩
            · rw [if_neg hk]
              exact told.try hnow (by simp [ho]) nofun nofun nofun
        · rw [if_neg hg] at hn
          cases hn
      | _ => cases hn
    | failed =>
      cases i with
      | lost | ready k t =>
        cases hn
        refine told.keep nofun (hs.trans_le told.once) ⟨ha,hc.trans ?_⟩ nofun nofun
        rw [hf]
        rfl
      | _ => cases hn
    | other =>
      cases hn
      refine told.keep nofun (hs.trans_le told.once) ⟨ha,hc.trans hf⟩ told.waiting fun hj y hy => ?_
      rcases List.mem_append.mp hy with hy | hy
      · exact told.unborn hj y hy
      · rw [List.mem_singleton.mp hy]

end Job
end Library
