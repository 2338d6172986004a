import Mathlib.Tactic

/-! A worklist that is kept as a queue. Items are taken off the front, and what an item gives rise to
goes to the back; so the list is worked round by round, each round the offspring of the one before. -/
namespace Library
variable {α : Type}

/-- From the first queue to the second the items of `done` were handled, in this order, each with
what it gave rise to. -/
inductive Works : List α → List (α × List α) → List α → Prop
  | rest (q : List α) : Works q [] q
  | take {x : α} {q kids q' : List α} {done : List (α × List α)} (more : Works (q ++ kids) done q') :
      Works (x :: q) ((x,kids) :: done) q'

namespace Works
variable {q q' q'' : List α} {done done' : List (α × List α)}

theorem trans (h : Works q done q') (h' : Works q' done' q'') : Works q (done ++ done') q'' := by
  induction h with
  | rest => exact h'
  | take _ ih => exact .take (ih h')

theorem single (x : α) (q kids : List α) : Works (x :: q) [(x,kids)] (q ++ kids) := .take (.rest _)

/-- Nothing is lost, doubled or overtaken: what was there and what came was handled or is still
there. -/
theorem conserved (h : Works q done q') :
    q ++ done.flatMap Prod.snd = done.map Prod.fst ++ q' := by
  induction h with
  | rest => simp
  | take _ ih =>
    rw [List.flatMap_cons,List.map_cons,List.cons_append,List.cons_append,← ih,List.append_assoc]

/-- What waits in front is handled before anything behind it. -/
theorem split {l r : List α} (h : Works (l ++ r) done []) : ∃ first rest, done = first ++ rest ∧
    first.map Prod.fst = l ∧ Works (r ++ first.flatMap Prod.snd) rest [] := by
  induction l generalizing r done with
  | nil => exact ⟨[],done,rfl,rfl,by simpa using h⟩
  | cons x l ih =>
    cases h with
    | @take _ _ kids _ done more =>
      have hmore : Works (l ++ (r ++ kids)) done [] := by
        rw [← List.append_assoc]
        exact more
      obtain ⟨first,rest,rfl,hf,hr⟩ := ih hmore
      refine ⟨(x,kids) :: first,rest,rfl,by rw [List.map_cons,hf],?_⟩
      rwa [List.flatMap_cons,← List.append_assoc]

end Works

/-- The rounds in which a queue is worked. -/
def Rounds (q : List α) (rounds : List (List (α × List α))) : Prop :=
  match rounds with
  | [] => q = []
  | round :: rounds => q ≠ [] ∧ round.map Prod.fst = q ∧ Rounds (round.flatMap Prod.snd) rounds

/-- A queue that is worked to the end is worked in rounds. -/
theorem Works.rounds {q : List α} {done : List (α × List α)} (h : Works q done []) :
    ∃ rounds, done = rounds.flatten ∧ Rounds q rounds := by
  generalize hn : done.length = n
  induction n using Nat.strong_induction_on generalizing q done with
  | _ n ih =>
    by_cases hq : q = []
    · subst hq
      cases h
      exact ⟨[],rfl,rfl⟩
    · obtain ⟨first,rest,rfl,hf,hr⟩ := Works.split (r := []) (by simpa using h)
      have hne : first ≠ [] := by
        rintro rfl
        exact hq hf.symm
      have hlt : rest.length < n := by
        rw [← hn,List.length_append]
        have := List.length_pos_iff.mpr hne
        omega
      obtain ⟨rounds,rfl,hrounds⟩ := ih _ hlt hr rfl
      exact ⟨first :: rounds,rfl,hq,hf,hrounds⟩

/-- The same when the items are read off a record of what happened. -/
theorem Works.rounds_map {β : Type} {f : β → α × List α} {q : List α} {xs : List β}
    (h : Works q (xs.map f) []) : ∃ rounds : List (List β), xs = rounds.flatten ∧
      Rounds q (rounds.map fun round => round.map f) := by
  obtain ⟨rounds,hd,hr⟩ := h.rounds
  have split : ∃ ls : List (List β), xs = ls.flatten ∧ (ls.map fun l => l.map f) = rounds := by
    clear h hr
    induction rounds generalizing xs with
    | nil => exact ⟨[],by simpa using hd,rfl⟩
    | cons round rounds ih =>
      obtain ⟨l,rest,rfl,hl,hrest⟩ := List.map_eq_append_iff.mp hd
      obtain ⟨ls,rfl,hls⟩ := ih hrest
      exact ⟨l :: ls,rfl,by rw [List.map_cons,hl,hls]⟩
  obtain ⟨ls,hxs,rfl⟩ := split
  exact ⟨ls,hxs,hr⟩

/-- A round without offspring is the last. -/
theorem Rounds.length_le {q : List α} {rounds : List (List (α × List α))} (h : Rounds q rounds)
    {n : ℕ} (barren : ∀ round, rounds[n]? = some round → ∀ p ∈ round, p.2 = []) :
    rounds.length ≤ n+1 := by
  induction rounds generalizing q n with
  | nil => simp
  | cons first rounds ih =>
    obtain ⟨-,-,hr⟩ := h
    cases n with
    | zero =>
      have hnone : first.flatMap Prod.snd = [] := by
        rw [List.flatMap_eq_nil_iff]
        exact barren first rfl
      cases rounds with
      | nil => simp
      | cons => exact absurd hnone hr.1
    | succ n =>
      have := ih hr (n := n) (fun round hround => barren round hround)
      rw [List.length_cons]
      omega

/-- A measure that rises by one from an item to its offspring tells the round. -/
theorem Rounds.depth {q : List α} {rounds : List (List (α × List α))} (h : Rounds q rounds)
    {d : α → ℕ} {n : ℕ} (start : ∀ x ∈ q, d x = n)
    (deeper : ∀ p ∈ rounds.flatten, ∀ k ∈ p.2, d k = d p.1+1) {i : ℕ} {round : List (α × List α)}
    (at_i : rounds[i]? = some round) : ∀ p ∈ round, d p.1 = n+i := by
  induction rounds generalizing q n i with
  | nil => simp at at_i
  | cons first rounds ih =>
    obtain ⟨-,hf,hr⟩ := h
    have hfirst (p : α × List α) (hp : p ∈ first) : d p.1 = n := start _ (hf ▸ List.mem_map_of_mem hp)
    cases i with
    | zero =>
      cases at_i
      exact hfirst
    | succ i =>
      intro p hp
      have hstart (x : α) (hx : x ∈ first.flatMap Prod.snd) : d x = n+1 := by
        obtain ⟨p,hp,hx⟩ := List.mem_flatMap.mp hx
        rw [deeper p (List.mem_append_left _ hp) x hx,hfirst p hp]
      have hrest := ih hr hstart (fun p hp => deeper p (List.mem_append_right _ hp)) at_i p hp
      omega

end Library
