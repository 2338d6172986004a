import Mathlib.Logic.Relation
import Mathlib.Tactic

/-! Loops that may fail. Folds over a list of steps that can halt, and functions whose recursion is
bounded by fuel: what holds when enough fuel is given. -/
namespace Library
variable {ε α β : Type}

/-- What every step keeps, a fold that returns keeps. -/
theorem foldlM_ok_induct {f : β → α → Except ε β} {I : β → Prop} {xs : List α}
    (step : ∀ x ∈ xs, ∀ b b', I b → f b x = .ok b' → I b') {b b' : β} (hb : I b)
    (h : xs.foldlM f b = .ok b') : I b' := by
  induction xs generalizing b with
  | nil =>
    cases h
    exact hb
  | cons x xs ih =>
    rw [List.foldlM_cons] at h
    cases hx : f b x with
    | error err => simp [hx,bind,Except.bind] at h
    | ok c =>
      rw [hx] at h
      exact ih (fun y hy => step y (List.mem_cons_of_mem x hy))
        (step x List.mem_cons_self b c hb hx) h

/-- What one of the steps brings about and the others keep holds at the end. -/
theorem foldlM_ok_reach {f : β → α → Except ε β} {I J : β → Prop} {xs : List α} {x : α} (hx : x ∈ xs)
    (keep : ∀ y ∈ xs, ∀ b b', I b → f b y = .ok b' → I b')
    (reach : ∀ b b', I b → f b x = .ok b' → J b')
    (stay : ∀ y ∈ xs, ∀ b b', J b → f b y = .ok b' → J b') {b b' : β} (hb : I b)
    (h : xs.foldlM f b = .ok b') : J b' := by
  induction xs generalizing b with
  | nil => cases hx
  | cons y xs ih =>
    rw [List.foldlM_cons] at h
    cases hy : f b y with
    | error err => simp [hy,bind,Except.bind] at h
    | ok c =>
      rw [hy] at h
      have tail {P : α → Prop} (hp : ∀ z ∈ y :: xs, P z) : ∀ z ∈ xs, P z :=
        fun z hz => hp z (List.mem_cons_of_mem y hz)
      rcases List.mem_cons.mp hx with rfl | hx
      · exact foldlM_ok_induct (tail stay) (reach b c hb hy) h
      · exact ih hx (tail keep) (tail stay) (keep y List.mem_cons_self b c hb hy) h

theorem bind_ok_iff {x : Except ε α} {f : α → Except ε β} {b : β} :
    (x >>= f) = .ok b ↔ ∃ a, x = .ok a ∧ f a = .ok b := by
  cases x <;> simp [bind,Except.bind]

/-- With enough fuel the function gives `r`, and more fuel does not change it. -/
def Settles (f : ℕ → α) (r : α) : Prop := ∃ n, ∀ m, n ≤ m → f m = r

theorem Settles.unique {f : ℕ → α} {r s : α} (h : Settles f r) (h' : Settles f s) : r = s := by
  obtain ⟨n,hn⟩ := h
  obtain ⟨m,hm⟩ := h'
  exact (hn _ (le_max_left n m)).symm.trans (hm _ (le_max_right n m))

theorem Settles.const (r : α) : Settles (fun _ => r) r := ⟨0,fun _ _ => rfl⟩

/-- A call that spends one unit of fuel settles when its body does. -/
theorem Settles.succ {f g : ℕ → α} {r : α} (h : Settles g r) (hf : ∀ n, f (n+1) = g n) :
    Settles f r := by
  obtain ⟨n,hn⟩ := h
  refine ⟨n+1,fun m hm => ?_⟩
  obtain ⟨k,rfl⟩ : ∃ k, m = k+1 := ⟨m-1,by omega⟩
  rw [hf]
  exact hn k (by omega)

theorem Settles.bind {f : ℕ → Except ε α} {g : ℕ → α → Except ε β} {x : Except ε α}
    {r : Except ε β} (hf : Settles f x) (hg : ∀ a, x = .ok a → Settles (fun n => g n a) r)
    (he : ∀ err, x = .error err → r = .error err) : Settles (fun n => f n >>= g n) r := by
  obtain ⟨n,hn⟩ := hf
  cases x with
  | error err =>
    rw [he err rfl]
    refine ⟨n,fun m hm => ?_⟩
    change f m >>= g m = _
    rw [hn m hm]
    rfl
  | ok a =>
    obtain ⟨k,hk⟩ := hg a rfl
    refine ⟨max n k,fun m hm => ?_⟩
    change f m >>= g m = _
    rw [hn m (le_trans (le_max_left n k) hm)]
    exact hk m (le_trans (le_max_right n k) hm)

/-- A fold settles when each of its steps settles in the states the fold can reach. -/
theorem Settles.foldlM {f : ℕ → β → α → Except ε β} {I : β → Prop} {Bad : ε → Prop} {xs : List α}
    (step : ∀ x ∈ xs, ∀ b, I b → ∃ r, Settles (fun n => f n b x) r ∧
      (∀ b', r = .ok b' → I b') ∧ ∀ err, r = .error err → Bad err) {b : β} (hb : I b) :
    ∃ r, Settles (fun n => xs.foldlM (f n) b) r ∧
      (∀ b', r = .ok b' → I b') ∧ ∀ err, r = .error err → Bad err := by
  induction xs generalizing b with
  | nil => exact ⟨.ok b,.const _,by rintro _ ⟨⟩; exact hb,by rintro _ ⟨⟩⟩
  | cons x xs ih =>
    obtain ⟨r,hr,hi,hbad⟩ := step x List.mem_cons_self b hb
    cases r with
    | error err =>
      refine ⟨.error err,?_,by rintro _ ⟨⟩,by rintro _ ⟨⟩; exact hbad err rfl⟩
      simp only [List.foldlM_cons]
      exact hr.bind (by rintro _ ⟨⟩) (by rintro _ ⟨⟩; rfl)
    | ok c =>
      obtain ⟨s,hs,hsi,hsbad⟩ := ih (fun y hy => step y (List.mem_cons_of_mem x hy)) (hi c rfl)
      refine ⟨s,?_,hsi,hsbad⟩
      simp only [List.foldlM_cons]
      exact hr.bind (by rintro _ ⟨⟩; exact hs) (by rintro _ ⟨⟩)

end Library
