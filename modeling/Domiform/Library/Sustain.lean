import Mathlib.Data.List.Basic
import Mathlib.Tactic

/-! Sustained edges. A monitor reads a history entry by entry. After an edge it waits; the first tick
at which the edge is old enough makes the response due, and the response must come before the next
tick. A history the monitor reads to its end responds to the sustained edges, to nothing else, and
once to each. -/
namespace Library

/-- What an entry means to the monitor. -/
inductive Sign
  | edge
  | fall
  | tick
  | fire
  | other
  deriving DecidableEq

inductive Wait
  | idle
  | waiting (since : ℕ)
  | due (since now : ℕ)
  deriving DecidableEq

namespace Wait

/-- The monitor after an entry at time `now`; none when the entry comes out of turn. -/
def next (d now : ℕ) : Sign → Wait → Option Wait
  | .edge,_ => some (waiting now)
  | .fall,_ => some idle
  | .tick,idle => some idle
  | .tick,waiting t => some (if t+d ≤ now then due t now else waiting t)
  | .tick,due _ _ => none
  | .fire,due t n => if n = now ∧ t+d ≤ now then some idle else none
  | .fire,_ => none
  | .other,w => some w

/-- When the edge was that the monitor waits for. -/
def since : Wait → Option ℕ
  | idle => none
  | waiting t | due t _ => some t

section Read
variable {α : Type} (sign : List α → α → Sign) (time : α → ℕ) (d : ℕ)

/-- Read a stretch of history. What an entry means may depend on all that came before it. -/
def read (pre : List α) (w : Wait) : List α → Option Wait
  | [] => some w
  | x :: l => (next d (time x) (sign pre x) w).bind fun w => read (pre ++ [x]) w l

@[simp] theorem read_nil (pre : List α) (w : Wait) : read sign time d pre w [] = some w := rfl

theorem read_append (pre : List α) (w : Wait) (l l' : List α) :
    read sign time d pre w (l ++ l') =
      (read sign time d pre w l).bind fun w => read sign time d (pre ++ l) w l' := by
  induction l generalizing pre w with
  | nil => simp
  | cons x l ih =>
    rw [List.cons_append,read,read,Option.bind_assoc]
    congr 1
    funext w
    rw [ih,List.append_assoc]
    rfl

theorem read_concat (pre : List α) (w : Wait) (l : List α) (x : α) :
    read sign time d pre w (l ++ [x]) =
      (read sign time d pre w l).bind (next d (time x) (sign (pre ++ l) x)) := by
  rw [read_append]
  congr 1
  funext w
  unfold read
  cases next d (time x) (sign (pre ++ l) x) w <;> rfl

/-- No entry of the stretch has a sign of this kind. -/
def Never (p : α → Sign → Prop) (pre l : List α) : Prop :=
  ∀ xs x ys, l = xs ++ x :: ys → ¬p x (sign (pre ++ xs) x)

variable {sign time d} {pre l : List α} {x : α} {p : α → Sign → Prop} {w w' : Wait}

theorem never_nil : Never sign p pre [] := by
  intro xs x ys h
  simp at h

theorem never_cons : Never sign p pre (x :: l) ↔ ¬p x (sign pre x) ∧ Never sign p (pre ++ [x]) l := by
  constructor
  · intro h
    refine ⟨by simpa using h [] x l rfl,?_⟩
    intro xs y ys he
    simpa using h (x :: xs) y ys (by rw [he,List.cons_append])
  · rintro ⟨hx,hl⟩ xs y ys he
    cases xs with
    | nil =>
      obtain ⟨rfl,rfl⟩ := List.cons.inj he
      simpa using hx
    | cons z xs =>
      obtain ⟨rfl,rfl⟩ := List.cons.inj he
      simpa using hl xs y ys rfl

theorem never_append {l' : List α} :
    Never sign p pre (l ++ l') ↔ Never sign p pre l ∧ Never sign p (pre ++ l) l' := by
  induction l generalizing pre with
  | nil => simp [never_nil]
  | cons x l ih =>
    rw [List.cons_append,never_cons,never_cons,ih,and_assoc]
    simp

theorem Never.mono {q : α → Sign → Prop} (h : Never sign p pre l) (hq : ∀ x s, q x s → p x s) :
    Never sign q pre l := by
  intro xs x ys he hx
  exact h xs x ys he (hq _ _ hx)

/-- Entries that mean nothing are passed over. -/
theorem read_of_other (h : Never sign (fun _ s => s ≠ .other) pre l) :
    read sign time d pre w l = some w := by
  induction l generalizing pre with
  | nil => rfl
  | cons x l ih =>
    rw [never_cons] at h
    have hx : sign pre x = .other := by simpa using h.1
    rw [read,hx]
    exact ih h.2

/-- An edge at time `t`, and no fall since. -/
def Held (sign : List α → α → Sign) (time : α → ℕ) (l : List α) (t : ℕ) : Prop :=
  ∃ pre x post, l = pre ++ x :: post ∧ sign pre x = .edge ∧ time x = t ∧
    Never sign (fun _ s => s = .fall) (pre ++ [x]) post

theorem Held.concat {t : ℕ} (h : Held sign time l t) (hx : sign l x ≠ .fall) :
    Held sign time (l ++ [x]) t := by
  obtain ⟨pre,y,post,rfl,he,ht,hn⟩ := h
  refine ⟨pre,y,post ++ [x],by simp,he,ht,?_⟩
  rw [never_append]
  refine ⟨hn,?_⟩
  rw [never_cons]
  refine ⟨?_,never_nil⟩
  simpa using hx

/-- What the monitor waits for has been sustained. -/
theorem held_of_read (h : read sign time d [] idle l = some w) {t : ℕ} (ht : w.since = some t) :
    Held sign time l t := by
  induction l using List.reverseRecOn generalizing w t with
  | nil =>
    cases h
    cases ht
  | append_singleton l x ih =>
    rw [read_concat,List.nil_append] at h
    obtain ⟨v,hv,hn⟩ := Option.bind_eq_some_iff.mp h
    have keep (hs : v.since = some t) (hx : sign l x ≠ .fall) : Held sign time (l ++ [x]) t :=
      (ih hv hs).concat hx
    cases hs : sign l x with
    | edge =>
      rw [hs] at hn
      cases hn
      cases ht
      exact ⟨l,x,[],rfl,hs,rfl,never_nil⟩
    | fall =>
      rw [hs] at hn
      cases hn
      cases ht
    | tick =>
      rw [hs] at hn
      refine keep ?_ (by simp [hs])
      cases v with
      | idle => cases hn; cases ht
      | waiting t' =>
        simp only [next,Option.some.injEq] at hn
        rw [← ht,← hn]
        split_ifs <;> rfl
      | due t' n => cases hn
    | fire =>
      rw [hs] at hn
      cases v with
      | due t' n =>
        simp only [next] at hn
        split_ifs at hn
        cases hn
        cases ht
      | _ => cases hn
    | other =>
      rw [hs] at hn
      cases hn
      exact keep ht (by simp [hs])

/-- Whatever fires answers an edge sustained for `d`. -/
theorem held_of_fire {post : List α} (h : read sign time d [] idle (pre ++ x :: post) = some w)
    (hx : sign pre x = .fire) : ∃ t, Held sign time pre t ∧ t+d ≤ time x := by
  rw [read_append,List.nil_append] at h
  obtain ⟨v,hv,h⟩ := Option.bind_eq_some_iff.mp h
  rw [read] at h
  obtain ⟨v',hn,-⟩ := Option.bind_eq_some_iff.mp h
  rw [hx] at hn
  cases v with
  | due t n =>
    simp only [next] at hn
    split_ifs at hn with hd
    exact ⟨t,held_of_read hv rfl,hd.2⟩
  | _ => cases hn

/-- While nothing happens that a monitor minds, it stays as it is, and nothing fires. -/
theorem read_still {minds : α → Sign → Prop}
    (still : ∀ x s v', ¬minds x s → next d (time x) s v = some v' → v' = v ∧ s ≠ .fire)
    (h : read sign time d pre v l = some w) (hl : Never sign minds pre l) :
    w = v ∧ Never sign (fun _ s => s = .fire) pre l := by
  induction l generalizing pre with
  | nil =>
    cases h
    exact ⟨rfl,never_nil⟩
  | cons x l ih =>
    rw [never_cons] at hl
    rw [read] at h
    obtain ⟨v',hn,hr⟩ := Option.bind_eq_some_iff.mp h
    obtain ⟨rfl,hx⟩ := still x _ v' hl.1 hn
    obtain ⟨hw,hf⟩ := ih hr hl.2
    exact ⟨hw,never_cons.mpr ⟨hx,hf⟩⟩

/-- Without an edge an idle monitor stays idle, and nothing fires. -/
theorem read_idle (h : read sign time d pre idle l = some w)
    (hl : Never sign (fun _ s => s = .edge) pre l) :
    w = idle ∧ Never sign (fun _ s => s = .fire) pre l := by
  refine read_still (fun x s v' hs hn => ?_) h hl
  cases s with
  | edge => exact absurd rfl hs
  | fire => cases hn
  | fall | tick | other =>
    cases hn
    exact ⟨rfl,nofun⟩

/-- Between two firings there is an edge. -/
theorem edge_between_fires {mid post : List α} {y : α}
    (h : read sign time d [] idle (pre ++ x :: (mid ++ y :: post)) = some w)
    (hx : sign pre x = .fire) (hy : sign (pre ++ x :: mid) y = .fire) :
    ¬Never sign (fun _ s => s = .edge) (pre ++ [x]) mid := by
  intro hn
  rw [read_append,List.nil_append] at h
  obtain ⟨v,-,h⟩ := Option.bind_eq_some_iff.mp h
  rw [read] at h
  obtain ⟨v',hv',h⟩ := Option.bind_eq_some_iff.mp h
  -- the first firing leaves the monitor idle
  have hi : v' = idle := by
    rw [hx] at hv'
    cases v with
    | due t n =>
      simp only [next] at hv'
      split_ifs at hv'
      cases hv'
      rfl
    | _ => cases hv'
  subst hi
  rw [read_append] at h
  obtain ⟨u,hu,h⟩ := Option.bind_eq_some_iff.mp h
  obtain ⟨rfl,-⟩ := read_idle hu hn
  rw [read,List.append_assoc,List.singleton_append,hy] at h
  cases h

/-- A waiting monitor keeps waiting, and nothing fires, while there is neither edge nor fall nor a
tick that is late enough. -/
theorem read_waiting {t : ℕ} (h : read sign time d pre (waiting t) l = some w)
    (hl : Never sign (fun x s => s = .edge ∨ s = .fall ∨ s = .tick ∧ t+d ≤ time x) pre l) :
    w = waiting t ∧ Never sign (fun _ s => s = .fire) pre l := by
  refine read_still (fun x s v' hs hn => ?_) h hl
  cases s with
  | edge => exact absurd (.inl rfl) hs
  | fall => exact absurd (.inr (.inl rfl)) hs
  | tick =>
    have hlate : ¬t+d ≤ time x := fun hd => hs (.inr (.inr ⟨rfl,hd⟩))
    simp only [next,if_neg hlate,Option.some.injEq] at hn
    exact ⟨hn.symm,nofun⟩
  | fire => cases hn
  | other =>
    cases hn
    exact ⟨rfl,nofun⟩

/-- A response that is due comes exactly once, at the time of the tick that made it due and before
the next one, unless it is still due at the end. -/
theorem read_due {t n : ℕ} (h : read sign time d pre (due t n) l = some w)
    (hl : Never sign (fun _ s => s = .edge ∨ s = .fall) pre l) (hw : w ≠ due t n) :
    ∃ xs x ys, l = xs ++ x :: ys ∧ sign (pre ++ xs) x = .fire ∧ time x = n ∧
      Never sign (fun _ s => s = .fire ∨ s = .tick) pre xs ∧
      Never sign (fun _ s => s = .fire) (pre ++ xs ++ [x]) ys := by
  induction l generalizing pre with
  | nil =>
    cases h
    exact absurd rfl hw
  | cons x l ih =>
    rw [never_cons] at hl
    rw [read] at h
    obtain ⟨v,hn,h⟩ := Option.bind_eq_some_iff.mp h
    cases hs : sign pre x with
    | edge => exact absurd (.inl hs) hl.1
    | fall => exact absurd (.inr hs) hl.1
    | tick =>
      rw [hs] at hn
      cases hn
    | fire =>
      rw [hs] at hn
      simp only [next] at hn
      split_ifs at hn with hd
      cases hn
      refine ⟨[],x,l,rfl,by simpa using hs,hd.1.symm,never_nil,?_⟩
      simpa using (read_idle h (hl.2.mono fun _ _ => .inl)).2
    | other =>
      rw [hs] at hn
      cases hn
      obtain ⟨xs,y,ys,rfl,hy,ht,hxs,hys⟩ := ih h hl.2
      refine ⟨x :: xs,y,ys,rfl,by simpa using hy,ht,?_,by simpa using hys⟩
      rw [never_cons]
      exact ⟨by simp [hs],hxs⟩

/-- An edge that nothing ends is answered exactly once, within the first tick late enough for it. -/
theorem fires_once {mid post : List α} {k : α}
    (h : read sign time d [] idle (pre ++ x :: (mid ++ k :: post)) = some w)
    (hx : sign pre x = .edge)
    (held : Never sign (fun _ s => s = .edge ∨ s = .fall) (pre ++ [x]) (mid ++ k :: post))
    (hk : sign (pre ++ x :: mid) k = .tick) (late : time x+d ≤ time k)
    (first : Never sign (fun y s => s = .tick ∧ time x+d ≤ time y) (pre ++ [x]) mid)
    (hw : ∀ t n, w ≠ due t n) :
    Never sign (fun _ s => s = .fire) (pre ++ [x]) mid ∧ ∃ xs y ys, post = xs ++ y :: ys ∧
      sign (pre ++ x :: (mid ++ k :: xs)) y = .fire ∧ time y = time k ∧
      Never sign (fun _ s => s = .fire ∨ s = .tick) (pre ++ x :: (mid ++ [k])) xs ∧
      Never sign (fun _ s => s = .fire) (pre ++ x :: (mid ++ k :: (xs ++ [y]))) ys := by
  rw [read_append,List.nil_append] at h
  obtain ⟨v,-,h⟩ := Option.bind_eq_some_iff.mp h
  rw [read,hx] at h
  change read sign time d (pre ++ [x]) (waiting (time x)) (mid ++ k :: post) = some w at h
  rw [read_append] at h
  obtain ⟨u,hu,h⟩ := Option.bind_eq_some_iff.mp h
  rw [never_append,never_cons] at held
  -- nothing ends the wait before `k`
  have hmid : Never sign (fun y s => s = .edge ∨ s = .fall ∨ s = .tick ∧ time x+d ≤ time y)
      (pre ++ [x]) mid := by
    intro xs y ys hy hs
    rcases hs with hs | hs | hs
    · exact held.1 xs y ys hy (.inl hs)
    · exact held.1 xs y ys hy (.inr hs)
    · exact first xs y ys hy hs
  obtain ⟨rfl,hf⟩ := read_waiting hu hmid
  refine ⟨hf,?_⟩
  have hk' : sign (pre ++ [x] ++ mid) k = .tick := by simpa using hk
  have hdue : read sign time d (pre ++ [x] ++ mid ++ [k]) (due (time x) (time k)) post = some w := by
    rw [read,hk'] at h
    simpa [next,late] using h
  obtain ⟨xs,y,ys,rfl,hy,ht,hxs,hys⟩ := read_due hdue held.2.2 (hw _ _)
  exact ⟨xs,y,ys,rfl,by simpa using hy,ht,by simpa using hxs,by simpa using hys⟩

end Read
end Wait
end Library
