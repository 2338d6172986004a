import Domiform.Library.Fuel

/-! Lists in which an item may stand for a list. Such a list expands to one of plain items; a program
that runs an item by running what it stands for cannot tell the two apart. -/
namespace Library
variable {α β κ ε : Type}

/-- Replace every item that calls a name by the members filed under it, all the way down; a name that
nothing is filed under leaves nothing. -/
inductive Expands (call : α → Option κ) (body : κ → Option (List α)) : List α → List α → Prop
  | nil : Expands call body [] []
  | plain {a : α} {as bs : List α} (own : call a = none) (rest : Expands call body as bs) :
      Expands call body (a :: as) (a :: bs)
  | missing {a : α} {k : κ} {as bs : List α} (calls : call a = some k) (absent : body k = none)
      (rest : Expands call body as bs) : Expands call body (a :: as) bs
  | members {a : α} {k : κ} {as members xs bs : List α} (calls : call a = some k)
      (found : body k = some members) (inner : Expands call body members xs)
      (rest : Expands call body as bs) : Expands call body (a :: as) (xs ++ bs)

namespace Expands
variable {call : α → Option κ} {body : κ → Option (List α)}

/-- There is only one expansion. -/
theorem unique {as bs cs : List α} (h : Expands call body as bs) (h' : Expands call body as cs) :
    bs = cs := by
  induction h generalizing cs with
  | nil =>
    cases h'
    rfl
  | plain own _ ih =>
    cases h' with
    | plain _ rest => rw [ih rest]
    | missing calls | members calls => cases own.symm.trans calls
  | missing calls absent _ ih =>
    cases h' with
    | plain own => cases own.symm.trans calls
    | missing _ _ rest => exact ih rest
    | members calls' found =>
      cases calls.symm.trans calls'
      cases absent.symm.trans found
  | members calls found _ _ ihm ih =>
    cases h' with
    | plain own => cases own.symm.trans calls
    | missing calls' absent =>
      cases calls.symm.trans calls'
      cases absent.symm.trans found
    | members calls' found' inner rest =>
      cases calls.symm.trans calls'
      cases found.symm.trans found'
      rw [ihm inner,ih rest]

/-- Plain items are their own expansion. -/
theorem plain_items {call : α → Option κ} {body : κ → Option (List α)} {as bs : List α}
    (h : Expands call body as bs) : ∀ b ∈ bs, call b = none := by
  induction h with
  | nil => simp
  | plain own _ ih => simpa [own] using ih
  | missing _ _ _ ih => exact ih
  | members _ _ _ _ ihm ih =>
    intro b hb
    exact (List.mem_append.mp hb).elim (ihm b) (ih b)

/-- Where no name leads back to itself, every list expands. -/
theorem exists_of_wellFounded
    (wf : WellFounded fun child parent => ∃ members, body parent = some members ∧
      ∃ a ∈ members, call a = some child) (as : List α) : ∃ bs, Expands call body as bs := by
  have list (as : List α) (named : ∀ a ∈ as, ∀ k, call a = some k → ∀ members, body k = some members →
      ∃ xs, Expands call body members xs) : ∃ bs, Expands call body as bs := by
    induction as with
    | nil => exact ⟨[],.nil⟩
    | cons a as ih =>
      obtain ⟨bs,hbs⟩ := ih fun b hb => named b (List.mem_cons_of_mem a hb)
      cases hc : call a with
      | none => exact ⟨_,.plain hc hbs⟩
      | some k =>
        cases hk : body k with
        | none => exact ⟨_,.missing hc hk hbs⟩
        | some members =>
          obtain ⟨xs,hxs⟩ := named a List.mem_cons_self k hc members hk
          exact ⟨_,.members hc hk hxs hbs⟩
  have name (k : κ) : ∀ members, body k = some members → ∃ xs, Expands call body members xs := by
    induction k using wf.induction with
    | _ k ih =>
      intro members hk
      exact list members fun a ha child hc => ih child ⟨members,hk,a,ha,hc⟩
  exact list as fun a _ k _ => name k

/-- A list that matches another item by item, as do the members filed under matching names, expands
to a list that matches its expansion. -/
theorem translate {β ι : Type} {call' : β → Option ι} {body' : ι → Option (List β)} {P : α → β → Prop}
    (plain : ∀ a b, P a b → call a = none → call' b = none)
    (calls : ∀ a b k, P a b → call a = some k → ∃ i ms ns, call' b = some i ∧ body k = some ms ∧
      body' i = some ns ∧ List.Forall₂ P ms ns)
    {as as' : List α} (h : Expands call body as as') {bs : List β} (hp : List.Forall₂ P as bs) :
    ∃ bs', Expands call' body' bs bs' ∧ List.Forall₂ P as' bs' := by
  induction h generalizing bs with
  | nil =>
    cases hp
    exact ⟨[],.nil,.nil⟩
  | plain own _ ih =>
    cases hp with
    | cons ha hp =>
      obtain ⟨bs',he,hp'⟩ := ih hp
      exact ⟨_,.plain (plain _ _ ha own) he,.cons ha hp'⟩
  | missing hc absent _ _ =>
    cases hp with
    | cons ha hp =>
      obtain ⟨i,ms,ns,-,hb,-⟩ := calls _ _ _ ha hc
      cases absent.symm.trans hb
  | members hc found _ _ ihm ih =>
    cases hp with
    | cons ha hp =>
      obtain ⟨i,ms,ns,hc',hb,hb',hms⟩ := calls _ _ _ ha hc
      cases found.symm.trans hb
      obtain ⟨xs,hx,hpx⟩ := ihm hms
      obtain ⟨ys,hy,hpy⟩ := ih hp
      exact ⟨xs ++ ys,.members hc' hb' hx hy,List.rel_append hpx hpy⟩

end Expands

/-- Both return, what is related, or both fail alike, in a way that may be. -/
inductive Agree (R : β → β → Prop) (E : ε → Prop) : Except ε β → Except ε β → Prop
  | ok {b b' : β} (related : R b b') : Agree R E (.ok b) (.ok b')
  | error {err : ε} (may : E err) : Agree R E (.error err) (.error err)

/-- With enough fuel both settle, on results that agree. -/
def SettleAlike (R : β → β → Prop) (E : ε → Prop) (f g : ℕ → Except ε β) : Prop :=
  ∃ r r', Settles f r ∧ Settles g r' ∧ Agree R E r r'

namespace SettleAlike
variable {R R' : β → β → Prop} {E : ε → Prop} {f g : ℕ → Except ε β}

theorem mono (h : SettleAlike R E f g) (hR : ∀ b b', R b b' → R' b b') : SettleAlike R' E f g := by
  obtain ⟨r,r',hf,hg,ha⟩ := h
  refine ⟨r,r',hf,hg,?_⟩
  cases ha with
  | ok related => exact .ok (hR _ _ related)
  | error may => exact .error may

theorem bind {f' g' : ℕ → β → Except ε β} (h : SettleAlike R E f g)
    (hk : ∀ b b', R b b' → SettleAlike R E (fun n => f' n b) fun n => g' n b') :
    SettleAlike R E (fun n => f n >>= f' n) fun n => g n >>= g' n := by
  obtain ⟨r,r',hf,hg,ha⟩ := h
  cases ha with
  | ok related =>
    obtain ⟨s,s',hf',hg',ha'⟩ := hk _ _ related
    exact ⟨s,s',hf.bind (by rintro _ ⟨⟩; exact hf') (by rintro _ ⟨⟩),
      hg.bind (by rintro _ ⟨⟩; exact hg') (by rintro _ ⟨⟩),ha'⟩
  | error may =>
    exact ⟨_,_,hf.bind (by rintro _ ⟨⟩) fun _ he => he,hg.bind (by rintro _ ⟨⟩) fun _ he => he,
      .error may⟩

/-- A call that spends one unit of fuel and goes on as `f`. -/
theorem succ {f' : ℕ → Except ε β} (h : SettleAlike R E f g) (hf : ∀ n, f' (n+1) = f n) :
    SettleAlike R E f' g := by
  obtain ⟨r,r',hr,hr',ha⟩ := h
  exact ⟨r,r',hr.succ hf,hr',ha⟩

end SettleAlike

/-- A program that runs a plain item alike in related states, and an item that calls a name by running
the members, from a state that is as good as the one it was in. -/
structure Interprets (R : β → β → Prop) (E : ε → Prop) (call : α → Option κ)
    (body : κ → Option (List α)) (run : ℕ → β → α → Except ε β) : Prop where
  plain : ∀ a, call a = none → ∀ b b', R b b' → SettleAlike R E (fun n => run n b a) fun n => run n b' a
  missing : ∀ a k, call a = some k → body k = none → ∀ b b', R b b' →
    ∃ c, R c b' ∧ ∀ n, run (n+1) b a = .ok c
  members : ∀ a k members, call a = some k → body k = some members → ∀ b b', R b b' →
    ∃ c, R c b' ∧ ∀ n, run (n+1) b a = members.foldlM (run n) c

/-- Running a list is running its expansion. -/
theorem Interprets.foldlM {R : β → β → Prop} {E : ε → Prop} {call : α → Option κ}
    {body : κ → Option (List α)} {run : ℕ → β → α → Except ε β}
    (h : Interprets R E call body run) {as bs : List α} (hx : Expands call body as bs) {b b' : β}
    (hb : R b b') :
    SettleAlike R E (fun n => as.foldlM (run n) b) fun n => bs.foldlM (run n) b' := by
  induction hx generalizing b b' with
  | nil => exact ⟨_,_,.const _,.const _,.ok hb⟩
  | plain own _ ih =>
    simp only [List.foldlM_cons]
    exact (h.plain _ own b b' hb).bind fun _ _ hc => ih hc
  | @missing a k as bs calls absent _ ih =>
    obtain ⟨c,hc,hrun⟩ := h.missing a k calls absent b b' hb
    have hs : Settles (fun n => run n b a) (.ok c) := (Settles.const _).succ hrun
    obtain ⟨r,r',hr,hr',ha⟩ := ih hc
    simp only [List.foldlM_cons]
    exact ⟨r,r',hs.bind (by rintro _ ⟨⟩; exact hr) (by rintro _ ⟨⟩),hr',ha⟩
  | @members a k as members xs bs calls found _ _ ihm ih =>
    obtain ⟨c,hc,hrun⟩ := h.members a k members calls found b b' hb
    simp only [List.foldlM_cons,List.foldlM_append]
    exact ((ihm hc).succ hrun).bind fun _ _ hd => ih hd

end Library
