import Domiform.Library.Watching

/-! Waking the host. A wake is a token in an unbounded channel; a wait takes one token, and does not
ask for the others. Times are in the units of the timeouts. -/
namespace Domiform
open Library

inductive WakeReason
  | signaled
  | timedOut
  deriving DecidableEq, Repr

/-- Where the host is: not in `wait`, in `recv_timeout`, or in the sleep it makes of a wait once no
waker is left. -/
inductive WakeListener
  | idle
  | receiving (start timeout : ℕ)
  | sleeping (start timeout since : ℕ)
  deriving DecidableEq, Repr

/-- The channel: its tokens, the live clones of its `Waker`, its listener, and the time. -/
structure WakeChannel where
  queued : ℕ
  wakers : ℕ
  listener : WakeListener
  now : ℕ
  deriving DecidableEq, Repr

inductive WakeEvent
  | wake
  | clone
  | drop
  | wait (timeout : ℕ)
  | elapse (dt : ℕ)
  | disconnected
  | returned (reason : WakeReason)
  deriving DecidableEq, Repr

/-- `wake_channel`. -/
def wakeChannel : WakeChannel := ⟨0,1,.idle,0⟩

namespace WakeChannel

/-- Time does not pass a return that is due. -/
def mayElapse (c : WakeChannel) (dt : ℕ) : Bool :=
  match c.listener with
  | .idle => true
  | .receiving start timeout =>
    decide (c.queued = 0 ∧ 0 < c.wakers ∧ c.now+dt ≤ start+timeout)
  | .sleeping _ timeout since => decide (c.now+dt ≤ since+timeout)

/-- What `recv_timeout` gives, or the sleep that stands in for it; a token comes before all. -/
def answer (c : WakeChannel) : WakeReason → Option WakeChannel
  | .signaled =>
    match c.listener with
    | .receiving _ _ =>
      if 0 < c.queued then some { c with queued := c.queued-1,listener := .idle } else none
    | _ => none
  | .timedOut =>
    match c.listener with
    | .idle => none
    | .receiving start timeout =>
      if c.queued = 0 ∧ 0 < c.wakers ∧ start+timeout ≤ c.now then some { c with listener := .idle }
      else none
    | .sleeping _ timeout since =>
      if since+timeout ≤ c.now then some { c with listener := .idle } else none

def step (c : WakeChannel) : WakeEvent → Option WakeChannel
  | .wake => if 0 < c.wakers then some { c with queued := c.queued+1 } else none
  | .clone => if 0 < c.wakers then some { c with wakers := c.wakers+1 } else none
  | .drop => if 0 < c.wakers then some { c with wakers := c.wakers-1 } else none
  | .wait timeout =>
    if c.listener = .idle then some { c with listener := .receiving c.now timeout } else none
  | .elapse dt => if c.mayElapse dt then some { c with now := c.now+dt } else none
  | .disconnected =>
    match c.listener with
    | .receiving start timeout =>
      if c.queued = 0 ∧ c.wakers = 0 then
        some { c with listener := .sleeping start timeout c.now }
      else none
    | _ => none
  | .returned reason => c.answer reason

end WakeChannel

/-- What can be seen of a channel from outside: the time, the first wake since the last return, and
the call that is under way. -/
structure WakeWatch where
  now : ℕ
  woken : Option ℕ
  called : Option (ℕ × ℕ)

namespace WakeWatch

def see (w : WakeWatch) : WakeEvent → WakeWatch
  | .wake => { w with woken := w.woken.or (some w.now) }
  | .wait timeout => { w with called := some (w.now,timeout) }
  | .elapse dt => { w with now := w.now+dt }
  | .returned _ => { w with woken := none,called := none }
  | _ => w

def start : WakeWatch := ⟨0,none,none⟩

/-- A return is right: signaled at once if there was a wake since the last return, and otherwise not
before the timeout. -/
def Right (w : WakeWatch) : WakeReason → Prop
  | .signaled => ∃ t start timeout, w.woken = some t ∧ w.called = some (start,timeout) ∧
      w.now = max t start
  | .timedOut => w.woken = none ∧ ∃ start timeout, w.called = some (start,timeout) ∧
      start+timeout ≤ w.now

end WakeWatch

/-- The call that is under way: when it began, and its timeout. -/
def WakeListener.call : WakeListener → Option (ℕ × ℕ)
  | idle => none
  | receiving start timeout => some (start,timeout)
  | sleeping start timeout _ => some (start,timeout)

/-- Every return of a wait is right. -/
def Coalesced : List WakeEvent → Prop :=
  Always WakeWatch.see .start fun w e => ∀ reason, e = .returned reason → w.Right reason

/-- Every wake is the first since the last return. -/
def Spaced : List WakeEvent → Prop :=
  Always WakeWatch.see .start fun w e => e = .wake → w.woken = none

namespace WakeChannel
variable {c c' : WakeChannel} {w : WakeWatch} {e : WakeEvent}

theorem answer_signaled : c.answer .signaled = some c' ↔
    (∃ start timeout, c.listener = .receiving start timeout) ∧ 0 < c.queued ∧
      c' = { c with queued := c.queued-1,listener := .idle } := by
  rw [answer]
  cases hl : c.listener with
  | idle => simp
  | sleeping start timeout since => simp
  | receiving start timeout => simp [eq_comm]

theorem answer_timedOut (h : c.answer .timedOut = some c') : c' = { c with listener := .idle } ∧
    ((∃ start timeout, c.listener = .receiving start timeout ∧ c.queued = 0 ∧ 0 < c.wakers ∧
        start+timeout ≤ c.now) ∨
      ∃ start timeout since, c.listener = .sleeping start timeout since ∧ since+timeout ≤ c.now) := by
  rw [answer] at h
  cases hl : c.listener with
  | idle => simp [hl] at h
  | receiving start timeout =>
    simp only [hl,Option.ite_none_right_eq_some,Option.some.injEq] at h
    obtain ⟨hg,rfl⟩ := h
    exact ⟨rfl,.inl ⟨start,timeout,rfl,hg⟩⟩
  | sleeping start timeout since =>
    simp only [hl,Option.ite_none_right_eq_some,Option.some.injEq] at h
    obtain ⟨hg,rfl⟩ := h
    exact ⟨rfl,.inr ⟨start,timeout,since,rfl,hg⟩⟩

/-- What is seen is so. A wake since the last return has left a token, and a host that waits takes it
at once; a sleeping host has no waker left. -/
structure Agrees (c : WakeChannel) (w : WakeWatch) : Prop where
  now : w.now = c.now
  called : w.called = c.listener.call
  pending : ∀ t, w.woken = some t → 0 < c.queued ∧ t ≤ c.now
  prompt : ∀ t start timeout, c.listener = .receiving start timeout → w.woken = some t →
    c.now = max t start
  started : ∀ start timeout, c.listener = .receiving start timeout → start ≤ c.now
  asleep : ∀ start timeout since, c.listener = .sleeping start timeout since →
    c.queued = 0 ∧ c.wakers = 0 ∧ start ≤ since

theorem agrees_start : Agrees wakeChannel .start := by
  constructor <;> simp [wakeChannel,WakeWatch.start,WakeListener.call]

namespace Agrees

theorem wake (h : Agrees c w) (hs : c.step .wake = some c') : Agrees c' (w.see .wake) := by
  simp only [step,Option.ite_none_right_eq_some,Option.some.injEq] at hs
  obtain ⟨hw,rfl⟩ := hs
  refine ⟨h.now,h.called,?_,?_,h.started,?_⟩
  · intro t ht
    refine ⟨Nat.succ_pos _,?_⟩
    rcases Option.or_eq_some_iff.mp ht with ht | ⟨-,⟨⟩⟩
    · exact (h.pending t ht).2
    · exact h.now.le
  · intro t start timeout hl ht
    rcases Option.or_eq_some_iff.mp ht with ht | ⟨-,⟨⟩⟩
    · exact h.prompt t start timeout hl ht
    · have := h.started start timeout hl
      have := h.now
      dsimp only
      omega
  · intro start timeout since hl
    have := (h.asleep start timeout since hl).2.1
    omega

theorem wait {timeout : ℕ} (h : Agrees c w) (hs : c.step (.wait timeout) = some c') :
    Agrees c' (w.see (.wait timeout)) := by
  simp only [step,Option.ite_none_right_eq_some,Option.some.injEq] at hs
  obtain ⟨hi,rfl⟩ := hs
  refine ⟨h.now,?_,h.pending,?_,?_,?_⟩
  · rw [WakeWatch.see,h.now]
    rfl
  · rintro t start timeout' ⟨⟩ ht
    exact (max_eq_right (h.pending t ht).2).symm
  · rintro start timeout' ⟨⟩
    exact le_rfl
  · rintro start timeout' since ⟨⟩

theorem elapse {dt : ℕ} (h : Agrees c w) (hs : c.step (.elapse dt) = some c') :
    Agrees c' (w.see (.elapse dt)) := by
  simp only [step,Option.ite_none_right_eq_some,Option.some.injEq] at hs
  obtain ⟨hm,rfl⟩ := hs
  refine ⟨congrArg (· + dt) h.now,h.called,?_,?_,?_,h.asleep⟩
  · intro t ht
    obtain ⟨hq,hle⟩ := h.pending t ht
    exact ⟨hq,hle.trans (Nat.le_add_right _ _)⟩
  · intro t start timeout hl ht
    have hq := (h.pending t ht).1
    have hl' : c.listener = .receiving start timeout := hl
    simp only [mayElapse,hl',decide_eq_true_eq] at hm
    omega
  · intro start timeout hl
    exact (h.started start timeout hl).trans (Nat.le_add_right _ _)

theorem disconnected (h : Agrees c w) (hs : c.step .disconnected = some c') :
    Agrees c' (w.see .disconnected) := by
  rw [step] at hs
  cases hl : c.listener with
  | idle => simp [hl] at hs
  | sleeping start timeout since => simp [hl] at hs
  | receiving start timeout =>
    simp only [hl,Option.ite_none_right_eq_some,Option.some.injEq] at hs
    obtain ⟨⟨hq,hw⟩,rfl⟩ := hs
    refine ⟨h.now,?_,h.pending,?_,?_,?_⟩
    · have hc := h.called
      rw [hl] at hc
      exact hc
    · rintro t start' timeout' ⟨⟩
    · rintro start' timeout' ⟨⟩
    · rintro start' timeout' since ⟨⟩
      exact ⟨hq,hw,h.started start timeout hl⟩

/-- A return clears the call and what was seen since the last return. -/
theorem returned {reason : WakeReason} (h : Agrees c w)
    (hs : c.step (.returned reason) = some c') : Agrees c' (w.see (.returned reason)) := by
  have idle : c'.now = c.now ∧ c'.listener = .idle := by
    cases reason with
    | signaled =>
      obtain ⟨-,-,rfl⟩ := answer_signaled.mp hs
      exact ⟨rfl,rfl⟩
    | timedOut =>
      obtain ⟨rfl,-⟩ := answer_timedOut hs
      exact ⟨rfl,rfl⟩
  refine ⟨h.now.trans idle.1.symm,?_,?_,?_,?_,?_⟩
  · rw [idle.2]
    rfl
  · rintro t ⟨⟩
  · rintro t start timeout - ⟨⟩
  · intro start timeout hl
    cases idle.2.symm.trans hl
  · intro start timeout since hl
    cases idle.2.symm.trans hl

theorem step (h : Agrees c w) (hs : c.step e = some c') : Agrees c' (w.see e) := by
  cases e with
  | wake => exact h.wake hs
  | wait timeout => exact h.wait hs
  | elapse dt => exact h.elapse hs
  | disconnected => exact h.disconnected hs
  | returned reason => exact h.returned hs
  | clone | drop =>
    simp only [WakeChannel.step,Option.ite_none_right_eq_some,Option.some.injEq] at hs
    obtain ⟨hw,rfl⟩ := hs
    refine ⟨h.now,h.called,h.pending,h.prompt,h.started,fun start timeout since hl => ?_⟩
    have := (h.asleep start timeout since hl).2.1
    omega

/-- A host that waits with a wake to its name returns with it: time stands still until then. -/
theorem answered (h : Agrees c w) (woken : w.woken.isSome) (called : w.called.isSome) :
    (c.step (.returned .signaled)).isSome ∧ c.step (.returned .timedOut) = none ∧
      ∀ dt, c.step (.elapse dt) = none := by
  obtain ⟨t,ht⟩ := Option.isSome_iff_exists.mp woken
  obtain ⟨hq,-⟩ := h.pending t ht
  rw [h.called] at called
  cases hl : c.listener with
  | idle => simp [hl,WakeListener.call] at called
  | sleeping start timeout since =>
    have := (h.asleep start timeout since hl).1
    omega
  | receiving start timeout =>
    refine ⟨?_,?_,fun dt => ?_⟩
    · simp [WakeChannel.step,answer,hl,hq]
    · simp [WakeChannel.step,answer,hl,hq.ne']
    · simp [WakeChannel.step,mayElapse,hl,hq.ne']

/-- A return is right exactly if it tells whether there was a wake. -/
theorem right_iff {reason : WakeReason} (h : Agrees c w)
    (hs : c.step (.returned reason) = some c') :
    w.Right reason ↔ (w.woken ≠ none ↔ reason = .signaled) := by
  cases reason with
  | signaled =>
    obtain ⟨⟨start,timeout,hl⟩,-,-⟩ := answer_signaled.mp hs
    constructor
    · rintro ⟨t,-,-,ht,-⟩
      simp [ht]
    · intro hw
      obtain ⟨t,ht⟩ := Option.ne_none_iff_exists'.mp (hw.mpr rfl)
      refine ⟨t,start,timeout,ht,?_,h.now.trans (h.prompt t start timeout hl ht)⟩
      rw [h.called,hl]
      rfl
  | timedOut =>
    obtain ⟨-,ended⟩ := answer_timedOut hs
    constructor
    · rintro ⟨hw,-⟩
      simp [hw]
    · intro hw
      refine ⟨by simpa using hw,?_⟩
      rcases ended with ⟨start,timeout,hl,-,-,hle⟩ | ⟨start,timeout,since,hl,hle⟩
      · exact ⟨start,timeout,by rw [h.called,hl]; rfl,by rw [h.now]; exact hle⟩
      · have := (h.asleep start timeout since hl).2.2
        exact ⟨start,timeout,by rw [h.called,hl]; rfl,by rw [h.now]; omega⟩

end Agrees

/-- No wake is lost: whoever times out had none. -/
theorem Agrees.woken_eq_none (h : Agrees c w) (hs : c.step (.returned .timedOut) = some c') :
    w.woken = none := by
  have empty : c.queued = 0 := by
    obtain ⟨-,⟨_,_,-,hq,-⟩ | ⟨start,timeout,since,hl,-⟩⟩ := answer_timedOut hs
    · exact hq
    · exact (h.asleep start timeout since hl).1
  by_contra hw
  obtain ⟨t,ht⟩ := Option.ne_none_iff_exists'.mp hw
  have := (h.pending t ht).1
  omega

/-- One token for a wake since the last return, and none else. -/
def Exact (c : WakeChannel) (w : WakeWatch) : Prop := (w.woken = none → c.queued = 0) ∧ c.queued ≤ 1

/-- More tokens than that. -/
def Surplus (c : WakeChannel) (w : WakeWatch) : Prop :=
  0 < c.queued ∧ (w.woken ≠ none → 1 < c.queued)

/-- Only a wake adds a token, and only a return takes one. -/
theorem step_quiet (hw : e ≠ .wake) (hr : ∀ reason, e ≠ .returned reason)
    (hs : c.step e = some c') : c'.queued = c.queued ∧ (w.see e).woken = w.woken := by
  cases e with
  | wake => exact absurd rfl hw
  | returned reason => exact absurd rfl (hr reason)
  | disconnected =>
    rw [step] at hs
    cases hl : c.listener with
    | idle => simp [hl] at hs
    | sleeping start timeout since => simp [hl] at hs
    | receiving start timeout =>
      simp only [hl,Option.ite_none_right_eq_some,Option.some.injEq] at hs
      obtain ⟨-,rfl⟩ := hs
      exact ⟨rfl,rfl⟩
  | clone | drop | wait | elapse =>
    simp only [step,Option.ite_none_right_eq_some,Option.some.injEq] at hs
    obtain ⟨-,rfl⟩ := hs
    exact ⟨rfl,rfl⟩

theorem step_wake (hs : c.step .wake = some c') :
    c'.queued = c.queued+1 ∧ (w.see .wake).woken ≠ none := by
  simp only [step,Option.ite_none_right_eq_some,Option.some.injEq] at hs
  obtain ⟨-,rfl⟩ := hs
  exact ⟨rfl,by simp [WakeWatch.see]⟩

/-- Wakes that come one at a time leave no token behind. -/
theorem Exact.step (agrees : Agrees c w) (h : Exact c w) (first : e = .wake → w.woken = none)
    (hs : c.step e = some c') : Exact c' (w.see e) := by
  by_cases hw : e = .wake
  · obtain ⟨hq,hn⟩ := step_wake (w := w) (hw ▸ hs)
    have := h.1 (first hw)
    rw [hw]
    exact ⟨fun hnone => absurd hnone hn,by omega⟩
  by_cases hr : ∃ reason, e = .returned reason
  · obtain ⟨reason,rfl⟩ := hr
    have empty : c'.queued = 0 := by
      have hle := h.2
      cases reason with
      | signaled =>
        obtain ⟨-,-,rfl⟩ := answer_signaled.mp hs
        dsimp only
        omega
      | timedOut =>
        obtain ⟨rfl,⟨_,_,-,hq,-⟩ | ⟨start,timeout,since,hl,-⟩⟩ := answer_timedOut hs
        · exact hq
        · exact (agrees.asleep start timeout since hl).1
    exact ⟨fun _ => empty,by omega⟩
  · obtain ⟨hq,hn⟩ := step_quiet (w := w) hw (fun reason he => hr ⟨reason,he⟩) hs
    rw [Exact,hq,hn]
    exact h

/-- A token left behind stays behind. -/
theorem Surplus.step (agrees : Agrees c w) (h : Surplus c w)
    (right : ∀ reason, e = .returned reason → w.Right reason) (hs : c.step e = some c') :
    Surplus c' (w.see e) := by
  by_cases hw : e = .wake
  · have hq := (step_wake (w := w) (hw ▸ hs)).1
    have := h.1
    exact ⟨by omega,fun _ => by omega⟩
  by_cases hr : ∃ reason, e = .returned reason
  · obtain ⟨reason,rfl⟩ := hr
    have hright := (agrees.right_iff hs).mp (right reason rfl)
    cases reason with
    | signaled =>
      obtain ⟨-,-,rfl⟩ := answer_signaled.mp hs
      have := h.2 (hright.mpr rfl)
      exact ⟨by dsimp only; omega,fun hn => absurd rfl hn⟩
    | timedOut =>
      have hpos := h.1
      obtain ⟨-,⟨_,_,-,hq,-⟩ | ⟨start,timeout,since,hl,-⟩⟩ := answer_timedOut hs
      · omega
      · have := (agrees.asleep start timeout since hl).1
        omega
  · obtain ⟨hq,hn⟩ := step_quiet (w := w) hw (fun reason he => hr ⟨reason,he⟩) hs
    rw [Surplus,hq,hn]
    exact h

end WakeChannel

open WakeChannel
variable {es : List WakeEvent} {c : WakeChannel}

/-- What has been seen of the channel. -/
def observe (es : List WakeEvent) : WakeWatch := es.foldl WakeWatch.see .start

theorem observe_concat (es : List WakeEvent) (e : WakeEvent) :
    observe (es ++ [e]) = (observe es).see e := List.foldl_append

theorem agrees_observe (run : play step wakeChannel es = some c) : c.Agrees (observe es) :=
  have always : Always WakeWatch.see .start (fun _ _ => True) es := fun _ _ _ _ => trivial
  play_invariant (fun _ _ _ _ h _ hs => h.step hs) agrees_start always run

/-- Spaced wakes are answered one by one. -/
theorem exact_of_spaced (spaced : Spaced es) (run : play step wakeChannel es = some c) :
    c.Exact (observe es) := by
  refine (play_invariant (I := fun c w => c.Agrees w ∧ c.Exact w) ?_
    ⟨agrees_start,fun _ => rfl,Nat.zero_le 1⟩ spaced run).2
  rintro c w e c' ⟨agrees,h⟩ first hs
  exact ⟨agrees.step hs,h.step agrees first hs⟩

/-- Without another wake, wakes stay spaced. -/
theorem Spaced.append {more : List WakeEvent} (h : Spaced es) (quiet : ∀ e ∈ more, e ≠ .wake) :
    Spaced (es ++ more) := by
  induction more using List.reverseRecOn with
  | nil => simpa using h
  | append_singleton more e ih =>
    rw [← List.append_assoc]
    refine always_concat.mpr ⟨ih fun e he => quiet e (List.mem_append_left _ he),?_⟩
    exact fun hw => absurd hw (quiet e (by simp))

theorem coalesced_of_spaced (spaced : Spaced es) (run : play step wakeChannel es = some c) :
    Coalesced es := by
  induction es using List.reverseRecOn generalizing c with
  | nil => exact always_nil
  | append_singleton es e ih =>
    obtain ⟨t,ht,hs⟩ := play_concat_eq_some.mp run
    obtain ⟨hes,-⟩ := always_concat.mp spaced
    refine always_concat.mpr ⟨ih hes ht,?_⟩
    rintro reason rfl
    have agrees := agrees_observe ht
    refine (agrees.right_iff hs).mpr ?_
    cases reason with
    | signaled =>
      refine iff_of_true (fun hn => ?_) rfl
      have := (exact_of_spaced hes ht).1 hn
      have := (answer_signaled.mp hs).2.1
      omega
    | timedOut => exact iff_of_false (not_not.mpr (agrees.woken_eq_none hs)) (by decide)

/-- A run that is right so far has had its wakes one at a time, or has left a token behind. -/
theorem spaced_or_surplus (right : Coalesced es) (run : play step wakeChannel es = some c) :
    Spaced es ∨ c.Surplus (observe es) := by
  induction es using List.reverseRecOn generalizing c with
  | nil => exact .inl always_nil
  | append_singleton es e ih =>
    obtain ⟨t,ht,hs⟩ := play_concat_eq_some.mp run
    obtain ⟨hes,he⟩ := always_concat.mp right
    have agrees := agrees_observe ht
    rw [observe_concat]
    rcases ih hes ht with spaced | surplus
    · by_cases first : e = .wake → (observe es).woken = none
      · exact .inl (always_concat.mpr ⟨spaced,first⟩)
      · obtain ⟨rfl,hn⟩ := Classical.not_imp.mp first
        obtain ⟨since,hw⟩ := Option.ne_none_iff_exists'.mp hn
        have := (agrees.pending since hw).1
        have := (step_wake (w := observe es) hs).1
        exact .inr ⟨by omega,fun _ => by omega⟩
    · exact .inr (surplus.step agrees he hs)

/-- However the host goes on to wait, its returns are right. -/
def StaysCoalesced (es : List WakeEvent) : Prop :=
  ∀ more c, (∀ e ∈ more, e ≠ .wake) → play step wakeChannel (es ++ more) = some c →
    Coalesced (es ++ more)

theorem StaysCoalesced.concat {e : WakeEvent} (h : StaysCoalesced es) (quiet : e ≠ .wake) :
    StaysCoalesced (es ++ [e]) := by
  intro more c hm run
  rw [List.append_assoc] at run ⊢
  exact h _ c (List.forall_mem_cons.mpr ⟨quiet,hm⟩) run

/-- A waiting host with a token takes it, and then there was a wake. -/
theorem StaysCoalesced.take (stays : StaysCoalesced es) (run : play step wakeChannel es = some c)
    (pos : 0 < c.queued) {start timeout : ℕ} (receiving : c.listener = .receiving start timeout) :
    (observe es).woken ≠ none ∧ play step wakeChannel (es ++ [.returned .signaled]) =
      some { c with queued := c.queued-1,listener := .idle } := by
  have hs : c.step (.returned .signaled) = some { c with queued := c.queued-1,listener := .idle } :=
    answer_signaled.mpr ⟨⟨start,timeout,receiving⟩,pos,rfl⟩
  have run' := play_concat_eq_some.mpr ⟨c,run,hs⟩
  have right := (always_concat.mp (stays [.returned .signaled] _ (by simp) run')).2 .signaled rfl
  exact ⟨((agrees_observe run).right_iff hs |>.mp right).mpr rfl,run'⟩

/-- A host that is idle can wait. -/
theorem play_wait (run : play step wakeChannel es = some c) (idle : c.listener = .idle) :
    play step wakeChannel (es ++ [.wait 0]) = some { c with listener := .receiving c.now 0 } :=
  play_concat_eq_some.mpr ⟨c,run,if_pos idle⟩

/-- A host that is idle, has heard of no wake and finds a token returns for nothing. -/
theorem StaysCoalesced.empty (stays : StaysCoalesced es) (run : play step wakeChannel es = some c)
    (idle : c.listener = .idle) (unheard : (observe es).woken = none) : c.queued = 0 := by
  by_contra pos
  have next := (stays.concat (e := .wait 0) (by simp)).take (play_wait run idle)
    (Nat.pos_of_ne_zero pos) rfl
  rw [observe_concat] at next
  exact next.1 unheard

/-- A host with a token left behind has only to wait, twice at most, to return for nothing. -/
theorem not_staysCoalesced_of_surplus (run : play step wakeChannel es = some c)
    (surplus : c.Surplus (observe es)) : ¬StaysCoalesced es := by
  have waiting {es : List WakeEvent} {c : WakeChannel} (run : play step wakeChannel es = some c)
      (surplus : c.Surplus (observe es)) {start timeout : ℕ}
      (receiving : c.listener = .receiving start timeout) : ¬StaysCoalesced es := by
    intro stays
    obtain ⟨hw,run'⟩ := stays.take run surplus.1 receiving
    have := (stays.concat (by simp)).empty run' rfl (by rw [observe_concat]; rfl)
    have := surplus.2 hw
    dsimp only at *
    omega
  cases hl : c.listener with
  | receiving start timeout => exact waiting run surplus hl
  | sleeping start timeout since =>
    have := ((agrees_observe run).asleep start timeout since hl).1
    have := surplus.1
    omega
  | idle =>
    intro stays
    have surplus' : Surplus { c with listener := .receiving c.now 0 } (observe (es ++ [.wait 0])) := by
      rw [observe_concat]
      exact surplus
    exact waiting (play_wait run hl) surplus' rfl (stays.concat (by simp))

/-- Wakes are never lost: a host that waits with a wake since the last return has it returned at once.
And they coalesce, whatever the host does next, exactly if each comes as the first since a return. -/
theorem wakes_coalesce_iff (run : play step wakeChannel es = some c) :
    ((observe es).woken.isSome → (observe es).called.isSome →
      (c.step (.returned .signaled)).isSome ∧ c.step (.returned .timedOut) = none ∧
        ∀ dt, c.step (.elapse dt) = none) ∧
      (StaysCoalesced es ↔ Spaced es) := by
  refine ⟨(agrees_observe run).answered,fun h => ?_,fun spaced more c' quiet run' => ?_⟩
  · have right : Coalesced es := by
      simpa using h [] c (by simp) (by simpa using run)
    refine (spaced_or_surplus right run).resolve_right fun surplus => ?_
    exact not_staysCoalesced_of_surplus run surplus h
  · exact coalesced_of_spaced (spaced.append quiet) run'

theorem lone_wake_coalesces : StaysCoalesced [.wake,.wait 5] := by
  have spaced : Spaced (([] ++ [.wake]) ++ [.wait 5]) := by
    refine always_concat.mpr ⟨always_concat.mpr ⟨always_nil,fun _ => rfl⟩,?_⟩
    rintro ⟨⟩
  have run : play step wakeChannel [.wake,.wait 5] = some _ := rfl
  exact (wakes_coalesce_iff run).2.mpr spaced

/-- Two devices report, the host waits and is woken, and waits again: it is woken for nothing. -/
theorem burst_wakes_twice : ∃ c,
    play step wakeChannel [.wake,.wake,.wait 5,.returned .signaled,.wait 5,.returned .signaled] =
        some c ∧
      ¬Coalesced [.wake,.wake,.wait 5,.returned .signaled,.wait 5,.returned .signaled] := by
  refine ⟨_,rfl,fun right => ?_⟩
  obtain ⟨t,-,-,⟨⟩,-⟩ := right [.wake,.wake,.wait 5,.returned .signaled,.wait 5]
    (.returned .signaled) [] rfl .signaled rfl

end Domiform
