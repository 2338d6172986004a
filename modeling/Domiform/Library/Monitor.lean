import Mathlib.Data.List.Basic
import Mathlib.Logic.Relation
import Mathlib.Tactic

/-! A monitor: a value behind a mutex, callers that wait on a condition variable until the value has
something for them, and a flag beside the mutex that tells them to give up. Who edits the value in
the callers' favour notifies them afterwards, and so does who raises the flag, both without the
mutex. -/
namespace Library
open Relation

/-- Where a caller is. With `held` and `checked` it has the mutex: it has yet to look at the flag, or
has seen it down. -/
inductive Caller
  | out
  | held
  | checked
  | asleep
  | woken (timedOut : Bool)
  deriving DecidableEq

namespace Caller

/-- It has the mutex. -/
def inside (c : Caller) : Prop := c = .held ∨ c = .checked

/-- The caller may still return without another look at the flag, and not to give up. -/
def committed : Caller → ℕ
  | .checked | .asleep | .woken true => 1
  | _ => 0

end Caller

/-- What a value has for a caller, and what edits do. What one caller takes, and an edit after which
nobody is notified, gives nothing to a caller that sleeps. -/
structure Interface (σ κ ε β : Type) where
  look : κ → σ → Option (β × σ)
  stop : β
  edit : ε → σ → σ
  notifies : ε → σ → Bool
  allowed : ε → (κ → Caller) → Prop
  apart : ∀ {w w' : κ} {s s' : σ} {b : β}, look w s = some (b,s') → w' ≠ w → look w' s = none →
    look w' s' = none
  quiet : ∀ {e : ε} {phase : κ → Caller} {w : κ} {s : σ}, allowed e phase → phase w = .asleep →
    notifies e s = false → look w s = none → look w (edit e s) = none

/-- What is done to the value and the flag. A call is one look, at both. -/
inductive Access (κ ε : Type)
  | call (w : κ)
  | edit (e : ε)
  | raise

namespace Access
variable {κ ε : Type}

/-- It is done under the mutex. -/
def guarded : Access κ ε → Bool
  | call _ | edit _ => true
  | raise => false

/-- It is none of the callers'. -/
def outer : Access κ ε → Bool
  | call _ => false
  | edit _ | raise => true

@[simp] theorem guarded_call (w : κ) : (call w : Access κ ε).guarded = true := rfl

@[simp] theorem guarded_raise : (raise : Access κ ε).guarded = false := rfl

@[simp] theorem outer_call (w : κ) : (call w : Access κ ε).outer = false := rfl

@[simp] theorem outer_raise : (raise : Access κ ε).outer = true := rfl

end Access

/-- `owing` counts the notifications to come. `returns`, `late` and `log` are ghosts: what the calls
gave, `none` after a time out; how many of a caller's returns since the flag was raised were others
than to give up; and all accesses in the order in which they took place, a call being there when it
looks. -/
structure Monitor (σ κ ε β : Type) where
  shared : σ
  raised : Bool
  holder : Option κ
  phase : κ → Caller
  owing : ℕ
  returns : List (κ × Option β)
  late : κ → ℕ
  log : List (Access κ ε)

namespace Monitor
variable {σ κ ε β : Type} [DecidableEq κ]

def start (s : σ) : Monitor σ κ ε β := ⟨s,false,none,fun _ => .out,0,[],fun _ => 0,[]⟩

/-- The ghost after a return that is none to give up. -/
def tardy (m : Monitor σ κ ε β) (w : κ) : κ → ℕ :=
  if m.raised then Function.update m.late w (m.late w+1) else m.late

inductive Step (I : Interface σ κ ε β) : Monitor σ κ ε β → Monitor σ κ ε β → Prop
  | enter (m : Monitor σ κ ε β) (w : κ) (out : m.phase w = .out) (free : m.holder = none) :
      Step I m { m with holder := some w, phase := Function.update m.phase w .held }
  | stop (m : Monitor σ κ ε β) (w : κ) (held : m.phase w = .held) (raised : m.raised = true) :
      Step I m
        { m with
          holder := none
          phase := Function.update m.phase w .out
          returns := m.returns ++ [(w,some I.stop)]
          log := m.log ++ [.call w] }
  | check (m : Monitor σ κ ε β) (w : κ) (held : m.phase w = .held) (down : m.raised = false) :
      Step I m { m with phase := Function.update m.phase w .checked }
  | take (m : Monitor σ κ ε β) (w : κ) (b : β) (s : σ) (checked : m.phase w = .checked)
      (found : I.look w m.shared = some (b,s)) :
      Step I m
        { m with
          shared := s
          holder := none
          phase := Function.update m.phase w .out
          returns := m.returns ++ [(w,some b)]
          late := m.tardy w
          log := m.log ++ [.call w] }
  /-- Releasing the mutex and falling asleep are one. -/
  | sleep (m : Monitor σ κ ε β) (w : κ) (checked : m.phase w = .checked)
      (nothing : I.look w m.shared = none) :
      Step I m
        { m with
          holder := none
          phase := Function.update m.phase w .asleep
          log := m.log ++ [.call w] }
  /-- After a time out, or for no reason. -/
  | wake (m : Monitor σ κ ε β) (w : κ) (timedOut : Bool) (asleep : m.phase w = .asleep) :
      Step I m { m with phase := Function.update m.phase w (.woken timedOut) }
  | resume (m : Monitor σ κ ε β) (w : κ) (woken : m.phase w = .woken false) (free : m.holder = none) :
      Step I m { m with holder := some w, phase := Function.update m.phase w .held }
  | expire (m : Monitor σ κ ε β) (w : κ) (woken : m.phase w = .woken true) (free : m.holder = none) :
      Step I m
        { m with
          phase := Function.update m.phase w .out
          returns := m.returns ++ [(w,none)]
          late := m.tardy w }
  | edit (m : Monitor σ κ ε β) (e : ε) (free : m.holder = none) (allowed : I.allowed e m.phase) :
      Step I m
        { m with
          shared := I.edit e m.shared
          owing := m.owing+if I.notifies e m.shared then 1 else 0
          log := m.log ++ [.edit e] }
  | notify (m : Monitor σ κ ε β) (owing : 0 < m.owing) :
      Step I m
        { m with
          owing := m.owing-1
          phase := fun w => if m.phase w = .asleep then .woken false else m.phase w }
  | raise (m : Monitor σ κ ε β) :
      Step I m { m with raised := true, owing := m.owing+1, log := m.log ++ [.raise] }

variable {I : Interface σ κ ε β} {m m' : Monitor σ κ ε β}

/-! ### What holds throughout -/

/-- The mutex excludes; nobody sleeps over what the value has for it, unless it will be notified;
and after the flag a caller returns at most once without giving up. -/
structure Kept (I : Interface σ κ ε β) (m : Monitor σ κ ε β) : Prop where
  mutex : ∀ w, (m.phase w).inside ↔ m.holder = some w
  alert : ∀ w, m.phase w = .asleep → m.owing = 0 → I.look w m.shared = none
  prompt : ∀ w, m.late w+(m.phase w).committed ≤ 1
  early : m.raised = false → ∀ w, m.late w = 0

omit [DecidableEq κ] in
theorem kept_start (s : σ) : (start s : Monitor σ κ ε β).Kept I := by
  refine ⟨fun w => ?_,fun w hw => ?_,fun w => ?_,fun _ w => rfl⟩
  · simp [start,Caller.inside]
  · cases hw
  · simp [start,Caller.committed]

namespace Kept

/-- One caller leaves the mutex. -/
theorem mutex_leave (h : m.Kept I) {w : κ} {p : Caller} (inside : (m.phase w).inside)
    (hp : ¬p.inside) (w' : κ) : (Function.update m.phase w p w').inside ↔ none = some w' := by
  have hw := (h.mutex w).mp inside
  by_cases he : w' = w
  · subst he
    simpa using hp
  · have hn : ¬(m.phase w').inside := by
      rw [h.mutex w',hw,Option.some.injEq]
      exact Ne.symm he
    simpa [he] using hn

/-- One caller enters it. -/
theorem mutex_enter (h : m.Kept I) {w : κ} {p : Caller} (free : m.holder = none) (hp : p.inside)
    (w' : κ) : (Function.update m.phase w p w').inside ↔ some w = some w' := by
  by_cases he : w' = w
  · subst he
    simpa using hp
  · have hn : ¬(m.phase w').inside := by simp [h.mutex w',free]
    simp [he,hn,Ne.symm he]

/-- One caller moves on its side of the mutex. -/
theorem mutex_move (h : m.Kept I) {w : κ} {p : Caller} (hp : p.inside ↔ (m.phase w).inside)
    (w' : κ) : (Function.update m.phase w p w').inside ↔ m.holder = some w' := by
  by_cases he : w' = w
  · subst he
    simpa [hp] using h.mutex w'
  · simpa [he] using h.mutex w'

/-- A caller that is put where it does not sleep wakes no question about sleepers. -/
theorem alert_of_awake (h : m.Kept I) {w : κ} {p : Caller} (hp : p ≠ .asleep) (w' : κ)
    (hw : Function.update m.phase w p w' = .asleep) (silent : m.owing = 0) :
    I.look w' m.shared = none := by
  by_cases he : w' = w
  · subst he
    rw [Function.update_self] at hw
    exact absurd hw hp
  · rw [Function.update_of_ne he] at hw
    exact h.alert w' hw silent

theorem prompt_move (h : m.Kept I) {w : κ} {p : Caller} (hp : p.committed ≤ (m.phase w).committed)
    (w' : κ) : m.late w'+(Function.update m.phase w p w').committed ≤ 1 := by
  have hw := h.prompt w'
  by_cases he : w' = w
  · subst he
    rw [Function.update_self]
    omega
  · rwa [Function.update_of_ne he]

/-- A committed caller returns. -/
theorem prompt_return (h : m.Kept I) {w : κ} (hc : (m.phase w).committed = 1) (w' : κ) :
    m.tardy w w'+(Function.update m.phase w .out w').committed ≤ 1 := by
  have hw := h.prompt w'
  have hl : m.tardy w w' ≤ m.late w'+if w' = w then 1 else 0 := by
    rw [tardy]
    split_ifs with hr he he
    · subst he
      rw [Function.update_self]
    · rw [Function.update_of_ne he]
      exact Nat.le_add_right _ _
    · exact Nat.le_add_right _ _
    · exact Nat.le_add_right _ _
  by_cases he : w' = w
  · subst he
    have hz : Caller.out.committed = 0 := rfl
    rw [Function.update_self,hz]
    rw [if_pos rfl] at hl
    omega
  · rw [Function.update_of_ne he]
    rw [if_neg he] at hl
    omega

theorem early_return (h : m.Kept I) (w : κ) (down : m.raised = false) (w' : κ) :
    m.tardy w w' = 0 := by
  rw [tardy,down]
  exact h.early down w'

theorem step (h : m.Kept I) (hs : Step I m m') : m'.Kept I := by
  cases hs with
  | enter w out free =>
    refine ⟨h.mutex_enter free (.inl rfl),h.alert_of_awake (by decide),?_,h.early⟩
    exact h.prompt_move (by simp [out,Caller.committed])
  | stop w held raised =>
    refine ⟨h.mutex_leave (.inl held) ?_,h.alert_of_awake (by decide),?_,h.early⟩
    · rintro (h | h) <;> cases h
    · exact h.prompt_move (by simp [held,Caller.committed])
  | check w held down =>
    refine ⟨h.mutex_move ?_,h.alert_of_awake (by decide),fun w' => ?_,h.early⟩
    · rw [held]
      exact ⟨fun _ => .inl rfl,fun _ => .inr rfl⟩
    · change m.late w'+(Function.update m.phase w .checked w').committed ≤ 1
      rw [h.early down w']
      by_cases he : w' = w
      · subst he
        simp [Caller.committed]
      · have := h.prompt w'
        rw [Function.update_of_ne he]
        omega
  | take w b s checked found =>
    refine ⟨h.mutex_leave (.inr checked) ?_,fun w' hw silent => ?_,?_,h.early_return w⟩
    · rintro (h | h) <;> cases h
    · have awake : w' ≠ w := by
        rintro rfl
        simp at hw
      exact I.apart found awake (h.alert_of_awake (p := .out) (by decide) w' hw silent)
    · exact h.prompt_return (by rw [checked]; rfl)
  | sleep w checked nothing =>
    refine ⟨h.mutex_leave (.inr checked) ?_,fun w' hw silent => ?_,?_,h.early⟩
    · rintro (h | h) <;> cases h
    · by_cases he : w' = w
      · subst he
        exact nothing
      · exact h.alert w' (by simpa [he] using hw) silent
    · exact h.prompt_move (by rw [checked]; rfl)
  | wake w timedOut asleep =>
    refine ⟨h.mutex_move ?_,h.alert_of_awake (by rintro ⟨⟩),?_,h.early⟩
    · simp [asleep,Caller.inside]
    · refine h.prompt_move ?_
      rw [asleep]
      cases timedOut <;> simp [Caller.committed]
  | resume w woken free =>
    refine ⟨h.mutex_enter free (.inl rfl),h.alert_of_awake (by decide),?_,h.early⟩
    exact h.prompt_move (by simp [woken,Caller.committed])
  | expire w woken free =>
    refine ⟨h.mutex_move ?_,h.alert_of_awake (by decide),?_,h.early_return w⟩
    · simp [woken,Caller.inside]
    · exact h.prompt_return (by rw [woken]; rfl)
  | edit e free allowed =>
    refine ⟨h.mutex,fun w hw silent => ?_,h.prompt,h.early⟩
    cases hn : I.notifies e m.shared with
    | true => simp [hn] at silent
    | false =>
      simp only [hn,Bool.false_eq_true,if_false,Nat.add_zero] at silent
      exact I.quiet allowed hw hn (h.alert w hw silent)
  | notify owing =>
    refine ⟨fun w => ?_,fun w hw => ?_,fun w => ?_,h.early⟩
    · rw [← h.mutex w]
      by_cases hw : m.phase w = .asleep
      · simp [hw,Caller.inside]
      · simp [hw]
    · by_cases ha : m.phase w = .asleep <;> simp [ha] at hw
    · have := h.prompt w
      by_cases hw : m.phase w = .asleep
      · simp only [hw,if_true,Caller.committed] at this ⊢
        omega
      · simpa [hw] using this
  | raise => exact ⟨h.mutex,fun w _ silent => absurd silent (Nat.succ_ne_zero _),h.prompt,nofun⟩

theorem run (h : m.Kept I) (hs : ReflTransGen (Step I) m m') : m'.Kept I := by
  induction hs with
  | refl => exact h
  | tail _ hs ih => exact ih.step hs

end Kept
end Monitor

/-! ### The monitor as one object -/

/-- The value and the flag. -/
structure Object (σ : Type) where
  shared : σ
  raised : Bool

namespace Object
variable {σ κ ε β : Type} {I : Interface σ κ ε β}

/-- What a call is given, if there is anything, and the object after the access. -/
def step (I : Interface σ κ ε β) (o : Object σ) : Access κ ε → List (κ × β) × Object σ
  | .call w =>
    if o.raised then ([(w,I.stop)],o)
    else
      match I.look w o.shared with
      | none => ([],o)
      | some (b,s) => ([(w,b)],{ o with shared := s })
  | .edit e => ([],{ o with shared := I.edit e o.shared })
  | .raise => ([],{ o with raised := true })

def run (I : Interface σ κ ε β) : List (Access κ ε) → Object σ → List (κ × β) × Object σ
  | [],o => ([],o)
  | x :: xs,o => ((o.step I x).1 ++ (run I xs (o.step I x).2).1,(run I xs (o.step I x).2).2)

theorem run_append (xs ys : List (Access κ ε)) (o : Object σ) :
    run I (xs ++ ys) o =
      ((run I xs o).1 ++ (run I ys (run I xs o).2).1,(run I ys (run I xs o).2).2) := by
  induction xs generalizing o with
  | nil => rfl
  | cons x xs ih => simp [run,ih]

theorem run_raises (n : ℕ) (o : Object σ) :
    run I (List.replicate n .raise) o = ([],{ o with raised := o.raised || decide (0 < n) }) := by
  induction n generalizing o with
  | zero => simp [run]
  | succ n ih => simp [List.replicate_succ,run,step,ih]

/-- A call past the flag, and then the raises that it did not see. -/
theorem run_call_raises {o : Object σ} (down : o.raised = false) (w : κ) (n : ℕ) :
    run I (.call w :: List.replicate n .raise) o =
      ((I.look w o.shared).toList.map fun x => (w,x.1),
        ⟨((I.look w o.shared).map Prod.snd).getD o.shared,decide (0 < n)⟩) := by
  obtain ⟨s,flag⟩ := o
  cases down
  cases h : I.look w s <;> simp [run,step,h,run_raises]

end Object

namespace Monitor
variable {σ κ ε β : Type} [DecidableEq κ] {I : Interface σ κ ε β} {m m' : Monitor σ κ ε β}

/-- Who has the mutex saw the flag down. -/
def unaware (m : Monitor σ κ ε β) : Bool :=
  m.holder.any fun w => decide (m.phase w = .checked)

/-- The flag counts as raised once nobody acts on an older look at it. -/
def object (m : Monitor σ κ ε β) : Object σ := ⟨m.shared,m.raised && !m.unaware⟩

/-- What the calls were given, time outs aside. -/
def given (m : Monitor σ κ ε β) : List (κ × β) :=
  m.returns.filterMap fun r => r.2.map fun b => (r.1,b)

omit [DecidableEq κ] in
theorem unaware_iff (h : m.Kept I) : m.unaware = true ↔ ∃ w, m.phase w = .checked := by
  rw [unaware,Option.any_eq_true]
  constructor
  · rintro ⟨w,-,hw⟩
    exact ⟨w,of_decide_eq_true hw⟩
  · rintro ⟨w,hw⟩
    exact ⟨w,(h.mutex w).mp (.inr hw),decide_eq_true hw⟩

omit [DecidableEq κ] in
theorem unaware_of_free (free : m.holder = none) : m.unaware = false := by
  rw [unaware,free]
  rfl

omit [DecidableEq κ] in
/-- The object depends on the callers only by who has seen the flag down. -/
theorem object_congr (h : m.Kept I) (h' : m'.Kept I) (shared : m'.shared = m.shared)
    (raised : m'.raised = m.raised) (hp : ∀ w, m'.phase w = .checked ↔ m.phase w = .checked) :
    m'.object = m.object := by
  have hu : m'.unaware = m.unaware := by
    rw [Bool.eq_iff_iff,unaware_iff h,unaware_iff h']
    exact exists_congr hp
  rw [object,object,shared,raised,hu]

/-- The accesses of a run as accesses of the object: under the mutex in the order in which they had it,
the edits and raises in theirs. The raises that the caller inside has not seen are still to come. -/
structure Linear (I : Interface σ κ ε β) (s : σ) (m : Monitor σ κ ε β) (xs : List (Access κ ε))
    (unseen : ℕ) : Prop where
  object : (Object.run I xs ⟨s,false⟩).2 = m.object
  given : m.given = (Object.run I xs ⟨s,false⟩).1
  guarded : xs.filter Access.guarded = m.log.filter Access.guarded
  outer : xs.filter Access.outer ++ List.replicate unseen .raise = m.log.filter Access.outer
  aware : m.unaware = false → unseen = 0
  raised : m.raised = (m.object.raised || decide (0 < unseen))

namespace Linear
variable {s : σ} {xs : List (Access κ ε)} {unseen : ℕ}

omit [DecidableEq κ] in
theorem nil (s : σ) : Linear I s (start s : Monitor σ κ ε β) [] 0 :=
  ⟨rfl,rfl,rfl,rfl,fun _ => rfl,rfl⟩

omit [DecidableEq κ] in
/-- An access that everybody is aware of. -/
theorem access (h : Linear I s m xs unseen) (aware : m.unaware = false) (x : Access κ ε)
    (object : m'.object = (m.object.step I x).2)
    (given : m'.given = m.given ++ (m.object.step I x).1) (log : m'.log = m.log ++ [x])
    (raised : m'.raised = m'.object.raised) : Linear I s m' (xs ++ [x]) 0 := by
  have outer := h.outer
  rw [h.aware aware,List.replicate_zero,List.append_nil] at outer
  refine ⟨?_,?_,?_,?_,fun _ => rfl,by simpa using raised⟩
  · rw [Object.run_append,h.object,object]
    rfl
  · rw [Object.run_append,h.object,given,h.given]
    simp [Object.run]
  · rw [List.filter_append,h.guarded,log,List.filter_append]
  · rw [List.filter_append,outer,log,List.filter_append,List.replicate_zero,List.append_nil]

omit [DecidableEq κ] in
/-- A caller that has seen the flag down looks, and lets go of the mutex. -/
theorem look (h : Linear I s m xs unseen) (kept : m.Kept I) {w : κ}
    (checked : m.phase w = .checked) (free : m'.holder = none) (raised : m'.raised = m.raised)
    (shared : m'.shared = ((I.look w m.shared).map Prod.snd).getD m.shared)
    (given : m'.given = m.given ++ (I.look w m.shared).toList.map fun x => (w,x.1))
    (log : m'.log = m.log ++ [.call w]) :
    Linear I s m' (xs ++ .call w :: List.replicate unseen .raise) 0 := by
  have before : m.object = ⟨m.shared,false⟩ := by
    rw [Monitor.object,(unaware_iff kept).mpr ⟨w,checked⟩]
    simp
  have after : m'.object = ⟨m'.shared,m'.raised⟩ := by
    rw [Monitor.object,unaware_of_free free]
    simp
  have flag : m.raised = decide (0 < unseen) := by
    rw [h.raised,before]
    rfl
  have hr := Object.run_call_raises (I := I) (o := ⟨m.shared,false⟩) rfl w unseen
  refine ⟨?_,?_,?_,?_,fun _ => rfl,by rw [after]; simp⟩
  · rw [Object.run_append,h.object,before,hr,after,shared,raised,flag]
  · rw [Object.run_append,h.object,before,hr,given,h.given]
  · rw [List.filter_append,h.guarded,log,List.filter_append]
    simp [List.filter_cons]
  · rw [log,List.filter_append,List.filter_append,← h.outer]
    simp

/-- Some callers move, none of them to or from an older look at the flag. -/
theorem moves (h : Linear I s m xs unseen) (kept : m.Kept I) (hs : Step I m m')
    (shared : m'.shared = m.shared) (raised : m'.raised = m.raised) (given : m'.given = m.given)
    (log : m'.log = m.log) (hp : ∀ w, m'.phase w = .checked ↔ m.phase w = .checked) :
    Linear I s m' xs unseen := by
  have same := object_congr kept (kept.step hs) shared raised hp
  have unaware : m'.unaware = m.unaware := by
    rw [Bool.eq_iff_iff,unaware_iff kept,unaware_iff (kept.step hs)]
    exact exists_congr hp
  refine ⟨by rw [same,h.object],by rw [given,h.given],by rw [log,h.guarded],by rw [log,h.outer],
    fun aware => h.aware (unaware ▸ aware),by rw [raised,same,h.raised]⟩

end Linear

theorem update_checked {w : κ} {p : Caller} (hw : m.phase w ≠ .checked) (hp : p ≠ .checked)
    (w' : κ) : Function.update m.phase w p w' = .checked ↔ m.phase w' = .checked := by
  by_cases he : w' = w
  · subst he
    simp [hw,hp]
  · rw [Function.update_of_ne he]

/-- A step of the callers and the editors is, for the object, no access, one, or a call and then the
raises that it had not seen. -/
theorem Step.linear {s : σ} {xs : List (Access κ ε)} {unseen : ℕ} (hs : Step I m m')
    (kept : m.Kept I) (h : Linear I s m xs unseen) : ∃ xs' unseen', Linear I s m' xs' unseen' := by
  cases hs with
  | enter w out free =>
    exact ⟨xs,unseen,h.moves kept (.enter m w out free) rfl rfl rfl rfl
      (update_checked (by simp [out]) (by decide))⟩
  | stop w held raised =>
    have aware : m.unaware = false := by
      rw [unaware,(kept.mutex w).mp (.inl held)]
      simp [held]
    have before : m.object = ⟨m.shared,true⟩ := by
      rw [object,aware,raised]
      rfl
    have same := object_congr kept (kept.step (.stop m w held raised)) rfl rfl
      (update_checked (by simp [held]) (by decide))
    refine ⟨_,_,h.access aware (.call w) ?_ ?_ rfl ?_⟩
    · rw [same,before]
      rfl
    · rw [before]
      simp [given,Object.step]
    · rw [same,before]
      exact raised
  | check w held down =>
    have aware : m.unaware = false := by
      rw [unaware,(kept.mutex w).mp (.inl held)]
      simp [held]
    have same : object { m with phase := Function.update m.phase w .checked } = m.object := by
      rw [object,object,down]
      rfl
    have none_unseen := h.aware aware
    refine ⟨xs,unseen,by rw [same,h.object],h.given,h.guarded,h.outer,fun _ => none_unseen,?_⟩
    rw [same]
    exact h.raised
  | take w b s' checked found =>
    exact ⟨_,_,h.look kept checked rfl rfl (by simp [found]) (by simp [given,found]) rfl⟩
  | sleep w checked nothing =>
    exact ⟨_,_,h.look kept checked rfl rfl (by simp [nothing]) (by simp [given,nothing]) rfl⟩
  | wake w timedOut asleep =>
    exact ⟨xs,unseen,h.moves kept (.wake m w timedOut asleep) rfl rfl rfl rfl
      (update_checked (by simp [asleep]) (by simp))⟩
  | resume w woken free =>
    exact ⟨xs,unseen,h.moves kept (.resume m w woken free) rfl rfl rfl rfl
      (update_checked (by simp [woken]) (by decide))⟩
  | expire w woken free =>
    exact ⟨xs,unseen,h.moves kept (.expire m w woken free) rfl rfl (by simp [given]) rfl
      (update_checked (by simp [woken]) (by decide))⟩
  | edit e free allowed =>
    have aware := unaware_of_free free
    refine ⟨_,_,h.access aware (.edit e) ?_ (by simp [given,Object.step]) rfl ?_⟩
    · simp [Object.step,object,unaware,free]
    · simp [object,unaware,free]
  | notify owing =>
    refine ⟨xs,unseen,h.moves kept (.notify m owing) rfl rfl rfl rfl fun w => ?_⟩
    by_cases hw : m.phase w = .asleep <;> simp [hw]
  | raise =>
    cases hu : m.unaware with
    | false =>
      have after : object { m with raised := true, owing := m.owing+1, log := m.log ++ [.raise] } =
          ⟨m.shared,true⟩ := by
        change Object.mk m.shared (true && !m.unaware) = _
        rw [hu]
        rfl
      refine ⟨_,_,h.access hu .raise ?_ (by simp [given,Object.step]) rfl ?_⟩
      · rw [after]
        rfl
      · rw [after]
    | true =>
      have same : object { m with raised := true, owing := m.owing+1, log := m.log ++ [.raise] } =
          m.object := by
        change Object.mk m.shared (true && !m.unaware) = _
        rw [object,hu]
        simp
      refine ⟨xs,unseen+1,by rw [same,h.object],h.given,?_,?_,fun aware => ?_,by simp⟩
      · rw [h.guarded,List.filter_append]
        simp
      · rw [List.filter_append,← h.outer,List.replicate_succ']
        simp [List.filter_cons]
      · cases hu.symm.trans aware

/-- Every run of the callers and the editors is one of the object, with the same returns: the accesses
under the mutex are in the order in which they had it, and so are the edits and raises among
themselves. -/
theorem linear_run {s : σ} (hs : ReflTransGen (Step I) (start s) m) : ∃ xs : List (Access κ ε),
    Object.run I xs ⟨s,false⟩ = (m.given,⟨m.shared,m.raised⟩) ∧
      xs.filter Access.guarded = m.log.filter Access.guarded ∧
      xs.filter Access.outer = m.log.filter Access.outer := by
  obtain ⟨xs,unseen,h⟩ : ∃ xs unseen, Linear I s m xs unseen := by
    induction hs with
    | refl => exact ⟨[],0,.nil s⟩
    | tail hr hs ih =>
      obtain ⟨xs,unseen,h⟩ := ih
      exact hs.linear ((kept_start s).run hr) h
  refine ⟨xs ++ List.replicate unseen .raise,?_,?_,?_⟩
  · have hr := Object.run_raises (I := I) unseen (Object.run I xs ⟨s,false⟩).2
    rw [Object.run_append,hr,h.object,← h.given,← h.raised,List.append_nil]
    rfl
  · rw [List.filter_append,h.guarded]
    simp
  · rw [← h.outer,List.filter_append]
    simp

end Monitor
end Library
