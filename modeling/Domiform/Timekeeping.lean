import Domiform.Adapter
import Domiform.Library.TimerLog

/-! The scheduler keeps time. Its map of pending timers is exactly what the log of its calls says,
and a tick reports the timers that fire at it, in order. -/
namespace Domiform
open Library

namespace SchedulerAdapter

/-- One call; `n` is the point of the execution. -/
def call (π : HashOrder) (n : ℕ) (s : SchedulerAdapter) (x : Millis × TimerCall TimerKey) :
    List Event × SchedulerAdapter :=
  match x.2 with
  | .schedule key after => ([],(s.dispatch (.scheduleTimer key after) x.1).2)
  | .cancel key => ([],(s.dispatch (.cancelTimer key) x.1).2)
  | .tick => s.tick π n x.1

/-- The scheduler after the calls of a log. -/
def after (π : HashOrder) (log : TimerLog TimerKey) : SchedulerAdapter :=
  log.zipIdx.foldl (fun s x => (s.call π x.2 x.1).2) ⟨∅⟩

theorem after_concat (π : HashOrder) (log : TimerLog TimerKey)
    (x : Millis × TimerCall TimerKey) :
    after π (log ++ [x]) = ((after π log).call π log.length x).2 := by
  simp [after,List.zipIdx_append]

/-- No sum of an instant and a delay overflows. -/
def Fits (log : TimerLog TimerKey) : Prop :=
  ∀ t key after, (t,TimerCall.schedule key after) ∈ log → t+after < 2^64

/-- What is pending is what stands. -/
theorem lookup_after (π : HashOrder) {log : TimerLog TimerKey} (fits : Fits log) (key : TimerKey)
    (due : Millis) :
    (after π log).pending.lookup key = some due ↔ ∃ i, log.Stands i key due := by
  induction log using List.reverseRecOn with
  | nil => simp [after,TimerLog.not_stands_nil]
  | append_singleton log x ih =>
    have before := ih fun t key after h => fits t key after (List.mem_append_left _ h)
    obtain ⟨t,c⟩ := x
    rw [after_concat,TimerLog.exists_stands_concat,← before]
    cases c with
    | schedule k d =>
      have hd := fits t k d (by simp)
      rw [call,lookup_scheduleTimer,addMillis_of_lt hd]
      by_cases hk : key = k
      · simp [hk,TimerLog.Ends,eq_comm]
      · simp [hk,TimerLog.Ends,Ne.symm hk]
    | cancel k =>
      rw [call,lookup_cancelTimer]
      by_cases hk : key = k
      · simp [hk,TimerLog.Ends]
      · simp [hk,TimerLog.Ends,Ne.symm hk]
    | tick =>
      rw [call,lookup_tick]
      simp only [TimerLog.Ends,reduceCtorEq,false_and,exists_false,false_or,true_and,not_le]
      split_ifs with gone
      · obtain ⟨t',ht',hle⟩ := gone
        rw [ht']
        simp only [Option.some.injEq,false_iff,not_and,not_lt]
        rintro rfl
        exact hle
      · refine ⟨fun h => ⟨h,?_⟩,And.left⟩
        by_contra hle
        exact gone ⟨due,h,not_lt.mp hle⟩

/-- The timers of a tick, in order, each with the call that scheduled it. -/
theorem tick_after (π : HashOrder) {log : TimerLog TimerKey} (fits : Fits log) (n : ℕ)
    (now : Millis) : ∃ l : List (ℕ × Millis × TimerKey), (l.map Prod.fst).Nodup ∧
      (l.map Prod.snd).Pairwise dueLe ∧
      (∀ i due key, (i,due,key) ∈ l ↔ log.Stands i key due ∧ due ≤ now) ∧
      ((after π log).tick π n now).1 = l.map fun x => .timerElapsed x.2.2 := by
  have scheduled (e : Millis × TimerKey) (he : e ∈ (after π log).due π n now) :
      ∃ i, log.Stands i e.2 e.1 := (lookup_after π fits e.2 e.1).mp (mem_due.mp he).1
  choose! origin scheduled_at using scheduled
  have hsnd : (((after π log).due π n now).map fun e => (origin e,e)).map Prod.snd =
      (after π log).due π n now := by
    rw [List.map_map]
    exact List.map_id _
  refine ⟨((after π log).due π n now).map fun e => (origin e,e),?_,?_,?_,?_⟩
  · rw [List.map_map]
    refine List.Nodup.map_on ?_ (List.Nodup.of_map _ (due_keys_nodup π n (after π log) now))
    intro e he e' he' heq
    have h := scheduled_at e he
    rw [show origin e = origin e' from heq] at h
    obtain ⟨hk,hd⟩ := h.entry_unique (scheduled_at e' he')
    exact Prod.ext hd hk
  · rw [hsnd]
    exact List.pairwise_insertionSort dueLe _
  · intro i due key
    constructor
    · intro h
      obtain ⟨e,he,heq⟩ := List.mem_map.mp h
      cases heq
      exact ⟨scheduled_at _ he,(mem_due.mp he).2⟩
    · rintro ⟨h,hle⟩
      have he : (due,key) ∈ (after π log).due π n now :=
        mem_due.mpr ⟨(lookup_after π fits key due).mpr ⟨i,h⟩,hle⟩
      have hi : origin (due,key) = i := ((scheduled_at _ he).unique h).1
      exact List.mem_map.mpr ⟨_,he,by rw [hi]⟩
  · rw [tick,List.map_map,List.map_map]
    rfl

/-- Two ticks in a row take out what the later one alone would have. -/
theorem due_append (s : SchedulerAdapter) (π : HashOrder) (n n' n'' : ℕ) {t₁ t₂ : Millis}
    (h : t₁ ≤ t₂) : s.due π n t₁ ++ (s.tick π n t₁).2.due π n' t₂ = s.due π n'' t₂ := by
  have nodup (s : SchedulerAdapter) (n : ℕ) (t : Millis) : (s.due π n t).Nodup :=
    List.Nodup.of_map _ (due_keys_nodup π n s t)
  have left_over {t : Millis} {key : TimerKey} (hm : (t,key) ∈ (s.tick π n t₁).2.due π n' t₂) :
      s.pending.lookup key = some t ∧ t₁ < t ∧ t ≤ t₂ := by
    obtain ⟨hl,hle⟩ := mem_due.mp hm
    rw [lookup_tick] at hl
    split_ifs at hl with gone
    exact ⟨hl,Nat.lt_of_not_le fun ht => gone ⟨t,hl,ht⟩,hle⟩
  have sorted : (s.due π n t₁ ++ (s.tick π n t₁).2.due π n' t₂).Pairwise dueLe := by
    refine List.pairwise_append.mpr ⟨List.pairwise_insertionSort dueLe _,
      List.pairwise_insertionSort dueLe _,fun a ha b hb => .inl ?_⟩
    exact (mem_due.mp ha).2.trans_lt (left_over hb).2.1
  refine List.Perm.eq_of_pairwise' sorted (List.pairwise_insertionSort dueLe _) ?_
  refine (List.perm_ext_iff_of_nodup ?_ (nodup s n'' t₂)).mpr fun e => ?_
  · refine List.nodup_append'.mpr ⟨nodup s n t₁,nodup _ n' t₂,fun e he he' => ?_⟩
    exact absurd (mem_due.mp he).2 (Nat.not_le.mpr (left_over he').2.1)
  · obtain ⟨t,key⟩ := e
    constructor
    · intro hm
      rcases List.mem_append.mp hm with hm | hm
      · obtain ⟨hl,hle⟩ := mem_due.mp hm
        exact mem_due.mpr ⟨hl,hle.trans h⟩
      · obtain ⟨hl,-,hle⟩ := left_over hm
        exact mem_due.mpr ⟨hl,hle⟩
    · intro hm
      obtain ⟨hl,hle⟩ := mem_due.mp hm
      by_cases ht : t ≤ t₁
      · exact List.mem_append_left _ (mem_due.mpr ⟨hl,ht⟩)
      · refine List.mem_append_right _ (mem_due.mpr ⟨?_,hle⟩)
        rw [lookup_tick,if_neg,hl]
        rintro ⟨t',hl',ht'⟩
        cases hl.symm.trans hl'
        exact ht ht'

theorem tick_tick (s : SchedulerAdapter) (π : HashOrder) (n n' n'' : ℕ) {t₁ t₂ : Millis}
    (h : t₁ ≤ t₂) :
    (s.tick π n t₁).1 ++ ((s.tick π n t₁).2.tick π n' t₂).1 = (s.tick π n'' t₂).1 ∧
      ((s.tick π n t₁).2.tick π n' t₂).2 = (s.tick π n'' t₂).2 := by
  have hd := s.due_append π n n' n'' h
  have reported (s : SchedulerAdapter) (n : ℕ) (t : Millis) :
      (s.tick π n t).1 = ((s.due π n t).map Prod.snd).map Event.timerElapsed := rfl
  have left (s : SchedulerAdapter) (n : ℕ) (t : Millis) : (s.tick π n t).2 =
      ⟨((s.due π n t).map Prod.snd).foldl (fun m key => m.erase key) s.pending⟩ := rfl
  constructor
  · rw [reported s n t₁,reported _ n' t₂,reported s n'' t₂,← hd,List.map_append,List.map_append]
  · rw [left _ n' t₂,left s n'' t₂,← hd,List.map_append,List.foldl_append]
    rfl

/-- Every tick reports, in the order of their times and keys, the timers that fire at it, each
scheduled by a call of its own; a timer fires at one tick at most; and a tick that follows another
one adds what the later one alone would have reported on top. -/
theorem scheduler_keeps_time (π : HashOrder) {log : TimerLog TimerKey} (fits : Fits log) :
    (∀ j now, log[j]? = some (now,.tick) → ∃ l : List (ℕ × Millis × TimerKey),
      (l.map Prod.fst).Nodup ∧ (l.map Prod.snd).Pairwise dueLe ∧
      (∀ i due key, (i,due,key) ∈ l ↔ log.Fires i j key due) ∧
      ((after π (log.take j)).call π j (now,.tick)).1 = l.map fun x => .timerElapsed x.2.2) ∧
    (∀ i j j' key key' due due', log.Fires i j key due → log.Fires i j' key' due' → j = j') ∧
    ∀ (s : SchedulerAdapter) n n' n'' t₁ t₂, t₁ ≤ t₂ →
      (s.tick π n t₁).1 ++ ((s.tick π n t₁).2.tick π n' t₂).1 = (s.tick π n'' t₂).1 ∧
        ((s.tick π n t₁).2.tick π n' t₂).2 = (s.tick π n'' t₂).2 := by
  refine ⟨fun j now hj => ?_,fun i j j' key key' due due' h h' => h.unique h',
    fun s n n' n'' t₁ t₂ h => tick_tick s π n n' n'' h⟩
  have hfits : Fits (log.take j) := fun t key after h => fits t key after (List.mem_of_mem_take h)
  obtain ⟨l,nodup,sorted,hmem,hout⟩ := tick_after π hfits j now
  refine ⟨l,nodup,sorted,fun i due key => ?_,hout⟩
  rw [hmem,TimerLog.fires_iff]
  constructor
  · rintro ⟨hs,hle⟩
    exact ⟨now,hj,hle,hs⟩
  · rintro ⟨now',hj',hle,hs⟩
    cases hj.symm.trans hj'
    exact ⟨hs,hle⟩

/-- A lamp timer that is set again before it is due. -/
def lampLog : TimerLog TimerKey :=
  [(0,.schedule ⟨"off"⟩ 5),(3,.schedule ⟨"off"⟩ 5),(5,.tick),(9,.tick)]

theorem lampLog_keeps_time : ∃ l : List (ℕ × Millis × TimerKey), (1,8,⟨"off"⟩) ∈ l ∧
    ((after .identity (lampLog.take 3)).call .identity 3 (9,.tick)).1 =
      l.map fun x => .timerElapsed x.2.2 := by
  have fits : Fits lampLog := by
    intro t key after h
    simp only [lampLog,List.mem_cons,Prod.mk.injEq,TimerCall.schedule.injEq,reduceCtorEq,
      and_false,List.not_mem_nil,or_false] at h
    omega
  obtain ⟨l,-,-,hmem,hout⟩ := (scheduler_keeps_time .identity fits).1 3 9 rfl
  refine ⟨l,(hmem 1 8 ⟨"off"⟩).mpr ?_,hout⟩
  refine ⟨3,5,9,rfl,rfl,by decide,rfl,by decide,fun m x hm hm' hx => ?_⟩
  obtain rfl : m = 2 := by omega
  cases hx
  simp [TimerLog.Ends]

end SchedulerAdapter
end Domiform
