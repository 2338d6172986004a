import Domiform.Adapters.Clock
import Domiform.Library.Succession

/-! Schedules over a run of ticks. The first tick arms every schedule strictly after its instant;
from then on a tick fires what lies between the tick before and itself, so a sequence of ticks fires
what lies between its ends, wherever it is split. -/
namespace Domiform
open Library

/-- What is relied on of a cron library: `find_next_occurrence(t, false)` is the least occurrence
strictly after `t`, or an error when there is none. -/
def Cron.Follows (cron : Cron) (occurs : Set ℤ) : Prop :=
  ∀ t, NextIn occurs t (cron.findNextOccurrence t)

namespace ScheduleState

/-- The loop of one schedule goes through the occurrences up to the limit, and no further. -/
theorem occurrences_eq {cron : Cron} {occurs : Set ℤ} (follows : cron.Follows occurs) {a limit : ℤ}
    {fuel : ℕ} {next : Option ℤ} (hn : NextIn occurs a next) (hle : a ≤ limit)
    (enough : ∀ t, next = some t → limit-t < fuel) :
    (occurrences cron limit fuel next).1 = within occurs a limit ∧
      NextIn occurs limit (occurrences cron limit fuel next).2 := by
  induction fuel generalizing a next with
  | zero =>
    have ahead (t : ℤ) (ht : next = some t) : limit < t := by
      have := enough t ht
      omega
    rw [occurrences_of_lt ahead]
    exact ⟨(hn.within_eq_nil ahead).symm,hn.skip hle ahead⟩
  | succ fuel ih =>
    by_cases ahead : ∀ t, next = some t → limit < t
    · rw [occurrences_of_lt ahead]
      exact ⟨(hn.within_eq_nil ahead).symm,hn.skip hle ahead⟩
    · obtain ⟨t,rfl,ht⟩ : ∃ t, next = some t ∧ t ≤ limit := by
        simpa only [not_forall,not_lt,exists_prop] using ahead
      obtain ⟨hfired,hnext⟩ := ih (follows t) ht fun t' ht' => by
        have := cron.later t t' ht'
        have := enough t rfl
        omega
      rw [occurrences,if_neg (not_lt.mpr ht),hn.within_eq_cons ht]
      exact ⟨congrArg _ hfired,hnext⟩

/-- Once there is fuel enough, more of it makes no difference. -/
theorem occurrences_of_le {cron : Cron} {limit : ℤ} {fuel more : ℕ} {next : Option ℤ}
    (enough : ∀ t, next = some t → limit-t < fuel) (hle : fuel ≤ more) :
    occurrences cron limit more next = occurrences cron limit fuel next := by
  induction fuel generalizing more next with
  | zero =>
    have ahead (t : ℤ) (ht : next = some t) : limit < t := by
      have := enough t ht
      omega
    rw [occurrences_of_lt ahead,occurrences_of_lt ahead]
  | succ fuel ih =>
    obtain ⟨more,rfl⟩ := Nat.exists_eq_add_of_le' (Nat.succ_le_of_lt (Nat.zero_lt_of_lt hle))
    cases next with
    | none => rfl
    | some t =>
      rw [occurrences,occurrences,ih (fun t' ht' => ?_) (Nat.le_of_succ_le_succ hle)]
      have := cron.later t t' ht'
      have := enough t rfl
      omega

/-- The loop of a tick ends by itself, however much fuel beyond a bound it is given. -/
theorem fire_terminates (s : ScheduleState) (wall : ℤ) : ∃ n, ∀ fuel, n ≤ fuel →
    occurrences s.cron wall fuel (s.arm wall).nextFire =
        ((s.fire wall).1,(s.fire wall).2.nextFire) ∧
      ∀ t, (s.fire wall).2.nextFire = some t → wall < t := by
  have hcron : (s.arm wall).cron = s.cron := by
    unfold arm
    split_ifs <;> rfl
  refine ⟨((s.arm wall).nextFire.map fun next => (wall-next).toNat+1).getD 0,fun fuel hle => ?_⟩
  refine ⟨?_,(s.fire_ahead wall).2⟩
  rw [occurrences_of_le (fun t ht => ?_) hle,ScheduleState.fire,hcron]
  rw [ht,Option.map_some,Option.getD_some]
  omega

/-- The next occurrence after an instant is cached. -/
structure Tracks (occurs : Set ℤ) (wall : ℤ) (s : ScheduleState) : Prop where
  armed : s.armed = true
  next : NextIn occurs wall s.nextFire

variable {s : ScheduleState} {occurs : Set ℤ} {wall wall' : ℤ}

theorem Tracks.fire (follows : s.cron.Follows occurs) (h : s.Tracks occurs wall)
    (hle : wall ≤ wall') : (s.fire wall').1 = within occurs wall wall' ∧
      (s.fire wall').2.Tracks occurs wall' := by
  have harm : s.arm wall' = s := if_pos h.armed
  have enough (t : ℤ) (ht : s.nextFire = some t) :
      wall'-t < ((s.nextFire.map fun next => (wall'-next).toNat+1).getD 0 : ℕ) := by
    rw [ht,Option.map_some,Option.getD_some]
    omega
  obtain ⟨hfired,hnext⟩ := occurrences_eq follows h.next hle enough
  rw [ScheduleState.fire,harm]
  exact ⟨hfired,h.armed,hnext⟩

theorem fire_same (s : ScheduleState) (wall : ℤ) :
    (s.fire wall).2.id = s.id ∧ (s.fire wall).2.cron = s.cron := by
  by_cases h : s.armed = true
  · simp [ScheduleState.fire,arm,h]
  · simp [ScheduleState.fire,arm,h]

/-- Arming fires nothing, not even an occurrence at the very instant. -/
theorem fire_unarmed (follows : s.cron.Follows occurs) (unarmed : s.armed = false) (wall : ℤ) :
    (s.fire wall).1 = [] ∧ (s.fire wall).2.Tracks occurs wall := by
  have harm : s.arm wall = { s with nextFire := s.cron.findNextOccurrence wall,armed := true } :=
    if_neg (by simp [unarmed])
  have ahead := s.cron.later wall
  rw [ScheduleState.fire,harm]
  dsimp only
  rw [occurrences_of_lt ahead]
  exact ⟨rfl,rfl,follows wall⟩

end ScheduleState
namespace ClockAdapter

instance : Std.Total firedLe where
  total a b := by
    rcases lt_trichotomy a.1 b.1 with h | h | h
    · exact .inl (.inl h)
    · rcases Nat.le_total a.2.val b.2.val with hn | hn
      · exact .inl (.inr ⟨h,hn⟩)
      · exact .inr (.inr ⟨h.symm,hn⟩)
    · exact .inr (.inl h)

instance : IsTrans (ℤ × ScheduleId) firedLe where
  trans a b c := by
    unfold firedLe
    omega

instance : Std.Antisymm firedLe where
  antisymm a b := by
    obtain ⟨t,⟨n⟩⟩ := a
    obtain ⟨t',⟨n'⟩⟩ := b
    intro h h'
    simp only [firedLe] at h h'
    obtain ⟨rfl,rfl⟩ : t = t' ∧ n = n' := by omega
    rfl

/-- What a tick fires, with the times that put it in order. -/
def due (c : ClockAdapter) (wall : ℤ) : List (ℤ × ScheduleId) :=
  (c.schedules.flatMap fun s => (s.fire wall).1.map fun t => (t,s.id)).insertionSort firedLe

theorem fireDueSchedules_fst (c : ClockAdapter) (wall : ℤ) :
    (c.fireDueSchedules wall).1 = (c.due wall).map fun x => .timeReached x.2 := rfl

end ClockAdapter

/-- All occurrences of all schedules after the first instant and up to the second, by time and id. -/
noncomputable def timetable (occurs : ScheduleId × Cron → Set ℤ)
    (schedules : List (ScheduleId × Cron)) (a b : ℤ) : List (ℤ × ScheduleId) :=
  (schedules.flatMap fun x => (within (occurs x) a b).map fun t => (t,x.1)).insertionSort
    ClockAdapter.firedLe

section Timetable
variable {occurs : ScheduleId × Cron → Set ℤ} {schedules : List (ScheduleId × Cron)} {a b c : ℤ}

theorem mem_timetable {t : ℤ} {id : ScheduleId} : (t,id) ∈ timetable occurs schedules a b ↔
    ∃ x ∈ schedules, x.1 = id ∧ t ∈ occurs x ∧ a < t ∧ t ≤ b := by
  simp only [timetable,List.mem_insertionSort,List.mem_flatMap,List.mem_map,mem_within,
    Prod.mk.injEq]
  constructor
  · rintro ⟨x,hx,t',ht,rfl,rfl⟩
    exact ⟨x,hx,rfl,ht⟩
  · rintro ⟨x,hx,rfl,ht⟩
    exact ⟨x,hx,t,ht,rfl,rfl⟩

theorem pairwise_timetable : (timetable occurs schedules a b).Pairwise ClockAdapter.firedLe :=
  List.pairwise_insertionSort _ _

/-- Every occurrence is there once. -/
theorem nodup_timetable (distinct : (schedules.map Prod.fst).Nodup) :
    (timetable occurs schedules a b).Nodup := by
  rw [timetable,(List.perm_insertionSort _ _).nodup_iff]
  refine List.nodup_flatMap.mpr ⟨fun x _ => nodup_within.map fun _ _ h => (Prod.mk.inj h).1,?_⟩
  refine (List.pairwise_map.mp distinct).imp fun hne p hp hq => ?_
  obtain ⟨t,-,rfl⟩ := List.mem_map.mp hp
  obtain ⟨t',-,he⟩ := List.mem_map.mp hq
  exact hne (Prod.mk.inj he).2.symm

theorem timetable_eq_nil : timetable occurs schedules a a = [] := by
  rw [List.eq_nil_iff_forall_not_mem]
  rintro ⟨t,id⟩ h
  obtain ⟨x,-,-,-,hlt,hle⟩ := mem_timetable.mp h
  exact absurd hle (not_le.mpr hlt)

/-- Adjoining timetables make one. -/
theorem timetable_append (hab : a ≤ b) (hbc : b ≤ c) :
    timetable occurs schedules a b ++ timetable occurs schedules b c =
      timetable occurs schedules a c := by
  refine List.Perm.eq_of_pairwise' ?_ pairwise_timetable ?_
  · refine List.pairwise_append.mpr ⟨pairwise_timetable,pairwise_timetable,?_⟩
    rintro ⟨t,id⟩ h ⟨t',id'⟩ h'
    obtain ⟨-,-,-,-,-,hle⟩ := mem_timetable.mp h
    obtain ⟨-,-,-,-,hlt,-⟩ := mem_timetable.mp h'
    exact .inl (lt_of_le_of_lt hle hlt)
  · refine ((List.perm_insertionSort _ _).append (List.perm_insertionSort _ _)).trans
      ((List.flatMap_append_perm _ _ _).trans ?_)
    rw [timetable]
    simp only [← List.map_append,within_append hab hbc]
    exact (List.perm_insertionSort _ _).symm

end Timetable
namespace ClockAdapter
variable {occurs : ScheduleId × Cron → Set ℤ} {schedules : List (ScheduleId × Cron)}
  {c : ClockAdapter} {wall : ℤ}

/-- The clock has the given schedules, each with its next occurrence after an instant. -/
def Tracks (occurs : ScheduleId × Cron → Set ℤ) (schedules : List (ScheduleId × Cron)) (wall : ℤ)
    (c : ClockAdapter) : Prop :=
  List.Forall₂ (fun x s => s.id = x.1 ∧ s.cron = x.2 ∧ s.Tracks (occurs x) wall) schedules
    c.schedules

/-- Schedules that fire what lies between two instants. -/
theorem due_of_fires {wall' : ℤ} (h : List.Forall₂ (fun x s => s.id = x.1 ∧
      (s.fire wall').1 = within (occurs x) wall wall') schedules c.schedules) :
    c.due wall' = timetable occurs schedules wall wall' := by
  rw [due,timetable]
  congr 1
  generalize c.schedules = states at h
  induction h with
  | nil => rfl
  | cons hx _ ih => rw [List.flatMap_cons,List.flatMap_cons,ih,hx.1,hx.2]

theorem Tracks.tick (follows : ∀ x ∈ schedules, x.2.Follows (occurs x))
    (h : c.Tracks occurs schedules wall) {now : Millis} (hle : wall ≤ c.wallUtc now) :
    c.due (c.wallUtc now) = timetable occurs schedules wall (c.wallUtc now) ∧
      (c.tick now).2.Tracks occurs schedules (c.wallUtc now) := by
  have fires : List.Forall₂ (fun x s => s.id = x.1 ∧ s.cron = x.2 ∧
      (s.fire (c.wallUtc now)).1 = within (occurs x) wall (c.wallUtc now) ∧
        (s.fire (c.wallUtc now)).2.Tracks (occurs x) (c.wallUtc now)) schedules c.schedules := by
    refine ((List.forall₂_and_left _ _).mpr ⟨fun _ hx => hx,h⟩).imp fun x s ⟨hx,hid,hc,ht⟩ => ?_
    exact ⟨hid,hc,ht.fire (hc ▸ follows x hx) hle⟩
  refine ⟨due_of_fires (fires.imp fun x s h => ⟨h.1,h.2.2.1⟩),?_⟩
  rw [Tracks,(c.tick_spec now).2.2.1,List.forall₂_map_right_iff]
  exact fires.imp fun x s h => ⟨(s.fire_same _).1.trans h.1,(s.fire_same _).2.trans h.2.1,h.2.2.2⟩

/-- The first tick fires nothing. -/
theorem tick_unarmed (follows : ∀ x ∈ schedules, x.2.Follows (occurs x))
    (unarmed : c.schedules = schedules.map fun x => ⟨x.1,x.2,none,false⟩) (now : Millis) :
    c.due (c.wallUtc now) = [] ∧ (c.tick now).2.Tracks occurs schedules (c.wallUtc now) := by
  have fires : List.Forall₂ (fun x s => s.id = x.1 ∧ s.cron = x.2 ∧ (s.fire (c.wallUtc now)).1 = [] ∧
      (s.fire (c.wallUtc now)).2.Tracks (occurs x) (c.wallUtc now)) schedules c.schedules := by
    rw [unarmed,List.forall₂_map_right_iff,List.forall₂_same]
    intro x hx
    exact ⟨rfl,rfl,ScheduleState.fire_unarmed (follows x hx) rfl _⟩
  constructor
  · have hn : timetable occurs schedules (c.wallUtc now) (c.wallUtc now) = [] := timetable_eq_nil
    rw [← hn]
    refine due_of_fires (fires.imp fun x s h => ⟨h.1,h.2.2.1.trans ?_⟩)
    exact (within_eq_nil fun m _ h => h).symm
  · rw [Tracks,(c.tick_spec now).2.2.1,List.forall₂_map_right_iff]
    exact fires.imp fun x s h => ⟨(s.fire_same _).1.trans h.1,(s.fire_same _).2.trans h.2.1,
      h.2.2.2⟩

/-- What a sequence of ticks produces. -/
def ticks (c : ClockAdapter) : List Millis → List (List Event)
  | [] => []
  | now :: rest => (c.tick now).1 :: (c.tick now).2.ticks rest

/-- What it fires, with the times. -/
def dues (c : ClockAdapter) : List Millis → List (List (ℤ × ScheduleId))
  | [] => []
  | now :: rest => c.due (c.wallUtc now) :: (c.tick now).2.dues rest

end ClockAdapter

/-- A schedule was reached. -/
def Event.isTimeReached : Event → Bool
  | timeReached _ => true
  | _ => false

namespace ClockAdapter
variable {c : ClockAdapter}

theorem report_filter (c : ClockAdapter) (wall : ℤ) :
    (c.report wall).1.filter Event.isTimeReached = [] := by
  unfold report
  dsimp only
  split_ifs <;> rfl

/-- The schedules a tick reports are the ones it fires, in that order. -/
theorem tick_filter (c : ClockAdapter) (now : Millis) :
    (c.tick now).1.filter Event.isTimeReached =
      (c.due (c.wallUtc now)).map fun x => .timeReached x.2 := by
  have hdue : (c.report (c.wallUtc now)).2.due (c.wallUtc now) = c.due (c.wallUtc now) := by
    rw [due,due,(c.report_spec _).2.2.1]
  rw [tick,List.filter_append,report_filter,List.nil_append,fireDueSchedules_fst,hdue]
  exact List.filter_eq_self.mpr fun ev hm => by
    obtain ⟨x,-,rfl⟩ := List.mem_map.mp hm
    rfl

theorem ticks_filter (c : ClockAdapter) (ts : List Millis) :
    (c.ticks ts).map (List.filter Event.isTimeReached) =
      (c.dues ts).map (List.map fun x => .timeReached x.2) := by
  induction ts generalizing c with
  | nil => rfl
  | cons now ts ih => rw [ticks,dues,List.map_cons,List.map_cons,tick_filter,ih]

theorem pairwise_of_mem_dues {ts : List Millis} {l : List (ℤ × ScheduleId)} (h : l ∈ c.dues ts) :
    l.Pairwise firedLe := by
  induction ts generalizing c with
  | nil => cases h
  | cons now ts ih =>
    rcases List.mem_cons.mp h with rfl | h
    · exact List.pairwise_insertionSort _ _
    · exact ih h

theorem wallUtc_mono (c : ClockAdapter) {now now' : Millis} (h : now ≤ now') :
    c.wallUtc now ≤ c.wallUtc now' := by
  exact Int.add_le_add_left (Int.ofNat_le.mpr h) _

theorem wallUtc_tick (c : ClockAdapter) (now now' : Millis) :
    (c.tick now).2.wallUtc now' = c.wallUtc now' := by
  rw [wallUtc,(c.tick_spec now).1]
  rfl

/-- From a tick on, later ticks fire what lies between it and the last of them. -/
theorem Tracks.dues {occurs : ScheduleId × Cron → Set ℤ} {schedules : List (ScheduleId × Cron)}
    (follows : ∀ x ∈ schedules, x.2.Follows (occurs x)) {now : Millis} {ts : List Millis}
    (h : c.Tracks occurs schedules (c.wallUtc now)) (mono : (now :: ts).Pairwise (· ≤ ·)) :
    (c.dues ts).flatten = timetable occurs schedules (c.wallUtc now)
      (c.wallUtc ((now :: ts).getLast (List.cons_ne_nil _ _))) := by
  induction ts generalizing c now with
  | nil => exact timetable_eq_nil.symm
  | cons t ts ih =>
    obtain ⟨hnow,mono⟩ := List.pairwise_cons.mp mono
    have hle : now ≤ t := hnow t List.mem_cons_self
    obtain ⟨hdue,htracks⟩ := h.tick follows (c.wallUtc_mono hle)
    rw [← c.wallUtc_tick t t] at htracks
    have hlast : t ≤ (t :: ts).getLast (List.cons_ne_nil _ _) := by
      rcases List.mem_cons.mp (List.getLast_mem (List.cons_ne_nil t ts)) with he | hm
      · exact he.ge
      · exact (List.pairwise_cons.mp mono).1 _ hm
    rw [ClockAdapter.dues,List.flatten_cons,hdue,ih htracks mono,wallUtc_tick,wallUtc_tick,
      timetable_append (c.wallUtc_mono hle) (c.wallUtc_mono hlast),List.getLast_cons_cons]

/-- Schedules neither miss nor repeat. Over any sequence of ticks of one clock, each tick reports what
it fires in the order of time and id; all together they fire the occurrences after the first tick's
instant and up to the last's, each once, and the same however the interval is split; and the loop of
every tick ends. -/
theorem schedules_neither_miss_nor_repeat {device : DeviceId} {boot : ℤ} {tz : Timezone}
    {coord : Option Coordinates} {schedules : List (ScheduleId × Cron)}
    {occurs : ScheduleId × Cron → Set ℤ} (follows : ∀ x ∈ schedules, x.2.Follows (occurs x))
    (built : c = (new device boot tz coord).withSchedules schedules) {first : Millis}
    {ts : List Millis} (mono : (first :: ts).Pairwise (· ≤ ·)) {last : Millis}
    (ends : (first :: ts).getLast (List.cons_ne_nil _ _) = last) :
    (c.ticks (first :: ts)).map (List.filter Event.isTimeReached) =
        (c.dues (first :: ts)).map (List.map fun x => .timeReached x.2) ∧
      (∀ l ∈ c.dues (first :: ts), l.Pairwise firedLe) ∧
      (c.dues (first :: ts)).flatten =
        timetable occurs schedules (c.wallUtc first) (c.wallUtc last) ∧
      (∀ t id, (t,id) ∈ (c.dues (first :: ts)).flatten ↔ ∃ x ∈ schedules, x.1 = id ∧
        t ∈ occurs x ∧ c.wallUtc first < t ∧ t ≤ c.wallUtc last) ∧
      ((schedules.map Prod.fst).Nodup → (c.dues (first :: ts)).flatten.Nodup) ∧
      (∀ ts', (first :: ts').Pairwise (· ≤ ·) →
        (first :: ts').getLast (List.cons_ne_nil _ _) = last →
          (c.dues (first :: ts')).flatten = (c.dues (first :: ts)).flatten) ∧
      ∀ (s : ScheduleState) (wall : ℤ), ∃ n, ∀ fuel, n ≤ fuel →
        ScheduleState.occurrences s.cron wall fuel (s.arm wall).nextFire =
            ((s.fire wall).1,(s.fire wall).2.nextFire) ∧
          ∀ t, (s.fire wall).2.nextFire = some t → wall < t := by
  have all (ts : List Millis) (mono : (first :: ts).Pairwise (· ≤ ·))
      (ends : (first :: ts).getLast (List.cons_ne_nil _ _) = last) :
      (c.dues (first :: ts)).flatten =
        timetable occurs schedules (c.wallUtc first) (c.wallUtc last) := by
    obtain ⟨hdue,htracks⟩ := tick_unarmed follows (c := c) (by rw [built]; rfl) first
    rw [← c.wallUtc_tick first first] at htracks
    rw [dues,List.flatten_cons,hdue,List.nil_append,htracks.dues follows mono,ends,wallUtc_tick,
      wallUtc_tick]
  refine ⟨c.ticks_filter _,fun l hl => pairwise_of_mem_dues hl,all ts mono ends,fun t id => ?_,
    fun distinct => ?_,fun ts' mono' ends' => (all ts' mono' ends').trans (all ts mono ends).symm,
    ScheduleState.fire_terminates⟩
  · rw [all ts mono ends]
    exact mem_timetable
  · rw [all ts mono ends]
    exact nodup_timetable distinct

/-- Every day at 06:40 UTC. -/
def daily : Cron where
  findNextOccurrence t := some ((t-24000000)/86400000*86400000+86400000+24000000)
  later t next h := by
    cases h
    omega

theorem daily_follows : daily.Follows {t | t % 86400000 = 24000000} := by
  intro t
  refine ⟨⟨?_,?_⟩,fun m hm => ?_⟩
  · change ((t-24000000)/86400000*86400000+86400000+24000000) % 86400000 = 24000000
    omega
  · omega
  · obtain ⟨hm,hlt⟩ := hm
    change m % 86400000 = 24000000 at hm
    omega

/-- Booted at 06:00, ticked at once, at 06:40 and a minute later: the schedule fires at 06:40. -/
theorem daily_fires_once : ∃ c : ClockAdapter,
    c.dues [0,2400000,2460000] = [[],[(1717224000000,⟨7⟩)],[]] ∧
      (c.dues [0,2400000,2460000]).flatten =
        timetable (fun _ => {t | t % 86400000 = 24000000}) [(⟨7⟩,daily)] (c.wallUtc 0)
          (c.wallUtc 2460000) := by
  let c := (new ⟨0⟩ 1717221600000 ⟨fun _ => 0⟩ none).withSchedules [(⟨7⟩,daily)]
  have follows : ∀ x ∈ [((⟨7⟩ : ScheduleId),daily)],
      x.2.Follows ((fun _ => {t | t % 86400000 = 24000000}) x) := by
    intro x hx
    rw [List.mem_singleton.mp hx]
    exact daily_follows
  have mono : ([0,2400000,2460000] : List Millis).Pairwise (· ≤ ·) := by decide
  exact ⟨c,by decide,(schedules_neither_miss_nor_repeat follows (c := c) rfl mono rfl).2.2.1⟩

end ClockAdapter
end Domiform
