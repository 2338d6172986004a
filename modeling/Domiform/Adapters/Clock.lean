import Domiform.Adapter
import Domiform.Library.Wake

/-! The clock: a device that reports the time of day and the sun, and fires the schedules. Wall time
is the boot instant plus the engine's own time; what the timezone, the cron expressions and the
ephemeris say of an instant comes from libraries. Instants are Unix milliseconds. -/
namespace Domiform
open Library

/-- A timezone: its offset from UTC at an instant, in seconds. -/
structure Timezone where
  offset : ℤ → ℤ

/-- A cron expression in its timezone: `find_next_occurrence(_, false)`, which is strictly later. -/
structure Cron where
  findNextOccurrence : ℤ → Option ℤ
  later : ∀ t next, findNextOccurrence t = some next → t < next

/-- A place: when the sun rises and sets there on a date, numbered from the epoch. -/
structure Coordinates where
  sunrise : ℤ → Option ℤ
  sunset : ℤ → Option ℤ

/-- One schedule with its cached next occurrence; `armed` tells "not computed yet" from "none". -/
structure ScheduleState where
  id : ScheduleId
  cron : Cron
  nextFire : Option ℤ
  armed : Bool

inductive SunWindow
  | between (rise set : ℤ)
  | fallback

structure ClockAdapter where
  device : DeviceId
  bootEpochMs : ℤ
  tz : Timezone
  coord : Option Coordinates
  lastEmitMin : Option UInt16
  schedules : List ScheduleState
  /-- The window of one date. -/
  sunCache : Option (ℤ × SunWindow)

namespace ScheduleState

/-- The occurrences up to an instant, and the first one after it. -/
def occurrences (cron : Cron) (limit : ℤ) : ℕ → Option ℤ → List ℤ × Option ℤ
  | _,none => ([],none)
  | 0,next => ([],next)
  | fuel+1,some next =>
    if limit < next then ([],some next)
    else
      let rest := occurrences cron limit fuel (cron.findNextOccurrence next)
      (next :: rest.1,rest.2)

/-- Arm the schedule at its first tick, strictly after the present. -/
def arm (s : ScheduleState) (wall : ℤ) : ScheduleState :=
  if s.armed then s else { s with nextFire := s.cron.findNextOccurrence wall,armed := true }

/-- The loop over the occurrences that are due; each is later than the one before. -/
def fire (s : ScheduleState) (wall : ℤ) : List ℤ × ScheduleState :=
  let s := s.arm wall
  let fuel := ((s.nextFire.map fun next => (wall-next).toNat+1)).getD 0
  let fired := occurrences s.cron wall fuel s.nextFire
  (fired.1,{ s with nextFire := fired.2 })

/-- The loop ends past the limit, however many occurrences it takes. -/
theorem limit_lt_occurrences {cron : Cron} {limit : ℤ} {fuel : ℕ} {next : Option ℤ}
    (enough : ∀ t, next = some t → limit-t < fuel) {t : ℤ}
    (h : (occurrences cron limit fuel next).2 = some t) : limit < t := by
  induction fuel generalizing next with
  | zero =>
    cases next with
    | none => cases h
    | some t' =>
      cases h
      have := enough t rfl
      omega
  | succ fuel ih =>
    cases next with
    | none => cases h
    | some t' =>
      rw [occurrences] at h
      split_ifs at h with hl
      · cases h
        exact hl
      · refine ih (fun t'' hn => ?_) h
        have hlater := cron.later t' t'' hn
        have := enough t' rfl
        omega

theorem occurrences_of_lt {cron : Cron} {limit : ℤ} {fuel : ℕ} {next : Option ℤ}
    (h : ∀ t, next = some t → limit < t) : occurrences cron limit fuel next = ([],next) := by
  cases next with
  | none => cases fuel <;> rfl
  | some t =>
    cases fuel with
    | zero => rfl
    | succ fuel => exact if_pos (h t rfl)

/-- The next occurrence is known, and it lies ahead. -/
def Ahead (s : ScheduleState) (wall : ℤ) : Prop :=
  s.armed = true ∧ ∀ t, s.nextFire = some t → wall < t

theorem fire_ahead (s : ScheduleState) (wall : ℤ) : (s.fire wall).2.Ahead wall := by
  constructor
  · by_cases h : s.armed = true
    · simp [fire,arm,h]
    · simp [fire,arm,h]
  · intro t ht
    refine limit_lt_occurrences (fun t' hn => ?_) ht
    rw [hn]
    simp only [Option.map_some,Option.getD_some]
    omega

/-- A schedule that is ahead of the last tick fires once its next occurrence is reached. -/
theorem Ahead.fire_eq_nil_iff {s : ScheduleState} {wall wall' : ℤ} (h : s.Ahead wall) :
    (s.fire wall').1 = [] ↔ ∀ t, s.nextFire = some t → wall' < t := by
  have harm : s.arm wall' = s := if_pos h.1
  rw [fire,harm]
  constructor
  · intro hf t ht
    rw [ht] at hf
    by_contra hle
    dsimp only [Option.map_some,Option.getD_some] at hf
    rw [occurrences,if_neg hle] at hf
    cases hf
  · intro hlt
    dsimp only
    rw [occurrences_of_lt hlt]

end ScheduleState

namespace ClockAdapter

def minuteMs : ℤ := 60000

def fallbackSunriseMin : ℕ := 6*60
def fallbackSunsetMin : ℕ := 18*60

def new (device : DeviceId) (bootEpochMs : ℤ) (tz : Timezone) (coord : Option Coordinates) :
    ClockAdapter :=
  ⟨device,bootEpochMs,tz,coord,none,[],none⟩

def withSchedules (c : ClockAdapter) (schedules : List (ScheduleId × Cron)) : ClockAdapter :=
  { c with schedules := schedules.map fun x => ⟨x.1,x.2,none,false⟩ }

/-- The wall instant. The source panics once it leaves the years a date can have. -/
def wallUtc (c : ClockAdapter) (now : Millis) : ℤ := c.bootEpochMs+now

/-- `DateTime::<Utc>::MIN_UTC` and `MAX_UTC`. -/
def minUtc : ℤ := -8334601228800000
def maxUtc : ℤ := 8210266876799999

/-- The wall instant is a date, and has been since boot. -/
def Representable (c : ClockAdapter) (now : Millis) : Prop :=
  minUtc ≤ c.bootEpochMs ∧ c.wallUtc now ≤ maxUtc

/-- Milliseconds of the local civil time. -/
def localMs (c : ClockAdapter) (wall : ℤ) : ℤ := wall+c.tz.offset wall*1000

/-- Minutes since local midnight. -/
def minuteOf (c : ClockAdapter) (wall : ℤ) : ℕ := (c.localMs wall/minuteMs%1440).toNat

def dateOf (c : ClockAdapter) (wall : ℤ) : ℤ := c.localMs wall/86400000

def computeWindow (c : ClockAdapter) (date : ℤ) : SunWindow :=
  match c.coord with
  | none => .fallback
  | some coord =>
    match coord.sunrise date,coord.sunset date with
    | some rise,some set => .between rise set
    | _,_ => .fallback

/-- The window of the date, from the cache when it is that of the date. -/
def sunWindow (c : ClockAdapter) (date : ℤ) : SunWindow :=
  match c.sunCache with
  | some (cached,window) => if cached = date then window else c.computeWindow date
  | none => c.computeWindow date

def sunUp (c : ClockAdapter) (wall : ℤ) : Bool × ClockAdapter :=
  let date := c.dateOf wall
  let window := c.sunWindow date
  let up :=
    match window with
    | .between rise set => decide (rise ≤ wall ∧ wall < set)
    | .fallback => decide (fallbackSunriseMin ≤ c.minuteOf wall ∧ c.minuteOf wall < fallbackSunsetMin)
  (up,{ c with sunCache := some (date,window) })

/-- Fire time first, then the id. -/
def firedLe (a b : ℤ × ScheduleId) : Prop := a.1 < b.1 ∨ a.1 = b.1 ∧ a.2.val ≤ b.2.val

instance : DecidableRel firedLe := fun _ _ => inferInstanceAs (Decidable (_ ∨ _ ∧ _))

/-- Fire every schedule due at the instant, ordered by fire time and id. -/
def fireDueSchedules (c : ClockAdapter) (wall : ℤ) : List Event × ClockAdapter :=
  let fired := c.schedules.flatMap fun s => (s.fire wall).1.map fun t => (t,s.id)
  ((fired.insertionSort firedLe).map fun x => .timeReached x.2,
    { c with schedules := c.schedules.map fun s => (s.fire wall).2 })

/-- Time and sun, when the minute has changed. -/
def report (c : ClockAdapter) (wall : ℤ) : List Event × ClockAdapter :=
  let minute := UInt16.ofNat (c.minuteOf wall)
  if c.lastEmitMin = some minute then ([],c)
  else
    let sun := { c with lastEmitMin := some minute }.sunUp wall
    ([.stateReported c.device (.timeOfDay minute),.stateReported c.device (.sunUp sun.1)],sun.2)

def tick (c : ClockAdapter) (now : Millis) : List Event × ClockAdapter :=
  let wall := c.wallUtc now
  let reported := c.report wall
  let fired := reported.2.fireDueSchedules wall
  (reported.1 ++ fired.1,fired.2)

/-- The next minute boundary, or an earlier schedule. -/
def nextWake (c : ClockAdapter) (now : Millis) : Option Millis :=
  let wall := c.wallUtc now
  let toNextMin := (minuteMs-wall%minuteMs).toNat
  some (((c.schedules.filterMap ScheduleState.nextFire).map fun next => (next-wall).toNat).foldl
    min toNextMin)

/-- What a tick leaves behind: the minute is reported, and every schedule is ahead. -/
structure Settled (c : ClockAdapter) (now : Millis) : Prop where
  emitted : c.lastEmitMin = some (UInt16.ofNat (c.minuteOf (c.wallUtc now)))
  ahead : ∀ s ∈ c.schedules, s.Ahead (c.wallUtc now)

theorem report_spec (c : ClockAdapter) (wall : ℤ) :
    (c.report wall).2.bootEpochMs = c.bootEpochMs ∧ (c.report wall).2.tz = c.tz ∧
      (c.report wall).2.schedules = c.schedules ∧
      (c.report wall).2.lastEmitMin = some (UInt16.ofNat (c.minuteOf wall)) := by
  unfold report
  dsimp only
  split_ifs with h
  · exact ⟨rfl,rfl,rfl,h⟩
  · exact ⟨rfl,rfl,rfl,rfl⟩

/-- The clock of a tick, part by part. -/
theorem tick_spec (c : ClockAdapter) (now : Millis) :
    (c.tick now).2.bootEpochMs = c.bootEpochMs ∧ (c.tick now).2.tz = c.tz ∧
      (c.tick now).2.schedules = c.schedules.map (fun s => (s.fire (c.wallUtc now)).2) ∧
      (c.tick now).2.lastEmitMin = some (UInt16.ofNat (c.minuteOf (c.wallUtc now))) := by
  obtain ⟨hb,ht,hs,hl⟩ := c.report_spec (c.wallUtc now)
  exact ⟨hb,ht,congrArg _ hs,hl⟩

theorem tick_settled (c : ClockAdapter) (now : Millis) : (c.tick now).2.Settled now := by
  obtain ⟨hb,ht,hs,hl⟩ := c.tick_spec now
  have hw : (c.tick now).2.wallUtc now = c.wallUtc now := by
    rw [wallUtc,hb]
    rfl
  constructor
  · rw [hl,hw,minuteOf,minuteOf,localMs,localMs,ht]
  · rw [hs,hw]
    intro s hm
    obtain ⟨s',-,rfl⟩ := List.mem_map.mp hm
    exact s'.fire_ahead _

theorem minuteOf_lt (c : ClockAdapter) (wall : ℤ) : c.minuteOf wall < 1440 := by
  have := Int.emod_lt_of_pos (c.localMs wall/minuteMs) (show (0 : ℤ) < 1440 by decide)
  unfold minuteOf
  omega

theorem toNat_minute (c : ClockAdapter) (wall : ℤ) :
    (UInt16.ofNat (c.minuteOf wall)).toNat = c.minuteOf wall := by
  have := c.minuteOf_lt wall
  rw [UInt16.toNat_ofNat']
  exact Nat.mod_eq_of_lt (by omega)

/-- A tick is silent while the minute lasts and no schedule is reached. -/
theorem Settled.tick_eq_nil_iff {c : ClockAdapter} {now now' : Millis} (h : c.Settled now) :
    (c.tick now').1 = [] ↔ c.minuteOf (c.wallUtc now') = c.minuteOf (c.wallUtc now) ∧
      ∀ s ∈ c.schedules, ∀ t, s.nextFire = some t → c.wallUtc now' < t := by
  have hreport : (c.report (c.wallUtc now')).1 = [] ↔
      c.minuteOf (c.wallUtc now') = c.minuteOf (c.wallUtc now) := by
    unfold report
    rw [h.emitted]
    dsimp only
    constructor
    · intro hr
      split_ifs at hr with he
      have he' := congrArg UInt16.toNat (Option.some.inj he)
      rw [toNat_minute,toNat_minute] at he'
      exact he'.symm
    · intro he
      rw [he,if_pos rfl]
  have hs := (c.report_spec (c.wallUtc now')).2.2.1
  rw [tick,List.append_eq_nil_iff,hreport,fireDueSchedules,hs]
  refine and_congr_right fun _ => ?_
  rw [List.map_eq_nil_iff,← List.length_eq_zero_iff,List.length_insertionSort,
    List.length_eq_zero_iff,List.flatMap_eq_nil_iff]
  refine forall_congr' fun s => forall_congr' fun hm => ?_
  rw [List.map_eq_nil_iff,(h.ahead s hm).fire_eq_nil_iff]

end ClockAdapter

/-- What the minute cadence needs of a timezone: offsets are whole minutes, they change on the
minute, and no change repeats a minute of the day by setting the clock back by just one. -/
structure Timezone.Regular (tz : Timezone) : Prop where
  whole : ∀ t, 60 ∣ tz.offset t
  steady : ∀ t, tz.offset t = tz.offset (t-t%60000)
  onward : ∀ k, ¬tz.offset ((k+1)*60000)+60 ≡ tz.offset (k*60000) [ZMOD 86400]

namespace ClockAdapter

/-- In whole minutes, local time is the offset ahead of UTC. -/
theorem localMs_div {c : ClockAdapter} (regular : c.tz.Regular) (wall : ℤ) :
    c.localMs wall/minuteMs = wall/60000+c.tz.offset (wall/60000*60000)/60 := by
  have hsteady := regular.steady wall
  have hmod := Int.emod_def wall 60000
  rw [show wall-wall%60000 = wall/60000*60000 by omega] at hsteady
  obtain ⟨q,hq⟩ := regular.whole (wall/60000*60000)
  rw [localMs,minuteMs,hsteady,hq]
  omega

/-- The minute of the day is the same throughout a UTC minute, and another in the next. -/
theorem minuteOf_eq_iff {c : ClockAdapter} (regular : c.tz.Regular) {wall wall' : ℤ}
    (hle : wall ≤ wall') (hlt : wall' ≤ wall+(60000-wall%60000)) :
    c.minuteOf wall' = c.minuteOf wall ↔ wall' < wall+(60000-wall%60000) := by
  have hmod := Int.emod_def wall 60000
  constructor
  · intro he
    by_contra hge
    have hdiv : wall'/60000 = wall/60000+1 := by omega
    have hon := regular.onward (wall/60000)
    obtain ⟨q,hq⟩ := regular.whole (wall/60000*60000)
    obtain ⟨q',hq'⟩ := regular.whole ((wall/60000+1)*60000)
    rw [minuteOf,minuteOf,localMs_div regular,localMs_div regular,hdiv,hq,hq'] at he
    rw [hq,hq',Int.ModEq] at hon
    omega
  · intro hlt
    have hdiv : wall'/60000 = wall/60000 := by omega
    rw [minuteOf,minuteOf,localMs_div regular,localMs_div regular,hdiv]

/-- What wakes a clock: the minute, and each of its schedules. -/
def sources (c : ClockAdapter) : List (Option ScheduleState) := none :: c.schedules.map some

/-- The delay until a source has something to say. -/
def wakeOf (c : ClockAdapter) (now : Millis) : Option ScheduleState → Option Millis
  | none => some (minuteMs-c.wallUtc now%minuteMs).toNat
  | some s => s.nextFire.map fun next => (next-c.wallUtc now).toNat

theorem nextWake_eq (c : ClockAdapter) (now : Millis) :
    c.nextWake now = (c.sources.filterMap (c.wakeOf now)).min? := by
  have hs : c.sources.filterMap (c.wakeOf now) =
      (minuteMs-c.wallUtc now%minuteMs).toNat :: (c.schedules.filterMap ScheduleState.nextFire).map
        fun next => (next-c.wallUtc now).toNat := by
    rw [sources,List.filterMap_cons_some (f := c.wakeOf now) rfl,List.filterMap_map,
      List.map_filterMap]
    rfl
  rw [hs,List.min?_cons']
  rfl

/-- A clock is to be woken within a minute. -/
theorem nextWake_le {c : ClockAdapter} {now : Millis} {d : ℕ} (h : c.nextWake now = some d) :
    d ≤ 60000 := by
  rw [nextWake_eq] at h
  have hle : d ≤ (minuteMs-c.wallUtc now%minuteMs).toNat :=
    (List.min?_eq_some_iff.mp h).2 _ (List.mem_filterMap.mpr ⟨none,List.mem_cons_self,rfl⟩)
  have hpos := Int.emod_nonneg (c.wallUtc now) (show minuteMs ≠ 0 by decide)
  unfold minuteMs at hle hpos
  omega

/-- What a source has to say at an instant. -/
def dueAt (c : ClockAdapter) (now now' : Millis) : Option ScheduleState → Prop
  | none => c.minuteOf (c.wallUtc now') ≠ c.minuteOf (c.wallUtc now)
  | some s => ∃ t, s.nextFire = some t ∧ t ≤ c.wallUtc now'

theorem Settled.sources {c : ClockAdapter} {now : Millis} (h : c.Settled now) (now' : Millis) :
    (c.tick now').1 ≠ [] ↔ ∃ x ∈ c.sources, c.dueAt now now' x := by
  rw [Ne,h.tick_eq_nil_iff,not_and_or]
  simp [ClockAdapter.sources,dueAt]

theorem minute_wakes (c : ClockAdapter) (now : Millis) (regular : c.tz.Regular) :
    WakesAt (fun dt => c.dueAt now (now+dt) none) (c.wakeOf now none) := by
  have hmod := Int.emod_nonneg (c.wallUtc now) (show (60000 : ℤ) ≠ 0 by decide)
  have hlt := Int.emod_lt_of_pos (c.wallUtc now) (show (0 : ℤ) < 60000 by decide)
  have hwall (dt : ℕ) : c.wallUtc (now+dt) = c.wallUtc now+dt := by
    unfold wallUtc
    push_cast
    omega
  have hiff (dt : ℕ) (hle : (dt : ℤ) ≤ 60000-c.wallUtc now%60000) :
      c.dueAt now (now+dt) none ↔ ¬(dt : ℤ) < 60000-c.wallUtc now%60000 := by
    rw [dueAt,hwall,Ne,minuteOf_eq_iff regular (by omega) (by omega)]
    omega
  unfold wakeOf minuteMs
  constructor
  · intro dt hdt hdue
    exact (hiff dt (by omega)).mp hdue (by omega)
  · exact (hiff _ (by omega)).mpr (by omega)

theorem schedule_wakes (c : ClockAdapter) {now : Millis} {s : ScheduleState}
    (h : s.Ahead (c.wallUtc now)) :
    WakesAt (fun dt => c.dueAt now (now+dt) (some s)) (c.wakeOf now (some s)) := by
  have hwall (dt : ℕ) : c.wallUtc (now+dt) = c.wallUtc now+dt := by
    unfold wallUtc
    push_cast
    omega
  cases hn : s.nextFire with
  | none =>
    rw [wakeOf,hn]
    rintro dt ⟨t,ht,-⟩
    rw [hn] at ht
    cases ht
  | some t =>
    have hlt := h.2 t hn
    rw [wakeOf,hn,Option.map_some]
    constructor
    · rintro dt hdt ⟨t',ht',hle⟩
      cases hn.symm.trans ht'
      rw [hwall] at hle
      omega
    · refine ⟨t,hn,?_⟩
      rw [hwall]
      omega

/-- After a tick, the clock has something to say at the time it states, and not before. -/
theorem Settled.wakes {c : ClockAdapter} {now : Millis} (h : c.Settled now)
    (regular : c.tz.Regular) : WakesAt (fun dt => (c.tick (now+dt)).1 ≠ []) (c.nextWake now) := by
  rw [nextWake_eq]
  refine (WakesAt.of_min (fun x dt => c.dueAt now (now+dt) x) fun x hx => ?_).congr
    fun dt _ => (h.sources (now+dt)).symm
  rcases List.mem_cons.mp hx with rfl | hx
  · exact c.minute_wakes now regular
  · obtain ⟨s,hs,rfl⟩ := List.mem_map.mp hx
    exact c.schedule_wakes (h.ahead s hs)

end ClockAdapter

instance : Adapter ClockAdapter where
  dispatch c _ _ := (.permanent "clock device accepts no commands",c)
  tick c now := c.tick now
  nextWake c now := c.nextWake now

end Domiform
