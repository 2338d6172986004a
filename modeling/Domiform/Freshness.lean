import Domiform.Library.Throttle
import Domiform.Schedules

/-! What the clock has published. Time and sun are reported together, and only when the minute of the
day differs from the one reported last. -/
namespace Domiform
open Library

def Event.timeOfDay? : Event → Option UInt16
  | stateReported _ (.timeOfDay minute) => some minute
  | _ => none

def Event.sunUp? : Event → Option Bool
  | stateReported _ (.sunUp up) => some up
  | _ => none

namespace ClockAdapter

/-- Whether the sun is up at an instant, by the window of its date. -/
def sunAt (c : ClockAdapter) (wall : ℤ) : Bool :=
  match c.computeWindow (c.dateOf wall) with
  | .between rise set => decide (rise ≤ wall ∧ wall < set)
  | .fallback => decide (fallbackSunriseMin ≤ c.minuteOf wall ∧ c.minuteOf wall < fallbackSunsetMin)

/-- What was published last tells the minute of an instant, and the sun at an instant of that date and
minute. -/
structure Fresh (c : ClockAdapter) (published : List Event) (wall : ℤ) : Prop where
  time : (published.filterMap Event.timeOfDay?).getLast? = some (UInt16.ofNat (c.minuteOf wall))
  sun : ∃ w, c.dateOf w = c.dateOf wall ∧ c.minuteOf w = c.minuteOf wall ∧
    (published.filterMap Event.sunUp?).getLast? = some (c.sunAt w)

/-- After each tick. -/
def NeverStale (c : ClockAdapter) (ts : List Millis) : Prop :=
  ∀ earlier now, earlier ++ [now] <+: ts →
    c.Fresh (c.ticks (earlier ++ [now])).flatten (c.wallUtc now)

/-- The clock after a sequence of ticks. -/
def ticked (c : ClockAdapter) (ts : List Millis) : ClockAdapter :=
  ts.foldl (fun c now => (c.tick now).2) c

theorem ticks_concat (c : ClockAdapter) (ts : List Millis) (now : Millis) :
    c.ticks (ts ++ [now]) = c.ticks ts ++ [((c.ticked ts).tick now).1] := by
  induction ts generalizing c with
  | nil => rfl
  | cons t ts ih => exact congrArg _ (ih _)

theorem ticked_concat (c : ClockAdapter) (ts : List Millis) (now : Millis) :
    c.ticked (ts ++ [now]) = ((c.ticked ts).tick now).2 := List.foldl_append

/-- The minute a tick falls in. -/
def minuteAt (c : ClockAdapter) (now : Millis) : ℕ := c.minuteOf (c.wallUtc now)

def dateAt (c : ClockAdapter) (now : Millis) : ℤ := c.dateOf (c.wallUtc now)

/-- Two clocks of one place; a window the first has at hand is that of its date. -/
structure SamePlace (c c₀ : ClockAdapter) : Prop where
  boot : c.bootEpochMs = c₀.bootEpochMs
  tz : c.tz = c₀.tz
  coord : c.coord = c₀.coord
  cached : ∀ date window, c.sunCache = some (date,window) → window = c₀.computeWindow date

namespace SamePlace
variable {c c₀ : ClockAdapter} (h : c.SamePlace c₀)
include h

theorem wallUtc (now : Millis) : c.wallUtc now = c₀.wallUtc now := by
  rw [ClockAdapter.wallUtc,h.boot]
  rfl

theorem localMs (wall : ℤ) : c.localMs wall = c₀.localMs wall := by
  rw [ClockAdapter.localMs,h.tz]
  rfl

theorem minuteOf (wall : ℤ) : c.minuteOf wall = c₀.minuteOf wall := by
  rw [ClockAdapter.minuteOf,h.localMs]
  rfl

theorem dateOf (wall : ℤ) : c.dateOf wall = c₀.dateOf wall := by
  rw [ClockAdapter.dateOf,h.localMs]
  rfl

theorem computeWindow (date : ℤ) : c.computeWindow date = c₀.computeWindow date := by
  rw [ClockAdapter.computeWindow,h.coord]
  rfl

/-- The window of the cache is as good as a new one. -/
theorem sunWindow (date : ℤ) : c.sunWindow date = c₀.computeWindow date := by
  unfold ClockAdapter.sunWindow
  split
  · rename_i cached window hc
    split_ifs with hd
    · rw [h.cached cached window hc,hd]
    · exact h.computeWindow date
  · exact h.computeWindow date

theorem sunUp (wall : ℤ) : c.sunUp wall = (c₀.sunAt wall,
    { c with sunCache := some (c₀.dateOf wall,c₀.computeWindow (c₀.dateOf wall)) }) := by
  rw [ClockAdapter.sunUp,h.sunWindow,h.dateOf,h.minuteOf]
  rfl

end SamePlace

/-- What the clock knows after its ticks, and what it has published, is of one tick. -/
structure Stands (c₀ : ClockAdapter) (ts : List Millis) (events : List Event) (c : ClockAdapter) :
    Prop where
  place : c.SamePlace c₀
  minute : c.lastEmitMin = (standing c₀.minuteAt ts).map fun p => UInt16.ofNat (c₀.minuteAt p)
  time : (events.filterMap Event.timeOfDay?).getLast? =
    (standing c₀.minuteAt ts).map fun p => UInt16.ofNat (c₀.minuteAt p)
  sun : (events.filterMap Event.sunUp?).getLast? =
    (standing c₀.minuteAt ts).map fun p => c₀.sunAt (c₀.wallUtc p)

section Tick
variable {c c₀ : ClockAdapter} {ts : List Millis} {events : List Event}

/-- The minute reported last is that of the tick that stands. -/
theorem Stands.lastEmitMin_eq_iff (h : Stands c₀ ts events c) (now : Millis) :
    c.lastEmitMin = some (UInt16.ofNat (c.minuteOf (c.wallUtc now))) ↔
      (standing c₀.minuteAt ts).map c₀.minuteAt = some (c₀.minuteAt now) := by
  rw [h.minute,h.place.minuteOf,h.place.wallUtc]
  cases standing c₀.minuteAt ts with
  | none => simp
  | some p =>
    rw [Option.map_some,Option.map_some,Option.some.injEq,Option.some.injEq,minuteAt,minuteAt]
    constructor
    · intro he
      rw [← c₀.toNat_minute,he,c₀.toNat_minute]
    · exact fun he => congrArg _ he

/-- A schedule is no reading. -/
theorem fired_readings (c : ClockAdapter) (wall : ℤ) :
    (c.fireDueSchedules wall).1.filterMap Event.timeOfDay? = [] ∧
      (c.fireDueSchedules wall).1.filterMap Event.sunUp? = [] := by
  constructor
  · rw [fireDueSchedules,List.filterMap_map]
    exact List.filterMap_eq_nil_iff.mpr fun _ _ => rfl
  · rw [fireDueSchedules,List.filterMap_map]
    exact List.filterMap_eq_nil_iff.mpr fun _ _ => rfl

/-- A tick in the minute reported last reports nothing; any other takes its place. -/
theorem Stands.tick (h : Stands c₀ ts events c) (now : Millis) :
    Stands c₀ (ts ++ [now]) (events ++ (c.tick now).1) (c.tick now).2 := by
  obtain ⟨hft,hfs⟩ := (c.report (c.wallUtc now)).2.fired_readings (c.wallUtc now)
  have hkey := h.lastEmitMin_eq_iff now
  unfold ClockAdapter.tick
  dsimp only
  by_cases hm : c.lastEmitMin = some (UInt16.ofNat (c.minuteOf (c.wallUtc now)))
  · have hr : c.report (c.wallUtc now) = ([],c) := if_pos hm
    have hstands : standing c₀.minuteAt (ts ++ [now]) = standing c₀.minuteAt ts := by
      rw [standing_concat,if_pos (hkey.mp hm)]
    rw [hr] at hft hfs ⊢
    refine ⟨⟨h.place.boot,h.place.tz,h.place.coord,h.place.cached⟩,?_,?_,?_⟩
    · rw [hstands]
      exact h.minute
    · rw [hstands,List.nil_append,List.filterMap_append,hft,List.append_nil]
      exact h.time
    · rw [hstands,List.nil_append,List.filterMap_append,hfs,List.append_nil]
      exact h.sun
  · have hstands : standing c₀.minuteAt (ts ++ [now]) = some now := by
      rw [standing_concat,if_neg (hkey.not.mp hm)]
    have hp : SamePlace { c with
        lastEmitMin := some (UInt16.ofNat (c.minuteOf (c.wallUtc now))) } c₀ :=
      ⟨h.place.boot,h.place.tz,h.place.coord,h.place.cached⟩
    have hr : c.report (c.wallUtc now) = ([.stateReported c.device
        (.timeOfDay (UInt16.ofNat (c₀.minuteAt now))),
        .stateReported c.device (.sunUp (c₀.sunAt (c₀.wallUtc now)))],
        { c with
          lastEmitMin := some (UInt16.ofNat (c₀.minuteAt now))
          sunCache := some (c₀.dateAt now,c₀.computeWindow (c₀.dateAt now)) }) := by
      rw [report,if_neg hm,hp.sunUp,h.place.minuteOf,h.place.wallUtc]
      rfl
    rw [hr] at hft hfs ⊢
    refine ⟨⟨h.place.boot,h.place.tz,h.place.coord,?_⟩,?_,?_,?_⟩
    · rintro date window ⟨⟩
      rfl
    · rw [hstands]
      rfl
    · rw [hstands,List.filterMap_append,List.filterMap_append,hft,List.append_nil]
      exact List.getLast?_concat
    · rw [hstands,List.filterMap_append,List.filterMap_append,hfs,List.append_nil]
      exact List.getLast?_concat

end Tick

/-- Over any ticks of a new clock. -/
theorem stands_ticked {c : ClockAdapter} (silent : c.lastEmitMin = none) (empty : c.sunCache = none)
    (ts : List Millis) : Stands c ts (c.ticks ts).flatten (c.ticked ts) := by
  induction ts using List.reverseRecOn with
  | nil =>
    refine ⟨⟨rfl,rfl,rfl,fun date window h => ?_⟩,silent,rfl,rfl⟩
    cases empty.symm.trans h
  | append_singleton ts now ih =>
    rw [ticks_concat,ticked_concat,List.flatten_append]
    simpa using ih.tick now

/-- A place where the sun is up at one instant of one date, and never else. -/
def flash (date wall : ℤ) : Coordinates where
  sunrise d := if d = date then some wall else some 0
  sunset d := if d = date then some (wall+1) else some 0

theorem sunAt_flash {c : ClockAdapter} {wall w : ℤ}
    (h : c.coord = some (flash (c.dateOf wall) wall)) : c.sunAt wall = true ∧
      (c.sunAt w = true → c.dateOf w = c.dateOf wall) := by
  constructor
  · simp [sunAt,computeWindow,h,flash]
  · intro up
    by_contra other
    simp [sunAt,computeWindow,h,flash,other] at up
    omega

section Stale
variable (device : DeviceId) (boot : ℤ) (tz : Timezone) (schedules : List (ScheduleId × Cron))

/-- The clock as the engine builds it. -/
def built (coord : Option Coordinates) : ClockAdapter :=
  (new device boot tz coord).withSchedules schedules

/-- Whatever the sun does, the clock is never stale, exactly when no tick falls in the same minute of
the day as the tick before it but on another date. -/
theorem clock_never_stale_iff (ts : List Millis) :
    (∀ coord, (built device boot tz schedules coord).NeverStale ts) ↔
      ts.IsChain fun a b =>
        (built device boot tz schedules none).minuteAt a =
            (built device boot tz schedules none).minuteAt b →
          (built device boot tz schedules none).dateAt a =
            (built device boot tz schedules none).dateAt b := by
  rw [← standing_faithful_iff]
  constructor
  · intro fresh earlier now p hts hp
    let coord := some (flash ((built device boot tz schedules none).dateAt p)
      ((built device boot tz schedules none).wallUtc p))
    have hs := stands_ticked (c := built device boot tz schedules coord) rfl rfl (earlier ++ [now])
    obtain ⟨w,hdate,-,hw⟩ := (fresh coord earlier now hts).sun
    let c := built device boot tz schedules coord
    obtain ⟨hup,honly⟩ := @sunAt_flash c (c.wallUtc p) w rfl
    have hp' : standing (built device boot tz schedules coord).minuteAt (earlier ++ [now]) =
      some p := hp
    rw [hs.sun,hp',Option.map_some,hup] at hw
    exact (honly (Option.some.inj hw).symm).symm.trans hdate
  · intro faithful coord earlier now hts
    have hs := stands_ticked (c := built device boot tz schedules coord) rfl rfl (earlier ++ [now])
    obtain ⟨p,hp,hk⟩ := exists_standing (built device boot tz schedules coord).minuteAt
      earlier now
    have hd := faithful earlier now p hts hp
    constructor
    · rw [hs.time,hp,Option.map_some,hk]
      rfl
    · refine ⟨_,hd,hk,?_⟩
      rw [hs.sun,hp]
      rfl

end Stale

/-- The sun sets at 16:00:30 on the first day, and a minute earlier on the next. -/
def autumn : Coordinates where
  sunrise date := some (date*86400000+8*3600000)
  sunset date := some (date*86400000+16*3600000+30000-date*60000)

/-- At four on the next day, the sun of this place is down. -/
theorem sunAt_autumn {c : ClockAdapter} (place : c = built ⟨0⟩ 0 ⟨fun _ => 0⟩ [] (some autumn))
    {w : ℤ} (hd : c.dateOf w = 1) (hm : c.minuteOf w = 960) : c.sunAt w = false := by
  have window : c.computeWindow 1 = .between 115200000 143970000 := by
    rw [place]
    rfl
  rw [sunAt,hd,window]
  subst place
  change (w+0*1000)/86400000 = 1 at hd
  change ((w+0*1000)/60000%1440).toNat = 960 at hm
  exact decide_eq_false (by omega)

/-- At four, and at four on the next day: the second tick reports nothing, and the sun stays up. -/
theorem clock_sleeps_through_a_day : ∃ c : ClockAdapter,
    c = built ⟨0⟩ 0 ⟨fun _ => 0⟩ [] (some autumn) ∧
      c.ticks [57600000,144000000] =
        [[.stateReported ⟨0⟩ (.timeOfDay 960),.stateReported ⟨0⟩ (.sunUp true)],[]] ∧
      ¬c.NeverStale [57600000,144000000] := by
  let c := built ⟨0⟩ 0 ⟨fun _ => 0⟩ [] (some autumn)
  have run : c.ticks [57600000,144000000] =
    [[.stateReported ⟨0⟩ (.timeOfDay 960),.stateReported ⟨0⟩ (.sunUp true)],[]] := by decide
  refine ⟨c,rfl,run,fun fresh => ?_⟩
  obtain ⟨w,hd,hm,hw⟩ := (fresh [57600000] 144000000 ⟨[],rfl⟩).sun
  have down := sunAt_autumn rfl (hd.trans (by decide)) (hm.trans (by decide))
  have up : c.ticks ([57600000] ++ [144000000]) =
    [[.stateReported ⟨0⟩ (.timeOfDay 960),.stateReported ⟨0⟩ (.sunUp true)],[]] := run
  rw [up,down] at hw
  cases hw

end ClockAdapter
end Domiform
