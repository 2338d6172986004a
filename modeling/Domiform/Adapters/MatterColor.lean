import Domiform.Adapters.Southbound
import Domiform.Library.Tables

/-! The events of a Matter adapter over whole runs. Hue and saturation arrive one at a time, between
the reports of other devices and over many ticks; the adapter keeps the last of each per device. -/
namespace Domiform
open Library Matter

/-- The device that a report is for: of those that have its address, the last. -/
def Matter.addressee (devices : List (DeviceId × NodeAddress)) (r : AttrReport) : Option DeviceId :=
  lastWrite (devices.map Prod.swap) (r.node,r.endpoint)

/-- One half of a color, from 0 to 254. -/
inductive Half
  | hue (v : UInt8)
  | sat (v : UInt8)

namespace Half

def asHue : Half → Option UInt8
  | hue v => some v
  | sat _ => none

def asSat : Half → Option UInt8
  | hue _ => none
  | sat v => some v

/-- The half that a report is for a device: addressed to it, with an unsigned value. -/
def ofReport (devices : List (DeviceId × NodeAddress)) (device : DeviceId) (r : AttrReport) :
    Option Half :=
  if r.cluster = 0x0300 ∧ addressee devices r = some device then
    r.value.asU64.bind fun v =>
      if r.attr = 0x0008 then some (hue (UInt8.ofNat (min v 254)))
      else if r.attr = 0x0009 then some (sat (UInt8.ofNat (min v 254)))
      else none
  else none

/-- The halves among the reports that are a device's. -/
def history (devices : List (DeviceId × NodeAddress)) (device : DeviceId) (rs : List AttrReport) :
    List Half :=
  rs.filterMap (ofReport devices device)

def lastHue (halves : List Half) : Option UInt8 := (halves.filterMap asHue).getLast?

def lastSat (halves : List Half) : Option UInt8 := (halves.filterMap asSat).getLast?

/-- The color of a history, once it has both halves. -/
def color (halves : List Half) : Option (UInt8 × UInt8 × UInt8) := do
  let hue ← lastHue halves
  let sat ← lastSat halves
  some (Color.hueSat254ToRgb hue sat)

/-- One color for each half, from the first point on at which both are known. -/
def colors (halves : List Half) : List (UInt8 × UInt8 × UInt8) :=
  (List.range halves.length).filterMap fun i => color (halves.take (i+1))

variable {halves : List Half} {devices : List (DeviceId × NodeAddress)} {device : DeviceId}
  {before : List AttrReport} {r : AttrReport} {half : Half}

theorem colors_concat (halves : List Half) (half : Half) :
    colors (halves ++ [half]) = colors halves ++ (color (halves ++ [half])).toList := by
  have hlen : (halves ++ [half]).length = halves.length+1 := by simp
  rw [colors,hlen,List.range_succ,List.filterMap_append]
  congr 1
  · apply List.filterMap_congr
    intro i hi
    rw [List.take_append_of_le_length (Nat.succ_le_of_lt (List.mem_range.mp hi))]
  · rw [List.filterMap_cons,List.take_of_length_le (by simp)]
    cases color (halves ++ [half]) <;> rfl

@[simp] theorem lastHue_hue (v : UInt8) : lastHue (halves ++ [hue v]) = some v := by
  simp [lastHue,asHue]

@[simp] theorem lastHue_sat (v : UInt8) : lastHue (halves ++ [sat v]) = lastHue halves := by
  simp [lastHue,asHue]

@[simp] theorem lastSat_hue (v : UInt8) : lastSat (halves ++ [hue v]) = lastSat halves := by
  simp [lastSat,asSat]

@[simp] theorem lastSat_sat (v : UInt8) : lastSat (halves ++ [sat v]) = some v := by
  simp [lastSat,asSat]

/-- A half comes from a report of its attribute, addressed to the device. -/
theorem of_ofReport (h : ofReport devices device r = some half) :
    r.cluster = 0x0300 ∧ addressee devices r = some device ∧
      ∃ v, r.value.asU64 = some v ∧
        (r.attr = 0x0008 ∧ half = hue (UInt8.ofNat (min v 254)) ∨
          r.attr = 0x0009 ∧ half = sat (UInt8.ofNat (min v 254))) := by
  by_cases hc : r.cluster = 0x0300 ∧ addressee devices r = some device
  · rw [ofReport,if_pos hc] at h
    obtain ⟨v,hv,h⟩ := Option.bind_eq_some_iff.mp h
    refine ⟨hc.1,hc.2,v,hv,?_⟩
    split_ifs at h with hhue hsat
    · exact .inl ⟨hhue,(Option.some.inj h).symm⟩
    · exact .inr ⟨hsat,(Option.some.inj h).symm⟩
  · rw [ofReport,if_neg hc] at h
    cases h

theorem ofReport_of_ne (h : addressee devices r ≠ some device) : ofReport devices device r = none :=
  if_neg fun hc => h hc.2

/-- A report of hue or saturation to the device is a half, unless its value is no number. -/
theorem asU64_of_ofReport (hc : r.cluster = 0x0300 ∧ (r.attr = 0x0008 ∨ r.attr = 0x0009))
    (own : addressee devices r = some device) (h : ofReport devices device r = none) :
    r.value.asU64 = none := by
  rw [ofReport,if_pos ⟨hc.1,own⟩] at h
  cases hv : r.value.asU64 with
  | none => rfl
  | some v => rcases hc.2 with ha | ha <;> simp [hv,ha] at h

theorem history_concat :
    history devices device (before ++ [r]) =
      history devices device before ++ (ofReport devices device r).toList := by
  rw [history,List.filterMap_append,history]
  cases h : ofReport devices device r <;> simp [h]

/-- What the adapter has in memory after a history. -/
def memory (halves : List Half) : HueSat := ⟨lastHue halves,lastSat halves⟩

end Half

/-- The color an event reports of a device. -/
def Event.colorOf (device : DeviceId) : Event → Option (UInt8 × UInt8 × UInt8)
  | .stateReported d (.color r g b) => if d = device then some (r,g,b) else none
  | _ => none

namespace MatterAdapter

/-- What a report says, after the reports before it. -/
def told (devices : List (DeviceId × NodeAddress)) (before : List AttrReport) (r : AttrReport) :
    List Event :=
  match addressee devices r with
  | none => []
  | some device =>
    if r.cluster = 0x0300 ∧ (r.attr = 0x0008 ∨ r.attr = 0x0009) then
      if (Half.ofReport devices device r).isSome then
        ((Half.color (Half.history devices device (before ++ [r]))).map fun c =>
          Event.stateReported device (.color c.1 c.2.1 c.2.2)).toList
      else []
    else ((reportState r).map (Event.stateReported device)).toList

/-- What the reports say, one after the other. -/
def toldAll (devices : List (DeviceId × NodeAddress)) (before : List AttrReport) :
    List AttrReport → List Event
  | [] => []
  | r :: rs => told devices before r ++ toldAll devices (before ++ [r]) rs

section Told
variable {devices : List (DeviceId × NodeAddress)} {before : List AttrReport} {device : DeviceId}

theorem toldAll_append (rs rs' : List AttrReport) :
    toldAll devices before (rs ++ rs') =
      toldAll devices before rs ++ toldAll devices (before ++ rs) rs' := by
  induction rs generalizing before with
  | nil => rw [List.append_nil]; rfl
  | cons r rs ih =>
    have hsplit : before ++ r :: rs = (before ++ [r]) ++ rs := by simp
    rw [List.cons_append,toldAll,ih,toldAll,hsplit,List.append_assoc (told devices before r)]

/-- Only a report of hue or saturation reports a color. -/
theorem colorOf_reportState (r : AttrReport) (d : DeviceId) :
    (((reportState r).map (Event.stateReported d)).toList).filterMap (Event.colorOf device) = [] := by
  unfold reportState
  split <;> first
    | rfl
    | cases r.value.asBool <;> rfl
    | cases r.value.asU64 <;> rfl

/-- What a report adds to the colors of a device is what its half adds to the history. -/
theorem colorOf_told (before : List AttrReport) (r : AttrReport) :
    Half.colors (Half.history devices device before) ++
        (told devices before r).filterMap (Event.colorOf device) =
      Half.colors (Half.history devices device (before ++ [r])) := by
  cases half : Half.ofReport devices device r with
  | some h =>
    obtain ⟨hc,own,v,-,ha⟩ := Half.of_ofReport half
    have hattr : r.attr = 0x0008 ∨ r.attr = 0x0009 := ha.imp And.left And.left
    have said : told devices before r =
        ((Half.color (Half.history devices device (before ++ [r]))).map fun c =>
          Event.stateReported device (.color c.1 c.2.1 c.2.2)).toList := by
      rw [told,own]
      dsimp only
      rw [if_pos ⟨hc,hattr⟩,half]
      exact if_pos rfl
    have longer : Half.history devices device (before ++ [r]) =
        Half.history devices device before ++ [h] := by rw [Half.history_concat,half]; rfl
    rw [said,longer,Half.colors_concat]
    cases Half.color (Half.history devices device before ++ [h]) with
    | none => rfl
    | some c => simp [Event.colorOf]
  | none =>
    have same : Half.history devices device (before ++ [r]) = Half.history devices device before := by
      rw [Half.history_concat,half,Option.toList_none,List.append_nil]
    have silent : (told devices before r).filterMap (Event.colorOf device) = [] := by
      rw [told]
      cases addressee devices r with
      | none => rfl
      | some d =>
        dsimp only
        split_ifs with hc hd
        · have other : d ≠ device := by
            rintro rfl
            rw [half] at hd
            cases hd
          cases Half.color (Half.history devices d (before ++ [r])) with
          | none => rfl
          | some c => simp [Event.colorOf,other]
        · rfl
        · exact colorOf_reportState r d
    rw [silent,same,List.append_nil]

theorem colorOf_toldAll (before rs : List AttrReport) :
    Half.colors (Half.history devices device before) ++
        (toldAll devices before rs).filterMap (Event.colorOf device) =
      Half.colors (Half.history devices device (before ++ rs)) := by
  induction rs generalizing before with
  | nil => simp [toldAll]
  | cons r rs ih =>
    have hsplit : before ++ r :: rs = (before ++ [r]) ++ rs := by simp
    rw [toldAll,List.filterMap_append,← List.append_assoc,colorOf_told,ih,hsplit]

end Told

variable {C : Type}

/-- The adapter's memory of a device. -/
def remembered (a : MatterAdapter C) (device : DeviceId) : HueSat :=
  (a.hueSat.lookup device).getD ⟨none,none⟩

/-- The adapter after these reports: it knows the addresses, and the last halves of every device. -/
structure Follows (devices : List (DeviceId × NodeAddress)) (before : List AttrReport)
    (a : MatterAdapter C) : Prop where
  addressed : ∀ r : AttrReport, a.byNode.lookup (r.node,r.endpoint) = addressee devices r
  remembers : ∀ device, a.remembered device = Half.memory (Half.history devices device before)

/-- The engine's calls of an adapter. -/
inductive Call
  | tick
  | dispatch (cmd : Command)

/-- What a run hears and what it reports, in order. -/
structure Heard (C : Type) where
  reports : List AttrReport
  events : List Event
  adapter : MatterAdapter C

variable {a : MatterAdapter C} {devices : List (DeviceId × NodeAddress)} {before : List AttrReport}
  {device : DeviceId}

theorem follows_new (devices : List (DeviceId × NodeAddress)) (controller : C) :
    (new devices controller).Follows devices [] where
  addressed r := by
    have swapped : (new devices controller).byNode =
        (devices.map Prod.swap).foldl (fun m x => m.insert x.1 x.2) ∅ := by
      rw [List.foldl_map]
      rfl
    rw [swapped,HashMap.lookup_foldl_eq_lastWrite,AList.lookup_empty,Option.or_none]
    rfl
  remembers _ := rfl

/-- The fold of a half is the memory of the longer history, and its color if it has one. -/
theorem foldHueSat_half {r : AttrReport} {half : Half} (halves : List Half)
    (hr : Half.ofReport devices device r = some half) :
    foldHueSat (Half.memory halves) device r =
      (Half.memory (halves ++ [half]),(Half.color (halves ++ [half])).map fun c =>
        .stateReported device (.color c.1 c.2.1 c.2.2)) := by
  obtain ⟨-,-,v,hv,⟨ha,rfl⟩ | ⟨ha,rfl⟩⟩ := Half.of_ofReport hr
  · rw [foldHueSat,hv]
    simp only [ha,Half.memory,Half.color,Half.lastHue_hue,Half.lastSat_hue,Option.bind_eq_bind,
      Option.bind_some]
    cases Half.lastSat halves <;> rfl
  · rw [foldHueSat,hv]
    simp only [ha,Half.memory,Half.color,Half.lastHue_sat,Half.lastSat_sat,Option.bind_eq_bind,
      Option.bind_some]
    cases Half.lastHue halves <;> rfl

/-- A report that is no half of any device leaves what is remembered alone. -/
theorem Follows.unchanged (h : a.Follows devices before) {r : AttrReport}
    (none_of : ∀ device, Half.ofReport devices device r = none) :
    a.Follows devices (before ++ [r]) where
  addressed := h.addressed
  remembers device := by
    rw [Half.history_concat,none_of,Option.toList_none,List.append_nil]
    exact h.remembers device

/-- A report that is folded for its device. -/
theorem Follows.folded (h : a.Follows devices before) {r : AttrReport}
    (hc : r.cluster = 0x0300 ∧ (r.attr = 0x0008 ∨ r.attr = 0x0009))
    (own : addressee devices r = some device) :
    let folded := foldHueSat (a.remembered device) device r
    folded.2.toList = told devices before r ∧
      Follows devices (before ++ [r])
        { a with hueSat := a.hueSat.insert device folded.1 } := by
  intro folded
  have elsewhere (d : DeviceId) (hd : d ≠ device) : Half.ofReport devices d r = none :=
    Half.ofReport_of_ne fun other => hd (Option.some.inj (other.symm.trans own))
  -- what is folded is what the longer history leaves
  have both : folded.2.toList = told devices before r ∧
      folded.1 = Half.memory (Half.history devices device (before ++ [r])) := by
    rw [told,own]
    dsimp only
    rw [if_pos hc,Half.history_concat]
    cases half : Half.ofReport devices device r with
    | none =>
      have hv := Half.asU64_of_ofReport hc own half
      have kept : folded = (a.remembered device,none) := by simp only [folded,foldHueSat,hv]
      rw [kept]
      refine ⟨rfl,?_⟩
      rw [Option.toList_none,List.append_nil]
      exact h.remembers device
    | some x =>
      have grown := foldHueSat_half (Half.history devices device before) half
      rw [← h.remembers device] at grown
      have grown' : folded = _ := grown
      rw [grown']
      exact ⟨rfl,rfl⟩
  refine ⟨both.1,h.addressed,fun d => ?_⟩
  change ((a.hueSat.insert device folded.1).lookup d).getD _ = _
  rw [HashMap.lookup_insert]
  by_cases hd : d = device
  · rw [if_pos hd,hd]
    exact both.2
  · rw [if_neg hd,Half.history_concat,elsewhere d hd,Option.toList_none,List.append_nil]
    exact h.remembers d

theorem hear_told (h : a.Follows devices before) (r : AttrReport) :
    (a.hear r).1 = told devices before r ∧ (a.hear r).2.Follows devices (before ++ [r]) := by
  unfold hear
  split_ifs with hc
  · rw [h.addressed r]
    cases own : addressee devices r with
    | none =>
      refine ⟨by rw [told,own],h.unchanged fun d => Half.ofReport_of_ne ?_⟩
      rw [own]
      nofun
    | some d => exact h.folded hc own
  · refine ⟨?_,h.unchanged fun d => ?_⟩
    · rw [reportToEvents,h.addressed r,told]
      cases addressee devices r with
      | none => rfl
      | some d => exact (if_neg hc).symm
    · rw [Option.eq_none_iff_forall_ne_some]
      intro half hh
      obtain ⟨hcluster,-,v,-,ha⟩ := Half.of_ofReport hh
      exact hc ⟨hcluster,ha.imp And.left And.left⟩

/-- The same of all reports of a tick. -/
theorem hearAll_told (rs : List AttrReport) (h : a.Follows devices before) :
    (a.hearAll rs).1 = toldAll devices before rs ∧
      (a.hearAll rs).2.Follows devices (before ++ rs) := by
  induction rs generalizing a before with
  | nil => exact ⟨rfl,by rwa [List.append_nil]⟩
  | cons r rs ih =>
    obtain ⟨first,next⟩ := hear_told h r
    obtain ⟨rest,last⟩ := ih next
    rw [hearAll,toldAll,first,rest]
    refine ⟨rfl,?_⟩
    rwa [List.append_assoc,List.singleton_append] at last

variable [MatterController C]

/-- One call; whatever the controller has is heard in a tick. -/
def call (a : MatterAdapter C) : Call → Heard C
  | .tick => ⟨(MatterController.poll a.controller).1,a.tick.1,a.tick.2⟩
  | .dispatch cmd =>
    ⟨[],match (a.dispatch cmd).1 with
      | .ok events => events
      | _ => [],(a.dispatch cmd).2⟩

def run (a : MatterAdapter C) : List Call → Heard C
  | [] => ⟨[],[],a⟩
  | c :: cs =>
    let first := a.call c
    let rest := first.adapter.run cs
    ⟨first.reports ++ rest.reports,first.events ++ rest.events,rest.adapter⟩

theorem call_told (c : Call) (h : a.Follows devices before) :
    (a.call c).events = toldAll devices before (a.call c).reports ∧
      (a.call c).adapter.Follows devices (before ++ (a.call c).reports) := by
  cases c with
  | tick =>
    have polled : Follows devices before
        { a with controller := (MatterController.poll a.controller).2 } := ⟨h.addressed,h.remembers⟩
    exact hearAll_told _ polled
  | dispatch cmd =>
    have hkeeps : (a.dispatch cmd).2.byNode = a.byNode ∧
        (a.dispatch cmd).2.hueSat = a.hueSat := by
      unfold dispatch
      repeat' split
      all_goals exact ⟨rfl,rfl⟩
    have hevents : ((a.call (.dispatch cmd)).events) = [] := by
      unfold call
      dsimp only
      split
      · exact ok_of_dispatch ‹_›
      · rfl
    refine ⟨hevents,fun r => ?_,fun d => ?_⟩
    · change (a.dispatch cmd).2.byNode.lookup _ = _
      rw [hkeeps.1]
      exact h.addressed r
    · change ((a.dispatch cmd).2.hueSat.lookup d).getD _ = Half.memory (Half.history _ d (before ++ []))
      rw [hkeeps.2,List.append_nil]
      exact h.remembers d

theorem run_told (cs : List Call) (h : a.Follows devices before) :
    (a.run cs).events = toldAll devices before (a.run cs).reports := by
  induction cs generalizing a before with
  | nil => rfl
  | cons c cs ih =>
    obtain ⟨first,next⟩ := call_told c h
    rw [run,toldAll_append,first,ih next]

/-- In every run of an adapter, whatever its controller reports: the events are what the reports say,
one after the other; and the colors of a device are those of its own halves, in their order. -/
theorem colors_of_run (devices : List (DeviceId × NodeAddress)) (controller : C) (cs : List Call) :
    let heard := (new devices controller).run cs
    heard.events = toldAll devices [] heard.reports ∧
      ∀ device, heard.events.filterMap (Event.colorOf device) =
        Half.colors (Half.history devices device heard.reports) := by
  intro heard
  have told : heard.events = toldAll devices [] heard.reports :=
    run_told cs (follows_new devices controller)
  refine ⟨told,fun device => ?_⟩
  rw [told]
  exact colorOf_toldAll [] heard.reports

/-- A controller with one batch of reports for each poll, that takes every command. -/
structure Scripted where
  batches : List (List AttrReport)

instance : MatterController Scripted where
  invoke c _ _ := (.ok (),c)
  poll c := (c.batches.headD [],⟨c.batches.tail⟩)

/-- The hue of one lamp, the switch of another and its saturation; then the saturation of the first. -/
def twoPolls : List (List AttrReport) := [
  [⟨4,1,0x0300,0x0008,.int 85⟩,⟨5,1,0x0006,0,.bool true⟩,⟨5,1,0x0300,0x0009,.int 254⟩],
  [⟨4,1,0x0300,0x0009,.int 300⟩]]

/-- The color of the first lamp comes with its saturation; the second has none yet. -/
theorem color_waits_for_saturation :
    let c := Color.hueSat254ToRgb 85 254
    let heard := (new [(⟨0⟩,(4,1)),(⟨1⟩,(5,1))] (⟨twoPolls⟩ : Scripted)).run
      [.tick,.dispatch (.setSwitch ⟨1⟩ true),.tick]
    heard.reports = twoPolls.flatten ∧
      heard.events = [.stateReported ⟨1⟩ (.switch true),
        .stateReported ⟨0⟩ (.color c.1 c.2.1 c.2.2)] ∧
      heard.events.filterMap (Event.colorOf ⟨0⟩) = [c] ∧
      heard.events.filterMap (Event.colorOf ⟨1⟩) = [] := by
  intro c heard
  have reports : heard.reports = twoPolls.flatten := rfl
  obtain ⟨events,colors⟩ := colors_of_run [(⟨0⟩,(4,1)),(⟨1⟩,(5,1))] (⟨twoPolls⟩ : Scripted)
    [.tick,.dispatch (.setSwitch ⟨1⟩ true),.tick]
  refine ⟨reports,events.trans ?_,(colors ⟨0⟩).trans ?_,(colors ⟨1⟩).trans ?_⟩
  · rw [show (run _ _).reports = _ from reports]
    rfl
  · rw [show (run _ _).reports = _ from reports]
    rfl
  · rw [show (run _ _).reports = _ from reports]
    rfl

end MatterAdapter
end Domiform
