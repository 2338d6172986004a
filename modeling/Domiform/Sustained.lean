import Domiform.Compile.Keys
import Domiform.Engine.ForTimers
import Domiform.Guards
import Domiform.Library.Sustain
import Domiform.Replay

/-! Sustained rules. A rule with a `for:` duration answers the edges of its trigger that are sustained
for that long: these, no others, and each once. -/
namespace Domiform
open Library Relation

/-- The store after a stretch of history. -/
def storeAt (tr : List (Millis × Entry)) : StateStore := .replay (reports tr)

theorem storeAt_concat (tr : List (Millis × Entry)) (x : Millis × Entry) : storeAt (tr ++ [x]) =
    match x.2.report with
    | some (d,v) => (storeAt tr).set d v
    | none => storeAt tr := by
  unfold storeAt
  rw [reports_append,reports_cons,reports_nil,List.append_nil]
  cases x.2.report with
  | none => simp
  | some y => exact StateStore.replay_concat _ y

namespace Rule
variable {r : Rule} {pre seg : List (Millis × Entry)} {x : Millis × Entry}

/-- After `pre`, the entry is a report that matches the rule's trigger, and the condition is true of
the store it leaves. -/
def EdgeAt (r : Rule) (pre : List (Millis × Entry)) (x : Millis × Entry) : Prop :=
  ∃ d v, x.2.report = some (d,v) ∧
    r.trigger.matchesEvent (.stateReported d v) ((storeAt pre).get d v.kind) = true ∧
    r.condition.eval ((storeAt pre).set d v) = .true

/-- The predicate of the trigger holds after `pre`, and still after every report of the stretch. -/
def Sustained (r : Rule) (pre seg : List (Millis × Entry)) : Prop :=
  ∀ mid, mid <+: seg → r.trigger.predicateHolds (storeAt (pre ++ mid)) = true

theorem sustained_nil : r.Sustained pre [] ↔ r.trigger.predicateHolds (storeAt pre) = true := by
  unfold Sustained
  simp

theorem sustained_cons : r.Sustained pre (x :: seg) ↔
    r.trigger.predicateHolds (storeAt pre) = true ∧ r.Sustained (pre ++ [x]) seg := by
  constructor
  · intro h
    refine ⟨by simpa using h [] List.nil_prefix,fun mid hm => ?_⟩
    simpa using h (x :: mid) (List.cons_prefix_cons.mpr ⟨rfl,hm⟩)
  · rintro ⟨hx,h⟩ mid hm
    cases mid with
    | nil => simpa using hx
    | cons y mid =>
      obtain ⟨rfl,hp⟩ := List.cons_prefix_cons.mp hm
      simpa using h mid hp

/-- What an entry means to a rule that waits for sustained edges. -/
def sign (r : Rule) (pre : List (Millis × Entry)) (x : Millis × Entry) : Sign :=
  match x.2.report with
  | some (d,v) =>
    if r.trigger.matchesEvent (.stateReported d v) ((storeAt pre).get d v.kind) = true ∧
      r.condition.eval ((storeAt pre).set d v) = .true then .edge
    else if r.trigger.predicateHolds ((storeAt pre).set d v) = true then .other
    else .fall
  | none =>
    match x.2 with
    | .ticked => .tick
    | .firing rule _ => if rule = r.id then .fire else .other
    | _ => .other

theorem sign_of_report {d : DeviceId} {v : CapabilityState} (h : x.2.report = some (d,v)) :
    r.sign pre x =
      if r.trigger.matchesEvent (.stateReported d v) ((storeAt pre).get d v.kind) = true ∧
        r.condition.eval ((storeAt pre).set d v) = .true then .edge
      else if r.trigger.predicateHolds ((storeAt pre).set d v) = true then .other
      else .fall := by
  unfold sign
  rw [h]

theorem sign_eq_edge : r.sign pre x = .edge ↔ r.EdgeAt pre x := by
  cases hr : x.2.report with
  | some y =>
    obtain ⟨d,v⟩ := y
    rw [sign_of_report hr]
    constructor
    · intro h
      split_ifs at h with hm
      exact ⟨d,v,hr,hm⟩
    · rintro ⟨d',v',hr',hm⟩
      obtain ⟨rfl,rfl⟩ : d = d' ∧ v = v' := by simpa using hr.symm.trans hr'
      rw [if_pos hm]
  | none =>
    unfold sign EdgeAt
    rw [hr]
    dsimp only
    constructor
    · intro h
      split at h
      · cases h
      · split_ifs at h
      · cases h
    · rintro ⟨d,v,hr',-⟩
      cases hr'

/-- The predicate is false before an edge and holds after it. -/
theorem EdgeAt.holds (edge : r.trigger.watched.isSome) (h : r.EdgeAt pre x) :
    r.trigger.predicateHolds (storeAt pre) = false ∧
      r.trigger.predicateHolds (storeAt (pre ++ [x])) = true := by
  obtain ⟨d,v,hr,hm,-⟩ := h
  obtain ⟨-,hafter,hbefore⟩ := (Trigger.matchesEvent_stateReported_iff edge).mp hm
  rw [storeAt_concat,hr]
  exact ⟨hbefore,hafter⟩

theorem holds_of_sign_ne_fall (edge : r.trigger.watched.isSome) (hx : r.sign pre x ≠ .fall)
    (before : r.trigger.predicateHolds (storeAt pre) = true) :
    r.trigger.predicateHolds (storeAt (pre ++ [x])) = true := by
  rw [storeAt_concat]
  cases hr : x.2.report with
  | none => exact before
  | some y =>
    obtain ⟨d,v⟩ := y
    rw [sign_of_report hr] at hx
    split_ifs at hx with hm hh
    · exact ((Trigger.matchesEvent_stateReported_iff edge).mp hm.1).2.1
    · exact hh
    · exact absurd rfl hx

theorem fails_of_sign_eq_fall (hx : r.sign pre x = .fall) :
    r.trigger.predicateHolds (storeAt (pre ++ [x])) = false := by
  rw [storeAt_concat]
  cases hr : x.2.report with
  | some y =>
    obtain ⟨d,v⟩ := y
    rw [sign_of_report hr] at hx
    split_ifs at hx with hm hh
    simpa using hh
  | none =>
    unfold sign at hx
    rw [hr] at hx
    dsimp only at hx
    split at hx
    · cases hx
    · split_ifs at hx
    · cases hx

/-- Without a fall the predicate is sustained. -/
theorem sustained_of_never (edge : r.trigger.watched.isSome)
    (before : r.trigger.predicateHolds (storeAt pre) = true)
    (h : Wait.Never r.sign (fun _ s => s = .fall) pre seg) : r.Sustained pre seg := by
  induction seg generalizing pre with
  | nil => exact sustained_nil.mpr before
  | cons x seg ih =>
    rw [Wait.never_cons] at h
    rw [sustained_cons]
    exact ⟨before,ih (holds_of_sign_ne_fall edge h.1 before) h.2⟩

/-- While the predicate is sustained there is neither a fall nor another edge. -/
theorem Sustained.never (edge : r.trigger.watched.isSome) (h : r.Sustained pre seg) :
    Wait.Never r.sign (fun _ s => s = .edge ∨ s = .fall) pre seg := by
  induction seg generalizing pre with
  | nil => exact Wait.never_nil
  | cons x seg ih =>
    rw [sustained_cons] at h
    rw [Wait.never_cons]
    refine ⟨?_,ih h.2⟩
    have hafter : r.trigger.predicateHolds (storeAt (pre ++ [x])) = true := by
      simpa using h.2 [] List.nil_prefix
    rintro (hx | hx)
    · have hbefore := ((sign_eq_edge.mp hx).holds edge).1
      rw [h.1] at hbefore
      cases hbefore
    · rw [fails_of_sign_eq_fall hx] at hafter
      cases hafter

theorem sign_firing {t : Millis} {s : StateStore} : r.sign pre (t,.firing r.id s) = .fire := by
  simp [sign,Entry.report]

theorem sign_eq_fire : r.sign pre x = .fire ↔ ∃ s, x.2 = .firing r.id s := by
  constructor
  · intro h
    cases hr : x.2.report with
    | some y =>
      obtain ⟨d,v⟩ := y
      rw [sign_of_report hr] at h
      split_ifs at h
    | none =>
      unfold sign at h
      rw [hr] at h
      dsimp only at h
      split at h
      · cases h
      · rename_i rule s hx
        split_ifs at h with hid
        exact ⟨s,by rw [hx,hid]⟩
      · cases h
  · rintro ⟨s,hs⟩
    simp [sign,hs,Entry.report]

theorem sign_eq_tick : r.sign pre x = .tick ↔ x.2 = .ticked := by
  constructor
  · intro h
    cases hr : x.2.report with
    | some y =>
      obtain ⟨d,v⟩ := y
      rw [sign_of_report hr] at h
      split_ifs at h
    | none =>
      unfold sign at h
      rw [hr] at h
      dsimp only at h
      split at h
      · rename_i hx
        exact hx
      · split_ifs at h
      · cases h
  · intro hx
    simp [sign,hx,Entry.report]

/-- Entries that are neither bus entries nor firings of the rule mean nothing to it. -/
theorem sign_eq_other (hb : x.2.isBus = false) (hf : ∀ s, x.2 ≠ .firing r.id s) :
    r.sign pre x = .other := by
  unfold sign
  rw [Entry.report_of_isBus hb]
  dsimp only
  split
  · rename_i hx
    rw [hx] at hb
    cases hb
  · rename_i rule s hx
    rw [if_neg]
    rintro rfl
    exact hf s hx
  · rfl

end Rule

namespace Engine
variable {A N : Type}

/-- How far the rule is with its wait, as the engine has it: no timer, a timer in the scheduler, or a
timer that elapsed and is on the queue. While it waits its predicate holds. -/
def Link (r : Rule) (d : Millis) (e : Engine A N) : Wait → Prop
  | .idle => e.pendingFor.lookup r.id = none
  | .waiting t => Armed r.id (t+d) e ∧ r.trigger.predicateHolds e.state = true
  | .due t n => (∃ key, e.pendingFor.lookup r.id = some ⟨key⟩ ∧ (.timerElapsed key,0) ∈ e.queue) ∧
      n = e.now ∧ t+d ≤ e.now ∧ r.trigger.predicateHolds e.state = true

/-- The history reads as a sequence of sustained edges and answers, up to where the engine is. -/
def Watched (r : Rule) (d : Millis) (e : Engine A N) : Prop :=
  ∃ w, Wait.read r.sign Prod.fst d [] .idle e.trace = some w ∧ Link r d e w

variable {r : Rule} {d : Millis} {e e' : Engine A N} {w : Wait}

theorem Link.kept (h : Link r d e w) (hk : Kept r.id e e') (hn : e'.now = e.now)
    (hq : ∀ key, e.pendingFor.lookup r.id = some ⟨key⟩ →
      (.timerElapsed key,0) ∈ e.queue → (.timerElapsed key,0) ∈ e'.queue)
    (hs : r.trigger.predicateHolds e.state = true → r.trigger.predicateHolds e'.state = true) :
    Link r d e' w := by
  cases w with
  | idle => exact hk.pendingFor.trans h
  | waiting t => exact ⟨hk.armed h.1,hs h.2⟩
  | due t n =>
    obtain ⟨⟨key,hp,hm⟩,hnow,hle,hh⟩ := h
    rw [← hn] at hnow hle
    exact ⟨⟨key,hk.pendingFor.trans hp,hq key hp hm⟩,hnow,hle,hs hh⟩

/-- Between two calls nothing is due. -/
theorem Link.of_idle (h : Link r d e w) (idle : e.queue = []) (hp : e'.pendingFor = e.pendingFor)
    (ha : e'.adapters = e.adapters) (hs : e'.state = e.state) : Link r d e' w := by
  have hk : Kept r.id e e' := .of_eq hp ha
  cases w with
  | idle => exact hk.pendingFor.trans h
  | waiting t => exact ⟨hk.armed h.1,by rw [hs]; exact h.2⟩
  | due t n =>
    obtain ⟨⟨key,-,hm⟩,-⟩ := h
    rw [idle] at hm
    cases hm

theorem Watched.record (h : Watched r d e) {x : Entry} (hx : r.sign e.trace (e.now,x) = .other)
    (hl : ∀ w, Link r d e w → Link r d e' w) (ht : e'.trace = e.trace ++ [(e.now,x)]) :
    Watched r d e' := by
  obtain ⟨w,hr,hw⟩ := h
  refine ⟨w,?_,hl w hw⟩
  rw [ht,Wait.read_concat,hr,List.nil_append,hx]
  rfl

variable [Adapter A] [NorthboundAdapter N] {π : HashOrder}

/-- A tick makes due what has been waited for long enough. -/
theorem Watched.tick {host : Host N} (only : SchedulerOnly A host) (h : Watched r d e)
    (idle : e.queue = []) : Watched r d (e.tickAdapters π) := by
  obtain ⟨w,hr,hw⟩ := h
  have hs : r.sign e.trace (e.now,.ticked) = .tick := Rule.sign_eq_tick.mpr rfl
  unfold Watched
  rw [tickAdapters_trace,Wait.read_concat,hr,List.nil_append,hs]
  cases w with
  | idle => exact ⟨.idle,rfl,hw⟩
  | waiting t =>
    obtain ⟨⟨key,hp,hd⟩,hh⟩ := hw
    by_cases hle : t+d ≤ e.now
    · refine ⟨.due t e.now,by simp [Wait.next,hle],⟨key,hp,?_⟩,rfl,hle,hh⟩
      exact (mem_tickAdapters_queue π only idle).mpr ⟨rfl,t+d,hd,hle⟩
    · refine ⟨.waiting t,by simp [Wait.next,hle],⟨key,hp,?_⟩,hh⟩
      rw [tickAdapters_dueAt,if_neg]
      · exact hd
      · rintro ⟨t',ht,hle'⟩
        cases hd.symm.trans ht
        exact hle hle'
  | due t n =>
    obtain ⟨⟨key,-,hm⟩,-⟩ := hw
    rw [idle] at hm
    cases hm

/-- Internal entries of other rules mean nothing to the rule. -/
theorem never_of_internal {pre : List (Millis × Entry)} {t : Millis} {xs : List Entry}
    (hxs : ∀ x ∈ xs, x.isBus = false ∧ ∀ s, x ≠ .firing r.id s) :
    Wait.Never r.sign (fun _ s => s ≠ .other) pre (xs.map fun x => (t,x)) := by
  intro ys y zs he
  have hm : y ∈ xs.map fun x => (t,x) := by
    rw [he]
    simp
  obtain ⟨x,hx,rfl⟩ := List.mem_map.mp hm
  rw [not_not]
  exact Rule.sign_eq_other (hxs x hx).1 (hxs x hx).2

omit [Adapter A] [NorthboundAdapter N] in
/-- After an entry and internal ones of other rules, the monitor is where the entry left it. -/
theorem read_entry {x : Entry} {xs : List Entry}
    (hr : Wait.read r.sign Prod.fst d [] .idle e.trace = some w)
    (ht : e'.trace = e.trace ++ (e.now,x) :: xs.map fun x => (e.now,x))
    (hxs : ∀ x ∈ xs, x.isBus = false ∧ ∀ s, x ≠ .firing r.id s) :
    Wait.read r.sign Prod.fst d [] .idle e'.trace =
      Wait.next d e.now (r.sign e.trace (e.now,x)) w := by
  rw [ht,Wait.read_append,hr,Option.bind_some,List.nil_append,Wait.read]
  cases hw : Wait.next d e.now (r.sign e.trace (e.now,x)) w with
  | none => rfl
  | some w' => exact Wait.read_of_other (never_of_internal hxs)

section Process
variable {fuel depth : ℕ} {ev : Event} {rest : List (Event × ℕ)}

/-- The rule's own timer elapsed: its commands are dispatched, and it waits no more. -/
theorem Watched.expire (keyed : e.Keyed) (timely : e.Timely Own) (distinct : e.RulesDistinct)
    (hr : r ∈ e.rules) {key : TimerKey} (waiting : e.pendingFor.lookup r.id = some ⟨key⟩)
    (next : e.queue = (.timerElapsed key,depth) :: rest)
    (hp : process π fuel (.timerElapsed key) depth { e with queue := rest } = .ok e')
    (h : Watched r d e) : Watched r d e' := by
  obtain ⟨w,hread,hw⟩ := h
  obtain ⟨own,-⟩ := keyed.issued waiting
  have hm : (.timerElapsed key,depth) ∈ e.queue := by simp [next]
  have hdepth := timely.shallow key depth hm
  subst hdepth
  cases w with
  | idle =>
    have hn : e.pendingFor.lookup r.id = none := hw
    rw [waiting] at hn
    cases hn
  | waiting t =>
    -- the timer would still be in the scheduler
    obtain ⟨⟨k,hk,hd⟩,-⟩ := hw
    cases waiting.symm.trans hk
    rw [(timely.elapsing key 0 own hm).2] at hd
    cases hd
  | due t n =>
    obtain ⟨-,rfl,hle,hh⟩ := hw
    let e₁ : Engine A N := { e with queue := rest }
    have keyed₁ : e₁.Keyed := keyed.of_eq rfl rfl rfl rfl
    have keyed₂ : (e₁.received (.timerElapsed key) 0).Keyed := keyed₁.of_eq rfl rfl rfl rfl
    have hfire := (process_of_waiting π fuel keyed₁ (Nat.zero_le _) waiting).symm.trans hp
    have hh' : r.trigger.predicateHolds (e₁.received (.timerElapsed key) 0).state = true := hh
    rw [fireElapsedFor_of_waiting π fuel keyed₂ distinct hr waiting,if_pos hh'] at hfire
    have hf := acts_frame (dispatchAll_acts (fun _ => True) (fun _ _ => trivial)
      (fun _ _ _ _ _ => trivial) hfire)
    obtain ⟨xs,hx,hxs⟩ := hf.trace
    have ht : e'.trace = (e.trace ++ [(e.now,.notice (.eventReceived (.timerElapsed key) 0))] ++
        [(e.now,.firing r.id e.state)]) ++ xs.map fun x => (e.now,x) := hx
    have hxs' : ∀ x ∈ xs, x.isBus = false ∧ ∀ s, x ≠ .firing r.id s := by
      intro x hm
      obtain ⟨hb,hn⟩ := Entry.inner_of_isDispatch (hxs x hm)
      exact ⟨hb,hn r.id⟩
    refine ⟨.idle,?_,?_⟩
    · have hs : r.sign e.trace (e.now,.notice (.eventReceived (.timerElapsed key) 0)) = .other := rfl
      rw [ht,Wait.read_append,Wait.read_concat,Wait.read_concat,hread,List.nil_append,
        List.nil_append,hs,Rule.sign_firing]
      simp only [Wait.next,Option.bind_some,hle,and_self,if_true]
      exact Wait.read_of_other (never_of_internal hxs')
    · have hpend : e'.pendingFor = e.pendingFor.erase r.id := hf.pendingFor
      change e'.pendingFor.lookup r.id = none
      rw [hpend,HashMap.lookup_erase,if_pos rfl]

/-- Processing an event that is not the rule's own expiry writes, after the event, only entries that
mean nothing to the rule. -/
theorem Processed.history_of_foreign (distinct : e.RulesDistinct) (hr : r ∈ e.rules)
    (hd : r.forDuration = some d)
    (foreign : ∀ key, e.pendingFor.lookup r.id = some ⟨key⟩ → ev ≠ .timerElapsed key)
    (le : depth ≤ e.maxCascadeDepth) (h : Processed π fuel depth e ev e') :
    ∃ xs : List Entry, e'.trace =
        e.trace ++ (e.now,.notice (.eventReceived ev depth)) :: xs.map (fun x => (e.now,x)) ∧
      ∀ x ∈ xs, x.isBus = false ∧ ∀ s, x ≠ .firing r.id s := by
  obtain ⟨xs,hx,hxs⟩ := h.history le
  refine ⟨xs,hx,fun x hm => ⟨(hxs x hm).1,fun s he => ?_⟩⟩
  obtain ⟨-,r',hf,hid⟩ := (hxs x hm).2 r.id s he
  cases hf with
  | now mem immediate matched holds =>
    rw [distinct.eq_of_id mem hr hid,hd] at immediate
    cases immediate
  | later key timer pending fresh found sustained =>
    rw [hid] at pending
    exact foreign key pending timer

/-- A report. -/
theorem Watched.report {device : DeviceId} {v : CapabilityState} (keyed : e.Keyed)
    (distinct : e.RulesDistinct) (avoid : e.CommandsIn (Command.Avoids Own))
    (replays : e.Replays) (hr : r ∈ e.rules)
    (edge : r.trigger.watched.isSome) (hd : r.forDuration = some d)
    (hp : Processed π fuel depth e (.stateReported device v) e') (le : depth ≤ e.maxCascadeDepth)
    (nowrap : e'.overflowed = false)
    (hread : Wait.read r.sign Prod.fst d [] .idle e.trace = some w) (hw : Link r d e w) :
    Watched r d e' := by
  obtain ⟨xs,ht,hxs⟩ := hp.history_of_foreign distinct hr hd (by rintro key - ⟨⟩) le
  have hstate : e'.state = e.state.set device v := hp.state le
  have hi := hp.internal le
  have hnow : e'.now = e.now := hi.now
  have hqueue (x) (hx : x ∈ e.queue) : x ∈ e'.queue := by
    obtain ⟨evs,hq,-⟩ := hi.queue
    rw [hq]
    exact List.mem_append_left _ hx
  have hsign : r.sign e.trace (e.now,.notice (.eventReceived (.stateReported device v) depth)) = _ :=
    Rule.sign_of_report rfl
  have hstore : storeAt e.trace = e.state := replays.symm
  rw [hstore] at hsign
  have hreact : react π fuel (.stateReported device v) depth
      (e.received (.stateReported device v) depth) = .ok e' := by
    cases hp with
    | dropped ev deep => exact absurd le (not_le.mpr deep)
    | reacted ev e' le ordinary report h => exact h
  have keyed₁ : (e.received (.stateReported device v) depth).Keyed := keyed.of_eq rfl rfl rfl rfl
  obtain ⟨e₁,fired,hrun,hkeyed,hn₁,hs₁,hfired,hkept,hcleared⟩ := react_report keyed₁ distinct hr hreact
  have hscenes : e₁.ScenesIn (Command.Avoids Own) := by
    unfold ScenesIn
    rw [hs₁]
    exact avoid.scenes
  have hlast : Kept r.id (armAll fired e₁) e' :=
    runFired_kept hkeyed hscenes (fun r' hm => avoid.rules r' ((hfired r').mp hm).1) hrun
  have unique (r') (hm : r' ∈ fired) (hid : r'.id = r.id) : r' = r :=
    distinct.eq_of_id ((hfired r').mp hm).1 hr hid
  by_cases hedge : r.trigger.matchesEvent (.stateReported device v) (e.state.get device v.kind) = true ∧
      r.condition.eval (e.state.set device v) = .true
  · -- an edge arms the timer afresh
    rw [if_pos hedge] at hsign
    have hin : r ∈ fired := (hfired r).mpr ⟨hr,hedge⟩
    have hov : (armAll fired e₁).overflowed = false := by
      have hi' : Internal (fun _ => True) depth (armAll fired e₁) e' :=
        foldlM_ok_induct (I := fun b => Internal (fun _ => True) depth (armAll fired e₁) b)
          (fun r' _ b b' hb hf => hb.trans (.of_fire trivial hf)) (.refl _) hrun
      exact hi'.overflowed nowrap
    have harmed := hlast.armed (armAll_armed hkeyed hin hd unique hov)
    refine ⟨.waiting e.now,?_,?_,?_⟩
    · rw [read_entry hread ht hxs,hsign]
      rfl
    · rwa [hn₁] at harmed
    · rw [hstate]
      exact ((Trigger.matchesEvent_stateReported_iff edge).mp hedge.1).2.1
  · rw [if_neg hedge] at hsign
    have hspared : ∀ r' ∈ fired, r'.id ≠ r.id := by
      intro r' hm hid
      rw [unique r' hm hid] at hm
      exact hedge ((hfired r).mp hm).2
    have harm := armAll_kept hkeyed hspared
    by_cases hh : r.trigger.predicateHolds (e.state.set device v) = true
    · rw [if_pos hh] at hsign
      refine ⟨w,?_,?_⟩
      · rw [read_entry hread ht hxs,hsign]
        rfl
      · have hk : Kept r.id e (e.received (.stateReported device v) depth) := .of_eq rfl rfl
        refine hw.kept (((hk.trans (hkept hh)).trans harm).trans hlast) hnow
          (fun _ _ hm => hqueue _ hm) (fun _ => ?_)
        rw [hstate]
        exact hh
    · -- a fall cancels it
      rw [if_neg hh] at hsign
      refine ⟨.idle,?_,?_⟩
      · rw [read_entry hread ht hxs,hsign]
        rfl
      · have hnone := hcleared ((Bool.not_eq_true _).mp hh)
        exact (hlast.pendingFor.trans harm.pendingFor).trans hnone

/-- Any other event. -/
theorem Watched.foreign (keyed : e.Keyed) (distinct : e.RulesDistinct)
    (avoid : e.CommandsIn (Command.Avoids Own))
    (hr : r ∈ e.rules) (edge : r.trigger.watched.isSome) (hd : r.forDuration = some d)
    (quiet : ∀ device v, ev ≠ .stateReported device v)
    (foreign : ∀ key, e.pendingFor.lookup r.id = some ⟨key⟩ → ev ≠ .timerElapsed key)
    (hp : Processed π fuel depth e ev e') (le : depth ≤ e.maxCascadeDepth)
    (hread : Wait.read r.sign Prod.fst d [] .idle e.trace = some w) (hw : Link r d e w) :
    Watched r d e' := by
  obtain ⟨xs,ht,hxs⟩ := hp.history_of_foreign distinct hr hd foreign le
  have hi := hp.internal le
  have hfold : (e.received ev depth).foldState ev = e.received ev depth := by
    cases ev with
    | stateReported device v => exact absurd rfl (quiet device v)
    | _ => rfl
  rw [hfold] at hi
  have hsign : r.sign e.trace (e.now,.notice (.eventReceived ev depth)) = .other := by
    cases ev with
    | stateReported device v => exact absurd rfl (quiet device v)
    | _ => rfl
  refine ⟨w,?_,?_⟩
  · rw [read_entry hread ht hxs,hsign]
    rfl
  · have hk := Processed.kept keyed distinct avoid hr edge quiet foreign hp
    refine hw.kept hk hi.now (fun _ _ hm => ?_) (fun hh => ?_)
    · obtain ⟨evs,hq,-⟩ := hi.queue
      rw [hq]
      exact List.mem_append_left _ hm
    · rw [hi.state]
      exact hh

end Process
end Engine

section Runs
variable {A N : Type} [Adapter A] [NorthboundAdapter N] {π : HashOrder} {host : Host N}
  {c c' : Config A N} {r : Rule} {d : Millis}

/-- Every step of a run leads from a history the monitor reads to one it reads. -/
theorem Step.watched (only : SchedulerOnly A host) (keyed : c.engine.Keyed)
    (timely : c.engine.Timely Engine.Own) (distinct : c.engine.RulesDistinct)
    (avoid : c.engine.CommandsIn (Command.Avoids Engine.Own)) (replays : c.engine.Replays)
    (hr : r ∈ c.engine.rules)
    (edge : r.trigger.watched.isSome) (hd : r.forDuration = some d) (step : Step π host c c')
    (nowrap : c'.engine.overflowed = false) (h : c.engine.Watched r d) : c'.engine.Watched r d := by
  cases step with
  | @process e e' p ev depth rest fuel next hp =>
    by_cases own : ∃ key, e.pendingFor.lookup r.id = some ⟨key⟩ ∧ ev = .timerElapsed key
    · obtain ⟨key,waiting,rfl⟩ := own
      exact h.expire keyed timely distinct hr waiting next hp
    · have foreign (key) (hk : e.pendingFor.lookup r.id = some ⟨key⟩) : ev ≠ .timerElapsed key :=
        fun he => own ⟨key,hk,he⟩
      obtain ⟨w,hread,hw⟩ := h
      have hp' := Engine.process_processed hp
      let e₁ : Engine A N := { e with queue := rest }
      have keyed₁ : e₁.Keyed := keyed.of_eq rfl rfl rfl rfl
      -- the head of the queue is not the timer the rule waits for
      have hw₁ : Engine.Link r d e₁ w := by
        refine hw.kept (.of_eq rfl rfl) rfl (fun key hk hm => ?_) id
        rw [next] at hm
        rcases List.mem_cons.mp hm with hm | hm
        · exact absurd (Prod.mk.inj hm).1.symm (foreign key hk)
        · exact hm
      by_cases le : depth ≤ e.maxCascadeDepth
      · by_cases hreport : ∃ device v, ev = .stateReported device v
        · obtain ⟨device,v,rfl⟩ := hreport
          exact Engine.Watched.report keyed₁ distinct ⟨avoid.rules,avoid.scenes⟩ replays hr edge hd
            hp' le nowrap hread hw₁
        · have quiet (device v) : ev ≠ .stateReported device v :=
            fun he => hreport ⟨device,v,he⟩
          exact Engine.Watched.foreign keyed₁ distinct ⟨avoid.rules,avoid.scenes⟩ hr edge hd quiet
            foreign hp' le hread hw₁
      · cases hp' with
        | dropped =>
          have hlink (w) (hw : Engine.Link r d e₁ w) :
              Engine.Link r d (e₁.notify (.cascadeDropped ev depth)) w :=
            hw.kept (.of_eq rfl rfl) rfl (fun _ _ hm => hm) id
          have h₁ : e₁.Watched r d := ⟨w,hread,hw₁⟩
          exact h₁.record rfl hlink rfl
        | _ => contradiction
  | @start e p idle ready =>
    have h₁ : (e.record .started).Watched r d :=
      h.record rfl (fun w hw => hw.of_idle idle rfl rfl rfl) rfl
    exact h₁.tick only idle
  | @advance e p dt idle ready =>
    obtain ⟨w,hread,hw⟩ := h
    have h₁ : (e.elapse dt).Watched r d := ⟨w,hread,hw.of_idle idle rfl rfl rfl⟩
    exact h₁.tick only idle
  | synced idle | inject ev may idle | addNorthbound n may idle =>
    obtain ⟨w,hread,hw⟩ := h
    exact ⟨w,hread,hw.of_idle idle rfl rfl rfl⟩

theorem Run.watched {e₀ : Engine A N} {p : Phase} (fresh : e₀.Fresh) (only : SchedulerOnly A host)
    (distinct : e₀.RulesDistinct) (avoid : e₀.CommandsIn (Command.Avoids Engine.Own)) (hr : r ∈ e₀.rules)
    (edge : r.trigger.watched.isSome) (hd : r.forDuration = some d)
    (run : Run π host ⟨e₀,p⟩ c) (nowrap : c.engine.overflowed = false) :
    c.engine.Watched r d := by
  have inv : c.engine.Replays ∧ c.engine.Watched r d := by
    induction run with
    | refl =>
      have hp : e₀.pendingFor = ∅ := congrArg Timers.pendingFor fresh.timers
      refine ⟨fresh.replays,.idle,by rw [fresh.trace]; rfl,?_⟩
      change e₀.pendingFor.lookup r.id = none
      rw [hp]
      rfl
    | tail run step ih =>
      obtain ⟨hreplays,hw⟩ := ih (step.overflowed nowrap)
      have hwire := Run.wiring run
      refine ⟨step.replays hreplays,?_⟩
      refine step.watched only (Run.keyed fresh run) (Run.timely fresh only avoid run)
        (distinct.of_wiring hwire) (avoid.of_wiring hwire) hreplays ?_ edge hd nowrap hw
      rw [hwire.rules]
      exact hr
  exact inv.2

end Runs

/-- In every run of an accepted config that stays out of the engine's namespaces, and as long as no
sum of times wraps, a rule that waits for `d` fires only for an edge sustained for `d`; it fires at
most once for each edge; and an edge that stays sustained fires it exactly once, within the first
tick that is late enough. -/
theorem sustained_edges_fire_once {A N : Type} [Adapter A] [NorthboundAdapter N] {π : HashOrder}
    {host : Host N} {c : Config A N} {b : Builders A N} {lib : Libraries} {raw : RawConfig}
    {cfg : CompiledConfig} (accepted : resolve lib π raw = .ok cfg) {e₀ : Engine A N}
    (built : buildEngineFull b cfg = some e₀) (apart : raw.KeysApart)
    (only : SchedulerOnly A host) {p : Phase} (run : Run π host ⟨e₀,p⟩ c)
    (nowrap : c.engine.overflowed = false) {r : Rule} (hr : r ∈ c.engine.rules) {d : Millis}
    (edge : r.trigger.watched.isSome) (hd : r.forDuration = some d) :
    (∀ pre t s post, c.engine.trace = pre ++ (t,.firing r.id s) :: post →
      ∃ before x since, pre = before ++ x :: since ∧ r.EdgeAt before x ∧ x.1+d ≤ t ∧
        r.Sustained (before ++ [x]) since) ∧
    (∀ pre x mid t s mid' t' s' post,
      c.engine.trace = pre ++ x :: (mid ++ (t,.firing r.id s) :: (mid' ++ (t',.firing r.id s') :: post)) →
        r.EdgeAt pre x → ¬r.Sustained (pre ++ [x]) (mid ++ (t,.firing r.id s) :: mid')) ∧
    ∀ pre x mid now post, c.engine.trace = pre ++ x :: (mid ++ (now,.ticked) :: post) →
      r.EdgeAt pre x → r.Sustained (pre ++ [x]) (mid ++ (now,.ticked) :: post) → x.1+d ≤ now →
      (∀ t, (t,Entry.ticked) ∈ mid → t < x.1+d) → c.engine.queue = [] →
        ∃ ys s zs, post = ys ++ (now,.firing r.id s) :: zs ∧ (∀ t, (t,Entry.ticked) ∉ ys) ∧
          ∀ t s, (t,Entry.firing r.id s) ∉ mid ++ ys ++ zs := by
  have hb := built_of_accepted accepted built
  have hr₀ : r ∈ e₀.rules := by
    rw [← (Run.wiring run).rules]
    exact hr
  obtain ⟨w,hread,hlink⟩ := run.watched hb.fresh only (hb.rulesDistinct accepted)
    ((hb.commandsApart accepted apart).mono fun _ h => h.avoids) hr₀ edge hd nowrap
  refine ⟨fun pre t s post ht => ?_,fun pre x mid t s mid' t' s' post ht hx hsus => ?_,
    fun pre x mid now post ht hx hsus late early idle => ?_⟩
  · rw [ht] at hread
    obtain ⟨t₀,⟨before,x,since,rfl,hx,rfl,hn⟩,hle⟩ := Wait.held_of_fire hread Rule.sign_firing
    have hedge := Rule.sign_eq_edge.mp hx
    exact ⟨before,x,since,rfl,hedge,hle,Rule.sustained_of_never edge (hedge.holds edge).2 hn⟩
  · have hassoc : pre ++ x :: (mid ++ (t,.firing r.id s) :: (mid' ++ (t',.firing r.id s') :: post)) =
        (pre ++ x :: mid) ++ (t,.firing r.id s) :: (mid' ++ (t',.firing r.id s') :: post) := by
      simp
    rw [ht,hassoc] at hread
    apply Wait.edge_between_fires hread Rule.sign_firing Rule.sign_firing
    have hnever := hsus.never edge
    rw [Wait.never_append,Wait.never_cons] at hnever
    have hlast := hnever.2.2.mono (q := fun _ s => s = .edge) fun _ _ => .inl
    simpa using hlast
  · rw [ht] at hread
    have hw (t n) : w ≠ .due t n := by
      rintro rfl
      obtain ⟨⟨key,-,hm⟩,-⟩ := hlink
      rw [idle] at hm
      cases hm
    have first : Wait.Never r.sign (fun y s => s = .tick ∧ x.1+d ≤ y.1) (pre ++ [x]) mid := by
      intro xs y ys he hy
      have hm : (y.1,Entry.ticked) ∈ mid := by
        rw [he,← Rule.sign_eq_tick.mp hy.1]
        simp
      exact absurd hy.2 (not_le.mpr (early y.1 hm))
    obtain ⟨hmid,ys,y,zs,rfl,hy,htime,hys,hzs⟩ := Wait.fires_once hread (Rule.sign_eq_edge.mpr hx)
      (hsus.never edge) (Rule.sign_eq_tick.mpr rfl) late first hw
    obtain ⟨s,hs⟩ := Rule.sign_eq_fire.mp hy
    obtain rfl : y = (now,.firing r.id s) := Prod.ext htime hs
    -- an entry of a kind that a stretch never has is not in the stretch
    have absent {q : Sign → Prop} {l₀ l : List (Millis × Entry)}
        (hn : Wait.Never r.sign (fun _ s => q s) l₀ l) {z : Millis × Entry}
        (hz : ∀ l', q (r.sign l' z)) : z ∉ l := by
      intro hm
      obtain ⟨l₁,l₂,rfl⟩ := List.append_of_mem hm
      exact hn l₁ z l₂ rfl (hz _)
    refine ⟨ys,s,zs,rfl,fun t => ?_,fun t s' hm => ?_⟩
    · exact absent (q := fun s => s = .fire ∨ s = .tick) hys fun _ => .inr (Rule.sign_eq_tick.mpr rfl)
    · rw [List.mem_append,List.mem_append] at hm
      rcases hm with (hm | hm) | hm
      · exact absent (q := fun s => s = .fire) hmid (fun _ => Rule.sign_firing) hm
      · exact absent (q := fun s => s = .fire ∨ s = .tick) hys (fun _ => .inl Rule.sign_firing) hm
      · exact absent (q := fun s => s = .fire) hzs (fun _ => Rule.sign_firing) hm

theorem presence_keysApart : presenceConfig.KeysApart := by
  have hl : presenceConfig.lines = [.mapping [(.string "turn_off",.string "lamp")]] := rfl
  have hv (v) (hv : v ∈ presenceConfig.lines) : v.scheduledKey = none ∧ v.cancelledKey = none := by
    rw [hl,List.mem_singleton] at hv
    rw [hv]
    exact ⟨rfl,rfl⟩
  refine ⟨fun v hm key hk => ?_,fun v hm key hk => ?_⟩
  · rw [(hv v hm).1] at hk
    cases hk
  · rw [(hv v hm).2] at hk
    cases hk

/-- The lamp is on, someone is there for a second, and the lamp is turned off: for an edge that was
sustained for that second. -/
theorem presence_fires_after_a_second : ∃ cfg e₀ c r,
    resolve plainLibraries .identity presenceConfig = .ok cfg ∧
      buildEngineFull plainBuilders cfg = some e₀ ∧ Run .identity .timerless ⟨e₀,.wired⟩ c ∧
      r ∈ c.engine.rules ∧ ∃ before x since t s post,
        c.engine.trace = before ++ x :: since ++ (t,.firing r.id s) :: post ∧ r.EdgeAt before x ∧
          x.1+1000 ≤ t ∧ r.Sustained (before ++ [x]) since := by
  obtain ⟨cfg,e₀,h,hb,hq,e₁,h₁,e₂,h₂,e₃,h₃,hw,r,hr,he,hd,hf⟩ : ∃ cfg e₀,
      resolve plainLibraries .identity presenceConfig = .ok cfg ∧
        buildEngineFull plainBuilders cfg = some e₀ ∧ e₀.queue = [] ∧
        ∃ e₁, e₀.inject .identity 3 (.stateReported ⟨0⟩ (.switch true)) = .ok e₁ ∧
        ∃ e₂, e₁.inject .identity 3 (.stateReported ⟨0⟩ (.occupancy true)) = .ok e₂ ∧
        ∃ e₃, e₂.advance .identity 4 1000 = .ok e₃ ∧ e₃.overflowed = false ∧
        ∃ r, r ∈ e₃.rules ∧ r.trigger.watched.isSome ∧ r.forDuration = some 1000 ∧
          (e₃.trace.any fun x =>
            match x.2 with
            | .firing id _ => id == r.id
            | _ => false) = true :=
    ⟨_,_,rfl,rfl,rfl,_,rfl,_,rfl,_,rfl,by decide,_,List.mem_singleton_self _,by decide,rfl,by decide⟩
  have may (v) : (Host.timerless : Host MockNorthbound).injects (.stateReported ⟨0⟩ v) := rfl
  obtain ⟨run₁,q₁⟩ := inject_run .timerless .wired (may _) hq (by decide) h₁
  obtain ⟨run₂,q₂⟩ := inject_run .timerless .wired (may _) q₁ (by decide) h₂
  obtain ⟨run₃,-⟩ := advance_run .timerless .wired q₂ (by decide) h₃
  have run := (run₁.trans run₂).trans run₃
  obtain ⟨⟨t,x⟩,hm,hx⟩ := List.any_eq_true.mp hf
  cases x with
  | firing id s =>
    obtain rfl : id = r.id := by simpa using hx
    obtain ⟨pre,post,ht⟩ := List.append_of_mem hm
    obtain ⟨before,y,since,rfl,hedge,hle,hsus⟩ := (sustained_edges_fire_once h hb presence_keysApart
      schedulerOnly_virtual run hw hr he hd).1 pre t s post ht
    exact ⟨cfg,e₀,_,r,h,hb,run,hr,before,y,since,t,s,post,ht,hedge,hle,hsus⟩
  | _ => cases hx

end Domiform
