import Domiform.Library.Doorbell
import Domiform.RestApi
import Domiform.Wakes

/-! How what arrives from outside reaches the engine. A thread of a transport or of the HTTP server
sends into the channel of its adapter and then wakes the host; the host waits, and on every return it
ticks the adapters, each of which takes from its channel until it finds it empty. -/
namespace Domiform
open Library Relation

/-- Where the loop of `run_engine` is: before or in `wait`, at the tick of an adapter with what its
`try_iter` has given so far, or past the last tick. -/
inductive Pumping (ι M : Type)
  | loop
  | ticking (adapter : ι) (batch : List M) (rest : List ι)
  | draining

namespace Pumping
variable {ι M : Type}

/-- The tick of the first of these adapters. -/
def tick : List ι → Pumping ι M
  | [] => .draining
  | adapter :: rest => .ticking adapter [] rest

/-- The adapters whose tick has not ended. -/
def left : Pumping ι M → List ι
  | ticking adapter _ rest => adapter :: rest
  | _ => []

end Pumping

/-- The host and the threads around it. `sending` tells in which channel a thread has sent a message
for which it has not called `wake` yet; `batches` are the batches of an adapter's ticks; `sent` is a
ghost, all that was ever sent. -/
structure Intake (ι κ α : Type) where
  channel : WakeChannel
  inbound : ι → List (κ × α)
  sending : κ → Option ι
  pumping : Pumping ι (κ × α)
  batches : ι → List (List (κ × α))
  sent : ι → List (κ × α)

inductive IntakeEvent (ι κ α : Type)
  | send (thread : κ) (adapter : ι) (message : α)
  | wake (thread : κ)
  | clone
  | drop
  | wait (timeout : ℕ)
  | elapse (dt : ℕ)
  | disconnected
  | returned (reason : WakeReason)
  | received
  | empty
  | drained

namespace Intake
variable {ι κ α : Type} {order : List ι} {s s' : Intake ι κ α}

/-- From the ticks of `start` on. -/
def start (order : List ι) : Intake ι κ α :=
  ⟨wakeChannel,fun _ => [],fun _ => none,.tick order,fun _ => [],fun _ => []⟩

/-- The wake channel alone moves. -/
def signal (s : Intake ι κ α) (e : WakeEvent) : Option (Intake ι κ α) :=
  (s.channel.step e).map fun channel => { s with channel }

section Threads
variable [DecidableEq ι] [DecidableEq κ]

def send (s : Intake ι κ α) (thread : κ) (adapter : ι) (message : α) : Intake ι κ α :=
  { s with
    inbound := Function.update s.inbound adapter (s.inbound adapter ++ [(thread,message)])
    sending := Function.update s.sending thread (some adapter)
    sent := Function.update s.sent adapter (s.sent adapter ++ [(thread,message)]) }

/-- What `try_recv` takes. -/
def receive (s : Intake ι κ α) : Option (Intake ι κ α) :=
  match s.pumping with
  | .ticking adapter batch rest =>
    match s.inbound adapter with
    | [] => none
    | x :: inbound =>
      some { s with
        inbound := Function.update s.inbound adapter inbound
        pumping := .ticking adapter (batch ++ [x]) rest }
  | _ => none

/-- `try_recv` finds nothing, and the tick of the adapter is over. -/
def endTick (s : Intake ι κ α) : Option (Intake ι κ α) :=
  match s.pumping with
  | .ticking adapter batch rest =>
    match s.inbound adapter with
    | [] =>
      some { s with
        pumping := .tick rest
        batches := Function.update s.batches adapter (s.batches adapter ++ [batch]) }
    | _ :: _ => none
  | _ => none

def step (order : List ι) (s : Intake ι κ α) : IntakeEvent ι κ α → Option (Intake ι κ α)
  | .send thread adapter message =>
    match s.sending thread with
    | none => some (s.send thread adapter message)
    | some _ => none
  | .wake thread =>
    match s.sending thread with
    | none => none
    | some _ =>
      (s.signal .wake).map fun s => { s with sending := Function.update s.sending thread none }
  | .clone => s.signal .clone
  | .drop => s.signal .drop
  | .wait timeout =>
    match s.pumping with
    | .loop => s.signal (.wait timeout)
    | _ => none
  | .elapse dt => s.signal (.elapse dt)
  | .disconnected => s.signal .disconnected
  | .returned reason =>
    (s.signal (.returned reason)).map fun s => { s with pumping := .tick order }
  | .received => s.receive
  | .empty => s.endTick
  | .drained =>
    match s.pumping with
    | .draining => some { s with pumping := .loop }
    | _ => none

end Threads

/-- The keeper of the doorbell is the host. -/
def keeper (s : Intake ι κ α) : Keeper ι :=
  match s.pumping with
  | .loop => if s.channel.listener = .idle then .away else .waiting
  | .ticking adapter _ rest => .round (adapter :: rest)
  | .draining => .round []

section Doorbell
variable [DecidableEq ι]

/-- The batch that is being collected for an adapter. -/
def batch (s : Intake ι κ α) (i : ι) : List (κ × α) :=
  match s.pumping with
  | .ticking adapter batch _ => if adapter = i then batch else []
  | _ => []

/-- All that the ticks of an adapter have been given. -/
def handed (s : Intake ι κ α) (i : ι) : List (κ × α) := (s.batches i).flatten ++ s.batch i

def doorbell (s : Intake ι κ α) : Doorbell ι κ α where
  box := s.inbound
  hand := s.sending
  rings := s.channel.queued
  keeper := s.keeper
  sent := s.sent
  taken := s.handed

theorem batch_of_tick {l : List ι} (h : s.pumping = .tick l) (i : ι) : s.batch i = [] := by
  rw [batch,h]
  cases l with
  | nil => rfl
  | cons adapter rest => exact ite_self []

end Doorbell

theorem keeper_of_tick {l : List ι} (h : s.pumping = .tick l) : s.keeper = .round l := by
  rw [keeper,h]
  cases l <;> rfl

theorem signal_eq_some {e : WakeEvent} : s.signal e = some s' ↔
    ∃ c, s.channel.step e = some c ∧ s' = { s with channel := c } := by
  rw [signal,Option.map_eq_some_iff]
  simp only [eq_comm]

/-- The host listens for wakes only between its rounds of ticks. -/
structure Sound (s : Intake ι κ α) : Prop where
  agrees : ∃ w, s.channel.Agrees w
  listening : s.channel.listener ≠ .idle → s.pumping = .loop

theorem Sound.start (order : List ι) : Sound (.start order : Intake ι κ α) :=
  ⟨⟨_,WakeChannel.agrees_start⟩,fun h => absurd rfl h⟩

theorem Sound.agree (h : s.Sound) {e : WakeEvent} {c : WakeChannel}
    (hc : s.channel.step e = some c) : ∃ w, c.Agrees w := by
  obtain ⟨w,hw⟩ := h.agrees
  exact ⟨_,hw.step hc⟩

section Simulation
variable [DecidableEq ι]

theorem doorbell_eq {keeper : Keeper ι} {taken : ι → List (κ × α)} (hk : s.keeper = keeper)
    (ht : s.handed = taken) :
    s.doorbell = ⟨s.inbound,s.sending,s.channel.queued,keeper,s.sent,taken⟩ := by
  rw [doorbell,hk,ht]

theorem handed_of_tick {l : List ι} (h : s.pumping = .tick l) :
    s.handed = fun i => (s.batches i).flatten := by
  funext i
  rw [handed,batch_of_tick h,List.append_nil]

theorem handed_of_loop (h : s.pumping = .loop) : s.handed = fun i => (s.batches i).flatten := by
  funext i
  rw [handed,batch,h,List.append_nil]

/-- A wake event that leaves the tokens alone, and the host listening or not, moves nothing. -/
theorem simulated_quiet (sound : s.Sound) {e : WakeEvent} (h : s.signal e = some s')
    (quiet : ∀ c, s.channel.step e = some c → c.queued = s.channel.queued ∧
      (c.listener = .idle ↔ s.channel.listener = .idle)) :
    s'.Sound ∧ s'.doorbell = s.doorbell := by
  obtain ⟨c,hc,rfl⟩ := signal_eq_some.mp h
  obtain ⟨hq,hl⟩ := quiet c hc
  refine ⟨⟨sound.agree hc,fun hi => sound.listening fun h => hi (hl.mpr h)⟩,?_⟩
  have hk : keeper { s with channel := c } = s.keeper := by
    rw [keeper,keeper]
    simp only [hl]
  rw [doorbell,doorbell,hk,hq]
  rfl

variable [DecidableEq κ]

theorem simulated_returned (sound : s.Sound) {reason : WakeReason}
    (h : step order s (.returned reason) = some s') :
    s'.Sound ∧ Doorbell.Step order s.doorbell s'.doorbell := by
  rw [step,Option.map_eq_some_iff] at h
  obtain ⟨t,ht,rfl⟩ := h
  obtain ⟨c,hc,rfl⟩ := signal_eq_some.mp ht
  have called : s.channel.listener ≠ .idle ∧ c.listener = .idle := by
    cases reason with
    | signaled =>
      obtain ⟨⟨start,timeout,hl⟩,-,rfl⟩ := WakeChannel.answer_signaled.mp hc
      simp [hl]
    | timedOut =>
      obtain ⟨rfl,⟨start,timeout,hl,-⟩ | ⟨start,timeout,since,hl,-⟩⟩ :=
        WakeChannel.answer_timedOut hc <;> simp [hl]
  have loop := sound.listening called.1
  have waiting : s.doorbell.keeper = .waiting := by simp [doorbell,keeper,loop,called.1]
  have handed : handed { s with channel := c,pumping := .tick order } = s.handed :=
    (handed_of_tick rfl).trans (handed_of_loop loop).symm
  refine ⟨⟨sound.agree hc,fun hi => absurd called.2 hi⟩,?_⟩
  rw [doorbell_eq (keeper_of_tick rfl) handed]
  cases reason with
  | signaled =>
    obtain ⟨-,hq,rfl⟩ := WakeChannel.answer_signaled.mp hc
    exact .hear s.doorbell waiting hq
  | timedOut =>
    obtain ⟨rfl,-⟩ := WakeChannel.answer_timedOut hc
    exact .tire s.doorbell waiting

theorem simulated_received (sound : s.Sound) (h : step order s .received = some s') :
    s'.Sound ∧ Doorbell.Step order s.doorbell s'.doorbell := by
  rw [step,receive] at h
  cases hp : s.pumping with
  | loop => simp [hp] at h
  | draining => simp [hp] at h
  | ticking adapter batch rest =>
    cases hb : s.inbound adapter with
    | nil => simp [hp,hb] at h
    | cons x inbound =>
      simp only [hp,hb,Option.some.injEq] at h
      subst h
      have here : s.doorbell.keeper = .round (adapter :: rest) := by simp [doorbell,keeper,hp]
      have taken : handed { s with
            inbound := Function.update s.inbound adapter inbound
            pumping := .ticking adapter (batch ++ [x]) rest } =
          Function.update s.handed adapter (s.handed adapter ++ [x]) := by
        funext i
        by_cases hi : i = adapter
        · subst hi
          simp [handed,Intake.batch,hp]
        · simp [handed,Intake.batch,hp,hi,Ne.symm hi]
      refine ⟨⟨sound.agrees,fun hi => ?_⟩,?_⟩
      · cases hp.symm.trans (sound.listening hi)
      · have ht : Doorbell.Step order s.doorbell _ := .take s.doorbell adapter rest x inbound here hb
        rw [here] at ht
        rw [doorbell_eq rfl taken]
        exact ht

theorem simulated_empty (sound : s.Sound) (h : step order s .empty = some s') :
    s'.Sound ∧ Doorbell.Step order s.doorbell s'.doorbell := by
  rw [step,endTick] at h
  cases hp : s.pumping with
  | loop => simp [hp] at h
  | draining => simp [hp] at h
  | ticking adapter batch rest =>
    cases hb : s.inbound adapter with
    | cons x inbound => simp [hp,hb] at h
    | nil =>
      simp only [hp,hb,Option.some.injEq] at h
      subst h
      have here : s.doorbell.keeper = .round (adapter :: rest) := by simp [doorbell,keeper,hp]
      have taken : handed { s with
            pumping := .tick rest
            batches := Function.update s.batches adapter (s.batches adapter ++ [batch]) } =
          s.handed := by
        rw [handed_of_tick rfl]
        funext i
        by_cases hi : i = adapter
        · subst hi
          simp [handed,Intake.batch,hp]
        · simp [handed,Intake.batch,hp,hi,Ne.symm hi]
      refine ⟨⟨sound.agrees,fun hi => ?_⟩,?_⟩
      · cases hp.symm.trans (sound.listening hi)
      · rw [doorbell_eq (keeper_of_tick rfl) taken]
        exact .pass s.doorbell adapter rest here hb

/-- One step of the host or of a thread is one of the doorbell, or none. -/
theorem simulated {e : IntakeEvent ι κ α} (sound : s.Sound) (h : s.step order e = some s') :
    s'.Sound ∧ (s'.doorbell = s.doorbell ∨ Doorbell.Step order s.doorbell s'.doorbell) := by
  cases e with
  | send thread adapter message =>
    rw [step] at h
    cases hf : s.sending thread with
    | some i => simp [hf] at h
    | none =>
      simp only [hf,Option.some.injEq] at h
      subst h
      refine ⟨⟨sound.agrees,sound.listening⟩,.inr ?_⟩
      exact .leave s.doorbell thread adapter message hf
  | wake thread =>
    rw [step] at h
    cases hf : s.sending thread with
    | none => simp [hf] at h
    | some i =>
      simp only [hf,Option.map_eq_some_iff] at h
      obtain ⟨t,ht,rfl⟩ := h
      obtain ⟨c,hc,rfl⟩ := signal_eq_some.mp ht
      refine ⟨⟨sound.agree hc,?_⟩,.inr ?_⟩
      · simp only [WakeChannel.step,Option.ite_none_right_eq_some,Option.some.injEq] at hc
        obtain ⟨-,rfl⟩ := hc
        exact sound.listening
      · simp only [WakeChannel.step,Option.ite_none_right_eq_some,Option.some.injEq] at hc
        obtain ⟨-,rfl⟩ := hc
        exact .ring s.doorbell thread i hf
  | wait timeout =>
    rw [step] at h
    cases hp : s.pumping with
    | ticking adapter batch rest => simp [hp] at h
    | draining => simp [hp] at h
    | loop =>
      simp only [hp] at h
      obtain ⟨c,hc,rfl⟩ := signal_eq_some.mp h
      refine ⟨⟨sound.agree hc,fun _ => hp⟩,.inr ?_⟩
      simp only [WakeChannel.step,Option.ite_none_right_eq_some,Option.some.injEq] at hc
      obtain ⟨hi,rfl⟩ := hc
      have away : s.doorbell.keeper = .away := by simp [doorbell,keeper,hp,hi]
      have waiting : keeper { s with
          channel := { s.channel with listener := .receiving s.channel.now timeout } } =
        .waiting := by simp [keeper,hp]
      rw [doorbell_eq waiting rfl]
      exact .wait s.doorbell away
  | returned reason => exact (simulated_returned sound h).imp_right .inr
  | received => exact (simulated_received sound h).imp_right .inr
  | empty => exact (simulated_empty sound h).imp_right .inr
  | drained =>
    rw [step] at h
    cases hp : s.pumping with
    | loop => simp [hp] at h
    | ticking adapter batch rest => simp [hp] at h
    | draining =>
      simp only [hp,Option.some.injEq] at h
      subst h
      have here : s.doorbell.keeper = .round [] := by simp [doorbell,keeper,hp]
      have idle : s.channel.listener = .idle := by
        by_contra hi
        cases hp.symm.trans (sound.listening hi)
      have taken : handed { s with pumping := .loop } = s.handed := by
        rw [handed_of_loop rfl,handed_of_tick (l := []) hp]
      have away : keeper { s with pumping := .loop } = .away := if_pos idle
      refine ⟨⟨sound.agrees,fun hi => absurd idle hi⟩,.inr ?_⟩
      rw [doorbell_eq away taken]
      exact .home s.doorbell here
  | clone | drop | elapse dt =>
    refine (simulated_quiet sound h fun c hc => ?_).imp_right .inl
    simp only [WakeChannel.step,Option.ite_none_right_eq_some,Option.some.injEq] at hc
    obtain ⟨-,rfl⟩ := hc
    exact ⟨rfl,Iff.rfl⟩
  | disconnected =>
    refine (simulated_quiet sound h fun c hc => ?_).imp_right .inl
    rw [WakeChannel.step] at hc
    cases hl : s.channel.listener with
    | idle => simp [hl] at hc
    | sleeping start timeout since => simp [hl] at hc
    | receiving start timeout =>
      simp only [hl,Option.ite_none_right_eq_some,Option.some.injEq] at hc
      obtain ⟨-,rfl⟩ := hc
      simp

/-- A run of the host and the threads is one of the doorbell. -/
theorem simulates {es : List (IntakeEvent ι κ α)}
    (run : play (step order) (start order) es = some s) : s.Sound ∧
      ReflTransGen (Doorbell.Step order) (start order : Intake ι κ α).doorbell s.doorbell := by
  induction es using List.reverseRecOn generalizing s with
  | nil =>
    cases run
    exact ⟨Sound.start order,.refl⟩
  | append_singleton es e ih =>
    obtain ⟨t,ht,hs⟩ := play_concat_eq_some.mp run
    obtain ⟨sound,hr⟩ := ih ht
    obtain ⟨sound',he | hd⟩ := simulated sound hs
    · exact ⟨sound',he ▸ hr⟩
    · exact ⟨sound',hr.tail hd⟩

theorem attended_start (order : List ι) : (start order : Intake ι κ α).doorbell.Attended := by
  have taken (i : ι) : (start order : Intake ι κ α).handed i = [] :=
    batch_of_tick (s := start order) (l := order) rfl i
  refine ⟨fun i => ?_,fun i _ _ k => Nat.zero_le _⟩
  change (start order : Intake ι κ α).handed i ++ [] = []
  rw [taken,List.append_nil]

/-- A message for which its thread has called `wake` is not slept on: if it is still in its channel,
the host, if it waits, has a token to return with. -/
theorem queued_pos (covers : ∀ i, i ∈ order) {es : List (IntakeEvent ι κ α)}
    (run : play (step order) (start order) es = some s) (listening : s.channel.listener ≠ .idle)
    {k : κ} {i : ι}
    (behind : Doorbell.ofSender k (s.handed i)+s.doorbell.unrung k i <
      Doorbell.ofSender k (s.sent i)) :
    0 < s.channel.queued := by
  obtain ⟨sound,hr⟩ := simulates run
  have waiting : s.doorbell.keeper = .waiting := by
    simp [doorbell,keeper,sound.listening listening,listening]
  by_contra silent
  have attended := (attended_start order).run covers hr
  have ht := attended.taken_of_waiting waiting (Nat.eq_zero_of_not_pos silent) k i
  exact absurd ht (Nat.not_le_of_lt behind)

end Simulation
end Intake

/-- What an adapter's ticks produce, one after another. -/
def RestApiAdapter.ticks (a : RestApiAdapter) : List Millis → List Event
  | [] => []
  | now :: rest => (a.tick now).1 ++ ticks (a.tick now).2 rest

theorem RestApiAdapter.ticks_eq (a : RestApiAdapter) (times : List Millis) :
    a.ticks times = (a.inbound.take times.length).flatten.map Inbound.event := by
  induction times generalizing a with
  | nil => simp [ticks]
  | cons now rest ih =>
    rw [ticks,ih]
    cases h : a.inbound with
    | nil => simp [tick,h]
    | cons batch batches => simp [tick,h]

section Messages
variable {ι κ α : Type} [DecidableEq ι] [DecidableEq κ] {order : List ι} {s : Intake ι κ α}

/-- In every run of the host with its threads: an adapter is handed what was sent to it, in the order
it was sent, each message once; the REST adapter makes the requests among it into events, one each;
and while a message whose thread has called `wake` is not handed over yet, a waiting host lets no
time pass, and returns with the wake. -/
theorem messages_are_never_slept_on (covers : ∀ i, i ∈ order) {es : List (IntakeEvent ι κ α)}
    (run : play (Intake.step order) (.start order) es = some s) :
    (∀ i, s.handed i ++ s.inbound i = s.sent i) ∧
    (∀ i, s.batch i = [] → ∀ (inbound : κ × α → Inbound) (mirror : Mirror) (times : List Millis),
      times.length = (s.batches i).length →
      RestApiAdapter.ticks ⟨mirror,(s.batches i).map (List.map inbound)⟩ times ++
        (s.inbound i).map (fun x => (inbound x).event) =
          (s.sent i).map fun x => (inbound x).event) ∧
    ∀ k i, s.channel.listener ≠ .idle →
      Doorbell.ofSender k (s.handed i)+(if s.sending k = some i then 1 else 0) <
        Doorbell.ofSender k (s.sent i) →
      (∀ dt, s.step order (.elapse dt) = none) ∧ s.step order (.returned .timedOut) = none ∧
        (s.step order (.returned .signaled)).isSome := by
  obtain ⟨sound,hr⟩ := Intake.simulates run
  have kept := ((Intake.attended_start order).run covers hr).kept
  refine ⟨kept,fun i hb inbound mirror times len => ?_,fun k i listening behind => ?_⟩
  · have hs : (s.batches i).flatten ++ s.inbound i = s.sent i := by
      have hk := kept i
      change s.handed i ++ s.inbound i = s.sent i at hk
      rwa [Intake.handed,hb,List.append_nil] at hk
    rw [RestApiAdapter.ticks_eq,List.take_of_length_le (by simp [len]),← hs,List.map_append]
    simp [List.map_flatten,List.map_map,Function.comp_def]
  · have pending := Intake.queued_pos covers run listening behind
    obtain ⟨w,hw⟩ := sound.agrees
    cases hl : s.channel.listener with
    | idle => exact absurd hl listening
    | sleeping start timeout since =>
      have := (hw.asleep start timeout since hl).1
      omega
    | receiving start timeout =>
      refine ⟨fun dt => ?_,?_,?_⟩
      · simp [Intake.step,Intake.signal,WakeChannel.step,WakeChannel.mayElapse,hl,pending.ne']
      · simp [Intake.step,Intake.signal,WakeChannel.step,WakeChannel.answer,hl,pending.ne']
      · simp [Intake.step,Intake.signal,WakeChannel.step,WakeChannel.answer,hl,pending]

/-- A scene is requested while the host waits. -/
theorem request_is_not_slept_on : ∃ s : Intake Unit ℕ Inbound,
    play (Intake.step [()]) (.start [()])
      [.empty,.drained,.wait 60000,.send 7 () (.scene ⟨0⟩),.wake 7] = some s ∧
    s.batches () = [[]] ∧ s.inbound () = [(7,.scene ⟨0⟩)] ∧
    (∀ dt, s.step [()] (.elapse dt) = none) ∧ s.step [()] (.returned .timedOut) = none ∧
      (s.step [()] (.returned .signaled)).isSome := by
  obtain ⟨s,hs,hb,hi,hl,hn⟩ : ∃ s : Intake Unit ℕ Inbound,
    play (Intake.step [()]) (.start [()])
      [.empty,.drained,.wait 60000,.send 7 () (.scene ⟨0⟩),.wake 7] = some s ∧
    s.batches () = [[]] ∧ s.inbound () = [(7,.scene ⟨0⟩)] ∧ s.channel.listener ≠ .idle ∧
      Doorbell.ofSender 7 (s.handed ())+(if s.sending 7 = some () then 1 else 0) <
        Doorbell.ofSender 7 (s.sent ()) := ⟨_,rfl,rfl,rfl,by decide,by decide⟩
  have covers : ∀ i, i ∈ [()] := by decide
  exact ⟨s,hs,hb,hi,(messages_are_never_slept_on covers hs).2.2 7 () hl hn⟩

end Messages
end Domiform
