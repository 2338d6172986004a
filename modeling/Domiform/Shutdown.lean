import Domiform.Wakes
import Mathlib.Logic.Relation

/-! Shutting down. The signal thread raises a flag, connects to each server so that its accept loop
comes to look at the flag, stops the streams, and wakes the host; the host looks at the flag before
every wait and after it. Whether the connections get through, nobody asks. -/
namespace Domiform
open Library Relation

inductive Listener
  | healthcheck
  | restApi
  deriving DecidableEq

/-- Where a socket is bound, or a connection goes. -/
structure Endpoint where
  host : String
  port : ℕ
  deriving DecidableEq

/-- What the config says of the servers, where their sockets are bound, and which connections get to
which sockets. -/
structure Network where
  configured : Listener → Option Endpoint
  bound : Listener → Endpoint
  reaches : Endpoint → Endpoint → Prop

namespace Network
variable (net : Network)

/-- Where `self_connect` goes. The healthcheck server is looked for at home, whatever its host is; the
REST server where it is bound. -/
def selfConnect : Listener → Option Endpoint
  | .healthcheck => (net.configured .healthcheck).map fun server => ⟨"127.0.0.1",server.port⟩
  | .restApi => (net.configured .restApi).map fun _ => net.bound .restApi

/-- `self_connect` may get through to the server. -/
def Admits (server : Listener) : Prop :=
  ∃ dialled ∈ net.selfConnect server, net.reaches dialled (net.bound server)

end Network

/-- An accept loop: in `incoming`, past it and before its look at the flag, in the body, or left. A
disabled server has none. -/
inductive AcceptLoop
  | blocked
  | accepted
  | serving
  | stopped
  deriving DecidableEq

/-- The loop over `signals.forever()`. -/
inductive SignalThread
  | listening
  | connecting (left : List Listener)
  | waking
  deriving DecidableEq

/-- The loop of `run_engine`: before its look at the flag, before `wait`, in it, before the second
look, and in `advance`. -/
inductive HostLoop
  | check
  | timing
  | waiting
  | recheck
  | advancing
  deriving DecidableEq

/-- The steps the host still has to take once the flag is raised. -/
def HostLoop.left : HostLoop → ℕ
  | .timing => 3
  | .waiting | .advancing => 2
  | .check | .recheck => 1

/-- `turns`, `late` and `reached` are ghosts: the steps the host has taken since the flag was raised,
the advances it has finished, and the servers that a connection of the signal thread got through to. -/
structure Process where
  shutdown : Bool
  signals : SignalThread
  accepting : Listener → AcceptLoop
  backlog : Listener → ℕ
  streamsDone : Bool
  channel : WakeChannel
  host : HostLoop
  exit : Option ℕ
  turns : ℕ
  late : ℕ
  reached : Listener → Bool

namespace Process
variable {net : Network} {p p' : Process}

/-- `engine.start()` is past, and the servers that are configured have bound their ports. -/
def start (net : Network) : Process where
  shutdown := false
  signals := .listening
  accepting server := if (net.configured server).isSome then .blocked else .stopped
  backlog _ := 0
  streamsDone := false
  channel := wakeChannel
  host := .check
  exit := none
  turns := 0
  late := 0
  reached _ := false

/-- A connection waits to be accepted; a closed port refuses it. -/
def knock (p : Process) (server : Listener) : Process :=
  if p.accepting server = .stopped then p
  else { p with backlog := Function.update p.backlog server (p.backlog server+1) }

/-- The flag ends the loop, and with it the process. -/
def look (p : Process) (host : HostLoop) : Process :=
  if p.shutdown then { p with exit := some 0 } else { p with host }

section knock
variable (p : Process) (server : Listener)

theorem knock_accepting : (p.knock server).accepting = p.accepting := by
  rw [knock]
  split_ifs <;> rfl

theorem knock_shutdown : (p.knock server).shutdown = p.shutdown := by
  rw [knock]
  split_ifs <;> rfl

theorem knock_reached : (p.knock server).reached = p.reached := by
  rw [knock]
  split_ifs <;> rfl

end knock

/-- What the host does next. -/
inductive Turn : Process → Process → Prop
  | check (p : Process) (here : p.host = .check) : Turn p (p.look .timing)
  | wait (p : Process) (timeout : ℕ) (c : WakeChannel) (here : p.host = .timing)
      (moved : p.channel.step (.wait timeout) = some c) :
      Turn p { p with channel := c, host := .waiting }
  | returned (p : Process) (reason : WakeReason) (c : WakeChannel) (here : p.host = .waiting)
      (moved : p.channel.step (.returned reason) = some c) :
      Turn p { p with channel := c, host := .recheck }
  | recheck (p : Process) (here : p.host = .recheck) : Turn p (p.look .advancing)
  | advanced (p : Process) (here : p.host = .advancing) :
      Turn p { p with host := .check, late := p.late+if p.shutdown then 1 else 0 }

/-- What moves on the channel without the host; a transport may die, the signal thread does not. -/
def Outside (c : WakeChannel) : WakeEvent → Prop
  | .drop => 1 < c.wakers
  | .wait _ | .returned _ => False
  | _ => True

inductive Step (net : Network) : Process → Process → Prop
  | host (p p' : Process) (alive : p.exit = none) (turn : Turn p p') :
      Step net p { p' with turns := p'.turns+if p.shutdown then 1 else 0 }
  | signal (p : Process) (alive : p.exit = none) (here : p.signals = .listening) :
      Step net p
        (if p.shutdown then { p with exit := some 130 }
        else { p with shutdown := true, signals := .connecting [.healthcheck,.restApi] })
  | selfConnect (p : Process) (server : Listener) (left : List Listener) (alive : p.exit = none)
      (here : p.signals = .connecting (server :: left)) (admits : net.Admits server)
      (listening : p.accepting server ≠ .stopped) :
      Step net p
        { p.knock server with
          signals := .connecting left
          reached := Function.update p.reached server true }
  /-- The server is disabled, or the connection is refused or gets elsewhere: `connect` is not asked. -/
  | unanswered (p : Process) (server : Listener) (left : List Listener) (alive : p.exit = none)
      (here : p.signals = .connecting (server :: left)) :
      Step net p { p with signals := .connecting left }
  | stopStreams (p : Process) (alive : p.exit = none) (here : p.signals = .connecting []) :
      Step net p { p with streamsDone := true, signals := .waking }
  | wake (p : Process) (c : WakeChannel) (alive : p.exit = none) (here : p.signals = .waking)
      (moved : p.channel.step .wake = some c) :
      Step net p { p with channel := c, signals := .listening }
  | connect (p : Process) (server : Listener) (alive : p.exit = none) : Step net p (p.knock server)
  | accept (p : Process) (server : Listener) (alive : p.exit = none)
      (here : p.accepting server = .blocked) (pending : 0 < p.backlog server) :
      Step net p
        { p with
          accepting := Function.update p.accepting server .accepted
          backlog := Function.update p.backlog server (p.backlog server-1) }
  /-- `incoming` hands out an error, and the loop goes on as with a connection; an error that takes the
  connection with it is `accept`. -/
  | failed (p : Process) (server : Listener) (alive : p.exit = none)
      (here : p.accepting server = .blocked) :
      Step net p { p with accepting := Function.update p.accepting server .accepted }
  | looks (p : Process) (server : Listener) (alive : p.exit = none)
      (here : p.accepting server = .accepted) :
      Step net p
        { p with
          accepting := Function.update p.accepting server
            (if p.shutdown then .stopped else .serving) }
  | served (p : Process) (server : Listener) (alive : p.exit = none)
      (here : p.accepting server = .serving) :
      Step net p { p with accepting := Function.update p.accepting server .blocked }
  | outside (p : Process) (e : WakeEvent) (c : WakeChannel) (alive : p.exit = none)
      (outside : Outside p.channel e) (moved : p.channel.step e = some c) :
      Step net p { p with channel := c }

/-- The signal thread has got through to the server. -/
def Called (p : Process) (server : Listener) : Prop := p.shutdown = true ∧ p.reached server = true

/-- The signal thread has woken the host. -/
def Roused (p : Process) : Prop := p.shutdown = true ∧ p.signals = .listening

/-- What holds in every state. The turns and the advances that are left count towards those that are
allowed; a host that was woken has a token to hear; a loop that was called has a connection to
accept. -/
structure Graceful (net : Network) (p : Process) : Prop where
  agrees : ∃ w, p.channel.Agrees w
  armed : 0 < p.channel.wakers
  streams : p.shutdown = true → (∀ left, p.signals ≠ .connecting left) → p.streamsDone = true
  hearing : p.host = .waiting ↔ p.channel.listener ≠ .idle
  early : p.shutdown = false → p.late = 0 ∧ p.turns = 0
  late : p.late+(if p.host = .advancing then 1 else 0) ≤ 1
  turns : p.turns+(if p.exit = none then p.host.left else 0) ≤ 3
  roused : p.Roused → p.host = .timing ∨ p.host = .waiting → 0 < p.channel.queued
  called : ∀ server, p.Called server →
    p.accepting server = .blocked ∨ p.accepting server = .serving → 0 < p.backlog server
  fresh : p.shutdown = false → p.signals = .listening ∧ ∀ server, p.reached server = false
  admits : ∀ server, p.reached server = true → net.Admits server

theorem graceful_start (net : Network) : (start net).Graceful net where
  agrees := ⟨_,WakeChannel.agrees_start⟩
  armed := Nat.one_pos
  streams := nofun
  hearing := by simp [start,wakeChannel]
  early _ := ⟨rfl,rfl⟩
  late := by simp [start]
  turns := by simp [start,HostLoop.left]
  roused := by
    rintro ⟨h,-⟩
    cases h
  called := by
    rintro server ⟨h,-⟩
    cases h
  fresh _ := ⟨rfl,fun _ => rfl⟩
  admits := nofun

theorem outside_moves {c c' : WakeChannel} {e : WakeEvent} (armed : 0 < c.wakers)
    (outside : Outside c e) (h : c.step e = some c') :
    0 < c'.wakers ∧ c.queued ≤ c'.queued ∧ (c'.listener ≠ .idle ↔ c.listener ≠ .idle) := by
  cases e with
  | wait timeout => cases outside
  | returned reason => cases outside
  | disconnected =>
    rw [WakeChannel.step] at h
    cases hl : c.listener with
    | idle => simp [hl] at h
    | sleeping start timeout since => simp [hl] at h
    | receiving start timeout =>
      simp only [hl,Option.ite_none_right_eq_some] at h
      omega
  | drop =>
    simp only [WakeChannel.step,Option.ite_none_right_eq_some,Option.some.injEq] at h
    obtain ⟨-,rfl⟩ := h
    exact ⟨Nat.sub_pos_of_lt outside,le_rfl,Iff.rfl⟩
  | wake =>
    simp only [WakeChannel.step,Option.ite_none_right_eq_some,Option.some.injEq] at h
    obtain ⟨-,rfl⟩ := h
    exact ⟨armed,Nat.le_succ _,Iff.rfl⟩
  | clone =>
    simp only [WakeChannel.step,Option.ite_none_right_eq_some,Option.some.injEq] at h
    obtain ⟨-,rfl⟩ := h
    exact ⟨Nat.succ_pos _,le_rfl,Iff.rfl⟩
  | elapse dt =>
    simp only [WakeChannel.step,Option.ite_none_right_eq_some,Option.some.injEq] at h
    obtain ⟨-,rfl⟩ := h
    exact ⟨armed,le_rfl,Iff.rfl⟩

namespace Graceful

theorem agree (h : p.Graceful net) {e : WakeEvent} {c : WakeChannel}
    (hc : p.channel.step e = some c) : ∃ w, c.Agrees w := by
  obtain ⟨w,hw⟩ := h.agrees
  exact ⟨_,hw.step hc⟩

/-- The signal thread is at work only once the flag is up. -/
theorem raised (h : p.Graceful net) (busy : p.signals ≠ .listening) : p.shutdown ≠ false :=
  fun hd => busy (h.fresh hd).1

/-- The host looks at the flag, and goes on where it does if the flag is down. -/
theorem look (h : p.Graceful net) (alive : p.exit = none) {host : HostLoop}
    (here : p.host ≠ .waiting) (there : host ≠ .waiting) (last : p.host.left = 1) :
    Graceful net { p.look host with turns := (p.look host).turns+if p.shutdown then 1 else 0 } := by
  have ht := h.turns
  rw [if_pos alive,last] at ht
  cases hs : p.shutdown with
  | true =>
    have hp : p.look host = { p with exit := some 0 } := by rw [Process.look,hs]; rfl
    rw [hp]
    exact ⟨h.agrees,h.armed,h.streams,h.hearing,fun hd => absurd (hd.symm.trans hs) (by decide),
      h.late,by simpa using ht,h.roused,h.called,h.fresh,h.admits⟩
  | false =>
    obtain ⟨hl,hn⟩ := h.early hs
    have hp : p.look host = { p with host } := by rw [Process.look,hs]; rfl
    have idle : p.channel.listener = .idle := not_not.mp fun hi => here (h.hearing.mpr hi)
    rw [hp]
    refine ⟨h.agrees,h.armed,h.streams,?_,fun _ => ⟨hl,hn⟩,?_,?_,?_,?_,h.fresh,h.admits⟩
    · simp [there,idle]
    · simp only [hl]
      split_ifs <;> omega
    · simp only [hn]
      cases host <;> simp [alive,HostLoop.left]
    · rintro ⟨hd,-⟩
      cases hd.symm.trans hs
    · rintro server ⟨hd,-⟩
      cases hd.symm.trans hs

theorem turn (h : p.Graceful net) (alive : p.exit = none) (hs : Turn p p') :
    Graceful net { p' with turns := p'.turns+if p.shutdown then 1 else 0 } := by
  have ht := h.turns
  rw [if_pos alive] at ht
  -- a turn that stays alive has less to go
  have spend (l : HostLoop) (hl : l.left < p.host.left) :
      p.turns+(if p.shutdown then 1 else 0)+l.left ≤ 3 := by
    split_ifs <;> omega
  have early (hd : p.shutdown = false) :
      p.late = 0 ∧ p.turns+(if p.shutdown then 1 else 0) = 0 := by
    simpa [hd] using h.early hd
  cases hs with
  | check here => exact h.look alive (by simp [here]) (by decide) (by rw [here]; rfl)
  | recheck here => exact h.look alive (by simp [here]) (by decide) (by rw [here]; rfl)
  | wait timeout c here moved =>
    have hc := moved
    simp only [WakeChannel.step,Option.ite_none_right_eq_some,Option.some.injEq] at hc
    obtain ⟨-,rfl⟩ := hc
    refine ⟨h.agree moved,h.armed,h.streams,by simp,early,?_,?_,
      fun hr _ => h.roused hr (.inl here),h.called,h.fresh,h.admits⟩
    · simpa [here] using h.late
    · simpa [alive] using spend .waiting (by rw [here]; decide)
  | returned reason c here moved =>
    have idle : c.listener = .idle ∧ c.wakers = p.channel.wakers := by
      cases reason with
      | signaled =>
        obtain ⟨-,-,rfl⟩ := WakeChannel.answer_signaled.mp moved
        exact ⟨rfl,rfl⟩
      | timedOut =>
        obtain ⟨rfl,-⟩ := WakeChannel.answer_timedOut moved
        exact ⟨rfl,rfl⟩
    refine ⟨h.agree moved,idle.2 ▸ h.armed,h.streams,by simp [idle.1],early,?_,?_,fun _ hh => ?_,
      h.called,h.fresh,h.admits⟩
    · simpa [here] using h.late
    · simpa [alive] using spend .recheck (by rw [here]; decide)
    · simp at hh
  | advanced here =>
    have idle : p.channel.listener = .idle := by
      by_contra hi
      cases here.symm.trans (h.hearing.mpr hi)
    have hl := h.late
    rw [if_pos here] at hl
    refine ⟨h.agrees,h.armed,h.streams,by simp [idle],fun hd => ?_,?_,?_,fun _ hh => ?_,h.called,
      h.fresh,h.admits⟩
    · obtain ⟨hz,hn⟩ := early hd
      have down : p.shutdown = false := hd
      exact ⟨by simp [hz,down],hn⟩
    · simp only [reduceCtorEq,if_false]
      split_ifs <;> omega
    · simpa [alive] using spend .check (by rw [here]; decide)
    · simp at hh

/-- Knocking only adds to what waits to be accepted, unless the loop is left. -/
theorem knock (h : p.Graceful net) (server : Listener) : (p.knock server).Graceful net ∧
    ((p.knock server).accepting server = .stopped ∨ 0 < (p.knock server).backlog server) := by
  rw [Process.knock]
  split_ifs with stopped
  · exact ⟨h,.inl stopped⟩
  · refine ⟨⟨h.agrees,h.armed,h.streams,h.hearing,h.early,h.late,h.turns,h.roused,
      fun s hc ha => ?_,h.fresh,h.admits⟩,
      .inr (by simp)⟩
    have hb := h.called s hc ha
    by_cases he : s = server
    · subst he
      simp
    · simpa [he] using hb

/-- A loop that moves on needs a connection only where it is to accept one again. -/
theorem called_update (h : p.Graceful net) (server : Listener) (n : ℕ) {s : Listener} {a : AcceptLoop}
    (kept : a = .blocked ∨ a = .serving → p.Called server → 0 < n) (hc : p.Called s)
    (ha : Function.update p.accepting server a s = .blocked ∨
      Function.update p.accepting server a s = .serving) :
    0 < Function.update p.backlog server n s := by
  by_cases he : s = server
  · subst he
    rw [Function.update_self] at ha ⊢
    exact kept ha hc
  · rw [Function.update_of_ne he] at ha ⊢
    exact h.called s hc ha

/-- A loop goes on, and accepts nothing. -/
theorem passes (h : p.Graceful net) (server : Listener) (a : AcceptLoop)
    (kept : a = .blocked ∨ a = .serving → p.Called server → 0 < p.backlog server) :
    Graceful net { p with accepting := Function.update p.accepting server a } := by
  refine ⟨h.agrees,h.armed,h.streams,h.hearing,h.early,h.late,h.turns,h.roused,fun s hc ha => ?_,
    h.fresh,h.admits⟩
  have hu := h.called_update server (p.backlog server) kept hc ha
  rwa [Function.update_eq_self] at hu

theorem step (h : p.Graceful net) (hs : Step net p p') : p'.Graceful net := by
  cases hs with
  | host p₁ alive turn => exact h.turn alive turn
  | signal alive here =>
    split_ifs with hd
    · refine ⟨h.agrees,h.armed,h.streams,h.hearing,h.early,h.late,?_,h.roused,h.called,h.fresh,
        h.admits⟩
      have := h.turns
      rw [if_pos alive] at this
      simp only [reduceCtorEq,if_false]
      omega
    · obtain ⟨-,unreached⟩ := h.fresh (by simpa using hd)
      refine ⟨h.agrees,h.armed,fun _ hn => absurd rfl (hn _),h.hearing,nofun,h.late,h.turns,?_,?_,
        nofun,h.admits⟩
      · rintro ⟨-,⟨⟩⟩
      · rintro server ⟨-,hc⟩
        cases hc.symm.trans (unreached server)
  | selfConnect server left alive here admits listening =>
    obtain ⟨hk,hn⟩ := h.knock server
    have pending : 0 < (p.knock server).backlog server :=
      hn.resolve_left (by rwa [knock_accepting])
    have shut : (p.knock server).shutdown ≠ false := by
      rw [knock_shutdown]
      exact h.raised (by simp [here])
    refine ⟨hk.agrees,hk.armed,fun _ hn => absurd rfl (hn left),hk.hearing,hk.early,hk.late,hk.turns,
      ?_,?_,fun hd => absurd hd shut,?_⟩
    · rintro ⟨-,⟨⟩⟩
    · rintro s ⟨-,hc⟩ ha
      by_cases he : s = server
      · exact he ▸ pending
      · have hr : p.reached s = true := (Function.update_of_ne he _ _).symm.trans hc
        exact hk.called s ⟨by simpa using shut,(congrFun (knock_reached p server) s).trans hr⟩ ha
    · intro s hc
      by_cases he : s = server
      · exact he ▸ admits
      · exact h.admits s ((Function.update_of_ne he _ _).symm.trans hc)
  | unanswered server left alive here =>
    have shut := h.raised (by simp [here])
    refine ⟨h.agrees,h.armed,fun _ hn => absurd rfl (hn left),h.hearing,h.early,h.late,h.turns,?_,
      h.called,fun hd => absurd hd shut,h.admits⟩
    rintro ⟨-,⟨⟩⟩
  | stopStreams alive here =>
    have shut := h.raised (by simp [here])
    refine ⟨h.agrees,h.armed,fun _ _ => rfl,h.hearing,h.early,h.late,h.turns,?_,h.called,
      fun hd => absurd hd shut,h.admits⟩
    rintro ⟨-,⟨⟩⟩
  | wake c alive here moved =>
    have shut := h.raised (by simp [here])
    obtain ⟨hw,hq,hl⟩ := outside_moves (e := .wake) h.armed trivial moved
    have hc := moved
    simp only [WakeChannel.step,Option.ite_none_right_eq_some,Option.some.injEq] at hc
    obtain ⟨-,rfl⟩ := hc
    exact ⟨h.agree moved,hw,fun hd _ => h.streams hd (by simp [here]),h.hearing,h.early,h.late,
      h.turns,fun _ _ => Nat.succ_pos _,h.called,fun hd => absurd hd shut,
      h.admits⟩
  | connect server alive => exact (h.knock server).1
  | accept server alive here pending =>
    refine ⟨h.agrees,h.armed,h.streams,h.hearing,h.early,h.late,h.turns,h.roused,fun s hc ha => ?_,
      h.fresh,h.admits⟩
    exact h.called_update server _ (by simp) hc ha
  | failed server alive here => exact h.passes server .accepted (by simp)
  | looks server alive here =>
    refine h.passes server _ ?_
    rintro ha ⟨hd,-⟩
    simp [hd] at ha
  | served server alive here =>
    exact h.passes server .blocked fun _ hc => h.called server hc (.inr here)
  | outside e c alive outside moved =>
    obtain ⟨hw,hq,hl⟩ := outside_moves h.armed outside moved
    exact ⟨h.agree moved,hw,h.streams,h.hearing.trans hl.symm,h.early,h.late,h.turns,
      fun hr hh => (h.roused hr hh).trans_le hq,h.called,h.fresh,h.admits⟩

theorem run (h : p.Graceful net) (hs : ReflTransGen (Step net) p p') : p'.Graceful net := by
  induction hs with
  | refl => exact h
  | tail _ hs ih => exact ih.step hs

/-- A host that was woken is not held up, and lets no time pass. -/
theorem moves_of_roused (h : p.Graceful net) (roused : p.Roused) : (∃ p', Turn p p') ∧
    (p.host = .waiting → ∀ dt, p.channel.step (.elapse dt) = none) := by
  cases hh : p.host with
  | check => exact ⟨⟨_,.check p hh⟩,by simp⟩
  | recheck => exact ⟨⟨_,.recheck p hh⟩,by simp⟩
  | advancing => exact ⟨⟨_,.advanced p hh⟩,by simp⟩
  | timing =>
    have idle : p.channel.listener = .idle := by
      by_contra hi
      cases hh.symm.trans (h.hearing.mpr hi)
    exact ⟨⟨_,.wait p 0 _ hh (by rw [WakeChannel.step,if_pos idle])⟩,by simp⟩
  | waiting =>
    have pending := h.roused roused (.inr hh)
    obtain ⟨w,hw⟩ := h.agrees
    cases hl : p.channel.listener with
    | idle => exact absurd hl (h.hearing.mp hh)
    | sleeping start timeout since =>
      have := (hw.asleep start timeout since hl).1
      omega
    | receiving start timeout =>
      refine ⟨⟨_,.returned p .signaled _ hh (WakeChannel.answer_signaled.mpr
        ⟨⟨start,timeout,hl⟩,pending,rfl⟩)⟩,fun _ dt => ?_⟩
      simp [WakeChannel.step,WakeChannel.mayElapse,hl,pending.ne']

end Graceful

/-- In every run of the process, from the moment the flag is raised: the host finishes at most one
advance and takes at most three steps before it exits; an accept loop that the signal thread got
through to never blocks without a connection that makes it look at the flag, and it gets through only
where what `self_connect` dials is answered by that server; and a host that was woken can always take
its next step, before any more time passes in its wait. -/
theorem shutdown_is_graceful (run : ReflTransGen (Step net) (start net) p)
    (shut : p.shutdown = true) :
    p.late ≤ 1 ∧ p.turns ≤ 3 ∧ (p.exit = none → p.turns < 3) ∧
    (∀ server, p.reached server = true → net.Admits server ∧
      (p.accepting server = .blocked → 0 < p.backlog server)) ∧
    (p.signals = .listening → p.streamsDone = true ∧ (∃ p', Turn p p') ∧
      (p.host = .waiting → ∀ dt, p.channel.step (.elapse dt) = none)) := by
  have h := (graceful_start net).run run
  have hl := h.late
  have ht := h.turns
  have hp : 0 < p.host.left := by cases p.host <;> decide
  refine ⟨?_,?_,fun alive => ?_,fun server hr => ⟨h.admits server hr,fun hb => ?_⟩,
    fun listening => ⟨h.streams shut (by simp [listening]),h.moves_of_roused ⟨shut,listening⟩⟩⟩
  · omega
  · omega
  · rw [if_pos alive] at ht
    omega
  · exact h.called server ⟨shut,hr⟩ (.inl hb)

/-- Both servers at home, and nothing in the way of a connection. -/
def atHome : Network where
  configured
    | .healthcheck => some ⟨"127.0.0.1",8080⟩
    | .restApi => some ⟨"127.0.0.1",8090⟩
  bound
    | .healthcheck => ⟨"127.0.0.1",8080⟩
    | .restApi => ⟨"127.0.0.1",8090⟩
  reaches dialled bound := dialled = bound

/-- A signal while the host waits. -/
theorem signal_rouses_the_host : ∃ p, ReflTransGen (Step atHome) (start atHome) p ∧
    p.shutdown = true ∧ p.host = .waiting ∧ p.turns = 0 ∧ (∀ server, p.reached server = true) ∧
      (∃ p', Turn p p') ∧ ∀ dt, p.channel.step (.elapse dt) = none := by
  have home (server : Listener) : atHome.Admits server := by
    cases server <;> exact ⟨_,rfl,rfl⟩
  obtain ⟨p,run,shut,hl,hh,ht,hr⟩ : ∃ p, ReflTransGen (Step atHome) (start atHome) p ∧
      p.shutdown = true ∧ p.signals = .listening ∧ p.host = .waiting ∧ p.turns = 0 ∧
      ∀ server, p.reached server = true := by
    have waits := (ReflTransGen.single (r := Step atHome) (.host (start atHome) _ rfl (.check _ rfl))).tail
      (.host _ _ rfl (.wait _ 60000 _ rfl rfl))
    have called := ((waits.tail (.signal _ rfl rfl)).tail
      (.selfConnect _ .healthcheck [.restApi] rfl rfl (home _) (by decide))).tail
      (.selfConnect _ .restApi [] rfl rfl (home _) (by decide))
    have woken := (called.tail (.stopStreams _ rfl rfl)).tail (.wake _ _ rfl rfl rfl)
    refine ⟨_,woken,rfl,rfl,rfl,rfl,?_⟩
    rintro (_ | _) <;> rfl
  obtain ⟨-,-,-,-,moves⟩ := shutdown_is_graceful run shut
  exact ⟨p,run,shut,hh,ht,hr,(moves hl).2.1,(moves hl).2.2 hh⟩

/-- A server that no connection gets through to is left behind its `accept`. The healthcheck server is
one where its host is not one that 127.0.0.1 leads to. -/
theorem unanswered_loop_stays_blocked {net : Network} {server : Listener}
    (on : (net.configured server).isSome) : ∃ p, ReflTransGen (Step net) (start net) p ∧
      p.Roused ∧ p.accepting server = .blocked ∧ p.backlog server = 0 := by
  have signalled := (ReflTransGen.single (r := Step net) (.signal (start net) rfl rfl)).tail
    (.unanswered _ .healthcheck [.restApi] rfl rfl)
  have tried := signalled.tail (.unanswered _ .restApi [] rfl rfl)
  have woken := (tried.tail (.stopStreams _ rfl rfl)).tail (.wake _ _ rfl rfl rfl)
  exact ⟨_,woken,⟨rfl,rfl⟩,if_pos on,rfl⟩

end Process
end Domiform
