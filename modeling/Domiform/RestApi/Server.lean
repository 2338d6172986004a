import Domiform.Library.Crew
import Domiform.RestApi.Stream

/-! The socket layer. One thread accepts connections, against a counter of live ones; every
connection has a thread of its own, which answers one request or turns into a stream, against a
counter that the stream registry publishes. Every access to a counter and every hold of the
registry's lock is one step. -/
namespace Domiform
open Library Relation

namespace Server

def maxConnections : ℕ := 16
def maxStreams : ℕ := 8

/-- How far the thread of a connection is. -/
inductive Phase
  /-- The request is being read, or an ordinary one answered. -/
  | serving
  /-- `GET /stream`, within the budget. -/
  | allowed
  /-- Registered; the length of the registry is still to be stored. -/
  | subscribed (id length : ℕ)
  | streaming (id : ℕ)
  | unsubscribed (length : ℕ)
  /-- `serve` has returned; the guard is still to be dropped. -/
  | returned
  | closed
  deriving DecidableEq

namespace Phase

def isOpen (p : Phase) : Bool := p != closed

def isStreaming : Phase → Bool
  | streaming _ => true
  | _ => false

/-- A connection in flight that is no established stream. -/
def isRequest (p : Phase) : Bool := p.isOpen && !p.isStreaming

def isAllowed (p : Phase) : Bool := p == allowed

/-- Whether a length is still to be stored. -/
def isStoring : Phase → Bool
  | subscribed _ _ | unsubscribed _ => true
  | _ => false

/-- The length a thread is about to store. -/
def pending : Phase → Option ℕ
  | subscribed _ length | unsubscribed length => some length
  | _ => none

end Phase

/-- Where the accepting thread is: at the next connection, past the check, or past the count. -/
inductive Acceptor
  | listening
  | passed
  | reserved
  deriving DecidableEq

end Server

/-- The state the threads share, and where each is. -/
structure Server where
  live : ℕ
  acceptor : Server.Acceptor
  connections : List Server.Phase
  registry : Stream.Registry
  count : ℕ
  /-- Ghost: for every `503 too_many_connections`, how many connections that are no established
  streams were in flight. -/
  refused : List ℕ

namespace Server

def start : Server := ⟨0,.listening,[],.default,0,[]⟩

/-- The connection that is counted and has no thread yet. -/
def reserved (s : Server) : ℕ := if s.acceptor = .reserved then 1 else 0

def streams (s : Server) : ℕ := inPhase Phase.isStreaming s.connections

/-- The connections in flight that are no established streams. -/
def requests (s : Server) : ℕ := inPhase Phase.isRequest s.connections+s.reserved

def inFlight (s : Server) : ℕ := inPhase Phase.isOpen s.connections+s.reserved

def registered (s : Server) : ℕ := s.registry.subscribers.length

/-- The connections that are past the budget check and not registered yet. -/
def admitted (s : Server) : ℕ := inPhase Phase.isAllowed s.connections

def storing (s : Server) : ℕ := inPhase Phase.isStoring s.connections

def move (s : Server) (i : ℕ) (p : Phase) : Server := { s with connections := s.connections.set i p }

inductive Action
  | accept
  | reserve
  | spawn
  | spawnFailed
  /-- An ordinary request was answered, or an upgrade refused for its token. -/
  | respond (i : ℕ)
  /-- The budget check of `serve_stream`. -/
  | readCount (i : ℕ)
  | subscribe (i : ℕ)
  | store (i : ℕ)
  /-- The subscription is dropped: its client is gone, or the host shuts down. -/
  | unsubscribe (i : ℕ)
  /-- The guard is dropped. -/
  | release (i : ℕ)
  deriving DecidableEq

/-- `capacity` is `MAX_CONNECTIONS`. -/
def step (capacity : ℕ) (s : Server) (a : Action) : Option Server :=
  match a with
  | .accept =>
    if s.acceptor = .listening then
      if capacity ≤ s.live then some { s with refused := s.refused ++ [s.requests] }
      else some { s with acceptor := .passed }
    else none
  | .reserve =>
    if s.acceptor = .passed then some { s with live := s.live+1,acceptor := .reserved } else none
  | .spawn =>
    if s.acceptor = .reserved then
      some { s with acceptor := .listening,connections := s.connections ++ [.serving] }
    else none
  | .spawnFailed =>
    if s.acceptor = .reserved then some { s with acceptor := .listening,live := s.live-1 } else none
  | .respond i =>
    match s.connections[i]? with
    | some .serving => some (s.move i .returned)
    | _ => none
  | .readCount i =>
    match s.connections[i]? with
    | some .serving => some (s.move i (if maxStreams ≤ s.count then .returned else .allowed))
    | _ => none
  | .subscribe i =>
    match s.connections[i]? with
    | some .allowed =>
      let (id,registry) := s.registry.subscribe
      some { s.move i (.subscribed id registry.subscribers.length) with registry := registry }
    | _ => none
  | .store i =>
    match s.connections[i]? with
    | some (.subscribed id length) => some { s.move i (.streaming id) with count := length }
    | some (.unsubscribed length) => some { s.move i .returned with count := length }
    | _ => none
  | .unsubscribe i =>
    match s.connections[i]? with
    | some (.streaming id) =>
      let registry := s.registry.remove id
      some { s.move i (.unsubscribed registry.subscribers.length) with registry := registry }
    | _ => none
  | .release i =>
    match s.connections[i]? with
    | some .returned => some { s.move i .closed with live := s.live-1 }
    | _ => none

/-- Whatever the threads do, in whatever order. -/
abbrev Run (capacity : ℕ) : Server → Server → Prop :=
  ReflTransGen fun s s' => ∃ a, step capacity s a = some s'

/-- A run whose steps all meet a condition on the state before them. -/
abbrev RunWith (capacity : ℕ) (ok : Server → Action → Prop) : Server → Server → Prop :=
  ReflTransGen fun s s' => ∃ a, step capacity s a = some s' ∧ ok s a

theorem RunWith.run {capacity : ℕ} {ok : Server → Action → Prop} {s s' : Server}
    (h : RunWith capacity ok s s') : Run capacity s s' :=
  ReflTransGen.mono (fun _ _ ⟨a,ha,_⟩ => ⟨a,ha⟩) _ _ h

/-- Take the actions in turn, as long as each meets the condition. -/
def runAll (capacity : ℕ) (ok : Server → Action → Bool) (s : Server) (actions : List Action) :
    Option Server :=
  actions.foldlM (fun s a => if ok s a then step capacity s a else none) s

theorem runWith_of_runAll {capacity : ℕ} {ok : Server → Action → Bool} {s s' : Server}
    {actions : List Action} (h : runAll capacity ok s actions = some s') :
    RunWith capacity (fun s a => ok s a = true) s s' := by
  induction actions generalizing s with
  | nil =>
    cases h
    exact .refl
  | cons a actions ih =>
    obtain ⟨t,ht,h⟩ := Option.bind_eq_some_iff.mp h
    dsimp only at ht
    split_ifs at ht with hok
    exact .head ⟨a,ht,hok⟩ (ih h)

section Steps
variable {capacity : ℕ} {s s' : Server} {a : Action}

/-- What one step does: the accepting thread moves, or one connection does. -/
inductive Moved (capacity : ℕ) (s : Server) : Action → Server → Prop
  | refuse (listening : s.acceptor = .listening) (full : capacity ≤ s.live) :
      Moved capacity s .accept { s with refused := s.refused ++ [s.requests] }
  | pass (listening : s.acceptor = .listening) (room : s.live < capacity) :
      Moved capacity s .accept { s with acceptor := .passed }
  | reserve (passed : s.acceptor = .passed) :
      Moved capacity s .reserve { s with live := s.live+1,acceptor := .reserved }
  | spawn (reserved : s.acceptor = .reserved) :
      Moved capacity s .spawn
        { s with acceptor := .listening,connections := s.connections ++ [.serving] }
  | spawnFailed (reserved : s.acceptor = .reserved) :
      Moved capacity s .spawnFailed { s with acceptor := .listening,live := s.live-1 }
  | respond (i : ℕ) (here : s.connections[i]? = some .serving) :
      Moved capacity s (.respond i) (s.move i .returned)
  | overBudget (i : ℕ) (here : s.connections[i]? = some .serving) (full : maxStreams ≤ s.count) :
      Moved capacity s (.readCount i) (s.move i .returned)
  | withinBudget (i : ℕ) (here : s.connections[i]? = some .serving) (room : s.count < maxStreams) :
      Moved capacity s (.readCount i) (s.move i .allowed)
  | subscribe (i : ℕ) (here : s.connections[i]? = some .allowed) :
      Moved capacity s (.subscribe i)
        { s.move i (.subscribed s.registry.subscribe.1 s.registry.subscribe.2.subscribers.length) with
          registry := s.registry.subscribe.2 }
  | storeSubscribed (i id length : ℕ) (here : s.connections[i]? = some (.subscribed id length)) :
      Moved capacity s (.store i) { s.move i (.streaming id) with count := length }
  | storeUnsubscribed (i length : ℕ) (here : s.connections[i]? = some (.unsubscribed length)) :
      Moved capacity s (.store i) { s.move i .returned with count := length }
  | unsubscribe (i id : ℕ) (here : s.connections[i]? = some (.streaming id)) :
      Moved capacity s (.unsubscribe i)
        { s.move i (.unsubscribed (s.registry.remove id).subscribers.length) with
          registry := s.registry.remove id }
  | release (i : ℕ) (here : s.connections[i]? = some .returned) :
      Moved capacity s (.release i) { s.move i .closed with live := s.live-1 }

theorem moved_of_step (h : step capacity s a = some s') : Moved capacity s a s' := by
  cases a with
  | accept =>
    rw [step] at h
    split_ifs at h with hl hc <;> cases h
    · exact .refuse hl hc
    · exact .pass hl (not_le.mp hc)
  | reserve | spawn | spawnFailed =>
    rw [step] at h
    split_ifs at h with hl
    cases h
    constructor
    exact hl
  | respond i =>
    rw [step] at h
    split at h <;> cases h
    exact .respond i ‹_›
  | readCount i =>
    rw [step] at h
    split at h <;> cases h
    split_ifs with hc
    · exact .overBudget i ‹_› hc
    · exact .withinBudget i ‹_› (not_le.mp hc)
  | subscribe i =>
    rw [step] at h
    split at h <;> cases h
    exact .subscribe i ‹_›
  | store i =>
    rw [step] at h
    split at h <;> cases h
    · exact .storeSubscribed i _ _ ‹_›
    · exact .storeUnsubscribed i _ ‹_›
  | unsubscribe i =>
    rw [step] at h
    split at h <;> cases h
    exact .unsubscribe i _ ‹_›
  | release i =>
    rw [step] at h
    split at h <;> cases h
    exact .release i ‹_›

/-- A connection that stays in flight. -/
theorem inFlight_move {i : ℕ} {p q : Phase} (h : s.connections[i]? = some p)
    (hp : p.isOpen = true) (hq : q.isOpen = true) : (s.move i q).inFlight = s.inFlight := by
  have hs := inPhase_set Phase.isOpen q h
  rw [hp,hq] at hs
  change inPhase _ (s.connections.set i q)+s.reserved = inPhase _ s.connections+s.reserved
  omega

/-- What is in flight is either an established stream or not. -/
theorem inFlight_eq (s : Server) : s.inFlight = s.requests+s.streams := by
  have split (ps : List Phase) : inPhase Phase.isOpen ps =
      inPhase Phase.isRequest ps+inPhase Phase.isStreaming ps := by
    induction ps with
    | nil => rfl
    | cons p ps ih =>
      simp only [inPhase,List.countP_cons] at ih ⊢
      cases p <;> simp [Phase.isRequest,Phase.isOpen,Phase.isStreaming] <;> omega
  rw [inFlight,requests,streams,split]
  omega

/-- The live counter counts everything in flight, streams included, and stays within the capacity. -/
structure Counted (capacity : ℕ) (s : Server) : Prop where
  live : s.live = s.inFlight
  le : s.live ≤ capacity
  room : s.acceptor = .passed → s.live < capacity

theorem Counted.start : Counted capacity start := ⟨rfl,Nat.zero_le _,nofun⟩

theorem Counted.step (h : Counted capacity s) (step : step capacity s a = some s') :
    Counted capacity s' := by
  have moved {i : ℕ} {p q : Phase} (here : s.connections[i]? = some p) (hp : p.isOpen = true)
      (hq : q.isOpen = true) (registry : Stream.Registry) (count : ℕ) :
      Counted capacity { s.move i q with registry := registry,count := count } :=
    ⟨h.live.trans (inFlight_move here hp hq).symm,h.le,h.room⟩
  cases moved_of_step step with
  | refuse listening full => exact ⟨h.live,h.le,h.room⟩
  | pass listening room =>
    refine ⟨h.live.trans ?_,h.le,fun _ => room⟩
    simp [inFlight,reserved,listening]
  | reserve passed =>
    have hr := h.room passed
    refine ⟨?_,hr,nofun⟩
    have := h.live
    simp only [inFlight,reserved,passed] at this ⊢
    simpa using this
  | spawn hr =>
    refine ⟨?_,h.le,nofun⟩
    have := h.live
    simp only [inFlight,reserved,hr,inPhase_concat] at this ⊢
    simpa [Phase.isOpen] using this
  | spawnFailed hr =>
    refine ⟨?_,(Nat.sub_le _ _).trans h.le,nofun⟩
    have := h.live
    simp only [inFlight,reserved,hr] at this ⊢
    simp at this ⊢
    omega
  | respond i here | overBudget i here full | withinBudget i here room =>
    exact moved here rfl rfl s.registry s.count
  | subscribe i here | storeSubscribed i id length here | storeUnsubscribed i length here
  | unsubscribe i id here => exact moved here rfl rfl _ _
  | release i here =>
    have hs := inPhase_set Phase.isOpen .closed here
    have := h.live
    refine ⟨?_,(Nat.sub_le _ _).trans h.le,fun hp => lt_of_le_of_lt (Nat.sub_le _ _) (h.room hp)⟩
    rw [inFlight] at this
    change s.live-1 = inPhase _ (s.connections.set i .closed)+s.reserved
    simp [Phase.isOpen] at hs
    omega

theorem Run.counted (h : Run capacity start s) : Counted capacity s := by
  induction h with
  | refl => exact .start
  | tail _ step ih =>
    obtain ⟨a,ha⟩ := step
    exact ih.step ha

end Steps

/-- A new connection finds no established stream open, or fewer connections in flight in all than
may be. -/
def Unstreamed (capacity : ℕ) (s : Server) : Prop := s.streams = 0 ∨ s.inFlight < capacity

/-- Every connection was refused while connections enough were in flight that are no established
streams. -/
def Unstarved (capacity : ℕ) (s : Server) : Prop := ∀ n ∈ s.refused, capacity ≤ n

/-- An arriving connection is refused for want of the others' slots alone, exactly when this is so. -/
theorem accept_unstarved_iff {capacity : ℕ} {s s' : Server} (run : Run capacity start s)
    (h : step capacity s .accept = some s') :
    s'.Unstarved capacity ↔ s.Unstarved capacity ∧ s.Unstreamed capacity := by
  have hc := run.counted
  have hle := hc.le
  have hsplit := s.inFlight_eq
  rw [hc.live] at hle
  cases moved_of_step h with
  | refuse listening full =>
    rw [hc.live] at full
    simp only [Unstarved,Unstreamed,List.mem_append,List.mem_singleton,or_imp,forall_and,
      forall_eq]
    refine and_congr_right fun _ => ?_
    omega
  | pass listening room =>
    rw [hc.live] at room
    exact ⟨fun hu => ⟨hu,.inr room⟩,fun hu => hu.1⟩

/-- Streams are charged to the connections' budget: refusals are for want of slots that no stream
holds, in all runs where connections only arrive while that is so; and any other arrival is refused
while there are fewer. -/
theorem streams_share_the_budget (s : Server) :
    (RunWith maxConnections (fun s a => a = .accept → s.Unstreamed maxConnections) start s →
      s.Unstarved maxConnections) ∧
      ∀ s', Run maxConnections start s → step maxConnections s .accept = some s' →
        (s'.Unstarved maxConnections ↔
          s.Unstarved maxConnections ∧ s.Unstreamed maxConnections) := by
  refine ⟨fun run => ?_,fun s' run h => accept_unstarved_iff run h⟩
  induction run with
  | refl => exact fun n hn => absurd hn List.not_mem_nil
  | tail run step ih =>
    obtain ⟨a,ha,ok⟩ := step
    cases a with
    | accept => exact (accept_unstarved_iff (RunWith.run run) ha).mpr ⟨ih,ok rfl⟩
    | _ =>
      cases moved_of_step ha
      all_goals exact ih

/-- A connection, from its arrival to its thread. -/
def arrive : List Action := [.accept,.reserve,.spawn]

/-- The given connection turns into a stream. -/
def upgrade (i : ℕ) : List Action := [.readCount i,.subscribe i,.store i]

instance (capacity : ℕ) (s : Server) : Decidable (s.Unstreamed capacity) :=
  inferInstanceAs (Decidable (_ ∨ _))

/-- With sixteen ordinary requests in flight the seventeenth is refused, and rightly so. -/
theorem busy_server_refuses : ∃ s, Run maxConnections start s ∧ s.refused = [16] ∧
    s.Unstarved maxConnections := by
  obtain ⟨s,hs,hr⟩ : ∃ s, runAll maxConnections
      (fun s a => decide (a = .accept → s.Unstreamed maxConnections)) start
        ((List.replicate 16 arrive).flatten ++ [.accept]) = some s ∧ s.refused = [16] :=
    ⟨_,rfl,rfl⟩
  have run := runWith_of_runAll hs
  refine ⟨s,RunWith.run run,hr,(streams_share_the_budget s).1 ?_⟩
  simpa only [decide_eq_true_eq] using run

/-- With eight streams open a request is refused though only eight others are in flight. -/
theorem open_streams_starve_requests : ∃ s s', Run maxConnections start s ∧
    step maxConnections s .accept = some s' ∧ s.streams = 8 ∧ s.requests = 8 ∧
      s'.refused = [8] ∧ ¬s'.Unstarved maxConnections := by
  obtain ⟨s,s',hs,hs',hstreams,hrequests,hr⟩ : ∃ s s', runAll maxConnections (fun _ _ => true) start
      ((List.replicate 16 arrive).flatten ++ (List.range 8).flatMap upgrade) = some s ∧
        step maxConnections s .accept = some s' ∧ s.streams = 8 ∧ s.requests = 8 ∧
          s'.refused = [8] := ⟨_,_,rfl,rfl,rfl,rfl,rfl⟩
  refine ⟨s,s',RunWith.run (runWith_of_runAll hs),hs',hstreams,hrequests,hr,fun hu => ?_⟩
  have := hu 8 (by rw [hr]; exact List.mem_singleton_self 8)
  exact absurd this (by decide)

/-! ### The stream budget -/

/-- A stream only passes the check while the registered and the admitted ones leave room; and the
last length outstanding is stored while it is still that of the registry. -/
def Timely (s : Server) : Action → Prop
  | .readCount _ => s.count < maxStreams → s.registered+s.admitted < maxStreams
  | .store i => s.storing = 1 → ∀ n ∈ s.connections[i]?.bind Phase.pending, n = s.registered
  | _ => True

/-- The streams, with those to come, are within the budget, and the count is right when no store is
outstanding. -/
structure InBudget (s : Server) : Prop where
  room : s.registered+s.admitted ≤ maxStreams
  count : s.storing = 0 → s.count = s.registered

section Budget
variable {capacity : ℕ} {s s' : Server} {a : Action}

theorem registered_subscribe (r : Stream.Registry) :
    r.subscribe.2.subscribers.length = r.subscribers.length+1 := by
  simp [Stream.Registry.subscribe]

theorem registered_remove (r : Stream.Registry) (id : ℕ) :
    (r.remove id).subscribers.length ≤ r.subscribers.length :=
  List.length_filter_le _ _

/-- What moving one connection does to the counts of the budget. -/
theorem counts_move {i : ℕ} {p : Phase} (q : Phase) (here : s.connections[i]? = some p) :
    (s.move i q).admitted+(if p.isAllowed then 1 else 0) =
        s.admitted+(if q.isAllowed then 1 else 0) ∧
      (s.move i q).storing+(if p.isStoring then 1 else 0) =
        s.storing+if q.isStoring then 1 else 0 :=
  ⟨inPhase_set Phase.isAllowed q here,inPhase_set Phase.isStoring q here⟩

theorem InBudget.start : InBudget start := ⟨Nat.zero_le _,fun _ => rfl⟩

theorem InBudget.step (h : s.InBudget) (timely : s.Timely a) (step : step capacity s a = some s') :
    s'.InBudget := by
  have hroom := h.room
  cases moved_of_step step with
  | refuse | pass | reserve | spawnFailed => exact ⟨h.room,h.count⟩
  | spawn hr =>
    have ha := inPhase_concat Phase.isAllowed s.connections .serving
    have hs := inPhase_concat Phase.isStoring s.connections .serving
    refine ⟨?_,fun h₀ => h.count ?_⟩
    · exact (congrArg (s.registered + ·) ha).trans_le h.room
    · exact hs.symm.trans h₀
  | respond i here | overBudget i here | release i here =>
    obtain ⟨ha,hs⟩ := counts_move _ here
    simp [Phase.isAllowed,Phase.isStoring] at ha hs
    refine ⟨?_,fun h₀ => h.count (hs.symm.trans h₀)⟩
    exact (congrArg (s.registered + ·) ha).trans_le h.room
  | withinBudget i here room =>
    obtain ⟨ha,hs⟩ := counts_move .allowed here
    simp [Phase.isAllowed,Phase.isStoring] at ha hs
    have hlt := timely room
    refine ⟨?_,fun h₀ => h.count (hs.symm.trans h₀)⟩
    change s.registered+(s.move i .allowed).admitted ≤ maxStreams
    omega
  | subscribe i here =>
    obtain ⟨ha,hs⟩ := counts_move
      (.subscribed s.registry.subscribe.1 s.registry.subscribe.2.subscribers.length) here
    simp [Phase.isAllowed,Phase.isStoring] at ha hs
    have hreg := registered_subscribe s.registry
    constructor
    · change s.registry.subscribe.2.subscribers.length+(s.move i _).admitted ≤ maxStreams
      rw [registered] at hroom
      omega
    · intro h₀
      change (s.move i _).storing = 0 at h₀
      omega
  | storeSubscribed i id length here =>
    obtain ⟨ha,hs⟩ := counts_move (.streaming id) here
    simp [Phase.isAllowed,Phase.isStoring] at ha hs
    refine ⟨(congrArg (s.registered + ·) ha).trans_le h.room,fun h₀ => ?_⟩
    change (s.move i (.streaming id)).storing = 0 at h₀
    exact timely (by omega) _ (by rw [here]; rfl)
  | storeUnsubscribed i length here =>
    obtain ⟨ha,hs⟩ := counts_move .returned here
    simp [Phase.isAllowed,Phase.isStoring] at ha hs
    refine ⟨(congrArg (s.registered + ·) ha).trans_le h.room,fun h₀ => ?_⟩
    change (s.move i .returned).storing = 0 at h₀
    exact timely (by omega) _ (by rw [here]; rfl)
  | unsubscribe i id here =>
    obtain ⟨ha,hs⟩ := counts_move (.unsubscribed (s.registry.remove id).subscribers.length) here
    simp [Phase.isAllowed,Phase.isStoring] at ha hs
    have hreg := registered_remove s.registry id
    constructor
    · change (s.registry.remove id).subscribers.length+(s.move i _).admitted ≤ maxStreams
      rw [registered] at hroom
      omega
    · intro h₀
      change (s.move i _).storing = 0 at h₀
      omega

/-- Every admitted stream may register next. -/
theorem exists_run_registered (capacity : ℕ) (s : Server) : ∃ s', Run capacity s s' ∧
    s'.registered = s.registered+s.admitted := by
  induction hn : s.admitted generalizing s with
  | zero => exact ⟨s,.refl,rfl⟩
  | succ n ih =>
    have hpos : 0 < inPhase Phase.isAllowed s.connections := by
      rw [admitted] at hn
      omega
    obtain ⟨i,p,here,hp⟩ := exists_inPhase Phase.isAllowed hpos
    obtain rfl : p = .allowed := by simpa [Phase.isAllowed] using hp
    let q := Phase.subscribed s.registry.subscribe.1 s.registry.subscribe.2.subscribers.length
    let t : Server := { s.move i q with registry := s.registry.subscribe.2 }
    have hstep : step capacity s (.subscribe i) = some t := by
      simp only [step,here]
      rfl
    have ha : t.admitted+1 = s.admitted := by
      obtain ⟨ha,-⟩ := counts_move q here
      simp [Phase.isAllowed,q] at ha
      exact ha
    have hreg : t.registered = s.registered+1 := registered_subscribe s.registry
    obtain ⟨s',run,hs'⟩ := ih t (by omega)
    exact ⟨s',.head ⟨_,hstep⟩ run,by omega⟩

/-- After a step that is not timely the count is wrong with nothing outstanding, or the streams that
are already admitted are too many. -/
theorem not_timely (bad : ¬s.Timely a) (h : step capacity s a = some s') :
    s'.storing = 0 ∧ s'.count ≠ s'.registered ∨
      ∃ s'', Run capacity s' s'' ∧ maxStreams < s''.registered := by
  cases a with
  | readCount i =>
    simp only [Timely,Classical.not_imp,not_lt] at bad
    obtain ⟨room,full⟩ := bad
    cases moved_of_step h with
    | overBudget _ here full' => omega
    | withinBudget _ here room' =>
      obtain ⟨ha,-⟩ := counts_move .allowed here
      simp [Phase.isAllowed] at ha
      obtain ⟨s'',run,hs''⟩ := exists_run_registered capacity (s.move i .allowed)
      refine .inr ⟨s'',run,?_⟩
      change s''.registered = s.registered+(s.move i .allowed).admitted at hs''
      omega
  | store i =>
    simp only [Timely,Classical.not_imp,not_forall] at bad
    obtain ⟨last,n,hn,hne⟩ := bad
    obtain ⟨p,here,hp⟩ := Option.bind_eq_some_iff.mp hn
    cases moved_of_step h with
    | storeSubscribed _ id length here' =>
      cases here.symm.trans here'
      cases hp
      obtain ⟨-,hs⟩ := counts_move (.streaming id) here
      simp [Phase.isStoring] at hs
      refine .inl ⟨?_,hne⟩
      change (s.move i (.streaming id)).storing = 0
      omega
    | storeUnsubscribed _ length here' =>
      cases here.symm.trans here'
      cases hp
      obtain ⟨-,hs⟩ := counts_move .returned here
      simp [Phase.isStoring] at hs
      refine .inl ⟨?_,hne⟩
      change (s.move i .returned).storing = 0
      omega
  | _ => exact absurd trivial bad

end Budget
/-- However many connections there are: in all runs that are timely throughout the budget holds and
the count is right whenever no store is outstanding; and any step that is not timely makes the count
wrong at once, or may be followed by more streams than the budget has. -/
theorem stream_budget_holds (capacity : ℕ) :
    (∀ s, RunWith capacity Timely start s →
      s.registered ≤ maxStreams ∧ (s.storing = 0 → s.count = s.registered)) ∧
      ∀ s s' a, Run capacity start s → step capacity s a = some s' → ¬s.Timely a →
        s'.storing = 0 ∧ s'.count ≠ s'.registered ∨
          ∃ s'', Run capacity s' s'' ∧ maxStreams < s''.registered := by
  refine ⟨fun s run => ?_,fun s s' a _ h bad => not_timely bad h⟩
  have inv : s.InBudget := by
    induction run with
    | refl => exact .start
    | tail _ step ih =>
      obtain ⟨a,ha,timely⟩ := step
      exact ih.step timely ha
  exact ⟨(Nat.le_add_right _ _).trans inv.room,inv.count⟩

instance (s : Server) : DecidablePred s.Timely
  | .readCount _ | .store _ => inferInstanceAs (Decidable (_ → _))
  | .accept | .reserve | .spawn | .spawnFailed | .respond _ | .subscribe _ | .unsubscribe _
  | .release _ => inferInstanceAs (Decidable True)

/-- Eight streams in turn fill the budget, and one of them goes. -/
theorem streams_in_turn : ∃ s, Run maxConnections start s ∧ s.registered = 7 ∧ s.storing = 0 ∧
    s.count = s.registered := by
  obtain ⟨s,hs,hr,hn⟩ : ∃ s, runAll maxConnections (fun s a => decide (s.Timely a)) start
      ((List.range 8).flatMap (fun i => arrive ++ upgrade i) ++ [.unsubscribe 0,.store 0]) = some s ∧
        s.registered = 7 ∧ s.storing = 0 := ⟨_,rfl,rfl,rfl⟩
  have run := runWith_of_runAll hs
  refine ⟨s,RunWith.run run,hr,hn,((stream_budget_holds maxConnections).1 s ?_).2 hn⟩
  simpa only [decide_eq_true_eq] using run

/-- Two streams pass the check while seven are registered: nine are. And two register in one order
and store in the other: the count stays one short, with nobody left to correct it. -/
theorem stream_budget_races :
    (∃ s, Run maxConnections start s ∧ s.registered = 9) ∧
      ∃ s, Run maxConnections start s ∧ s.admitted = 0 ∧ s.storing = 0 ∧ s.registered = 2 ∧
        s.count = 1 := by
  obtain ⟨s,hs,hr⟩ : ∃ s, runAll maxConnections (fun _ _ => true) start
      ((List.range 7).flatMap (fun i => arrive ++ upgrade i) ++ arrive ++ arrive ++
        [.readCount 7,.readCount 8,.subscribe 7,.subscribe 8]) = some s ∧ s.registered = 9 :=
    ⟨_,rfl,rfl⟩
  obtain ⟨t,ht,ha,hn,hr',hc⟩ : ∃ s, runAll maxConnections (fun _ _ => true) start
      (arrive ++ arrive ++ [.readCount 0,.subscribe 0,.readCount 1,.subscribe 1,.store 1,.store 0]) =
        some s ∧ s.admitted = 0 ∧ s.storing = 0 ∧ s.registered = 2 ∧ s.count = 1 :=
    ⟨_,rfl,rfl,rfl,rfl,rfl⟩
  exact ⟨⟨s,RunWith.run (runWith_of_runAll hs),hr⟩,
    ⟨t,RunWith.run (runWith_of_runAll ht),ha,hn,hr',hc⟩⟩

end Server
end Domiform
