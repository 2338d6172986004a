import Mathlib.Tactic

/-! The MQTT transport. `connect` asks for its topics through a bounded queue, and then spawns the
thread that iterates the connection. Only that thread drains the queue. The client reconnects on its
own, to a broker that keeps nothing of a lost session. -/
namespace Domiform

inductive RumqttcTransport.Request
  | subscribe (topic : String)
  | publish (topic : String)
  deriving DecidableEq

/-- The transport: the topics `connect` has still to ask for, the requests in the queue, whether the
thread is there, and what the broker has of the connection, if there is one. -/
structure RumqttcTransport where
  unsent : List String
  queue : List RumqttcTransport.Request
  iterating : Bool
  session : Option (List String)
  deriving DecidableEq

/-- What happens: `connect` subscribes and spawns, the adapter publishes, a connection is made, takes
a request, and is lost. -/
inductive LinkAct
  | subscribe
  | spawn
  | publish (topic : String)
  | establish
  | deliver
  | drop

namespace RumqttcTransport

/-- `Client::new(opts, 64)`. -/
def capacity : ℕ := 64

/-- `connect` before its first subscription. -/
def start (topics : List String) : RumqttcTransport := ⟨topics,[],false,none⟩

/-- The broker's topics after a request. -/
def noted (topics : List String) : Request → List String
  | .subscribe topic => topic :: topics
  | .publish _ => topics

/-- One step, if it can be taken. A subscription waits for room; a publish is refused. -/
def step (s : RumqttcTransport) : LinkAct → Option RumqttcTransport
  | .subscribe =>
    match s.unsent with
    | [] => none
    | topic :: rest =>
      if s.queue.length < capacity then
        some { s with unsent := rest, queue := s.queue ++ [.subscribe topic] }
      else none
  | .spawn =>
    if s.unsent = [] ∧ s.iterating = false then some { s with iterating := true } else none
  | .publish topic =>
    if s.iterating then
      some { s with
        queue := if s.queue.length < capacity then s.queue ++ [.publish topic] else s.queue }
    else none
  | .establish =>
    if s.iterating ∧ s.session = none then some { s with session := some [] } else none
  | .deliver =>
    match s.session,s.queue with
    | some topics,r :: rest => some { s with queue := rest, session := some (noted topics r) }
    | _,_ => none
  | .drop => if s.session.isSome then some { s with session := none } else none

def run (s : RumqttcTransport) : List LinkAct → Option RumqttcTransport
  | [] => some s
  | act :: acts => (s.step act).bind fun s => s.run acts

/-- The connection taking all that is queued. -/
def drained (s : RumqttcTransport) : Option RumqttcTransport :=
  s.run (List.replicate s.queue.length .deliver)

/-- `connect` comes to its end: it is never stuck, and has returned after a step for each topic and
one for the thread. -/
structure Returns (topics : List String) : Prop where
  progress : ∀ acts s, (start topics).run acts = some s → s.iterating = false →
    ∃ act s', s.step act = some s'
  ends : ∀ acts s, (start topics).run acts = some s → topics.length < acts.length →
    s.iterating = true

/-- Whenever there is a connection, every topic is subscribed once it has taken what is queued. -/
def Subscribed (topics : List String) (acts : List LinkAct) : Prop :=
  ∀ pre s, pre <+: acts → (start topics).run pre = some s → s.session.isSome →
    ∃ s' held, s.drained = some s' ∧ s'.session = some held ∧ ∀ topic ∈ topics, topic ∈ held

/-- No connection is made when an earlier one has taken a subscription. -/
def Undisturbed (topics : List String) (acts : List LinkAct) : Prop :=
  ∀ pre s s', pre ++ [.establish] <+: acts → (start topics).run pre = some s →
    s.step .establish = some s' → ∀ topic ∈ topics, .subscribe topic ∈ s.queue

variable {s s' : RumqttcTransport} {topics : List String} {acts : List LinkAct}

theorem run_append (acts acts' : List LinkAct) :
    s.run (acts ++ acts') = (s.run acts).bind fun s => s.run acts' := by
  induction acts generalizing s with
  | nil => rfl
  | cons act acts ih =>
    rw [List.cons_append,run,run]
    cases s.step act with
    | none => rfl
    | some s => exact ih

theorem run_concat {act : LinkAct} :
    s.run (acts ++ [act]) = some s' ↔ ∃ t, s.run acts = some t ∧ t.step act = some s' := by
  have hone : ∀ t : RumqttcTransport, t.run [act] = t.step act := by
    intro t
    rw [run]
    cases t.step act <;> rfl
  rw [run_append,Option.bind_eq_some_iff]
  simp only [hone]

/-- Before the thread is there, only `connect` takes steps. -/
theorem step_asking {unsent : List String} {queue : List Request} {act : LinkAct}
    (h : (RumqttcTransport.mk unsent queue false none).step act = some s') :
    (∃ topic rest, unsent = topic :: rest ∧ queue.length < capacity ∧
        s' = ⟨rest,queue ++ [.subscribe topic],false,none⟩) ∨
      (unsent = [] ∧ s' = ⟨[],queue,true,none⟩) := by
  cases act with
  | subscribe =>
    cases unsent with
    | nil => cases h
    | cons topic rest =>
      unfold step at h
      dsimp only at h
      split_ifs at h with hroom
      cases h
      exact .inl ⟨topic,rest,rfl,hroom,rfl⟩
  | spawn =>
    rw [step] at h
    split_ifs at h with hnil
    cases h
    have hun : unsent = [] := hnil.1
    exact .inr ⟨hun,by rw [hun]⟩
  | publish topic => cases h
  | establish => cases h
  | deliver => cases h
  | drop => cases h

/-- Once the thread is there, nothing leaves the queue but to the broker. -/
theorem step_iterating {act : LinkAct} (hit : s.iterating = true) (hun : s.unsent = [])
    (h : s.step act = some s') :
    s'.iterating = true ∧ s'.unsent = [] ∧
      ((s.queue <+: s'.queue ∧ s'.session = s.session) ∨
        (act = .establish ∧ s'.queue = s.queue ∧ s'.session = some []) ∨
        (∃ topics r, s.queue = r :: s'.queue ∧ s.session = some topics ∧
          s'.session = some (noted topics r)) ∨
        s'.session = none) := by
  cases act with
  | subscribe =>
    rw [step,hun] at h
    cases h
  | spawn =>
    rw [step,hit] at h
    simp at h
  | publish topic =>
    rw [step,if_pos hit] at h
    cases h
    refine ⟨hit,hun,.inl ⟨?_,rfl⟩⟩
    dsimp only
    split_ifs
    · exact List.prefix_append _ _
    · exact List.prefix_rfl
  | establish =>
    rw [step] at h
    split_ifs at h
    cases h
    exact ⟨hit,hun,.inr (.inl ⟨rfl,rfl,rfl⟩)⟩
  | deliver =>
    unfold step at h
    dsimp only at h
    split at h
    · rename_i topics r rest hsession hqueue
      cases h
      exact ⟨hit,hun,.inr (.inr (.inl ⟨topics,r,hqueue,hsession,rfl⟩))⟩
    · cases h
  | drop =>
    rw [step] at h
    split_ifs at h
    cases h
    exact ⟨hit,hun,.inr (.inr (.inr rfl))⟩

/-- As long as `connect` is at its topics, each step is one of its subscriptions. -/
theorem stage_of_run (h : (start topics).run acts = some s) :
    (s.iterating = true ∧ s.unsent = []) ∨
      ∃ sent, topics = sent ++ s.unsent ∧ s = ⟨s.unsent,sent.map .subscribe,false,none⟩ ∧
        acts.length = sent.length := by
  induction acts using List.reverseRecOn generalizing s with
  | nil =>
    cases h
    exact .inr ⟨[],rfl,rfl,rfl⟩
  | append_singleton acts act ih =>
    obtain ⟨t,ht,hstep⟩ := run_concat.mp h
    rcases ih ht with ⟨hit,hun⟩ | ⟨sent,htopics,hstate,hlen⟩
    · obtain ⟨hit',hun',-⟩ := step_iterating hit hun hstep
      exact .inl ⟨hit',hun'⟩
    · rw [hstate] at hstep
      rcases step_asking hstep with ⟨topic,rest,hun,-,rfl⟩ | ⟨-,rfl⟩
      · exact .inr ⟨sent ++ [topic],by rw [htopics,hun]; simp,by simp,by simp [hlen]⟩
      · exact .inl ⟨rfl,rfl⟩

/-- The queue of `connect` holds what it has asked for. -/
theorem returns_of_fits (h : topics.length ≤ capacity) : Returns topics := by
  refine ⟨fun acts s hrun hit => ?_,fun acts s hrun hlen => ?_⟩
  · rcases stage_of_run hrun with ⟨hit',-⟩ | ⟨sent,htopics,hstate,-⟩
    · rw [hit] at hit'
      cases hit'
    · cases hun : s.unsent with
      | nil => exact ⟨.spawn,_,by rw [step,if_pos ⟨hun,hit⟩]⟩
      | cons topic rest =>
        have hroom : s.queue.length < capacity := by
          rw [hun] at htopics
          have hlen := congrArg List.length htopics
          rw [hstate]
          simp only [List.length_append,List.length_cons,List.length_map] at hlen ⊢
          omega
        exact ⟨.subscribe,_,by rw [step,hun]; exact if_pos hroom⟩
  · rcases stage_of_run hrun with ⟨hit,-⟩ | ⟨sent,htopics,-,hsent⟩
    · exact hit
    · have hle := congrArg List.length htopics
      rw [List.length_append] at hle
      omega

/-- The subscriptions that fit are queued. -/
theorem run_subscribe {sent rest : List String} (h : sent.length ≤ capacity) :
    (start (sent ++ rest)).run (List.replicate sent.length .subscribe) =
      some ⟨rest,sent.map .subscribe,false,none⟩ := by
  induction sent using List.reverseRecOn generalizing rest with
  | nil => rfl
  | append_singleton sent topic ih =>
    rw [List.length_append,List.length_singleton] at h
    rw [List.append_assoc,List.length_append,List.length_singleton,List.replicate_succ']
    refine run_concat.mpr ⟨_,ih (by omega),?_⟩
    have hroom : (sent.map Request.subscribe).length < capacity := by
      rw [List.length_map]
      omega
    change (if (sent.map Request.subscribe).length < capacity then _ else _) = _
    rw [if_pos hroom]
    simp

/-- With more topics than the queue takes, `connect` waits for a thread it has yet to spawn. -/
theorem fits_of_returns (h : Returns topics) : topics.length ≤ capacity := by
  by_contra hlong
  have hsplit := List.take_append_drop capacity topics
  have hlen : (topics.take capacity).length = capacity := by
    rw [List.length_take]
    omega
  have hrun := @run_subscribe (topics.take capacity) (topics.drop capacity) hlen.le
  rw [hsplit] at hrun
  obtain ⟨act,s',hstep⟩ := h.progress _ _ hrun rfl
  rcases step_asking hstep with ⟨topic,rest,-,hroom,-⟩ | ⟨hnil,-⟩
  · rw [List.length_map,hlen] at hroom
    exact lt_irrefl _ hroom
  · have hzero := congrArg List.length hnil
    rw [List.length_drop,List.length_nil] at hzero
    omega

/-- A connection that takes the whole queue has what it had and what was queued. -/
theorem drained_eq {held : List String} (h : s.session = some held) :
    ∃ s' held', s.drained = some s' ∧ s'.session = some held' ∧
      ∀ topic, topic ∈ held' ↔ topic ∈ held ∨ .subscribe topic ∈ s.queue := by
  unfold drained
  generalize hq : s.queue = queue
  induction queue generalizing s held with
  | nil => exact ⟨s,held,rfl,h,by simp⟩
  | cons r queue ih =>
    have hstep : s.step .deliver =
        some { s with queue := queue, session := some (noted held r) } := by
      rw [step,h,hq]
    obtain ⟨s',held',hrun,hs',hheld⟩ :=
      @ih { s with queue := queue, session := some (noted held r) } (noted held r) rfl rfl
    refine ⟨s',held',?_,hs',fun topic => ?_⟩
    · rw [List.length_cons,List.replicate_succ,run,hstep]
      exact hrun
    · rw [hheld]
      cases r with
      | subscribe t => simp [noted,or_assoc,or_left_comm]
      | publish t => simp [noted]

/-- Every topic is subscribed, or its subscription is still queued. -/
def Covered (topics : List String) (s : RumqttcTransport) : Prop :=
  ∀ held, s.session = some held → ∀ topic ∈ topics, topic ∈ held ∨ .subscribe topic ∈ s.queue

/-- One step keeps the topics covered, where a connection is made to a full queue only. -/
theorem Covered.step {act : LinkAct} (h : s.Covered topics) (hit : s.iterating = true)
    (hun : s.unsent = []) (hstep : s.step act = some s')
    (hest : act = .establish → ∀ topic ∈ topics, .subscribe topic ∈ s.queue) :
    s'.Covered topics := by
  intro held hheld topic ht
  obtain ⟨-,-,⟨hqueue,hsession⟩ | ⟨rfl,hqueue,-⟩ | ⟨old,r,hqueue,hold,hnew⟩ | hnone⟩ :=
    step_iterating hit hun hstep
  · exact (h held (hsession ▸ hheld) topic ht).imp_right fun hm => hqueue.subset hm
  · exact .inr (hqueue ▸ hest rfl topic ht)
  · cases hheld.symm.trans hnew
    have hcov := h old hold topic ht
    rw [hqueue,List.mem_cons] at hcov
    rcases hcov with hm | rfl | hm
    · left
      cases r with
      | subscribe t => exact List.mem_cons_of_mem t hm
      | publish t => exact hm
    · exact .inl List.mem_cons_self
    · exact .inr hm
  · rw [hnone] at hheld
    cases hheld

/-- Covered in every state of an undisturbed run. -/
theorem covered_of_run (hun : Undisturbed topics acts) {pre : List LinkAct}
    (hpre : pre <+: acts) (h : (start topics).run pre = some s) : s.Covered topics := by
  induction pre using List.reverseRecOn generalizing s with
  | nil =>
    cases h
    rintro held ⟨⟩
  | append_singleton pre act ih =>
    obtain ⟨t,ht,hstep⟩ := run_concat.mp h
    have hcov := ih ((List.prefix_append pre [act]).trans hpre) ht
    rcases stage_of_run ht with ⟨hit,hsent⟩ | ⟨sent,-,hstate,-⟩
    · refine hcov.step hit hsent hstep ?_
      rintro rfl
      exact hun pre t s hpre ht hstep
    · rw [hstate] at hstep
      rcases step_asking hstep with ⟨topic,rest,-,-,rfl⟩ | ⟨-,rfl⟩ <;> rintro held ⟨⟩

/-- `connect` returns and the topics stay subscribed over a run exactly when the topics fit the
queue and no connection is made after one that took a subscription. -/
theorem staysSubscribed_iff (topics : List String) (acts : List LinkAct) :
    (Returns topics ∧ Subscribed topics acts) ↔
      topics.length ≤ capacity ∧ Undisturbed topics acts := by
  constructor
  · rintro ⟨hret,hsub⟩
    refine ⟨fits_of_returns hret,fun pre s s' hpre hrun hstep topic ht => ?_⟩
    have hrun' := run_concat.mpr ⟨s,hrun,hstep⟩
    have hs' : s'.queue = s.queue ∧ s'.session = some [] := by
      rw [step] at hstep
      split_ifs at hstep
      cases hstep
      exact ⟨rfl,rfl⟩
    obtain ⟨t,held,hd,hheld,hall⟩ := hsub _ s' hpre hrun' (by rw [hs'.2]; rfl)
    obtain ⟨t',held',hd',hheld',hmem⟩ := drained_eq hs'.2
    cases hd.symm.trans hd'
    cases hheld.symm.trans hheld'
    have hm := (hmem topic).mp (hall topic ht)
    rw [hs'.1] at hm
    exact hm.resolve_left List.not_mem_nil
  · rintro ⟨hfits,hun⟩
    refine ⟨returns_of_fits hfits,fun pre s hpre hrun hup => ?_⟩
    obtain ⟨held,hheld⟩ := Option.isSome_iff_exists.mp hup
    obtain ⟨s',held',hd,hs',hmem⟩ := drained_eq hheld
    exact ⟨s',held',hd,hs',fun topic ht =>
      (hmem topic).mpr (covered_of_run hun hpre hrun held hheld topic ht)⟩

/-- One topic, subscribed and then lost with its connection. -/
def reconnect : List LinkAct := [.subscribe,.spawn,.establish,.deliver,.drop,.establish]

/-- After a reconnect nothing is subscribed; with 65 topics `connect` does not return. -/
theorem not_staysSubscribed_reconnect :
    (start ["zigbee2mqtt/lamp"]).run reconnect = some ⟨[],[],true,some []⟩ ∧
      ¬(Returns ["zigbee2mqtt/lamp"] ∧ Subscribed ["zigbee2mqtt/lamp"] reconnect) ∧
      ¬Returns ((List.range 65).map fun n => "zigbee2mqtt/" ++ toString n) := by
  have hrun : (start ["zigbee2mqtt/lamp"]).run reconnect = some ⟨[],[],true,some []⟩ := by decide
  refine ⟨hrun,?_,fun h => absurd (fits_of_returns h) (by simp [capacity])⟩
  rintro ⟨-,hsub⟩
  obtain ⟨s',held,hd,hheld,hall⟩ := hsub _ _ List.prefix_rfl hrun rfl
  cases hd
  cases hheld
  exact absurd (hall _ List.mem_cons_self) List.not_mem_nil

end RumqttcTransport
end Domiform
