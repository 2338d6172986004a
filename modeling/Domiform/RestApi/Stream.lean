import Domiform.RestApi

/-! The event stream. The engine thread folds a report in two steps: the observers broadcast a
frame to every mailbox, then the northbound mirror is written. A client subscribes, reads its
snapshot from the mirror capability by capability, and then takes frames. The two threads meet
only at the mailboxes and the mirror. -/
namespace Domiform.Stream
open Library Relation

/-- What a frame tells, before its ids are rendered as names. -/
inductive Frame
  | state (device : DeviceId) (state : CapabilityState)
  | rule (rule : RuleId) (truth : Truth) (fired : Bool)
  | action (device : DeviceId) (action : ActionId) (depth : ℕ)
  | commandFailed (command : Command) (reason : String) (attempts : ℕ)

abbrev Capability := DeviceId × CapabilityKind

/-- The capability of a fold. -/
abbrev key (f : DeviceId × CapabilityState) : Capability := (f.1,f.2.kind)

/-- What a `state` frame says of a capability; the other frames say nothing. -/
def Frame.write : Frame → Option (Capability × CapabilityState)
  | state d s => some (StateStore.write (d,s))
  | _ => none

def queueCapacity : ℕ := 256

/-- One subscriber's mailbox. -/
structure Subscriber where
  id : ℕ
  queue : List Frame
  lagged : Bool
  live : Bool

/-- Queue a frame; on overflow the oldest one goes and the hole is flagged. -/
def Subscriber.push (frame : Frame) (s : Subscriber) : Subscriber :=
  if s.live then
    if queueCapacity ≤ s.queue.length then
      { s with queue := s.queue.tail ++ [frame], lagged := true }
    else { s with queue := s.queue ++ [frame] }
  else s

/-- The mailbox of the subscriber once its batch is taken. -/
def Subscriber.drained (id : ℕ) (s : Subscriber) : Subscriber :=
  if s.id = id then { s with queue := [], lagged := false } else s

/-- Every live subscriber, guarded by one mutex. -/
structure Registry where
  subscribers : List Subscriber
  nextId : ℕ

/-- What `next_batch` returns. -/
inductive Batch
  | frames (frames : List Frame) (lagged : Bool)
  | idle
  | done

namespace Registry

def default : Registry := ⟨[],0⟩

/-- `find`, by id. -/
def subscriber (r : Registry) (id : ℕ) : Option Subscriber := r.subscribers.find? (·.id == id)

def subscribe (r : Registry) : ℕ × Registry :=
  (r.nextId,⟨r.subscribers ++ [⟨r.nextId,[],false,true⟩],r.nextId+1⟩)

def broadcast (frame : Frame) (r : Registry) : Registry :=
  { r with subscribers := r.subscribers.map (Subscriber.push frame) }

def remove (id : ℕ) (r : Registry) : Registry :=
  { r with subscribers := r.subscribers.filter (·.id != id) }

/-- Everything pending, in one batch. -/
def nextBatch (id : ℕ) (r : Registry) : Batch × Registry :=
  match r.subscriber id with
  | none => (.done,r)
  | some s =>
    if s.queue.isEmpty && !s.lagged then (.idle,r)
    else
      (.frames s.queue s.lagged,
        { r with subscribers := r.subscribers.map (Subscriber.drained id) })

end Registry

/-- The capabilities `devices_value` reads, in the order it reads them. -/
def capabilities (directory : Directory) : List Capability :=
  directory.devices.flatMap fun entry => entry.capabilities.map fun kind => (entry.id,kind)

/-- One `GET /stream`, seen from the client. -/
inductive Client
  | connecting
  | reading (id : ℕ) (left : List Capability)
      (snapshot : List (Capability × Option CapabilityState))
  | streaming (id : ℕ) (snapshot : List (Capability × Option CapabilityState))
      (frames : List Frame) (lagged : Bool)

def Client.id : Client → Option ℕ
  | connecting => none
  | reading id _ _ | streaming id _ _ _ => some id

/-- The engine thread and one client. `folding` is the fold whose frame is out and which the mirror
has not heard of yet. `missed` and `overtaken` are ghosts of the schedule: the fold that was under
way when the client subscribed, while it is; and that fold once the client has read its capability
too early, with another value. -/
structure World where
  adapter : RestApiAdapter
  folding : Option (DeviceId × CapabilityState)
  registry : Registry
  client : Client
  missed : Option (DeviceId × CapabilityState)
  overtaken : Option (DeviceId × CapabilityState)

namespace World

/-- Before the client connects. -/
def start (adapter : RestApiAdapter) : World := ⟨adapter,none,.default,.connecting,none,none⟩

/-- The ghost after a read: a fold still under way is overtaken, one that was is made up for. -/
def overtake (w : World) (c : Capability) : Option (DeviceId × CapabilityState) :=
  match w.missed.filter fun f => key f = c with
  | some f => if w.adapter.handle.state c.1 c.2 = some f.2 then none else some f
  | none => w.overtaken.filter fun f => key f ≠ c

end World

/-- One step of either thread, or of another client. -/
inductive Step (directory : Directory) : World → World → Prop
  /-- The observers hear of a fold. -/
  | observe (w : World) (d : DeviceId) (s : CapabilityState) (idle : w.folding = none) :
      Step directory w
        { w with registry := w.registry.broadcast (.state d s), folding := some (d,s) }
  /-- The northbound adapter hears of it. -/
  | mirror (w : World) (d : DeviceId) (s : CapabilityState) (folding : w.folding = some (d,s)) :
      Step directory w
        { w with adapter := w.adapter.stateFolded d s, folding := none, missed := none }
  /-- A frame of another kind. -/
  | emit (w : World) (frame : Frame) (idle : w.folding = none) (other : frame.write = none) :
      Step directory w { w with registry := w.registry.broadcast frame }
  | tick (w : World) (now : Millis) (idle : w.folding = none) :
      Step directory w { w with adapter := (w.adapter.tick now).2 }
  | subscribe (w : World) (connecting : w.client = .connecting) :
      Step directory w
        { w with
          registry := w.registry.subscribe.2
          client := .reading w.registry.subscribe.1 (capabilities directory) []
          missed := w.folding }
  /-- One capability of the snapshot, under the lock of the mirror. -/
  | read (w : World) (id : ℕ) (c : Capability) (left : List Capability)
      (snapshot : List (Capability × Option CapabilityState))
      (reading : w.client = .reading id (c :: left) snapshot) :
      Step directory w
        { w with
          client := .reading id left (snapshot ++ [(c,w.adapter.handle.state c.1 c.2)])
          overtaken := w.overtake c }
  | send (w : World) (id : ℕ) (snapshot : List (Capability × Option CapabilityState))
      (reading : w.client = .reading id [] snapshot) :
      Step directory w { w with client := .streaming id snapshot [] false }
  | take (w : World) (id : ℕ) (snapshot : List (Capability × Option CapabilityState))
      (frames : List Frame) (lagged : Bool) (batch : List Frame) (hole : Bool)
      (streaming : w.client = .streaming id snapshot frames lagged)
      (pending : (w.registry.nextBatch id).1 = .frames batch hole) :
      Step directory w
        { w with
          registry := (w.registry.nextBatch id).2
          client := .streaming id snapshot (frames ++ batch) (lagged || hole) }
  /-- Other clients come, go and take their own frames. -/
  | join (w : World) : Step directory w { w with registry := w.registry.subscribe.2 }
  | leave (w : World) (id : ℕ) (other : w.client.id ≠ some id) :
      Step directory w { w with registry := w.registry.remove id }
  | drain (w : World) (id : ℕ) (other : w.client.id ≠ some id) :
      Step directory w { w with registry := (w.registry.nextBatch id).2 }

abbrev Run (directory : Directory) : World → World → Prop :=
  ReflTransGen (Step directory)

/-- What a client knows of every capability. -/
abbrev View := Capability → Option CapabilityState

/-- The snapshot, read as a whole. -/
def View.ofSnapshot (snapshot : List (Capability × Option CapabilityState)) : View :=
  fun c => (lastWrite snapshot c).join

/-- A `state` frame overwrites one capability. -/
def View.apply (view : View) (frame : Frame) : View :=
  match frame.write with
  | some w => fun c => if w.1 = c then some w.2 else view c
  | none => view

/-- The snapshot and then the frames, in order. -/
def view (snapshot : List (Capability × Option CapabilityState)) (frames : List Frame) : View :=
  frames.foldl View.apply (.ofSnapshot snapshot)

/-- What the `state` frames of a list say, in order. -/
def writes (frames : List Frame) : List (Capability × CapabilityState) :=
  frames.filterMap Frame.write

theorem writes_append (xs ys : List Frame) : writes (xs ++ ys) = writes xs ++ writes ys :=
  List.filterMap_append

theorem writes_singleton_state (d : DeviceId) (s : CapabilityState) :
    writes [.state d s] = [((d,s.kind),s)] := rfl

theorem foldl_apply (frames : List Frame) (v : View) (c : Capability) :
    frames.foldl View.apply v c = (lastWrite (writes frames) c).or (v c) := by
  induction frames generalizing v with
  | nil => rfl
  | cons frame frames ih =>
    rw [List.foldl_cons,ih]
    simp only [writes,List.filterMap_cons]
    cases hw : frame.write with
    | none => simp only [View.apply,hw]
    | some w =>
      simp only [View.apply,hw,lastWrite,Option.or_assoc]
      congr 1
      split_ifs <;> simp

theorem view_eq (snapshot : List (Capability × Option CapabilityState)) (frames : List Frame)
    (c : Capability) :
    view snapshot frames c = (lastWrite (writes frames) c).or (lastWrite snapshot c).join :=
  foldl_apply frames _ c

/-! ### Mailboxes -/

namespace Registry
variable {r : Registry} {id : ℕ} {s : Subscriber}

theorem subscriber_broadcast (r : Registry) (frame : Frame) (id : ℕ) :
    (r.broadcast frame).subscriber id = (r.subscriber id).map (Subscriber.push frame) := by
  have hid (s : Subscriber) : (s.push frame).id = s.id := by
    unfold Subscriber.push
    split_ifs <;> rfl
  simp only [subscriber,broadcast,List.find?_map,Function.comp_def,hid]

theorem subscriber_remove {other : ℕ} (h : id ≠ other) (r : Registry) :
    (r.remove other).subscriber id = r.subscriber id := by
  rw [subscriber,remove,List.find?_filter,subscriber]
  congr 1
  funext s
  by_cases hs : s.id = id
  · simp [hs,h]
  · simp [hs]

/-- Every mailbox in use has an earlier id than the next one. -/
def Numbered (r : Registry) : Prop := ∀ s ∈ r.subscribers, s.id < r.nextId

theorem subscriber_subscribe_old (h : r.subscriber id = some s) :
    r.subscribe.2.subscriber id = some s := by
  simp only [subscriber] at h
  simp [subscriber,subscribe,List.find?_append,h]

theorem subscriber_subscribe_new (h : r.Numbered) :
    r.subscribe.2.subscriber r.subscribe.1 = some ⟨r.subscribe.1,[],false,true⟩ := by
  have hn : r.subscribers.find? (·.id == r.nextId) = none := by
    rw [List.find?_eq_none]
    intro s hs he
    have := h s hs
    have := beq_iff_eq.mp he
    omega
  simp [subscriber,subscribe,List.find?_append,hn]

theorem subscriber_map_drained (r : Registry) (id other : ℕ) :
    ({ r with subscribers := r.subscribers.map (Subscriber.drained other) } : Registry).subscriber
      id = (r.subscriber id).map (Subscriber.drained other) := by
  have hid (s : Subscriber) : (s.drained other).id = s.id := by
    unfold Subscriber.drained
    split_ifs <;> rfl
  simp only [subscriber,List.find?_map,Function.comp_def,hid]

theorem subscriber_nextBatch_other {other : ℕ} (h : id ≠ other) (r : Registry) :
    (r.nextBatch other).2.subscriber id = r.subscriber id := by
  unfold nextBatch
  split
  · rfl
  split_ifs
  · rfl
  refine (subscriber_map_drained r id other).trans ?_
  cases hs : r.subscriber id with
  | none => rfl
  | some s =>
    have hid : s.id = id := by simpa using List.find?_some hs
    rw [Option.map_some,Subscriber.drained,if_neg (hid.trans_ne h)]

theorem nextBatch_frames {batch : List Frame} {hole : Bool}
    (hs : r.subscriber id = some s) (h : (r.nextBatch id).1 = .frames batch hole) :
    batch = s.queue ∧ hole = s.lagged ∧
      (r.nextBatch id).2.subscriber id = some { s with queue := [], lagged := false } := by
  simp only [nextBatch,hs] at h ⊢
  split_ifs at h with he
  cases h
  rw [if_neg he]
  refine ⟨rfl,rfl,(subscriber_map_drained r id id).trans ?_⟩
  have hid : s.id = id := by simpa using List.find?_some hs
  rw [hs,Option.map_some,Subscriber.drained,if_pos hid]

theorem nextBatch_idle (hs : r.subscriber id = some s) (h : (r.nextBatch id).1 = .idle) :
    s.queue = [] ∧ s.lagged = false := by
  simp only [nextBatch,hs] at h
  split_ifs at h with he
  simpa using he

theorem Numbered.map {f : Subscriber → Subscriber} (h : r.Numbered) (hf : ∀ s, (f s).id = s.id) :
    ({ r with subscribers := r.subscribers.map f } : Registry).Numbered := by
  intro s hs
  obtain ⟨s',hs',rfl⟩ := List.mem_map.mp hs
  rw [hf]
  exact h s' hs'

theorem Numbered.broadcast (h : r.Numbered) (frame : Frame) : (r.broadcast frame).Numbered := by
  refine h.map fun s => ?_
  unfold Subscriber.push
  split_ifs <;> rfl

theorem Numbered.subscribe (h : r.Numbered) : r.subscribe.2.Numbered := by
  intro s hs
  rcases List.mem_append.mp hs with hs | hs
  · exact Nat.lt_succ_of_lt (h s hs)
  · rw [List.mem_singleton.mp hs]
    exact Nat.lt_succ_self _

theorem Numbered.remove (h : r.Numbered) (id : ℕ) : (r.remove id).Numbered :=
  fun s hs => h s (List.mem_filter.mp hs).1

theorem Numbered.nextBatch (h : r.Numbered) (id : ℕ) : (r.nextBatch id).2.Numbered := by
  unfold Registry.nextBatch
  split
  · exact h
  split_ifs
  · exact h
  refine h.map fun s => ?_
  unfold Subscriber.drained
  split_ifs <;> rfl

end Registry

/-- While nothing is dropped, a frame goes to the end of the queue. -/
theorem Subscriber.push_of_kept {s : Subscriber} {frame : Frame} (live : s.live = true)
    (kept : (s.push frame).lagged = false) :
    s.lagged = false ∧ (s.push frame).queue = s.queue ++ [frame] := by
  simp only [push,live,if_true] at kept ⊢
  split_ifs at kept ⊢ with hq
  exact ⟨kept,rfl⟩

theorem Subscriber.live_push (s : Subscriber) (frame : Frame) : (s.push frame).live = s.live := by
  unfold push
  split_ifs <;> rfl

/-! ### What a client has heard -/

/-- The mirror, once the fold under way is through. -/
def World.settled (w : World) (c : Capability) : Option CapabilityState :=
  (lastWrite (w.folding.toList.map StateStore.write) c).or (w.adapter.handle.state c.1 c.2)

theorem World.settled_of_idle {w : World} (h : w.folding = none) (c : Capability) :
    w.settled c = w.adapter.handle.state c.1 c.2 := by
  simp [World.settled,h]

theorem World.settled_of_folding {w : World} {f : DeviceId × CapabilityState}
    (h : w.folding = some f) (c : Capability) :
    w.settled c = if key f = c then some f.2 else w.adapter.handle.state c.1 c.2 := by
  by_cases hc : key f = c <;> simp [World.settled,h,lastWrite,StateStore.write,hc]

theorem World.overtake_eq_some {w : World} {c : Capability} {f : DeviceId × CapabilityState}
    (h : w.overtake c = some f) :
    (w.missed = some f ∧ key f = c ∧ w.adapter.handle.state c.1 c.2 ≠ some f.2) ∨
      (w.overtaken = some f ∧ key f ≠ c) := by
  simp only [World.overtake] at h
  split at h
  · rename_i g hg
    obtain ⟨hm,hk⟩ := Option.filter_eq_some_iff.mp hg
    split_ifs at h with hv
    cases h
    exact .inl ⟨hm,of_decide_eq_true hk,hv⟩
  · obtain ⟨ho,hk⟩ := Option.filter_eq_some_iff.mp h
    exact .inr ⟨ho,of_decide_eq_true hk⟩

theorem World.overtake_of_missed {w : World} {c : Capability} {f : DeviceId × CapabilityState}
    (missed : w.missed = some f) (hk : key f = c) (hv : w.adapter.handle.state c.1 c.2 ≠ some f.2) :
    w.overtake c = some f := by
  have hm : w.missed.filter (fun f => key f = c) = some f :=
    Option.filter_eq_some_iff.mpr ⟨missed,decide_eq_true hk⟩
  rw [World.overtake,hm]
  exact if_neg hv

theorem World.overtake_of_overtaken {w : World} {c : Capability} {f : DeviceId × CapabilityState}
    (overtaken : w.overtaken = some f) (missed : ∀ g, w.missed = some g → key g ≠ c)
    (hk : key f ≠ c) : w.overtake c = some f := by
  have hm : w.missed.filter (fun f => key f = c) = none := by
    rw [Option.filter_eq_none_iff]
    intro g hg hc
    exact missed g hg (of_decide_eq_true hc)
  rw [World.overtake,hm]
  exact Option.filter_eq_some_iff.mpr ⟨overtaken,decide_eq_true hk⟩

/-- The client and the mirror, once the frames of `heard` are applied: the frames tell the last
value, a capability without a frame was read with the last value or overtaken, and the fold under
way is in the frames unless it was missed. -/
structure Told (w : World) (heard : List Frame)
    (snapshot : List (Capability × Option CapabilityState)) : Prop where
  fresh : ∀ c v, lastWrite (writes heard) c = some v → w.settled c = some v
  read : ∀ c r, lastWrite snapshot c = some r → lastWrite (writes heard) c = none →
    (∀ f, w.overtaken = some f → key f ≠ c) ∧ r = w.settled c ∨
    ∃ f, w.overtaken = some f ∧ key f = c ∧ w.settled c = some f.2 ∧ r ≠ some f.2
  missed : ∀ f, w.missed = some f → w.folding = some f ∧ lastWrite (writes heard) (key f) = none ∧
    ∀ f', w.overtaken = some f' → f' = f
  heard : ∀ f, w.folding = some f → w.missed = none →
    lastWrite (writes heard) (key f) = some f.2
  overtaken : ∀ f, w.overtaken = some f → ∃ r, lastWrite snapshot (key f) = some r

namespace Told
variable {w : World} {heard : List Frame} {snapshot : List (Capability × Option CapabilityState)}

/-- Nothing but the two threads' shared data matters. -/
theorem congr {w' : World} (h : Told w heard snapshot) (settled : w'.settled = w.settled)
    (folding : w'.folding = w.folding) (missed : w'.missed = w.missed)
    (overtaken : w'.overtaken = w.overtaken) : Told w' heard snapshot := by
  constructor
  · rw [settled]
    exact h.fresh
  · rw [settled,overtaken]
    exact h.read
  · rw [missed,folding,overtaken]
    exact h.missed
  · rw [folding,missed]
    exact h.heard
  · rw [overtaken]
    exact h.overtaken

theorem observe (h : Told w heard snapshot) (idle : w.folding = none) (r : Registry)
    (d : DeviceId) (s : CapabilityState) :
    Told { w with registry := r, folding := some (d,s) } (heard ++ [.state d s]) snapshot := by
  have hs := World.settled_of_folding
    (w := { w with registry := r, folding := some (d,s) }) rfl
  have hw (c : Capability) : lastWrite (writes (heard ++ [.state d s])) c =
      if key (d,s) = c then some s else lastWrite (writes heard) c := by
    rw [writes_append,writes_singleton_state,lastWrite_concat]
  have hm : w.missed = none := by
    cases hm : w.missed with
    | none => rfl
    | some f =>
      have := (h.missed f hm).1
      rw [idle] at this
      cases this
  constructor
  · intro c v hv
    rw [hw] at hv
    rw [hs]
    split_ifs at hv ⊢ with hc
    · exact hv
    · rw [← h.fresh c v hv,World.settled_of_idle idle]
  · intro c r hr hn
    rw [hw] at hn
    split_ifs at hn with hc
    rw [hs,if_neg hc,← World.settled_of_idle idle]
    exact h.read c r hr hn
  · intro f hf
    rw [hm] at hf
    cases hf
  · intro f hf _
    cases hf
    rw [hw,if_pos rfl]
  · exact h.overtaken

theorem mirror (h : Told w heard snapshot) {d : DeviceId} {s : CapabilityState}
    (folding : w.folding = some (d,s)) :
    Told { w with adapter := w.adapter.stateFolded d s, folding := none, missed := none }
      heard snapshot := by
  have hs (c : Capability) : World.settled
      { w with adapter := w.adapter.stateFolded d s, folding := none, missed := none } c =
        w.settled c := by
    rw [World.settled_of_idle rfl,World.settled_of_folding folding]
    exact (HashMap.lookup_insert _ _ _ _).trans (by simp only [eq_comm,Prod.mk.eta]; rfl)
  constructor
  · intro c v hv
    rw [hs]
    exact h.fresh c v hv
  · intro c r hr hn
    rw [hs]
    exact h.read c r hr hn
  · rintro f ⟨⟩
  · rintro f ⟨⟩
  · exact h.overtaken

theorem emit (h : Told w heard snapshot) {frame : Frame} (other : frame.write = none) :
    Told w (heard ++ [frame]) snapshot := by
  have hw : writes (heard ++ [frame]) = writes heard := by
    simp [writes,other]
  constructor
  · rw [hw]
    exact h.fresh
  · rw [hw]
    exact h.read
  · rw [hw]
    exact h.missed
  · rw [hw]
    exact h.heard
  · exact h.overtaken

/-- A client that has just subscribed misses the fold under way, and no other. -/
theorem subscribe (r : Registry) (client : Client) (none_overtaken : w.overtaken = none) :
    Told { w with registry := r, client := client, missed := w.folding } [] [] := by
  constructor
  · rintro c v ⟨⟩
  · rintro c r ⟨⟩
  · refine fun f hf => ⟨hf,rfl,fun f' hf' => ?_⟩
    rw [none_overtaken] at hf'
    cases hf'
  · intro f hf hm
    rw [hf] at hm
    cases hm
  · intro f hf
    rw [none_overtaken] at hf
    cases hf

/-- A read while the capability's fold is under way sees the old value: either the frame is on its
way, or the read overtakes the fold. -/
theorem readCapability (h : Told w heard snapshot) (c : Capability) (client : Client) :
    Told { w with client := client, overtaken := w.overtake c } heard
      (snapshot ++ [(c,w.adapter.handle.state c.1 c.2)]) := by
  have hs : World.settled { w with client := client, overtaken := w.overtake c } = w.settled := rfl
  have hl (c' : Capability) :
      lastWrite (snapshot ++ [(c,w.adapter.handle.state c.1 c.2)]) c' =
        if c = c' then some (w.adapter.handle.state c.1 c.2) else lastWrite snapshot c' :=
    lastWrite_concat _ _ _
  have ho (f : DeviceId × CapabilityState) (hf : w.overtake c = some f) :
      (w.missed = some f ∧ key f = c ∧ w.adapter.handle.state c.1 c.2 ≠ some f.2) ∨
        (w.overtaken = some f ∧ key f ≠ c) := World.overtake_eq_some hf
  constructor
  · rw [hs]
    exact h.fresh
  · intro c' r hr hn
    rw [hl] at hr
    rw [hs]
    split_ifs at hr with hc
    · subst hc
      cases hr
      cases hf : w.folding with
      | none =>
        refine .inl ⟨fun f hf' => ?_,(World.settled_of_idle hf c).symm⟩
        obtain ⟨hm,-⟩ | ⟨-,hne⟩ := ho f hf'
        · have := (h.missed f hm).1
          rw [hf] at this
          cases this
        · exact hne
      | some f =>
        by_cases hk : key f = c
        · have hm : w.missed = some f := by
            cases hm : w.missed with
            | none =>
              have := h.heard f hf hm
              rw [hk,hn] at this
              cases this
            | some f' =>
              rw [← hf,(h.missed f' hm).1]
          have hset : w.settled c = some f.2 := by rw [World.settled_of_folding hf,if_pos hk]
          by_cases hv : w.adapter.handle.state c.1 c.2 = some f.2
          · refine .inl ⟨fun f' hf' => ?_,hv.trans hset.symm⟩
            obtain ⟨hm',-,hne⟩ | ⟨-,hne⟩ := ho f' hf'
            · rw [hm] at hm'
              cases hm'
              exact absurd hv hne
            · exact hne
          · exact .inr ⟨f,World.overtake_of_missed hm hk hv,hk,hset,hv⟩
        · refine .inl ⟨fun f' hf' => ?_,?_⟩
          · obtain ⟨hm,hk',-⟩ | ⟨-,hne⟩ := ho f' hf'
            · have := (h.missed f' hm).1
              rw [hf] at this
              cases this
              exact absurd hk' hk
            · exact hne
          · rw [World.settled_of_folding hf,if_neg hk]
    · obtain ⟨hno,heq⟩ | ⟨f,hf,hk,hset,hne⟩ := h.read c' r hr hn
      · refine .inl ⟨fun f hf => ?_,heq⟩
        obtain ⟨-,hk,-⟩ | ⟨hf,-⟩ := ho f hf
        · rw [hk]
          exact hc
        · exact hno f hf
      · refine .inr ⟨f,World.overtake_of_overtaken hf (fun g hg => ?_) ?_,hk,hset,hne⟩
        · rw [← (h.missed g hg).2.2 f hf,hk]
          exact Ne.symm hc
        · rw [hk]
          exact Ne.symm hc
  · intro f hf
    obtain ⟨hfold,hn,hall⟩ := h.missed f hf
    refine ⟨hfold,hn,fun f' hf' => ?_⟩
    obtain ⟨hm,-⟩ | ⟨hf',-⟩ := ho f' hf'
    · exact Option.some.inj (hm.symm.trans hf)
    · exact hall f' hf'
  · exact h.heard
  · intro f hf
    rw [hl]
    obtain ⟨-,hk,-⟩ | ⟨hf,hne⟩ := ho f hf
    · exact ⟨_,if_pos hk.symm⟩
    · rw [if_neg (Ne.symm hne)]
      exact h.overtaken f hf

end Told

/-- The client is at one of its steps, with a mailbox of its own from the first on; unless a frame
was dropped, what it has and what waits for it tell the mirror. -/
def World.Attached (directory : Directory) (w : World) : Prop :=
  match w.client with
  | .connecting => w.missed = none ∧ w.overtaken = none
  | .reading id left snapshot => ∃ s, w.registry.subscriber id = some s ∧ s.live = true ∧
      snapshot.map Prod.fst ++ left = capabilities directory ∧
      (s.lagged = false → Told w s.queue snapshot)
  | .streaming id snapshot frames lagged => ∃ s, w.registry.subscriber id = some s ∧
      s.live = true ∧ snapshot.map Prod.fst = capabilities directory ∧
      (s.lagged = false → lagged = false → Told w (frames ++ s.queue) snapshot)

namespace World
variable {directory : Directory} {w w' : World}

/-- A step of the engine thread that queues one frame. -/
theorem Attached.of_broadcast (h : w.Attached directory) {frame : Frame}
    (client : w'.client = w.client) (registry : w'.registry = w.registry.broadcast frame)
    (idle : w.client = .connecting → w'.missed = none ∧ w'.overtaken = none)
    (told : ∀ heard snapshot, Told w heard snapshot → Told w' (heard ++ [frame]) snapshot) :
    w'.Attached directory := by
  unfold Attached at h ⊢
  rw [client]
  cases hc : w.client with
  | connecting => exact idle hc
  | reading id left snapshot =>
    rw [hc] at h
    obtain ⟨s,hs,hl,hcap,ht⟩ := h
    refine ⟨s.push frame,?_,(s.live_push frame).trans hl,hcap,fun hk => ?_⟩
    · rw [registry,Registry.subscriber_broadcast,hs]
      rfl
    · obtain ⟨hlag,hq⟩ := Subscriber.push_of_kept hl hk
      rw [hq]
      exact told _ _ (ht hlag)
  | streaming id snapshot frames lagged =>
    rw [hc] at h
    obtain ⟨s,hs,hl,hcap,ht⟩ := h
    refine ⟨s.push frame,?_,(s.live_push frame).trans hl,hcap,fun hk hlag' => ?_⟩
    · rw [registry,Registry.subscriber_broadcast,hs]
      rfl
    · obtain ⟨hlag,hq⟩ := Subscriber.push_of_kept hl hk
      rw [hq,← List.append_assoc]
      exact told _ _ (ht hlag hlag')

/-- A step that leaves the client's mailbox alone. -/
theorem Attached.of_mailbox (h : w.Attached directory) (client : w'.client = w.client)
    (mailbox : ∀ id s, w.client.id = some id → w.registry.subscriber id = some s →
      w'.registry.subscriber id = some s)
    (idle : w.client = .connecting → w'.missed = none ∧ w'.overtaken = none)
    (told : ∀ heard snapshot, Told w heard snapshot → Told w' heard snapshot) :
    w'.Attached directory := by
  unfold Attached at h ⊢
  rw [client]
  cases hc : w.client with
  | connecting => exact idle hc
  | reading id left snapshot =>
    rw [hc] at h
    obtain ⟨s,hs,hl,hcap,ht⟩ := h
    exact ⟨s,mailbox id s (by rw [hc]; rfl) hs,hl,hcap,fun hk => told _ _ (ht hk)⟩
  | streaming id snapshot frames lagged =>
    rw [hc] at h
    obtain ⟨s,hs,hl,hcap,ht⟩ := h
    exact ⟨s,mailbox id s (by rw [hc]; rfl) hs,hl,hcap,fun hk hlag => told _ _ (ht hk hlag)⟩

/-- Before the client connects it has missed nothing. -/
theorem Attached.connecting (h : w.Attached directory) (hc : w.client = .connecting) :
    w.missed = none ∧ w.overtaken = none := by
  rwa [Attached,hc] at h

end World

/-- Ids are handed out in order, and the client's view is accounted for. -/
structure Invariant (directory : Directory) (w : World) : Prop where
  numbered : w.registry.Numbered
  attached : w.Attached directory

theorem Step.invariant {directory : Directory} {w w' : World} (step : Step directory w w')
    (h : Invariant directory w) : Invariant directory w' := by
  obtain ⟨hn,ha⟩ := h
  cases step with
  | observe d s idle =>
    exact ⟨hn.broadcast _,ha.of_broadcast rfl rfl ha.connecting fun heard snapshot ht =>
      ht.observe idle _ d s⟩
  | mirror d s folding =>
    exact ⟨hn,ha.of_mailbox rfl (fun _ _ _ hs => hs) (fun hc => ⟨rfl,(ha.connecting hc).2⟩)
      fun heard snapshot ht => ht.mirror folding⟩
  | emit frame idle other =>
    exact ⟨hn.broadcast _,ha.of_broadcast rfl rfl ha.connecting fun heard snapshot ht =>
      (ht.emit other).congr rfl rfl rfl rfl⟩
  | tick now idle =>
    exact ⟨hn,ha.of_mailbox rfl (fun _ _ _ hs => hs) ha.connecting
      fun heard snapshot ht => ht.congr rfl rfl rfl rfl⟩
  | subscribe connecting =>
    refine ⟨hn.subscribe,⟨_,Registry.subscriber_subscribe_new hn,rfl,List.nil_append _,fun _ => ?_⟩⟩
    exact Told.subscribe _ _ (ha.connecting connecting).2
  | read id c left snapshot reading =>
    rw [World.Attached,reading] at ha
    obtain ⟨s,hs,hl,hcap,ht⟩ := ha
    refine ⟨hn,⟨s,hs,hl,?_,fun hk => (ht hk).readCapability c _⟩⟩
    rw [List.map_append,List.append_assoc]
    exact hcap
  | send id snapshot reading =>
    rw [World.Attached,reading] at ha
    obtain ⟨s,hs,hl,hcap,ht⟩ := ha
    refine ⟨hn,⟨s,hs,hl,?_,fun hk _ => (ht hk).congr rfl rfl rfl rfl⟩⟩
    rwa [List.append_nil] at hcap
  | take id snapshot frames lagged batch hole streaming pending =>
    rw [World.Attached,streaming] at ha
    obtain ⟨s,hs,hl,hcap,ht⟩ := ha
    obtain ⟨rfl,rfl,hs'⟩ := Registry.nextBatch_frames hs pending
    refine ⟨hn.nextBatch id,⟨_,hs',hl,hcap,fun _ hlag => ?_⟩⟩
    obtain ⟨hlagged,hhole⟩ := Bool.or_eq_false_iff.mp hlag
    rw [List.append_nil]
    exact (ht hhole hlagged).congr rfl rfl rfl rfl
  | join =>
    exact ⟨hn.subscribe,ha.of_mailbox rfl (fun id s _ hs => Registry.subscriber_subscribe_old hs)
      ha.connecting fun heard snapshot ht => ht.congr rfl rfl rfl rfl⟩
  | leave id other =>
    refine ⟨hn.remove id,ha.of_mailbox rfl (fun id' s hid hs => ?_) ha.connecting
      fun heard snapshot ht => ht.congr rfl rfl rfl rfl⟩
    rw [hid] at other
    rwa [Registry.subscriber_remove fun he => other (congrArg some he)]
  | drain id other =>
    refine ⟨hn.nextBatch id,ha.of_mailbox rfl (fun id' s hid hs => ?_) ha.connecting
      fun heard snapshot ht => ht.congr rfl rfl rfl rfl⟩
    rw [hid] at other
    rwa [Registry.subscriber_nextBatch_other fun he => other (congrArg some he)]

theorem Run.invariant {directory : Directory} {adapter : RestApiAdapter} {w : World}
    (run : Run directory (.start adapter) w) : Invariant directory w := by
  induction run with
  | refl => exact ⟨by simp [World.start,Registry.default,Registry.Numbered],rfl,rfl⟩
  | tail _ step ih => exact step.invariant ih

/-- A client that has taken everything, with no hole reported, sees the mirror on every capability
it was given: unless it subscribed inside a fold, read the fold's capability before the mirror
heard of it, and no later frame tells of that capability. -/
theorem view_is_mirror_iff {directory : Directory} {adapter : RestApiAdapter} {w : World}
    (run : Run directory (.start adapter) w) (quiescent : w.folding = none) {id : ℕ}
    {snapshot : List (Capability × Option CapabilityState)} {frames : List Frame}
    (streaming : w.client = .streaming id snapshot frames false)
    (taken : (w.registry.nextBatch id).1 = .idle) :
    (∀ entry ∈ directory.devices, ∀ kind ∈ entry.capabilities,
        view snapshot frames (entry.id,kind) = w.adapter.handle.state entry.id kind) ↔
      ∀ f, w.overtaken = some f → ∃ s, Frame.state f.1 s ∈ frames ∧ s.kind = f.2.kind := by
  have ha := run.invariant.attached
  rw [World.Attached,streaming] at ha
  obtain ⟨s,hs,-,hcap,ht⟩ := ha
  obtain ⟨hq,hlag⟩ := Registry.nextBatch_idle hs taken
  have htold := ht hlag rfl
  rw [hq,List.append_nil] at htold
  have hsettled := World.settled_of_idle quiescent
  -- a frame for a capability is a write to it
  have hframe (c : Capability) : (∃ s, Frame.state c.1 s ∈ frames ∧ s.kind = c.2) ↔
      lastWrite (writes frames) c ≠ none := by
    constructor
    · rintro ⟨s,hm,hk⟩ hn
      have hw : (key (c.1,s),s) ∈ writes frames := List.mem_filterMap.mpr ⟨_,hm,rfl⟩
      exact lastWrite_eq_none_iff.mp hn _ hw (Prod.ext rfl hk)
    · intro hn
      obtain ⟨v,hv⟩ := Option.ne_none_iff_exists'.mp hn
      obtain ⟨frame,hm,hw⟩ := List.mem_filterMap.mp (mem_of_lastWrite hv)
      cases frame with
      | state d s =>
        cases hw
        exact ⟨_,hm,rfl⟩
      | _ => cases hw
  have hmem (c : Capability) : c ∈ capabilities directory ↔
      ∃ entry ∈ directory.devices, ∃ kind ∈ entry.capabilities, (entry.id,kind) = c := by
    simp only [capabilities,List.mem_flatMap,List.mem_map]
  constructor
  · intro hall f hf
    refine (hframe (key f)).mpr fun hn => ?_
    obtain ⟨r,hr⟩ := htold.overtaken f hf
    have hc : key f ∈ capabilities directory := by
      rw [← hcap]
      exact List.mem_map_of_mem (mem_of_lastWrite hr)
    obtain ⟨entry,he,kind,hk,heq⟩ := (hmem _).mp hc
    have hview := hall entry he kind hk
    rw [heq,view_eq,hn,hr] at hview
    obtain ⟨hno,-⟩ | ⟨g,hg,-,hset,hne⟩ := htold.read _ r hr hn
    · exact hno f hf rfl
    · rw [hsettled] at hset
      have hmirror : w.adapter.handle.state entry.id kind = some g.2 := by
        rw [← hset,← heq]
      exact hne (hview.trans hmirror)
  · intro hall entry he kind hk
    rw [view_eq]
    cases hl : lastWrite (writes frames) (entry.id,kind) with
    | some v =>
      rw [← hsettled (entry.id,kind),htold.fresh _ v hl]
      rfl
    | none =>
      have hc : (entry.id,kind) ∈ snapshot.map Prod.fst := by
        rw [hcap]
        exact (hmem _).mpr ⟨entry,he,kind,hk,rfl⟩
      obtain ⟨r,hr⟩ : ∃ r, lastWrite snapshot (entry.id,kind) = some r := by
        refine Option.ne_none_iff_exists'.mp fun hn => ?_
        obtain ⟨x,hx,hxc⟩ := List.mem_map.mp hc
        exact lastWrite_eq_none_iff.mp hn x hx hxc
      rw [hr]
      obtain ⟨-,heq⟩ | ⟨f,hf,hkey,-,-⟩ := htold.read _ r hr hl
      · rw [heq,hsettled]
        rfl
      · have := (hframe (key f)).mp (hall f hf)
        rw [hkey] at this
        exact absurd hl this

/-- A house with one lamp that can be dimmed. -/
def house : Directory := ⟨[⟨lamp,"lamp",none,[.brightness],[],false⟩]⟩

def idleApi : RestApiAdapter := ⟨.default,[]⟩

/-- The client subscribes and reads between the two steps of the fold; the frame comes after. -/
theorem subscriber_sees_the_lamp : ∃ w snapshot frames, Run house (.start idleApi) w ∧
    w.client = .streaming 0 snapshot frames false ∧
    ((∀ entry ∈ house.devices, ∀ kind ∈ entry.capabilities,
        view snapshot frames (entry.id,kind) = w.adapter.handle.state entry.id kind) ↔
      ∀ f, w.overtaken = some f → ∃ s, Frame.state f.1 s ∈ frames ∧ s.kind = f.2.kind) := by
  let fold : CapabilityState := .brightness 40
  have run : Run house (.start idleApi) _ :=
    ((((((ReflTransGen.refl.tail (.subscribe _ rfl)).tail (.observe _ lamp fold rfl)).tail
      (.read _ 0 (lamp,.brightness) [] [] rfl)).tail (.send _ 0 _ rfl)).tail
      (.mirror _ lamp fold rfl)).tail (.take _ 0 _ [] false [.state lamp fold] false rfl rfl))
  exact ⟨_,_,_,run,rfl,view_is_mirror_iff run rfl rfl rfl⟩

/-- A client that subscribes after the broadcast and reads before the mirror write never hears of
the new brightness. -/
theorem late_subscriber_misses_the_lamp : ∃ w snapshot, Run house (.start idleApi) w ∧
    w.folding = none ∧ w.client = .streaming 0 snapshot [] false ∧
    (w.registry.nextBatch 0).1 = .idle ∧ (∃ entry ∈ house.devices, ∃ kind ∈ entry.capabilities,
      view snapshot [] (entry.id,kind) = none ∧
        w.adapter.handle.state entry.id kind = some (.brightness 40)) := by
  let fold : CapabilityState := .brightness 40
  have run : Run house (.start idleApi) _ :=
    (((((ReflTransGen.refl.tail (.observe _ lamp fold rfl)).tail (.subscribe _ rfl)).tail
      (.read _ 0 (lamp,.brightness) [] [] rfl)).tail (.send _ 0 _ rfl)).tail
      (.mirror _ lamp fold rfl))
  exact ⟨_,_,run,rfl,rfl,rfl,_,List.mem_singleton_self _,.brightness,List.mem_singleton_self _,
    rfl,rfl⟩

end Domiform.Stream
