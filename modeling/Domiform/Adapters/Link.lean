import Domiform.Adapters.ZwaveJs
import Domiform.Library.Outbox

/-! The two WebSocket transports. A call builds a frame and queues it; a thread of its own connects,
shakes hands and then writes the queued frames one by one, until a connection is lost and it starts
over. The transports differ in the handshake and in the frames. -/
namespace Domiform
open Library Relation

/-- What is particular to a transport. `C` is what a call asks for. -/
structure Protocol (C : Type) where
  /-- Whether the server speaks first. -/
  greeted : Bool
  /-- The frames of the handshake, given what the server said first, if that was JSON. -/
  handshake : Option Json → List Json
  request : String → NodeAddress → C → Json
  gone : String

namespace Matter

/-- Cluster, name and payload of a cluster command. -/
def clusterRequest : ClusterCommand → ℕ × String × Json
  | .onOff true => (0x0006,"On",.ofFields [])
  | .onOff false => (0x0006,"Off",.ofFields [])
  | .toggle => (0x0006,"Toggle",.ofFields [])
  | .moveToLevel level ds => (0x0008,"MoveToLevelWithOnOff",
      .ofFields [("level",.int level.toNat),("transitionTime",.int ds.toNat)])
  | .moveToHueAndSaturation hue saturation ds => (0x0300,"MoveToHueAndSaturation",
      .ofFields [("hue",.int hue.toNat),("saturation",.int saturation.toNat),
        ("transitionTime",.int ds.toNat)])
  | .moveToColorTemperature mireds ds => (0x0300,"MoveToColorTemperature",
      .ofFields [("colorTemperatureMireds",.int mireds.toNat),("transitionTime",.int ds.toNat)])

def request (messageId : String) (address : NodeAddress) (cmd : ClusterCommand) : Json :=
  let (cluster,name,payload) := clusterRequest cmd
  .ofFields [("message_id",.string messageId),("command",.string "device_command"),
    ("args",.ofFields [("node_id",.int address.1),("endpoint_id",.int address.2.toNat),
      ("cluster_id",.int cluster),("command_name",.string name),("payload",payload)])]

def protocol : Protocol ClusterCommand where
  greeted := false
  handshake _ :=
    [.ofFields [("message_id",.string "start_listening"),("command",.string "start_listening")]]
  request := request
  gone := "matter transport thread is gone"

end Matter

namespace ZwaveJs

def maxSchemaVersion : ℕ := 41
def fallbackSchema : ℕ := 33

/-- The newest version that both sides know, from the server's `version` frame. -/
def negotiateSchema (version : Option Json) : ℕ :=
  match version.bind fun v => (v.get "maxSchemaVersion").bind Json.asU64 with
  | some serverMax => min serverMax maxSchemaVersion
  | none => fallbackSchema

def request (messageId : String) (address : NodeAddress) (value : SetValue) : Json :=
  let fields := [("messageId",.string messageId),("command",.string "node.set_value"),
    ("nodeId",.int address.1),
    ("valueId",.ofFields [("commandClass",.int value.commandClass),
      ("endpoint",.int address.2.toNat),("property",.string value.property)]),
    ("value",value.value)]
  match value.transition with
  | some ms => .ofFields (fields ++
      [("options",.ofFields [("transitionDuration",.string (toString (ms/1000) ++ "s"))])])
  | none => .ofFields fields

def protocol : Protocol SetValue where
  greeted := true
  handshake version :=
    [.ofFields [("messageId",.string "set_api_schema"),("command",.string "set_api_schema"),
        ("schemaVersion",.int (negotiateSchema version))],
      .ofFields [("messageId",.string "start_listening"),("command",.string "start_listening")]]
  request := request
  gone := "zwave transport thread is gone"

end ZwaveJs

/-- Where `run_connection` is. -/
inductive LinkPhase
  | connecting
  /-- A connection is up, and the server is to speak first. -/
  | greeting
  | handshaking (left : List Json)
  | pumping
  /-- A frame was taken off the queue and is being written. -/
  | writing
  | sleeping
  | stopped

/-- A transport: what the calls and the thread share. `R` is what the server reports. -/
structure ServerWs (R : Type) where
  phase : LinkPhase
  /-- The host still holds the sender. -/
  held : Bool
  outbox : Outbox Json
  inbound : List R
  nextId : ℕ

namespace ServerWs
variable {C R : Type}

def connect : ServerWs R := ⟨.connecting,true,.empty,[],1⟩

/-- `set_value` and `invoke`: an error only when the thread is gone. -/
def call (p : Protocol C) (s : ServerWs R) (address : NodeAddress) (c : C) :
    Except String Unit × ServerWs R :=
  let messageId := toString s.nextId
  let s := { s with nextId := (s.nextId+1) % 2^64 }
  match s.phase with
  | .stopped => (.error p.gone,s)
  | _ => (.ok (),{ s with outbox := s.outbox.accept (p.request messageId address c) })

def poll (s : ServerWs R) : List R × ServerWs R := (s.inbound,{ s with inbound := [] })

instance : MatterController (ServerWs AttrReport) where
  invoke := call Matter.protocol
  poll := poll

instance : ZwaveClient (ServerWs ValueUpdate) where
  setValue := call ZwaveJs.protocol
  poll := poll

/-- What may happen: a call, or something the thread does or meets. -/
inductive Label (C R : Type)
  | call (address : NodeAddress) (c : C)
  | poll
  | connected
  | refused
  | greeted (version : Option Json)
  | sent
  | unsent
  /-- The handshake is over. -/
  | listening
  | heard (reports : List R)
  /-- The server closes the connection, or reading fails. -/
  | dropped
  | take
  | written
  | unwritten
  | awake
  /-- The host drops the sender. -/
  | released
  | stopped

/-- One step, or none when it is not the thread's turn to take it. -/
def step (p : Protocol C) (s : ServerWs R) (label : Label C R) : Option (ServerWs R) :=
  match label,s.phase with
  | .call address c,_ => if s.held then some (s.call p address c).2 else none
  | .poll,_ => some s.poll.2
  | .released,_ => some { s with held := false }
  | .connected,.connecting =>
    some { s with phase := if p.greeted then .greeting else .handshaking (p.handshake none) }
  | .refused,.connecting => some { s with phase := .sleeping }
  | .greeted version,.greeting => some { s with phase := .handshaking (p.handshake version) }
  | .sent,.handshaking (_ :: left) => some { s with phase := .handshaking left }
  | .unsent,.handshaking (_ :: _) => some { s with phase := .sleeping }
  | .listening,.handshaking [] => some { s with phase := .pumping }
  | .heard reports,.pumping => some { s with inbound := s.inbound ++ reports }
  | .dropped,.pumping => some { s with phase := .sleeping }
  | .take,.pumping => s.outbox.take.map fun o => { s with phase := .writing,outbox := o }
  | .written,.writing => some { s with phase := .pumping,outbox := s.outbox.deliver }
  | .unwritten,.writing => some { s with phase := .sleeping,outbox := s.outbox.lose }
  | .awake,.sleeping => some { s with phase := .connecting }
  | .stopped,.pumping =>
    if s.outbox.queue.isEmpty && !s.held then some { s with phase := .stopped } else none
  | _,_ => none

/-- The labels of a run, in order. -/
def run (p : Protocol C) (s : ServerWs R) (labels : List (Label C R)) : Option (ServerWs R) :=
  labels.foldlM (step p) s

section Frames
variable {p : Protocol C} {s s' : ServerWs R} {label : Label C R}

/-- Frames are conserved, and the one being written is in hand. -/
structure Sound (s : ServerWs R) : Prop where
  conserved : s.outbox.Conserved
  writing : s.phase = .writing → s.outbox.hand.isSome

theorem Sound.connect : (connect : ServerWs R).Sound := ⟨.empty,nofun⟩

theorem Sound.call (h : s.Sound) (address : NodeAddress) (c : C) :
    (s.call p address c).2.Sound ∧ (s.call p address c).2.outbox.lost = s.outbox.lost := by
  rw [ServerWs.call]
  dsimp only
  split
  · exact ⟨⟨h.conserved,h.writing⟩,rfl⟩
  · exact ⟨⟨h.conserved.accept _,h.writing⟩,rfl⟩

theorem Sound.take (h : s.Sound) {o : Outbox Json} (ht : s.outbox.take = some o) :
    ({ s with phase := .writing,outbox := o } : ServerWs R).Sound ∧ o.lost = s.outbox.lost := by
  refine ⟨⟨h.conserved.take ht,fun _ => ?_⟩,?_⟩ <;>
  · simp only [Outbox.take] at ht
    split at ht
    · cases ht
      rfl
    · cases ht

/-- Only a failed write loses a frame, and it does. -/
theorem Sound.step (h : s.Sound) (step : step p s label = some s') :
    s'.Sound ∧ (s'.outbox.lost = [] ↔ s.outbox.lost = [] ∧ label ≠ .unwritten) := by
  have same {t : ServerWs R} (ht : t.Sound) (hl : t.outbox.lost = s.outbox.lost)
      (hn : label ≠ .unwritten) :
      t.Sound ∧ (t.outbox.lost = [] ↔ s.outbox.lost = [] ∧ label ≠ .unwritten) :=
    ⟨ht,by rw [hl]; exact (and_iff_left hn).symm⟩
  unfold ServerWs.step at step
  split at step
  · -- a call
    split_ifs at step
    cases step
    exact same (h.call _ _).1 (h.call _ _).2 (by simp)
  · cases step
    exact same ⟨h.conserved,h.writing⟩ rfl (by simp)
  · cases step
    exact same ⟨h.conserved,h.writing⟩ rfl (by simp)
  · cases step
    refine same ⟨h.conserved,fun hw => ?_⟩ rfl (by simp)
    dsimp only at hw
    split_ifs at hw
  iterate 5
    · cases step
      exact same ⟨h.conserved,by simp⟩ rfl (by simp)
  · cases step
    exact same ⟨h.conserved,h.writing⟩ rfl (by simp)
  · cases step
    exact same ⟨h.conserved,by simp⟩ rfl (by simp)
  · -- a frame is taken
    obtain ⟨o,ho,rfl⟩ := Option.map_eq_some_iff.mp step
    exact same (h.take ho).1 (h.take ho).2 (by simp)
  · cases step
    exact same ⟨h.conserved.deliver,by simp⟩ rfl (by simp)
  · -- a frame is lost
    rename_i hp
    cases step
    obtain ⟨f,hf⟩ := Option.isSome_iff_exists.mp (h.writing hp)
    refine ⟨⟨h.conserved.lose,by simp⟩,?_⟩
    simp [Outbox.lose,hf]
  · cases step
    exact same ⟨h.conserved,by simp⟩ rfl (by simp)
  · split_ifs at step
    cases step
    exact same ⟨h.conserved,by simp⟩ rfl (by simp)
  · cases step

/-- Over a run what is lost is what failed to be written. -/
theorem Sound.run (h : s.Sound) {labels : List (Label C R)} (hr : s.run p labels = some s') :
    s'.Sound ∧ (s'.outbox.lost = [] ↔ s.outbox.lost = [] ∧ .unwritten ∉ labels) := by
  induction labels generalizing s with
  | nil =>
    cases hr
    exact ⟨h,by simp⟩
  | cons label labels ih =>
    obtain ⟨t,ht,hr⟩ := Option.bind_eq_some_iff.mp hr
    obtain ⟨hs,hl⟩ := h.step ht
    obtain ⟨hs',hl'⟩ := ih hs hr
    refine ⟨hs',?_⟩
    rw [hl',hl,List.mem_cons,not_or,and_assoc,ne_comm]

theorem kept_of_run {labels : List (Label C R)} (hr : connect.run p labels = some s) :
    (s.outbox.Intact ↔ .unwritten ∉ labels) ∧ s.outbox.kept.Sublist s.outbox.accepted := by
  obtain ⟨hs,hl⟩ := Sound.connect.run hr
  refine ⟨hs.conserved.intact_iff.trans (hl.trans (and_iff_right rfl)),hs.conserved.order⟩

end Frames

/-- On either transport, however calls, connections and writes interleave: the frames written, the
one being written and the queued ones are the accepted ones in order, exactly as long as no write
of a frame has failed; and never is one duplicated or out of order. -/
theorem frames_kept_iff (matter : List (Label ClusterCommand AttrReport))
    (zwave : List (Label SetValue ValueUpdate)) :
    (∀ s, connect.run Matter.protocol matter = some s →
      (s.outbox.Intact ↔ .unwritten ∉ matter) ∧ s.outbox.kept.Sublist s.outbox.accepted) ∧
      ∀ s, connect.run ZwaveJs.protocol zwave = some s →
        (s.outbox.Intact ↔ .unwritten ∉ zwave) ∧ s.outbox.kept.Sublist s.outbox.accepted :=
  ⟨fun _ hr => kept_of_run hr,fun _ hr => kept_of_run hr⟩

/-- A call while the server is down. -/
def outage : List (Label SetValue ValueUpdate) :=
  [.refused,.call (7,0) ⟨ZwaveJs.ccBinarySwitch,"targetValue",.bool true,none⟩,.awake,.connected,
    .greeted none,.sent,.sent,.listening,.take,.written]

/-- The frame goes out once the server is reachable. -/
theorem queued_frame_is_flushed : ∃ s, connect.run ZwaveJs.protocol outage = some s ∧
    s.outbox.queue = [] ∧ s.outbox.delivered.length = 1 ∧ s.outbox.Intact := by
  obtain ⟨s,hs,hq,hd⟩ : ∃ s, connect.run ZwaveJs.protocol outage = some s ∧
      s.outbox.queue = [] ∧ s.outbox.delivered.length = 1 := ⟨_,rfl,rfl,rfl⟩
  exact ⟨s,hs,hq,hd,((frames_kept_iff [] outage).2 s hs).1.mpr (by simp [outage])⟩

/-- The connection goes down under a frame, and comes up again. -/
def breakdown : List (Label ClusterCommand AttrReport) :=
  [.connected,.sent,.listening,.call (7,1) (.onOff true),.take,.unwritten,.awake,.connected,.sent,
    .listening]

/-- The call said ok, and its frame is neither written nor queued. -/
theorem frame_in_hand_is_lost : ∃ s, connect.run Matter.protocol breakdown = some s ∧
    s.outbox.accepted.length = 1 ∧ s.outbox.hand = none ∧
      s.outbox.delivered ++ s.outbox.queue ≠ s.outbox.accepted := by
  obtain ⟨s,hs,ha,hh,hk⟩ : ∃ s, connect.run Matter.protocol breakdown = some s ∧
      s.outbox.accepted.length = 1 ∧ s.outbox.hand = none ∧
        (s.outbox.delivered ++ s.outbox.queue).length = 0 := ⟨_,rfl,rfl,rfl,rfl⟩
  refine ⟨s,hs,ha,hh,fun he => ?_⟩
  rw [he,ha] at hk
  cases hk

end ServerWs
end Domiform
