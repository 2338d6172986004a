import Domiform.Mirror
import Domiform.Replay
import Domiform.RestApi.Json

/-! The REST API: a northbound adapter that mirrors folded states for the HTTP threads, and the
read endpoint that lists every device. -/
namespace Domiform
open Library Relation

/-- What the engine thread publishes for the HTTP threads to read. -/
structure Mirror where
  states : HashMap (DeviceId × CapabilityKind) CapabilityState
  now : Millis

def Mirror.default : Mirror := ⟨∅,0⟩

/-- A request that crosses from an HTTP thread into the engine. -/
inductive Inbound
  | device (device : DeviceId) (desired : Desired)
  | scene (scene : SceneId)
  | action (device : DeviceId) (action : ActionId)
  deriving DecidableEq

def Inbound.event : Inbound → Event
  | device d desired => .requestedChange d desired
  | scene s => .requestedScene s
  | action d a => .action d a

/-- `inbound` lists the batches the HTTP threads will have queued by each tick. -/
structure RestApiAdapter where
  shared : Mirror
  inbound : List (List Inbound)

namespace RestApiAdapter

def dispatch (_cmd : Command) : DispatchOutcome :=
  .permanent "rest_api is a northbound adapter, not a dispatch target"

def tick (a : RestApiAdapter) (now : Millis) : List Event × RestApiAdapter :=
  ((a.inbound.headD []).map Inbound.event,
    ⟨{ a.shared with now := now },a.inbound.tail⟩)

def stateFolded (a : RestApiAdapter) (device : DeviceId) (state : CapabilityState) :
    RestApiAdapter :=
  { a with shared :=
      { a.shared with states := a.shared.states.insert (device,state.kind) state } }

instance : NorthboundAdapter RestApiAdapter where
  dispatch a cmd _ := (dispatch cmd,a)
  tick := tick
  stateFolded := stateFolded

end RestApiAdapter

/-- What the HTTP threads hold. -/
structure RestApiHandle where
  shared : Mirror

def RestApiAdapter.handle (a : RestApiAdapter) : RestApiHandle := ⟨a.shared⟩

/-- The mirrored value of one capability. -/
def RestApiHandle.state (h : RestApiHandle) (device : DeviceId) (kind : CapabilityKind) :
    Option CapabilityState := h.shared.states.lookup (device,kind)

/-- One device as the API presents it. -/
structure DeviceEntry where
  id : DeviceId
  name : String
  room : Option String
  capabilities : List CapabilityKind
  events : List (String × ActionId)
  synthetic : Bool

structure Directory where
  devices : List DeviceEntry

structure Response where
  status : ℕ
  body : Json

/-- One device object. -/
def deviceJson (entry : DeviceEntry) (handle : RestApiHandle) : Json :=
  .ofFields [
    ("name",.string entry.name),
    ("room",(entry.room.map Json.string).getD .null),
    ("synthetic",.bool entry.synthetic),
    ("capabilities",capabilitiesObject entry.capabilities fun kind => handle.state entry.id kind),
    ("events",.array (entry.events.map fun e => .string e.1))]

def devicesValue (directory : Directory) (handle : RestApiHandle) : Json :=
  .array (directory.devices.map fun d => deviceJson d handle)

/-- `GET /devices`. -/
def devices (directory : Directory) (handle : RestApiHandle) : Response :=
  ⟨200,.ofFields [("devices",devicesValue directory handle)]⟩

/-- A handle that reads the store itself. -/
def storeHandle (s : StateStore) : RestApiHandle := ⟨⟨s.map,0⟩⟩

theorem devices_congr (directory : Directory) {h h' : RestApiHandle}
    (hs : ∀ d k, h.state d k = h'.state d k) : devices directory h = devices directory h' := by
  simp only [devices,devicesValue,deviceJson,hs]

theorem get_deviceJson_name (entry : DeviceEntry) (handle : RestApiHandle) :
    (deviceJson entry handle).get "name" = some (.string entry.name) := by
  simp [deviceJson,Json.ofFields,Json.get,Json.lookup_insertField]

theorem get_deviceJson_capabilities (entry : DeviceEntry) (handle : RestApiHandle) :
    (deviceJson entry handle).get "capabilities" =
      some (capabilitiesObject entry.capabilities fun kind => handle.state entry.id kind) := by
  simp [deviceJson,Json.ofFields,Json.get,Json.lookup_insertField]

/-- What an object says of a device: its name, and the value in the store of every capability that it
declares, or null where there is none. -/
structure Shows (s : StateStore) (entry : DeviceEntry) (object : Json) : Prop where
  name : object.get "name" = some (.string entry.name)
  capabilities : ∃ values, object.get "capabilities" = some values ∧
    ∀ kind : CapabilityKind,
      values.get kind.name =
        (if kind ∈ entry.capabilities then some (valueOrNull (s.get entry.id kind)) else none) ∧
      (values.get kind.name = some .null ↔ kind ∈ entry.capabilities ∧ s.get entry.id kind = none)

theorem shows_deviceJson {s : StateStore} {handle : RestApiHandle}
    (hs : ∀ d k, handle.state d k = s.get d k) (entry : DeviceEntry) :
    Shows s entry (deviceJson entry handle) := by
  refine ⟨get_deviceJson_name entry handle,_,get_deviceJson_capabilities entry handle,fun kind => ?_⟩
  rw [get_capabilitiesObject,hs]
  refine ⟨rfl,?_⟩
  split_ifs with hk
  · simp [hk]
  · simp [hk]

/-- The response lists every device of the directory, in order. -/
theorem shows_devices {s : StateStore} {handle : RestApiHandle}
    (hs : ∀ d k, handle.state d k = s.get d k) (directory : Directory) :
    (devices directory handle).status = 200 ∧ ∃ objects,
      (devices directory handle).body.get "devices" = some (.array objects) ∧
      List.Forall₂ (Shows s) directory.devices objects := by
  refine ⟨rfl,directory.devices.map fun d => deviceJson d handle,?_,?_⟩
  · simp [devices,devicesValue,Json.ofFields,Json.get,Json.insertField]
  · exact List.forall₂_map_right_iff.mpr (List.forall₂_same.mpr fun entry _ =>
      shows_deviceJson hs entry)

/-- Two kinds of northbound adapters side by side in one engine. -/
instance {N M : Type} [NorthboundAdapter N] [NorthboundAdapter M] : NorthboundAdapter (N ⊕ M) where
  dispatch a cmd now :=
    match a with
    | .inl n => (Adapter.dispatch n cmd now).map id .inl
    | .inr m => (Adapter.dispatch m cmd now).map id .inr
  tick a now :=
    match a with
    | .inl n => (Adapter.tick n now).map id .inl
    | .inr m => (Adapter.tick m now).map id .inr
  nextWake a now :=
    match a with
    | .inl n => Adapter.nextWake n now
    | .inr m => Adapter.nextWake m now
  stateFolded a device state :=
    match a with
    | .inl n => .inl (NorthboundAdapter.stateFolded n device state)
    | .inr m => .inr (NorthboundAdapter.stateFolded m device state)

section Coherence
variable {A M : Type} [Adapter A] [NorthboundAdapter M]

/-- A REST adapter joins with an empty mirror, as `channel` makes it. -/
def Blank (n : RestApiAdapter ⊕ M) : Prop := ∀ rest, n = .inl rest → rest.shared.states = ∅

/-- The mirror of a REST adapter holds the last value it received for every capability. -/
def Reflects (nb : Northbound (RestApiAdapter ⊕ M)) : Prop :=
  ∀ rest, nb.adapter = .inl rest → ∀ d k,
    rest.handle.state d k = lastWrite (nb.received.map StateStore.write) (d,k)

omit [NorthboundAdapter M] in
theorem Reflects.of_blank {n : RestApiAdapter ⊕ M} (h : Blank n) : Reflects ⟨n,[]⟩ := by
  rintro rest rfl d k
  rw [RestApiHandle.state,RestApiAdapter.handle,h rest rfl]
  rfl

theorem Reflects.stateFolded {nb : Northbound (RestApiAdapter ⊕ M)} (h : Reflects nb)
    (device : DeviceId) (state : CapabilityState) : Reflects (nb.stateFolded device state) := by
  intro rest hr d k
  obtain ⟨adapter,received⟩ := nb
  cases adapter with
  | inr m => cases hr
  | inl r =>
    cases hr
    have hk := h r rfl d k
    rw [Northbound.stateFolded,List.map_append,List.map_singleton,lastWrite_concat,← hk]
    simp only [StateStore.write,RestApiHandle.state,RestApiAdapter.handle]
    exact (HashMap.lookup_insert _ _ _ _).trans (by simp only [eq_comm])

theorem Reflects.tick {nb : Northbound (RestApiAdapter ⊕ M)} (h : Reflects nb) (now : Millis) :
    Reflects (nb.tick now).2 := by
  intro rest hr d k
  obtain ⟨adapter,received⟩ := nb
  cases adapter with
  | inr m => cases hr
  | inl r =>
    cases hr
    exact h r rfl d k

/-- From startup on, every adapter registered by then mirrors the store, whatever order the
startup replay had; and a REST adapter among them serves exactly the store. -/
theorem mirrors_are_coherent {π : HashOrder} {e₀ : Engine A (RestApiAdapter ⊕ M)}
    {c : Config A (RestApiAdapter ⊕ M)} {registered : ℕ} (fresh : e₀.Fresh)
    (blank : ∀ nb ∈ e₀.northbound, Blank nb.adapter)
    (run : Run π ⟨fun _ => True,Blank⟩ ⟨e₀,.wired⟩ c) (running : c.phase = .running registered) :
    ∀ nb ∈ c.engine.northbound.take registered,
      (∀ d k, lastWrite (nb.received.map StateStore.write) (d,k) = c.engine.state.get d k) ∧
      (∀ x ∈ nb.received, (c.engine.state.get x.1 x.2.kind).isSome) ∧
      ∀ rest, nb.adapter = .inl rest → ∀ directory : Directory,
        devices directory rest.handle = devices directory (storeHandle c.engine.state) ∧
        (devices directory rest.handle).status = 200 ∧ ∃ objects,
          (devices directory rest.handle).body.get "devices" = some (.array objects) ∧
          List.Forall₂ (Shows c.engine.state) directory.devices objects := by
  intro nb hm
  have hc := ((run.mirrors fresh).coherent registered running).2 nb hm
  have hr : Reflects nb := by
    refine run.northbound_invariant (fun n => Reflects.of_blank) (fun nb d v h => h.stateFolded d v)
      (fun nb now h => h.tick now) (fun nb h => ?_) nb (List.mem_of_mem_take hm)
    have hb := Reflects.of_blank (blank nb h)
    rwa [← fresh.received nb h] at hb
  have hs (rest) (ha : nb.adapter = .inl rest) (d k) :
      rest.handle.state d k = c.engine.state.get d k := (hr rest ha d k).trans (hc (d,k))
  refine ⟨fun d k => hc (d,k),fun x hx => ?_,fun rest ha directory =>
    ⟨devices_congr directory (hs rest ha),shows_devices (hs rest ha) directory⟩⟩
  rw [Option.isSome_iff_ne_none]
  intro hn
  have hw := lastWrite_eq_none_iff.mp ((hc (x.1,x.2.kind)).trans hn)
  exact hw _ (List.mem_map_of_mem hx) rfl

/-- A lamp seen through the REST API; one request waits for the first tick after startup. -/
def restEngine : Engine VirtualDeviceAdapter (RestApiAdapter ⊕ MockNorthbound) :=
  ((Engine.new.addAdapter {}).1.bindDevice lamp 1).addNorthbound
    (.inl ⟨.default,[[],[.device lamp (.set (.brightness 40))]]⟩)

theorem restEngine_fresh : restEngine.Fresh :=
  ((Engine.Fresh.new.addAdapter _).bindDevice _ _).addNorthbound _

theorem lamp_brightness_is_served :
    ∃ c : Config VirtualDeviceAdapter (RestApiAdapter ⊕ MockNorthbound),
      Run .identity ⟨fun _ => True,Blank⟩ ⟨restEngine,.wired⟩ c ∧ c.phase = .running 1 ∧
      ∃ nb ∈ c.engine.northbound.take 1,
        lastWrite (nb.received.map StateStore.write) (lamp,.brightness) = some (.brightness 40) ∧
        ∃ rest, nb.adapter = .inl rest ∧ ∃ object values,
          (devices ⟨[⟨lamp,"lamp",none,[.switch,.brightness],[],false⟩]⟩ rest.handle).body.get
              "devices" = some (.array [object]) ∧
            object.get "capabilities" = some values ∧
            values.get "brightness" = some (.int 40) ∧ values.get "switch" = some .null := by
  obtain ⟨e,h,hn⟩ : ∃ e, Engine.start .identity 3 restEngine = .ok e ∧ e.northbound.length = 1 ∧
      ∃ e' nb rest, Engine.advance .identity 3 5 e = .ok e' ∧ e'.northbound = [nb] ∧
        nb.adapter = .inl rest ∧ e'.state.get lamp .brightness = some (.brightness 40) ∧
        e'.state.get lamp .switch = none := ⟨_,rfl,rfl,_,_,_,rfl,rfl,rfl,by decide,by decide⟩
  obtain ⟨hl,e',nb,rest,h',hnb,ha,hb,hs⟩ := hn
  obtain ⟨run,idle⟩ := start_run ⟨fun _ => True,Blank⟩ .wired rfl (by decide) h
  rw [hl] at run
  obtain ⟨run',-⟩ := advance_run ⟨fun _ => True,Blank⟩ (.running 1) idle (by decide) h'
  have hm : nb ∈ e'.northbound.take 1 := by
    rw [hnb]
    exact List.mem_singleton_self _
  have blank : ∀ nb ∈ restEngine.northbound, Blank nb.adapter := by
    intro nb hm
    rw [List.mem_singleton.mp hm]
    rintro rest ⟨⟩
    rfl
  obtain ⟨last,-,served⟩ := mirrors_are_coherent restEngine_fresh blank (run.trans run') rfl nb hm
  obtain ⟨-,-,objects,hd,shows⟩ :=
    served rest ha ⟨[⟨lamp,"lamp",none,[.switch,.brightness],[],false⟩]⟩
  obtain ⟨object,_,shown,hnil,rfl⟩ := List.forall₂_cons_left_iff.mp shows
  rw [List.forall₂_nil_left_iff.mp hnil] at hd
  obtain ⟨values,hv,each⟩ := shown.capabilities
  refine ⟨_,run.trans run',rfl,nb,hm,(last lamp .brightness).trans hb,rest,ha,object,values,hd,hv,?_,?_⟩
  · rw [show "brightness" = CapabilityKind.name .brightness from rfl,(each .brightness).1,hb]
    rfl
  · rw [show "switch" = CapabilityKind.name .switch from rfl,(each .switch).1,hs]
    rfl

end Coherence
end Domiform
