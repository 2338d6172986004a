import Domiform.Expressible
import Domiform.Topics

/-! Priming. On its first tick the zigbee2mqtt adapter asks every device for its state; what it asks
for is what it can read in the answer. -/
namespace Domiform
open Library Build Resolve Zigbee2Mqtt

/-- A transport that keeps what it was given to publish. -/
structure Recording (T : Type) where
  transport : T
  sent : List (String × Json)

instance {T : Type} [MqttTransport T] : MqttTransport (Recording T) where
  publish r topic payload :=
    let published := MqttTransport.publish r.transport topic payload
    (published.1,⟨published.2,r.sent ++ [(topic,payload)]⟩)
  poll r :=
    let polled := MqttTransport.poll r.transport
    (polled.1,⟨polled.2,r.sent⟩)

/-- What the engine does to an adapter. -/
inductive AdapterCall
  | dispatch (cmd : Command)
  | tick

def AdapterCall.isDispatch : AdapterCall → Bool
  | dispatch _ => true
  | tick => false

namespace Zigbee2MqttAdapter

/-- Where the state of a friendly name is asked for. -/
def getTopic (base friendly : String) : String := base ++ "/" ++ friendly ++ "/get"

/-- On the topic the attribute is asked for, for the sake of some device. -/
def Asks (base : String) (byId : HashMap DeviceId DeviceTarget)
    (capabilities : List (DeviceId × List CapabilityKind)) (topic attr : String) : Prop :=
  ∃ x ∈ capabilities, ∃ target, byId.lookup x.1 = some target ∧
    topic = getTopic base target.friendly ∧ ∃ c ∈ x.2, readAttr c target.channel = some attr

section Merged
variable {base : String} {byId : HashMap DeviceId DeviceTarget}
  {capabilities : List (DeviceId × List CapabilityKind)} {topic attr : String}

theorem asks_concat {x : DeviceId × List CapabilityKind} :
    Asks base byId (capabilities ++ [x]) topic attr ↔
      Asks base byId capabilities topic attr ∨ Asks base byId [x] topic attr := by
  simp only [Asks,List.mem_append,List.mem_singleton,or_and_right,exists_or]

theorem lookup_blank (attrs : List String) (fields : List (String × Json)) :
    (attrs.foldl (fun body attr => Json.insertField body attr (.string "")) fields).lookup attr =
      if attr ∈ attrs then some (.string "") else fields.lookup attr := by
  induction attrs generalizing fields with
  | nil => simp
  | cons a attrs ih =>
    rw [List.foldl_cons,ih,Json.lookup_insertField]
    by_cases h : attr = a <;> simp [h]

/-- The messages are merged by topic: each asks for what some device behind it can be asked. -/
theorem lookup_primeByTopic (base : String) (byId : HashMap DeviceId DeviceTarget)
    (capabilities : List (DeviceId × List CapabilityKind)) (topic : String) :
    (((primeByTopic base byId capabilities).lookup topic).isSome ↔
      ∃ attr, Asks base byId capabilities topic attr) ∧
    ∀ attr v, (((primeByTopic base byId capabilities).lookup topic).getD []).lookup attr = some v ↔
      v = .string "" ∧ Asks base byId capabilities topic attr := by
  induction capabilities using List.reverseRecOn with
  | nil => simp [primeByTopic,Asks]
  | append_singleton xs x ih =>
    rw [primeByTopic,List.foldl_append,List.foldl_cons,List.foldl_nil,← primeByTopic]
    simp only [asks_concat]
    cases hl : byId.lookup x.1 with
    | none =>
      have unasked (attr : String) : ¬Asks base byId [x] topic attr := by
        rintro ⟨y,hy,target,ht,-⟩
        rw [List.mem_singleton.mp hy,hl] at ht
        cases ht
      simpa only [unasked,or_false] using ih
    | some target =>
      have asked (attr : String) : Asks base byId [x] topic attr ↔
          topic = getTopic base target.friendly ∧
          attr ∈ x.2.filterMap fun c => readAttr c target.channel := by
        simp [Asks,hl]
      simp only [asked]
      cases hattrs : x.2.filterMap fun c => readAttr c target.channel with
      | nil => simpa only [List.not_mem_nil,and_false,or_false] using ih
      | cons a attrs =>
        dsimp only
        rw [show base ++ "/" ++ target.friendly ++ "/get" = getTopic base target.friendly from rfl,
          HashMap.lookup_insert]
        by_cases ht : topic = getTopic base target.friendly
        · subst ht
          rw [if_pos rfl,Option.isSome_some,Option.getD_some]
          refine ⟨iff_of_true rfl ⟨a,.inr ⟨rfl,List.mem_cons_self⟩⟩,fun attr v => ?_⟩
          rw [lookup_blank]
          split_ifs with hm
          · simp [hm,eq_comm]
          · rw [ih.2]
            simp [hm]
        · rw [if_neg ht]
          simpa only [ht,false_and,or_false] using ih

end Merged

/-- What a command is published as. -/
def published {T : Type} (a : Zigbee2MqttAdapter T) : AdapterCall → Option (String × Json)
  | .dispatch cmd => do
    let device ← cmd.targetDevice
    let target ← a.byId.lookup device
    commandToPublish a.baseTopic target.friendly target.channel cmd
  | .tick => none

theorem topic_of_publish {base friendly : String} {channel : LoadChannel} {cmd : Command}
    {x : String × Json} (h : commandToPublish base friendly channel cmd = some x) :
    x.1 = base ++ "/" ++ friendly ++ "/set" := by
  unfold commandToPublish at h
  cases cmd with
  | setSwitch | toggleSwitch | sendIrCode =>
    cases h
    rfl
  | setBrightness | setColor | setColorTemperature =>
    dsimp only at h
    split_ifs at h
    cases h
    rfl
  | _ => cases h

/-- Commands are never published where states are asked for. -/
theorem published_ne_getTopic {T : Type} {a : Zigbee2MqttAdapter T} {call : AdapterCall}
    {x : String × Json} (h : a.published call = some x) (friendly : String) :
    x.1 ≠ getTopic a.baseTopic friendly := by
  cases call with
  | tick => cases h
  | dispatch cmd =>
    obtain ⟨device,-,h⟩ := Option.bind_eq_some_iff.mp h
    obtain ⟨target,-,h⟩ := Option.bind_eq_some_iff.mp h
    rw [topic_of_publish h,getTopic]
    intro same
    have ends := congrArg String.toList same
    simp only [String.toList_append] at ends
    exact absurd (List.append_inj_right' ends rfl) (by decide)

section Calls
variable {T : Type} [MqttTransport T]

/-- The adapter after a call. -/
def after (a : Zigbee2MqttAdapter T) : AdapterCall → Zigbee2MqttAdapter T
  | .dispatch cmd => (a.dispatch cmd).2
  | .tick => a.tick.2

def afterAll (a : Zigbee2MqttAdapter T) (calls : List AdapterCall) : Zigbee2MqttAdapter T :=
  calls.foldl after a

/-- What no call touches. -/
structure Alike (a b : Zigbee2MqttAdapter T) : Prop where
  baseTopic : b.baseTopic = a.baseTopic
  byId : b.byId = a.byId
  primeRequests : b.primeRequests = a.primeRequests

omit [MqttTransport T] in
theorem Alike.published {a b : Zigbee2MqttAdapter T} (h : Alike a b) : b.published = a.published := by
  funext call
  cases call <;> simp only [Zigbee2MqttAdapter.published,h.baseTopic,h.byId]

/-- A command publishes what it stands for, if anything. -/
theorem dispatch_snd (a : Zigbee2MqttAdapter T) (cmd : Command) : (a.dispatch cmd).2 =
    (a.published (.dispatch cmd)).elim a fun x =>
      { a with transport := (MqttTransport.publish a.transport x.1 x.2).2 } := by
  rw [dispatch,published]
  cases cmd.targetDevice with
  | none => rfl
  | some device =>
    rw [Option.bind_eq_bind,Option.bind_some]
    dsimp only
    cases a.byId.lookup device with
    | none => rfl
    | some target =>
      rw [Option.bind_eq_bind,Option.bind_some]
      dsimp only
      cases commandToPublish a.baseTopic target.friendly target.channel cmd with
      | none => rfl
      | some x =>
        rw [Option.elim_some]
        dsimp only
        cases MqttTransport.publish a.transport x.1 x.2 with
        | mk result t => cases result <;> rfl

variable (a : Zigbee2MqttAdapter (Recording T))

theorem dispatch_sent (cmd : Command) : Alike a (a.dispatch cmd).2 ∧
    (a.dispatch cmd).2.primed = a.primed ∧ (a.dispatch cmd).2.transport.sent =
      a.transport.sent ++ (a.published (.dispatch cmd)).toList := by
  rw [dispatch_snd]
  cases a.published (.dispatch cmd) with
  | none => exact ⟨⟨rfl,rfl,rfl⟩,rfl,(List.append_nil _).symm⟩
  | some x => exact ⟨⟨rfl,rfl,rfl⟩,rfl,rfl⟩

theorem publishAll_sent (xs : List (String × Json)) (r : Recording T) :
    (xs.foldl (fun t x => (MqttTransport.publish t x.1 x.2).2) r).sent = r.sent ++ xs := by
  induction xs generalizing r with
  | nil => exact (List.append_nil _).symm
  | cons x xs ih =>
    rw [List.foldl_cons,ih]
    exact List.append_assoc _ [x] xs

theorem tick_sent : Alike a a.tick.2 ∧ a.tick.2.primed = true ∧ a.tick.2.transport.sent =
    a.transport.sent ++ if a.primed then [] else a.primeRequests := by
  have polled : a.tick.2.transport.sent = a.prime.transport.sent := rfl
  have tables : Alike a a.tick.2 ↔ Alike a a.prime :=
    ⟨fun h => ⟨h.1,h.2,h.3⟩,fun h => ⟨h.1,h.2,h.3⟩⟩
  rw [tables,polled,show a.tick.2.primed = a.prime.primed from rfl,prime]
  cases hp : a.primed with
  | true => exact ⟨⟨rfl,rfl,rfl⟩,hp,(List.append_nil _).symm⟩
  | false => exact ⟨⟨rfl,rfl,rfl⟩,rfl,publishAll_sent _ _⟩

/-- Once primed, only commands are published. -/
theorem afterAll_primed (calls : List AdapterCall) (primed : a.primed = true) :
    (a.afterAll calls).transport.sent = a.transport.sent ++ calls.filterMap a.published := by
  induction calls generalizing a with
  | nil => exact (List.append_nil _).symm
  | cons call calls ih =>
    rw [afterAll,List.foldl_cons,← afterAll]
    cases call with
    | dispatch cmd =>
      obtain ⟨tables,hp,hs⟩ := a.dispatch_sent cmd
      rw [after,ih _ (hp.trans primed),hs,tables.published,List.filterMap_cons]
      cases a.published (.dispatch cmd) <;> simp
    | tick =>
      obtain ⟨tables,hp,hs⟩ := a.tick_sent
      rw [after,ih _ hp,hs,tables.published,if_pos primed,List.append_nil]
      rfl

/-- The first tick asks for the states, and no other call does. -/
theorem afterAll_sent (calls : List AdapterCall) (fresh : a.primed = false) :
    (a.afterAll calls).transport.sent = a.transport.sent ++
      ((calls.takeWhile AdapterCall.isDispatch).filterMap a.published ++
        (if calls.all AdapterCall.isDispatch then [] else a.primeRequests) ++
          (calls.dropWhile AdapterCall.isDispatch).filterMap a.published) := by
  induction calls generalizing a with
  | nil => exact (List.append_nil _).symm
  | cons call calls ih =>
    rw [afterAll,List.foldl_cons,← afterAll]
    cases call with
    | dispatch cmd =>
      obtain ⟨tables,hp,hs⟩ := a.dispatch_sent cmd
      rw [after,ih _ (hp.trans fresh),hs,tables.published,tables.primeRequests]
      simp only [List.takeWhile_cons,List.dropWhile_cons,List.all_cons,AdapterCall.isDispatch,
        Bool.true_and,if_true,List.filterMap_cons]
      cases a.published (.dispatch cmd) <;> simp
    | tick =>
      obtain ⟨tables,hp,hs⟩ := a.tick_sent
      rw [after,afterAll_primed _ calls hp,hs,tables.published]
      simp [AdapterCall.isDispatch,fresh]
      rfl

end Calls

/-! ### Devices of a config -/

section Accepted
variable {lib : Libraries} {π : HashOrder} {raw : RawConfig} {cfg : CompiledConfig}

/-- The state that a device reports when an attribute it was asked for has this value. -/
def answer : CapabilityKind → Json → Option CapabilityState
  | .switch,v => v.asStr.map fun text => .switch (Text.eqIgnoreAsciiCase text "ON")
  | .brightness,v => v.asU64.map fun level => .brightness (levelToPct level)
  | .color,v => (parseZ2mColor v).map fun c => .color c.1 c.2.1 c.2.2
  | .colorTemperature,v =>
    v.asU64.map fun mireds => .colorTemperature (UInt16.ofNat (min mireds 65535))
  | .power,v => v.asF64.map fun watts => .power (min (max watts.round 0) 4294967295).toUInt32
  | _,_ => none

/-- What is asked for can be read. -/
theorem answer_mem (device : DeviceId) {channel : LoadChannel} {kind : CapabilityKind}
    {attr : String} {json v : Json} {s : CapabilityState}
    (actions : HashMap DeviceId (HashMap String ActionId))
    (asked : readAttr kind channel = some attr) (given : json.get attr = some v)
    (reads : answer kind v = some s) :
    s.kind = kind ∧ .stateReported device s ∈ jsonToDeviceEvents device channel actions json := by
  have root (h : s ∈ rootStates json) (single : channel.isNone = true) :
      .stateReported device s ∈ jsonToDeviceEvents device channel actions json := by
    rw [jsonToDeviceEvents,if_pos single]
    exact List.mem_append_left _ (List.mem_append_right _ (List.mem_map_of_mem h))
  have read {α : Type} {key : String} {f : Json → Option α} {g : α → CapabilityState}
      (given : json.get key = some v) (reads : (f v).map g = some s) :
      s ∈ (((json.get key).bind f).map g).toList := by
    rw [given,Option.bind_some,reads]
    exact List.mem_singleton_self _
  cases kind with
  | switch =>
    cases asked
    obtain ⟨text,ht,rfl⟩ := Option.map_eq_some_iff.mp reads
    refine ⟨rfl,List.mem_append_left _ (List.mem_append_left _ ?_)⟩
    rw [given,Option.bind_some,ht]
    exact List.mem_singleton_self _
  | brightness | color | colorTemperature | power =>
    rw [readAttr] at asked
    split_ifs at asked with single
    cases asked
    have held := read given reads
    obtain ⟨x,-,rfl⟩ := Option.map_eq_some_iff.mp reads
    refine ⟨rfl,root ?_ single⟩
    simp only [rootStates,List.mem_append]
    tauto
  | _ => cases asked

/-- The devices of an adapter, by their ids. -/
theorem byId_build (accepted : resolve lib π raw = .ok cfg) (order : HashOrder) {T : Type}
    (connect : List Char → ℕ → List String → T) (config : Value) {i : ℕ} {d : DeviceDef}
    (hd : d ∈ devicesOf cfg i) : (build order connect config (devicesOf cfg i)).byId.lookup d.id =
      some ⟨d.friendly,normalizeChannel d.endpoint⟩ := by
  let targets := (devicesOf cfg i).map fun d =>
    (d.id,(⟨d.friendly,normalizeChannel d.endpoint⟩ : DeviceTarget))
  have nodup : (targets.map Prod.fst).Nodup := by
    rw [List.map_map]
    exact (device_ids_nodup accepted).sublist (List.filter_sublist.map _)
  have hl := (HashMap.lookup_foldl_insert nodup ∅ d.id ⟨d.friendly,normalizeChannel d.endpoint⟩).mpr
    (.inl (List.mem_map_of_mem hd))
  rw [List.foldl_map] at hl
  rw [build,new]
  dsimp only
  rw [List.foldl_map]
  exact hl

/-- The attribute is asked of a device behind the topic. -/
def AskedOf (base : String) (devices : List DeviceDef) (topic attr : String) : Prop :=
  ∃ d ∈ devices, topic = getTopic base d.friendly ∧
    ∃ c ∈ d.capabilities, readAttr c (normalizeChannel d.endpoint) = some attr

theorem asks_build (accepted : resolve lib π raw = .ok cfg) (order : HashOrder) {T : Type}
    (connect : List Char → ℕ → List String → T) (config : Value) (i : ℕ) (topic attr : String) :
    let a := build order connect config (devicesOf cfg i)
    Asks a.baseTopic a.byId ((devicesOf cfg i).map fun d => (d.id,d.capabilities)) topic attr ↔
      AskedOf a.baseTopic (devicesOf cfg i) topic attr := by
  intro a
  have table {d : DeviceDef} (hd : d ∈ devicesOf cfg i) :
      a.byId.lookup d.id = some ⟨d.friendly,normalizeChannel d.endpoint⟩ :=
    byId_build accepted order connect config hd
  constructor
  · rintro ⟨x,hx,target,ht,hasks⟩
    obtain ⟨d,hd,rfl⟩ := List.mem_map.mp hx
    rw [table hd] at ht
    cases ht
    exact ⟨d,hd,hasks⟩
  · rintro ⟨d,hd,hasks⟩
    exact ⟨_,List.mem_map_of_mem hd,_,table hd,hasks⟩

variable {T : Type} [MqttTransport T]

/-- Whatever the transport and whatever is commanded meanwhile: the first tick, and nothing else, asks
for states; it sends one message for each friendly name that has something to ask, which asks for
just what its devices can be asked for; and what is asked for is read in the answer, if and only if no
slash stands in the friendly name. -/
theorem devices_are_asked_once (accepted : resolve lib π raw = .ok cfg) (order : HashOrder)
    (connect : List Char → ℕ → List String → T) (config : Value) (i : ℕ)
    (calls : List AdapterCall) :
    let devices := devicesOf cfg i
    let a := build order (fun host port topics => (⟨connect host port topics,[]⟩ : Recording T))
      config devices
    (a.afterAll calls).transport.sent =
        (calls.takeWhile AdapterCall.isDispatch).filterMap a.published ++
          (if calls.all AdapterCall.isDispatch then [] else a.primeRequests) ++
            (calls.dropWhile AdapterCall.isDispatch).filterMap a.published ∧
      (∀ call x, a.published call = some x → ∀ friendly, x.1 ≠ getTopic a.baseTopic friendly) ∧
      (a.primeRequests.map Prod.fst).Nodup ∧
      (∀ topic, topic ∈ a.primeRequests.map Prod.fst ↔
        ∃ attr, AskedOf a.baseTopic devices topic attr) ∧
      (∀ x ∈ a.primeRequests, ∀ attr v, x.2.get attr = some v ↔
        v = .string "" ∧ AskedOf a.baseTopic devices x.1 attr) ∧
      ∀ d ∈ devices, ∀ c ∈ d.capabilities, ∀ attr,
        readAttr c (normalizeChannel d.endpoint) = some attr → ∀ json v s,
          json.get attr = some v → answer c v = some s →
            s.kind = c ∧
              (.stateReported d.id s ∈ a.hear (a.topicOf d) json ↔ '/' ∉ d.friendly.toList) := by
  intro devices a
  have merged := lookup_primeByTopic a.baseTopic a.byId (devices.map fun d => (d.id,d.capabilities))
  have asked (topic attr : String) :
      Asks a.baseTopic a.byId (devices.map fun d => (d.id,d.capabilities)) topic attr ↔
        AskedOf a.baseTopic devices topic attr := asks_build accepted order _ config i topic attr
  have listed (topic : String) (body : List (String × Json)) :
      (topic,body) ∈ HashMap.iter order 0 (primeByTopic a.baseTopic a.byId
        (devices.map fun d => (d.id,d.capabilities))) ↔
      (primeByTopic a.baseTopic a.byId (devices.map fun d => (d.id,d.capabilities))).lookup topic =
        some body := HashMap.mem_iter
  have requests : a.primeRequests = (HashMap.iter order 0 (primeByTopic a.baseTopic a.byId
      (devices.map fun d => (d.id,d.capabilities)))).map fun x => (x.1,.object x.2) := rfl
  refine ⟨(a.afterAll_sent calls rfl).trans (by rw [List.append_assoc]; rfl),
    fun call x h friendly => published_ne_getTopic h friendly,?_,fun topic => ?_,?_,?_⟩
  · rw [requests,List.map_map]
    exact HashMap.iter_keys_nodup order 0 _
  · rw [requests,List.map_map,← exists_congr (asked topic),← (merged topic).1,List.mem_map,
      Option.isSome_iff_exists]
    constructor
    · rintro ⟨x,hx,rfl⟩
      exact ⟨x.2,(listed x.1 x.2).mp hx⟩
    · rintro ⟨body,hb⟩
      exact ⟨(topic,body),(listed topic body).mpr hb,rfl⟩
  · intro x hx attr v
    rw [requests] at hx
    obtain ⟨y,hy,rfl⟩ := List.mem_map.mp hx
    have hm := (merged y.1).2 attr v
    rw [(listed y.1 y.2).mp hy,Option.getD_some] at hm
    rw [← asked y.1 attr]
    exact hm
  · intro d hd c hc attr readable json v s given reads
    obtain ⟨kind,reported⟩ := answer_mem d.id a.actions readable given reads
    have hear : a.hear (a.topicOf d) json = if '/' ∈ d.friendly.toList then []
        else ((devices.map fun d => (d.id,d.friendly,d.endpoint)).filter
          fun y => y.2.1 == d.friendly).flatMap fun y =>
            jsonToDeviceEvents y.1 (a.channelOf y.1) a.actions json :=
      messageToEvents_on_topic _ _ _ _ _ _
    refine ⟨kind,fun heard slash => ?_,fun plain => ?_⟩
    · rw [hear,if_pos slash] at heard
      cases heard
    rw [hear,if_neg plain]
    refine List.mem_flatMap.mpr ⟨(d.id,d.friendly,d.endpoint),
      List.mem_filter.mpr ⟨List.mem_map_of_mem hd,by simp⟩,?_⟩
    have channel : a.channelOf d.id = normalizeChannel d.endpoint := by
      rw [channelOf,byId_build accepted order _ config hd,Option.bind_some]
    rw [channel]
    exact reported

/-- A bulb that is lit before the first tick is lit, then asked, and not asked again. -/
theorem bulb_is_asked_once : ∃ cfg, ∃ d ∈ cfg.devices, ∃ x,
    resolve plainLibraries .identity (bulbConfig "bulb") = .ok cfg ∧
      cfg.adapters[d.adapter]? = some x ∧
      let a := build .identity (fun _ _ _ => (⟨⟨⟩,[]⟩ : Recording Sink)) x.config
        (devicesOf cfg d.adapter)
      a.primeRequests = [("zigbee2mqtt/bulb/get",.object [("state",.string "")])] ∧
        (a.afterAll [.dispatch (.setSwitch d.id true),.tick,.tick]).transport.sent =
          [("zigbee2mqtt/bulb/set",.object [("state",.string "ON")]),
            ("zigbee2mqtt/bulb/get",.object [("state",.string "")])] := by
  obtain ⟨cfg,h,d,hd,x,hx,hp,ht⟩ : ∃ cfg,
      resolve plainLibraries .identity (bulbConfig "bulb") = .ok cfg ∧
      ∃ d ∈ cfg.devices, ∃ x, cfg.adapters[d.adapter]? = some x ∧
        let a := build .identity (fun _ _ _ => (⟨⟨⟩,[]⟩ : Recording Sink)) x.config
          (devicesOf cfg d.adapter)
        a.primeRequests = [("zigbee2mqtt/bulb/get",.object [("state",.string "")])] ∧
          a.published (.dispatch (.setSwitch d.id true)) =
            some ("zigbee2mqtt/bulb/set",.object [("state",.string "ON")]) :=
    ⟨_,rfl,_,List.mem_singleton_self _,_,rfl,rfl,rfl⟩
  have sent := (devices_are_asked_once h .identity (fun _ _ _ => (⟨⟩ : Sink)) x.config d.adapter
    [.dispatch (.setSwitch d.id true),.tick,.tick]).1
  refine ⟨cfg,d,hd,x,h,hx,hp,sent.trans ?_⟩
  simp only [List.takeWhile,List.dropWhile,List.all,AdapterCall.isDispatch,List.filterMap,ht]
  rw [hp]
  rfl

end Accepted
end Zigbee2MqttAdapter
end Domiform
