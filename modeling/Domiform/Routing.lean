import Domiform.Adapters.ZwaveJs
import Domiform.Compile.Build
import Domiform.Bindings
import Domiform.Library.Tables

/-! Routing. What an adapter is built from decides which device an inbound message is for, and which
of its declared events a raw string fires. -/
namespace Domiform
open Library Build Resolve

section Targets
variable {bound : ℕ} {endpoint : UInt16} {d : DeviceDef}

/-- A device that passes the check of its node id has a target. -/
theorem nodeTarget_of_validated {p : Plugin} {origin context : String}
    (h : ∀ diag ∈ p.validateNodeId origin bound d context, diag.isError = false) :
    ∃ address, nodeTarget bound endpoint d = some (d.id,address) := by
  rw [Plugin.validateNodeId] at h
  cases ha : d.address with
  | none =>
    rw [ha] at h
    cases h _ (List.mem_singleton_self _)
  | some addr =>
    rw [ha] at h
    dsimp only at h
    split_ifs at h with hn
    · cases h _ (List.mem_singleton_self _)
    · cases hnode : Text.parseUnsigned bound addr.toList with
      | none => exact absurd (by rw [hnode]; rfl) hn
      | some node => exact ⟨(node,d.endpoint.getD endpoint),by simp [nodeTarget,ha,hnode]⟩

theorem nodeTarget_id {x : DeviceId × NodeAddress} (h : nodeTarget bound endpoint d = some x) :
    x.1 = d.id := by
  obtain ⟨node,-,rfl⟩ := Option.map_eq_some_iff.mp h
  rfl

end Targets

variable {lib : Libraries} {π : HashOrder} {raw : RawConfig} {cfg : CompiledConfig}

theorem mem_devicesOf {d : DeviceDef} {i : ℕ} :
    d ∈ devicesOf cfg i ↔ d ∈ cfg.devices ∧ d.adapter = i := by
  simp [devicesOf]

/-- Another device of the same adapter, later in the order of the ids, has the same address. -/
def TakenOver (cfg : CompiledConfig) (addressOf : DeviceDef → Option NodeAddress) (d : DeviceDef) :
    Prop :=
  ∃ d' ∈ cfg.devices, d'.adapter = d.adapter ∧ d.id.val < d'.id.val ∧ addressOf d' = addressOf d

section Tables
variable {V : Type} {target : DeviceDef → Option (DeviceId × V)} {i : ℕ}

/-- The devices of an adapter, with their targets, are in the order of the ids. -/
theorem targets_ordered (accepted : resolve lib π raw = .ok cfg)
    (own : ∀ d x, target d = some x → x.1 = d.id) :
    Ordered (fun a b : DeviceId => a.val < b.val) ((devicesOf cfg i).filterMap target) := by
  rw [Ordered,List.pairwise_filterMap]
  refine ((devices_ordered accepted).filter _).imp fun hlt x hx y hy => ?_
  rwa [own _ x hx,own _ y hy]

theorem lt_asymm_id (a b : DeviceId) (h : a.val < b.val) : ¬b.val < a.val := Nat.lt_asymm h

end Tables

/-- The two tables of an adapter, filled in one loop over its devices. -/
theorem tables_agree_iff (accepted : resolve lib π raw = .ok cfg) {V : Type}
    {target : DeviceDef → Option (DeviceId × V)} (own : ∀ d x, target d = some x → x.1 = d.id)
    (addressOf : V → NodeAddress) {d : DeviceDef} (hd : d ∈ cfg.devices) {v : V}
    (ht : target d = some (d.id,v)) :
    let entries := (devicesOf cfg d.adapter).filterMap target
    (entries.foldl (fun m x => m.insert x.1 x.2) (∅ : HashMap DeviceId V)).lookup d.id = some v ∧
      ((entries.foldl (fun m x => m.insert (addressOf x.2) x.1)
          (∅ : HashMap NodeAddress DeviceId)).lookup (addressOf v) = some d.id ↔
        ¬TakenOver cfg (fun d => (target d).map fun x => addressOf x.2) d) := by
  intro entries
  have ordered : Ordered (fun a b : DeviceId => a.val < b.val) entries :=
    targets_ordered accepted own
  have hm : (d.id,v) ∈ entries :=
    List.mem_filterMap.mpr ⟨d,mem_devicesOf.mpr ⟨hd,rfl⟩,ht⟩
  constructor
  · rw [HashMap.lookup_foldl_eq_lastWrite,ordered.lastWrite lt_asymm_id hm]
    rfl
  · let addressed := entries.map fun x => (x.1,addressOf x.2)
    have hordered : Ordered (fun a b : DeviceId => a.val < b.val) addressed :=
      List.pairwise_map.mpr ordered
    have hswap : entries.foldl (fun m x => m.insert (addressOf x.2) x.1)
        (∅ : HashMap NodeAddress DeviceId) =
          (addressed.map Prod.swap).foldl (fun m x => m.insert x.1 x.2) ∅ := by
      rw [List.map_map,List.foldl_map]
      rfl
    rw [hswap,HashMap.lookup_foldl_eq_lastWrite,AList.lookup_empty,Option.or_none,
      hordered.lastWrite_swap_iff lt_asymm_id (List.mem_map_of_mem hm)]
    constructor
    · rintro hfree ⟨d',hd',hadapter,hlt,hsame⟩
      dsimp only at hsame
      rw [ht,Option.map_some] at hsame
      obtain ⟨x,hx,hxa⟩ := Option.map_eq_some_iff.mp hsame
      have hxm : x ∈ entries := List.mem_filterMap.mpr ⟨d',mem_devicesOf.mpr ⟨hd',hadapter⟩,hx⟩
      refine hfree _ (List.mem_map_of_mem hxm) ?_ hxa
      rwa [own d' x hx]
    · intro hfree y hy hlt he
      obtain ⟨x,hx,rfl⟩ := List.mem_map.mp hy
      obtain ⟨d',hd',hx'⟩ := List.mem_filterMap.mp hx
      obtain ⟨hm',hadapter⟩ := mem_devicesOf.mp hd'
      refine hfree ⟨d',hm',hadapter,?_,?_⟩
      · rwa [← own d' x hx']
      · dsimp only at he ⊢
        rw [hx',ht,Option.map_some,Option.map_some,he]

/-- The address of a Matter device. -/
def Matter.address (d : DeviceDef) : Option NodeAddress := (Matter.target d).map fun x => x.2

/-- The address of a Z-Wave device. -/
def ZwaveJs.address (d : DeviceDef) : Option NodeAddress := (ZwaveJs.target d).map fun x => x.2.1

theorem zwaveTarget_id {d : DeviceDef} {x : DeviceId × NodeAddress × DeviceKind}
    (h : ZwaveJs.target d = some x) : x.1 = d.id := by
  obtain ⟨y,hy,rfl⟩ := Option.map_eq_some_iff.mp h
  exact nodeTarget_id hy

theorem matter_tables (accepted : resolve lib π raw = .ok cfg) {d : DeviceDef}
    (hd : d ∈ cfg.devices) {x : AdapterDef} (filed : cfg.adapters[d.adapter]? = some x)
    (plugin : x.plugin = some .matter) {C : Type} (connect : String → C) : ∃ address,
    let a := MatterAdapter.build connect x.config (devicesOf cfg d.adapter)
    a.byId.lookup d.id = some address ∧
      (a.byNode.lookup address = some d.id ↔ ¬TakenOver cfg Matter.address d) := by
  obtain ⟨address,ht⟩ : ∃ address, Matter.target d = some (d.id,address) :=
    nodeTarget_of_validated (validated_of_accepted accepted hd filed plugin)
  exact ⟨address,tables_agree_iff accepted (fun d y hy => nodeTarget_id hy) id hd ht⟩

theorem zwave_tables (accepted : resolve lib π raw = .ok cfg) {d : DeviceDef}
    (hd : d ∈ cfg.devices) {x : AdapterDef} (filed : cfg.adapters[d.adapter]? = some x)
    (plugin : x.plugin = some .zwavejs) {C : Type} (connect : String → C) : ∃ address,
    let a := ZwaveAdapter.build connect x.config (devicesOf cfg d.adapter)
    ZwaveJs.address d = some address ∧ (a.byId.lookup d.id).map Prod.fst = some address ∧
      (a.byNode.lookup address = some d.id ↔ ¬TakenOver cfg ZwaveJs.address d) := by
  obtain ⟨address,ha⟩ : ∃ address, nodeTarget (2^32-1) 0 d = some (d.id,address) :=
    nodeTarget_of_validated (validated_of_accepted accepted hd filed plugin)
  have ht : ZwaveJs.target d =
      some (d.id,address,DeviceKind.fromCapabilities d.capabilities) := by
    rw [ZwaveJs.target,ha]
    rfl
  obtain ⟨hid,hnode⟩ := tables_agree_iff accepted (fun d y hy => zwaveTarget_id hy) Prod.fst hd ht
  refine ⟨address,?_,?_,hnode⟩
  · rw [ZwaveJs.address,ht]
    rfl
  · rw [ZwaveAdapter.build,ZwaveAdapter.new,hid]
    rfl

/-- What arrives from the address to which a device's commands are sent is the device's, exactly as
long as no later device of the adapter has the same address. -/
theorem inbound_address_is_outbound_iff (accepted : resolve lib π raw = .ok cfg) {d : DeviceDef}
    (hd : d ∈ cfg.devices) {x : AdapterDef} (filed : cfg.adapters[d.adapter]? = some x) :
    (x.plugin = some .matter → ∀ {C : Type} (connect : String → C), ∃ address,
      let a := MatterAdapter.build connect x.config (devicesOf cfg d.adapter)
      a.byId.lookup d.id = some address ∧
        (a.byNode.lookup address = some d.id ↔ ¬TakenOver cfg Matter.address d)) ∧
    (x.plugin = some .zwavejs → ∀ {C : Type} (connect : String → C), ∃ address,
      let a := ZwaveAdapter.build connect x.config (devicesOf cfg d.adapter)
      (a.byId.lookup d.id).map Prod.fst = some address ∧
        (a.byNode.lookup address = some d.id ↔ ¬TakenOver cfg ZwaveJs.address d)) := by
  constructor
  · intro plugin C connect
    exact matter_tables accepted hd filed plugin connect
  · intro plugin C connect
    obtain ⟨address,-,h⟩ := zwave_tables accepted hd filed plugin connect
    exact ⟨address,h⟩

/-- Two lamps on a Matter controller. -/
def twinConfig (first second : String) : RawConfig where
  system := .default
  adapters := .single "bus" ⟨"matter",.mapping [(.string "url",.string "ws://host")]⟩
  devices := .pair (show "lamp" < "spot" by decide)
    ⟨"bus",some first,none,["switch"],.empty,none,none,none⟩
    ⟨"bus",some second,none,["switch"],.empty,none,none,none⟩
  scenes := .empty
  schedules := .empty
  rules := .empty

/-- On two nodes, each lamp hears what its node reports. -/
theorem twin_nodes_are_heard : ∃ cfg, ∃ d ∈ cfg.devices, ∃ x address,
    resolve plainLibraries .identity (twinConfig "4" "5") = .ok cfg ∧
      cfg.adapters[d.adapter]? = some x ∧
      let a := MatterAdapter.build (fun _ => ()) x.config (devicesOf cfg d.adapter)
      a.byId.lookup d.id = some address ∧ a.byNode.lookup address = some d.id := by
  obtain ⟨cfg,h,d,hd,x,hx,hp,hf⟩ : ∃ cfg,
      resolve plainLibraries .identity (twinConfig "4" "5") = .ok cfg ∧
      ∃ d ∈ cfg.devices, ∃ x, cfg.adapters[d.adapter]? = some x ∧ x.plugin = some .matter ∧
        cfg.devices.all (fun d' => d'.id == d.id || !decide (Matter.address d' = Matter.address d)) :=
    ⟨_,rfl,_,List.mem_cons_self,_,rfl,rfl,by decide⟩
  obtain ⟨address,hid,hnode⟩ := (inbound_address_is_outbound_iff h hd hx).1 hp fun _ => ()
  refine ⟨cfg,d,hd,x,address,h,hx,hid,hnode.mpr ?_⟩
  rintro ⟨d',hd',-,hlt,hsame⟩
  have hall := List.all_eq_true.mp hf d' hd'
  simp only [hsame,decide_true,Bool.not_true,Bool.or_false,beq_iff_eq] at hall
  rw [hall] at hlt
  exact lt_irrefl _ hlt

/-- On one node, the second lamp takes every report. -/
theorem twin_on_one_node_is_deaf : ∃ cfg, ∃ d ∈ cfg.devices, ∃ x address,
    resolve plainLibraries .identity (twinConfig "4" "4") = .ok cfg ∧
      cfg.adapters[d.adapter]? = some x ∧ x.plugin = some .matter ∧ d.id = ⟨0⟩ ∧
      let a := MatterAdapter.build (fun _ => ()) x.config (devicesOf cfg d.adapter)
      a.byId.lookup d.id = some address ∧ a.byNode.lookup address = some ⟨1⟩ := by
  obtain ⟨cfg,h,d,hd,x,hx,hp,hi,address,ha⟩ : ∃ cfg,
      resolve plainLibraries .identity (twinConfig "4" "4") = .ok cfg ∧
      ∃ d ∈ cfg.devices, ∃ x, cfg.adapters[d.adapter]? = some x ∧ x.plugin = some .matter ∧
        d.id = ⟨0⟩ ∧ ∃ address,
          let a := MatterAdapter.build (fun _ => ()) x.config (devicesOf cfg d.adapter)
          a.byId.lookup d.id = some address ∧ a.byNode.lookup address = some ⟨1⟩ :=
    ⟨_,rfl,_,List.mem_cons_self,_,rfl,rfl,rfl,(4,1),by decide,by decide⟩
  exact ⟨cfg,d,hd,x,address,h,hx,hp,hi,ha⟩

/-! ### Declared events -/

/-- Whether an event is an action of the device. -/
def Event.isActionOf (device : DeviceId) : Event → Bool
  | .action d _ => d == device
  | _ => false

/-- One action for every event the device declares under the raw string. -/
def DeviceDef.declared (d : DeviceDef) (r : String) : List Event :=
  (d.events.filter fun e => e.raw == r).map fun e => .action d.id e.id

/-- The actions of the device among the events are those it declares for the raw string, each
once. -/
def RoutesExactly (events : List Event) (d : DeviceDef) (r : String) : Prop :=
  (events.filter (Event.isActionOf d.id)).Perm (d.declared r)

/-- A list of which only one element yields anything. -/
theorem flatMap_eq_of_unique {α β : Type} {l : List α} {f : α → List β} {a : α} (nodup : l.Nodup)
    (h : a ∈ l) (other : ∀ b ∈ l, b ≠ a → f b = []) : l.flatMap f = f a := by
  obtain ⟨xs,ys,rfl⟩ := List.append_of_mem h
  have hnil (zs : List α) (hz : ∀ b ∈ zs, b ∈ xs ++ a :: ys ∧ b ≠ a) : zs.flatMap f = [] :=
    List.flatMap_eq_nil_iff.mpr fun b hb => other b (hz b hb).1 (hz b hb).2
  have hd := List.nodup_middle.mp nodup
  rw [List.nodup_cons] at hd
  rw [List.flatMap_append,List.flatMap_cons,hnil xs,hnil ys,List.nil_append,List.append_nil]
  · exact fun b hb => ⟨by simp [hb],fun he => hd.1 (he ▸ List.mem_append_right _ hb)⟩
  · exact fun b hb => ⟨by simp [hb],fun he => hd.1 (he ▸ List.mem_append_left _ hb)⟩

/-- The last element alone is the whole list only of a list of at most one. -/
theorem getLast_perm_iff {α : Type} (l : List α) :
    (l.getLast?.toList).Perm l ↔ l.length ≤ 1 := by
  constructor
  · intro h
    rw [← h.length_eq]
    cases l.getLast? <;> simp
  · intro h
    match l,h with
    | [],_ => exact .refl _
    | [_],_ => exact .refl _

theorem devicesOf_nodup (accepted : resolve lib π raw = .ok cfg) (i : ℕ) :
    (devicesOf cfg i).Nodup :=
  (List.Nodup.of_map _ (device_ids_nodup accepted)).filter _

/-- The last value written to a key is the last entry of the key. -/
theorem lastWrite_eq_getLast {K V : Type} [DecidableEq K] (ws : List (K × V)) (k : K) :
    lastWrite ws k = ((ws.filter fun w => w.1 = k).getLast?).map Prod.snd := by
  induction ws using List.reverseRecOn with
  | nil => rfl
  | append_singleton ws w ih =>
    rw [lastWrite_concat,List.filter_append]
    by_cases h : w.1 = k
    · simp [h]
    · simp [h,ih]

/-- What the table of raw strings holds for a device: its last event under the string. -/
theorem lookup_actions (accepted : resolve lib π raw = .ok cfg) {d : DeviceDef}
    (hd : d ∈ cfg.devices) (r : String) :
    ((((rawEvents (devicesOf cfg d.adapter)).foldl (fun m x =>
        m.insert x.1 (((m.lookup x.1).getD ∅).insert x.2.1 x.2.2))
          (∅ : HashMap DeviceId (HashMap String ActionId))).lookup d.id).bind
            fun m => m.lookup r).map (Event.action d.id) = (d.declared r).getLast? := by
  rw [HashMap.lookup_nested,lastWrite_eq_getLast,rawEvents,List.map_flatMap,List.filter_flatMap]
  have hown (d' : DeviceDef) : ((d'.events.map fun e => (d'.id,e.raw,e.id)).map nestedKey).filter
      (fun w => w.1 = (d.id,r)) =
        if d'.id = d.id then
          (d'.events.filter fun e => e.raw == r).map fun e => ((d.id,r),e.id)
        else [] := by
    rw [List.map_map,List.filter_map]
    split_ifs with h
    · rw [h]
      have hf : ((fun w : (DeviceId × String) × ActionId => decide (w.1 = (d.id,r))) ∘
          nestedKey ∘ fun e : DeviceEvent => (d.id,e.raw,e.id)) = fun e => e.raw == r := by
        funext e
        simp [nestedKey,Bool.beq_eq_decide_eq]
      rw [hf]
      refine List.map_congr_left fun e he => ?_
      have hr : e.raw = r := by simpa using (List.mem_filter.mp he).2
      simp [nestedKey,hr]
    · rw [List.map_eq_nil_iff,List.filter_eq_nil_iff]
      intro e _ he
      simp [nestedKey,h] at he
  rw [flatMap_eq_of_unique (devicesOf_nodup accepted d.adapter) (mem_devicesOf.mpr ⟨hd,rfl⟩)]
  · rw [hown,if_pos rfl]
    simp [DeviceDef.declared,List.getLast?_map,Function.comp_def]
  · intro d' hd' hne
    rw [hown,if_neg fun he => hne (eq_of_device_id accepted hd (mem_devicesOf.mp hd').1 he)]

theorem filter_isActionOf_reports {α : Type} (device d : DeviceId) (f : α → CapabilityState)
    (l : List α) :
    (l.map fun x => Event.stateReported device (f x)).filter (Event.isActionOf d) = [] := by
  rw [List.filter_eq_nil_iff]
  intro ev hm he
  obtain ⟨x,-,rfl⟩ := List.mem_map.mp hm
  cases he

open Zigbee2Mqtt in
/-- The actions of a device in its own slice of a payload. -/
theorem actions_of_slice (device : DeviceId) (channel : LoadChannel)
    (actions : HashMap DeviceId (HashMap String ActionId)) {json : Json} {r : String}
    (hr : json.get "action" = some (.string r)) :
    (jsonToDeviceEvents device channel actions json).filter (Event.isActionOf device) =
      (((actions.lookup device).bind fun m => m.lookup r).map (Event.action device)).toList := by
  have hstates : ((if channel.isNone then (rootStates json).map (Event.stateReported device)
      else []).filter (Event.isActionOf device)) = [] := by
    split_ifs
    · exact filter_isActionOf_reports device device id (rootStates json)
    · rfl
  have hswitch (o : Option String) : ((o.map fun state => Event.stateReported device
      (.switch (Text.eqIgnoreAsciiCase state "ON"))).toList.filter (Event.isActionOf device)) =
        [] := by
    cases o <;> rfl
  rw [jsonToDeviceEvents,List.filter_append,List.filter_append,hstates,hswitch,hr]
  simp only [Option.bind_some,Json.asStr,List.nil_append]
  cases (actions.lookup device).bind fun m => m.lookup r with
  | none => rfl
  | some a => simp [Event.isActionOf]

open Zigbee2Mqtt in
/-- A slice holds no action of another device. -/
theorem actions_of_other_slice {device d : DeviceId} (h : device ≠ d) (channel : LoadChannel)
    (actions : HashMap DeviceId (HashMap String ActionId)) (json : Json) :
    (jsonToDeviceEvents device channel actions json).filter (Event.isActionOf d) = [] := by
  rw [List.filter_eq_nil_iff]
  intro ev hm he
  rw [jsonToDeviceEvents,List.mem_append,List.mem_append] at hm
  rcases hm with (hm | hm) | hm
  · obtain ⟨state,-,rfl⟩ := Option.map_eq_some_iff.mp (Option.mem_toList.mp hm)
    cases he
  · split_ifs at hm
    · obtain ⟨state,-,rfl⟩ := List.mem_map.mp hm
      cases he
    · cases hm
  · obtain ⟨text,-,ha⟩ := Option.bind_eq_some_iff.mp (Option.mem_toList.mp hm)
    obtain ⟨a,-,rfl⟩ := Option.map_eq_some_iff.mp ha
    exact h (by simpa [Event.isActionOf] using he)

/-- The devices behind a friendly name, in order. -/
theorem lookup_byName (devices : List (DeviceId × String × Option UInt16))
    (m : HashMap String (List DeviceId)) (name : String) :
    ((devices.foldl (fun m x => Zigbee2MqttAdapter.pushName m x.2.1 x.1) m).lookup name).getD [] =
      (m.lookup name).getD [] ++ (devices.filter fun x => x.2.1 == name).map Prod.fst := by
  induction devices generalizing m with
  | nil => simp
  | cons x devices ih =>
    rw [List.foldl_cons,ih,Zigbee2MqttAdapter.pushName,HashMap.lookup_insert]
    by_cases h : name = x.2.1
    · subst h
      simp
    · simp [h,Ne.symm h]

theorem stripPrefix_append (p : String) (s : List Char) :
    Text.stripPrefix (p.toList ++ s) p = some s := by
  simp [Text.stripPrefix,Text.startsWith]

open Zigbee2Mqtt in
/-- A message on a friendly name's topic is read for every device behind the name, in order. -/
theorem messageToEvents_on_topic (devices : List (DeviceId × String × Option UInt16))
    (base friendly : String) (channels : DeviceId → LoadChannel)
    (actions : HashMap DeviceId (HashMap String ActionId)) (json : Json) :
    messageToEvents base (devices.foldl (fun m x => Zigbee2MqttAdapter.pushName m x.2.1 x.1) ∅)
        channels actions ⟨base ++ "/" ++ friendly,some json⟩ =
      if '/' ∈ friendly.toList then []
      else (devices.filter fun x => x.2.1 == friendly).flatMap fun x =>
        jsonToDeviceEvents x.1 (channels x.1) actions json := by
  have htopic : (base ++ "/" ++ friendly).toList = (base ++ "/").toList ++ friendly.toList := by
    simp
  have hf : String.ofList friendly.toList = friendly := by simp
  rw [messageToEvents,htopic,stripPrefix_append]
  simp only [List.contains_iff_mem]
  split_ifs with hslash
  · rfl
  have hnames := lookup_byName devices ∅ friendly
  rw [AList.lookup_empty,Option.getD_none,List.nil_append] at hnames
  cases hl : (devices.foldl (fun m x => Zigbee2MqttAdapter.pushName m x.2.1 x.1) ∅).lookup
      friendly with
  | none =>
    rw [hl,Option.getD_none,eq_comm,List.map_eq_nil_iff] at hnames
    rw [hf,hl,hnames]
    rfl
  | some ids =>
    rw [hl,Option.getD_some] at hnames
    rw [hf,hl,hnames]
    exact List.flatMap_map _ _ _

open Zigbee2Mqtt in
/-- The actions of a device in a message on its own topic. -/
theorem actions_of_message (accepted : resolve lib π raw = .ok cfg) {d : DeviceDef}
    (hd : d ∈ cfg.devices) (order : HashOrder) {T : Type}
    (connect : List Char → ℕ → List String → T) (config : Value) {json : Json} {r : String}
    (hr : json.get "action" = some (.string r)) :
    let a := Zigbee2MqttAdapter.build order connect config (devicesOf cfg d.adapter)
    (messageToEvents a.baseTopic a.byName a.channelOf a.actions
        ⟨a.baseTopic ++ "/" ++ d.friendly,some json⟩).filter (Event.isActionOf d.id) =
      if '/' ∈ d.friendly.toList then [] else (d.declared r).getLast?.toList := by
  intro a
  have hm := mem_devicesOf.mpr ⟨hd,rfl⟩
  let sharing := (devicesOf cfg d.adapter).filter fun d' => d'.friendly == d.friendly
  have hmem : d ∈ sharing := List.mem_filter.mpr ⟨hm,by simp⟩
  refine (congrArg (List.filter _) (messageToEvents_on_topic _ _ _ _ _ _)).trans ?_
  rw [apply_ite (List.filter _),List.filter_nil]
  refine if_congr Iff.rfl rfl ?_
  rw [List.filter_map,List.flatMap_map,List.filter_flatMap]
  refine (flatMap_eq_of_unique ((devicesOf_nodup accepted d.adapter).filter _) hmem ?_).trans ?_
  · intro d' hd' hne
    have hd'' := (mem_devicesOf.mp (List.mem_filter.mp hd').1).1
    exact actions_of_other_slice (fun he => hne (eq_of_device_id accepted hd hd'' he)) _ _ _
  · rw [actions_of_slice _ _ _ hr]
    exact congrArg Option.toList (lookup_actions accepted hd r)

open ZwaveJs in
/-- The events of a button press at the address of a device. -/
theorem events_of_press (accepted : resolve lib π raw = .ok cfg) {d : DeviceDef}
    (hd : d ∈ cfg.devices) {x : AdapterDef} (filed : cfg.adapters[d.adapter]? = some x)
    (plugin : x.plugin = some .zwavejs)
    (unshared : ∀ d' ∈ cfg.devices, d'.adapter = d.adapter →
      ZwaveJs.address d' = ZwaveJs.address d → d' = d)
    {C : Type} (connect : String → C) {u : ValueUpdate} {r : String}
    (scene : u.commandClass = ccCentralScene ∧ u.property = "scene")
    (pressed : u.notification = true) (hr : sceneRaw u = some r)
    (from_d : ZwaveJs.address d = some (u.node,u.endpoint)) :
    let a := ZwaveAdapter.build connect x.config (devicesOf cfg d.adapter)
    updateToEvents a.byNode a.actions u = (d.declared r).getLast?.toList := by
  intro a
  obtain ⟨address,ha,-,hnode⟩ := zwave_tables accepted hd filed plugin connect
  obtain rfl : address = (u.node,u.endpoint) := Option.some.inj (ha.symm.trans from_d)
  have hfree : ¬TakenOver cfg ZwaveJs.address d := by
    rintro ⟨d',hd',hadapter,hlt,hsame⟩
    rw [unshared d' hd' hadapter hsame] at hlt
    exact lt_irrefl _ hlt
  have hl : a.byNode.lookup (u.node,u.endpoint) = some d.id := hnode.mpr hfree
  rw [updateToEvents,hl]
  simp only [scene,pressed,and_self,if_true,hr,Option.bind_some]
  exact congrArg Option.toList (lookup_actions accepted hd r)

/-- Every raw string fires the events that the device declares under it, each once, exactly when it
declares at most one, and, on zigbee2mqtt, when no slash in its friendly name hides its topic. -/
theorem declared_events_are_routed_iff (accepted : resolve lib π raw = .ok cfg) {d : DeviceDef}
    (hd : d ∈ cfg.devices) {x : AdapterDef} (filed : cfg.adapters[d.adapter]? = some x) :
    (x.plugin = some .zigbee2mqtt → ∀ (order : HashOrder) {T : Type}
      (connect : List Char → ℕ → List String → T) (json : Json) (r : String),
      json.get "action" = some (.string r) →
        let a := Zigbee2MqttAdapter.build order connect x.config (devicesOf cfg d.adapter)
        (RoutesExactly (Zigbee2Mqtt.messageToEvents a.baseTopic a.byName a.channelOf a.actions
            ⟨a.baseTopic ++ "/" ++ d.friendly,some json⟩) d r ↔
          (d.declared r).length ≤ 1 ∧ ('/' ∈ d.friendly.toList → d.declared r = []))) ∧
    (x.plugin = some .zwavejs → (∀ d' ∈ cfg.devices, d'.adapter = d.adapter →
        ZwaveJs.address d' = ZwaveJs.address d → d' = d) →
      ∀ {C : Type} (connect : String → C) (u : ValueUpdate) (r : String),
      u.commandClass = ZwaveJs.ccCentralScene ∧ u.property = "scene" → u.notification = true →
      ZwaveJs.sceneRaw u = some r → ZwaveJs.address d = some (u.node,u.endpoint) →
        let a := ZwaveAdapter.build connect x.config (devicesOf cfg d.adapter)
        (RoutesExactly (ZwaveJs.updateToEvents a.byNode a.actions u) d r ↔
          (d.declared r).length ≤ 1)) := by
  constructor
  · intro _ order T connect json r hr
    dsimp only
    rw [RoutesExactly,actions_of_message accepted hd order connect x.config hr]
    split_ifs with hslash
    · constructor
      · intro h
        have hn : d.declared r = [] := List.nil_perm.mp h
        exact ⟨by simp [hn],fun _ => hn⟩
      · rintro ⟨-,h⟩
        rw [h hslash]
    · rw [getLast_perm_iff]
      exact ⟨fun h => ⟨h,fun hs => absurd hs hslash⟩,And.left⟩
  · intro plugin unshared C connect u r scene pressed hr from_d
    dsimp only
    rw [RoutesExactly,events_of_press accepted hd filed plugin unshared connect scene pressed hr
      from_d,List.filter_eq_self.mpr ?_,getLast_perm_iff]
    intro ev hm
    obtain ⟨e,-,rfl⟩ := List.mem_map.mp (List.mem_of_getLast? (Option.mem_toList.mp hm))
    simp [Event.isActionOf]

/-- One remote, with two events. -/
def remoteConfig (kind url address : String) (press hold : String) : RawConfig where
  system := .default
  adapters := .single "bus" ⟨kind,.mapping [(.string "url",.string url)]⟩
  devices := .single "remote" ⟨"bus",some address,none,[],
    .pair (show "hold" < "press" by decide) hold press,none,none,none⟩
  scenes := .empty
  schedules := .empty
  rules := .empty

/-- A remote whose two buttons send different strings. -/
theorem remote_press_is_routed : ∃ cfg, ∃ d ∈ cfg.devices, ∃ x,
    resolve plainLibraries .identity
      (remoteConfig "zigbee2mqtt" "mqtt://broker" "remote" "single" "long") = .ok cfg ∧
      cfg.adapters[d.adapter]? = some x ∧
      let a := Zigbee2MqttAdapter.build .identity (fun _ _ _ => ()) x.config
        (devicesOf cfg d.adapter)
      RoutesExactly (Zigbee2Mqtt.messageToEvents a.baseTopic a.byName a.channelOf a.actions
        ⟨a.baseTopic ++ "/" ++ d.friendly,some (.object [("action",.string "single")])⟩) d
          "single" := by
  obtain ⟨cfg,h,d,hd,x,hx,hp,hl,hs⟩ : ∃ cfg, resolve plainLibraries .identity
      (remoteConfig "zigbee2mqtt" "mqtt://broker" "remote" "single" "long") = .ok cfg ∧
      ∃ d ∈ cfg.devices, ∃ x, cfg.adapters[d.adapter]? = some x ∧
        x.plugin = some .zigbee2mqtt ∧ (d.declared "single").length ≤ 1 ∧
        '/' ∉ d.friendly.toList :=
    ⟨_,rfl,_,List.mem_singleton_self _,_,rfl,rfl,by decide,by decide⟩
  exact ⟨cfg,d,hd,x,h,hx,((declared_events_are_routed_iff h hd hx).1 hp .identity _ _ _ rfl).mpr
    ⟨hl,fun hc => absurd hc hs⟩⟩

/-- Two events under one raw string: the press fires only the second. -/
theorem aliased_press_is_lost : ∃ cfg, ∃ d ∈ cfg.devices, ∃ x,
    resolve plainLibraries .identity
      (remoteConfig "zigbee2mqtt" "mqtt://broker" "remote" "single" "single") = .ok cfg ∧
      cfg.adapters[d.adapter]? = some x ∧
      d.declared "single" = [.action d.id ⟨0⟩,.action d.id ⟨1⟩] ∧
      let a := Zigbee2MqttAdapter.build .identity (fun _ _ _ => ()) x.config
        (devicesOf cfg d.adapter)
      Zigbee2Mqtt.messageToEvents a.baseTopic a.byName a.channelOf a.actions
        ⟨a.baseTopic ++ "/" ++ d.friendly,some (.object [("action",.string "single")])⟩ =
          [.action d.id ⟨1⟩] := by
  obtain ⟨cfg,h,d,hd,x,hx,hl,he⟩ : ∃ cfg, resolve plainLibraries .identity
      (remoteConfig "zigbee2mqtt" "mqtt://broker" "remote" "single" "single") = .ok cfg ∧
      ∃ d ∈ cfg.devices, ∃ x, cfg.adapters[d.adapter]? = some x ∧
        d.declared "single" = [.action d.id ⟨0⟩,.action d.id ⟨1⟩] ∧
        let a := Zigbee2MqttAdapter.build .identity (fun _ _ _ => ()) x.config
          (devicesOf cfg d.adapter)
        Zigbee2Mqtt.messageToEvents a.baseTopic a.byName a.channelOf a.actions
          ⟨a.baseTopic ++ "/" ++ d.friendly,some (.object [("action",.string "single")])⟩ =
            [.action d.id ⟨1⟩] :=
    ⟨_,rfl,_,List.mem_singleton_self _,_,rfl,rfl,by decide⟩
  exact ⟨cfg,d,hd,x,h,hx,hl,he⟩

end Domiform
