import Domiform.Adapters.Link
import Domiform.Compile.Numbers
import Domiform.Library.Decimal
import Domiform.RestApi.Rendering

/-! What the frames of the WebSocket transports ask for. A server reads from a frame the id of the
message, the address and the command; over a run it reads what the calls asked for, in their order,
and never one call twice. -/
namespace Domiform
open Library

namespace Json

/-- A number that is no fraction and not negative. -/
def natural : Json → Option ℕ
  | int (.ofNat n) => some n
  | _ => none

def text : Json → Option String
  | string s => some s
  | _ => none

@[simp] theorem natural_int (n : ℕ) : natural (.int n) = some n := rfl

@[simp] theorem text_string (s : String) : text (.string s) = some s := rfl

/-- A field of an object, as the server wants it. -/
def field {α : Type} (v : Json) (key : String) (read : Json → Option α) : Option α :=
  (v.get key).bind read

theorem field_ofFields {α : Type} {fs : List (String × Json)} {key : String} {w : Json}
    {read : Json → Option α} (nodup : (fs.map Prod.fst).Nodup) (h : fs.lookup key = some w) :
    (ofFields fs).field key read = read w := by
  rw [field,get_ofFields nodup,h,Option.bind_some]

end Json

namespace Matter

/-- The cluster command of a cluster, a name and a payload. -/
def readCommand (cluster : ℕ) (name : String) (payload : Json) : Option ClusterCommand :=
  let ds := payload.field "transitionTime" Json.natural
  if cluster = 0x0006 ∧ name = "On" then some (.onOff true)
  else if cluster = 0x0006 ∧ name = "Off" then some (.onOff false)
  else if cluster = 0x0006 ∧ name = "Toggle" then some .toggle
  else if cluster = 0x0008 ∧ name = "MoveToLevelWithOnOff" then
    (payload.field "level" Json.natural).bind fun level =>
      ds.map fun ds => .moveToLevel (.ofNat level) (.ofNat ds)
  else if cluster = 0x0300 ∧ name = "MoveToHueAndSaturation" then
    (payload.field "hue" Json.natural).bind fun hue =>
      (payload.field "saturation" Json.natural).bind fun saturation =>
        ds.map fun ds => .moveToHueAndSaturation (.ofNat hue) (.ofNat saturation) (.ofNat ds)
  else if cluster = 0x0300 ∧ name = "MoveToColorTemperature" then
    (payload.field "colorTemperatureMireds" Json.natural).bind fun mireds =>
      ds.map fun ds => .moveToColorTemperature (.ofNat mireds) (.ofNat ds)
  else none

/-- The arguments of a command: the address, and the cluster command. -/
def readArgs (args : Json) : Option (NodeAddress × ClusterCommand) := do
  let node ← args.field "node_id" Json.natural
  let endpoint ← args.field "endpoint_id" Json.natural
  let cluster ← args.field "cluster_id" Json.natural
  let name ← args.field "command_name" Json.text
  let payload ← args.get "payload"
  (readCommand cluster name payload).map fun cmd => ((node,.ofNat endpoint),cmd)

/-- What a frame asks for: the id of the message, the address, and the cluster command. -/
def readRequest (frame : Json) : Option (String × NodeAddress × ClusterCommand) := do
  let id ← frame.field "message_id" Json.text
  let command ← frame.field "command" Json.text
  let args ← frame.field "args" readArgs
  if command = "device_command" then some (id,args) else none

theorem readCommand_clusterRequest (cmd : ClusterCommand) :
    readCommand (clusterRequest cmd).1 (clusterRequest cmd).2.1 (clusterRequest cmd).2.2 = some cmd := by
  have payload {fs : List (String × Json)} {key : String} {n : ℕ} (nodup : (fs.map Prod.fst).Nodup)
      (h : fs.lookup key = some (.int n)) : (Json.ofFields fs).field key Json.natural = some n :=
    Json.field_ofFields nodup h
  cases cmd with
  | onOff on => cases on <;> simp [clusterRequest,readCommand]
  | toggle => simp [clusterRequest,readCommand]
  | moveToLevel level ds =>
    let fs : List (String × Json) := [("level",.int level.toNat),("transitionTime",.int ds.toNat)]
    have hlevel := @payload fs "level" _ (by simp [fs]) rfl
    have hds := @payload fs "transitionTime" _ (by simp [fs]) rfl
    simp only [fs] at hlevel hds
    simp [clusterRequest,readCommand,hlevel,hds]
  | moveToHueAndSaturation hue saturation ds =>
    let fs : List (String × Json) := [("hue",.int hue.toNat),("saturation",.int saturation.toNat),
      ("transitionTime",.int ds.toNat)]
    have hhue := @payload fs "hue" _ (by simp [fs]) rfl
    have hsaturation := @payload fs "saturation" _ (by simp [fs]) rfl
    have hds := @payload fs "transitionTime" _ (by simp [fs]) rfl
    simp only [fs] at hhue hsaturation hds
    simp [clusterRequest,readCommand,hhue,hsaturation,hds]
  | moveToColorTemperature mireds ds =>
    let fs : List (String × Json) := [("colorTemperatureMireds",.int mireds.toNat),
      ("transitionTime",.int ds.toNat)]
    have hmireds := @payload fs "colorTemperatureMireds" _ (by simp [fs]) rfl
    have hds := @payload fs "transitionTime" _ (by simp [fs]) rfl
    simp only [fs] at hmireds hds
    simp [clusterRequest,readCommand,hmireds,hds]

/-- A frame is read as it was asked for. -/
theorem readRequest_request (id : String) (address : NodeAddress) (cmd : ClusterCommand) :
    readRequest (request id address cmd) = some (id,address,cmd) := by
  have command := readCommand_clusterRequest cmd
  have read : readArgs (.ofFields [("node_id",.int address.1),("endpoint_id",.int address.2.toNat),
      ("cluster_id",.int (clusterRequest cmd).1),("command_name",.string (clusterRequest cmd).2.1),
      ("payload",(clusterRequest cmd).2.2)]) = some (address,cmd) := by
    generalize (clusterRequest cmd).1 = cluster at command ⊢
    generalize (clusterRequest cmd).2.1 = name at command ⊢
    generalize (clusterRequest cmd).2.2 = payload at command ⊢
    let fs : List (String × Json) := [("node_id",.int address.1),("endpoint_id",.int address.2.toNat),
      ("cluster_id",.int cluster),("command_name",.string name),("payload",payload)]
    have nodup : (fs.map Prod.fst).Nodup := by simp [fs]
    have hnode : (Json.ofFields fs).field "node_id" Json.natural = some address.1 :=
      Json.field_ofFields (w := .int address.1) nodup rfl
    have hendpoint : (Json.ofFields fs).field "endpoint_id" Json.natural = some address.2.toNat :=
      Json.field_ofFields (w := .int address.2.toNat) nodup rfl
    have hcluster : (Json.ofFields fs).field "cluster_id" Json.natural = some cluster :=
      Json.field_ofFields (w := .int cluster) nodup rfl
    have hname : (Json.ofFields fs).field "command_name" Json.text = some name :=
      Json.field_ofFields (w := .string name) nodup rfl
    have hpayload : (Json.ofFields fs).get "payload" = some payload :=
      (Json.get_ofFields nodup _).trans rfl
    show readArgs (.ofFields fs) = _
    simp [readArgs,hnode,hendpoint,hcluster,hname,hpayload,command]
  let args : Json := .ofFields [("node_id",.int address.1),("endpoint_id",.int address.2.toNat),
    ("cluster_id",.int (clusterRequest cmd).1),("command_name",.string (clusterRequest cmd).2.1),
    ("payload",(clusterRequest cmd).2.2)]
  let fs : List (String × Json) := [("message_id",.string id),("command",.string "device_command"),
    ("args",args)]
  have nodup : (fs.map Prod.fst).Nodup := by simp [fs]
  have hid : (Json.ofFields fs).field "message_id" Json.text = some id :=
    Json.field_ofFields (w := .string id) nodup rfl
  have hcommand : (Json.ofFields fs).field "command" Json.text = some "device_command" :=
    Json.field_ofFields (w := .string "device_command") nodup rfl
  have hargs : (Json.ofFields fs).field "args" readArgs = some (address,cmd) :=
    (Json.field_ofFields (w := args) nodup rfl).trans read
  have hrequest : request id address cmd = .ofFields fs := rfl
  rw [hrequest]
  simp [readRequest,hid,hcommand,hargs]

end Matter

/-- A fade is sent in whole seconds. -/
def SetValue.inSeconds (v : SetValue) : SetValue :=
  { v with transition := v.transition.map fun ms => ms/1000*1000 }

namespace ZwaveJs

/-- A duration in whole seconds. -/
def readSeconds (v : Json) : Option Millis :=
  v.text.bind fun s =>
    if s.toList.getLast? = some 's' then (Text.decimal s.toList.dropLast).map (·*1000) else none

/-- The value that is to be set: its command class, its endpoint and its property. -/
def readValueId (v : Json) : Option (ℕ × ℕ × String) := do
  let commandClass ← v.field "commandClass" Json.natural
  let endpoint ← v.field "endpoint" Json.natural
  let property ← v.field "property" Json.text
  some (commandClass,endpoint,property)

def readOptions (frame : Json) : Option (Option Millis) :=
  match frame.get "options" with
  | none => some none
  | some options => (options.field "transitionDuration" readSeconds).map some

/-- What a frame asks for: the id of the message, the address, and the value to set. -/
def readRequest (frame : Json) : Option (String × NodeAddress × SetValue) := do
  let id ← frame.field "messageId" Json.text
  let command ← frame.field "command" Json.text
  let node ← frame.field "nodeId" Json.natural
  let valueId ← frame.field "valueId" readValueId
  let value ← frame.get "value"
  let transition ← readOptions frame
  if command = "node.set_value" then
    some (id,(node,.ofNat valueId.2.1),⟨valueId.1,valueId.2.2,value,transition⟩)
  else none

theorem readSeconds_duration (n : ℕ) :
    readSeconds (.string (toString n ++ "s")) = some (n*1000) := by
  have list : (toString n ++ "s").toList = Nat.toDigits 10 n ++ ['s'] := by simp
  rw [readSeconds,Json.text_string,Option.bind_some,list,List.getLast?_concat,if_pos rfl,
    List.dropLast_concat,Text.decimal_toDigits]
  rfl

/-- A frame is read as it was asked for, but for the parts of a second. -/
theorem readRequest_request (id : String) (address : NodeAddress) (v : SetValue) :
    readRequest (request id address v) = some (id,address,v.inSeconds) := by
  obtain ⟨commandClass,property,value,transition⟩ := v
  let vs : List (String × Json) := [("commandClass",.int commandClass),
    ("endpoint",.int address.2.toNat),("property",.string property)]
  have distinct : (vs.map Prod.fst).Nodup := by simp [vs]
  have hclass : (Json.ofFields vs).field "commandClass" Json.natural = some commandClass :=
    Json.field_ofFields (w := .int commandClass) distinct rfl
  have hendpoint : (Json.ofFields vs).field "endpoint" Json.natural = some address.2.toNat :=
    Json.field_ofFields (w := .int address.2.toNat) distinct rfl
  have hproperty : (Json.ofFields vs).field "property" Json.text = some property :=
    Json.field_ofFields (w := .string property) distinct rfl
  have read : readValueId (.ofFields vs) = some (commandClass,address.2.toNat,property) := by
    simp [readValueId,hclass,hendpoint,hproperty]
  let fs : List (String × Json) := [("messageId",.string id),("command",.string "node.set_value"),
    ("nodeId",.int address.1),("valueId",.ofFields vs),("value",value)]
  -- With or without the options, the other fields are the same.
  have main (gs : List (String × Json)) (nodup : ((fs ++ gs).map Prod.fst).Nodup)
      (options : readOptions (.ofFields (fs ++ gs)) = some (transition.map fun ms => ms/1000*1000)) :
      readRequest (.ofFields (fs ++ gs)) =
        some (id,address,(⟨commandClass,property,value,transition⟩ : SetValue).inSeconds) := by
    have hid : (Json.ofFields (fs ++ gs)).field "messageId" Json.text = some id :=
      Json.field_ofFields (w := .string id) nodup rfl
    have hcommand : (Json.ofFields (fs ++ gs)).field "command" Json.text = some "node.set_value" :=
      Json.field_ofFields (w := .string "node.set_value") nodup rfl
    have hnode : (Json.ofFields (fs ++ gs)).field "nodeId" Json.natural = some address.1 :=
      Json.field_ofFields (w := .int address.1) nodup rfl
    have hvalueId : (Json.ofFields (fs ++ gs)).field "valueId" readValueId =
        some (commandClass,address.2.toNat,property) :=
      (Json.field_ofFields (w := .ofFields vs) nodup rfl).trans read
    have hvalue : (Json.ofFields (fs ++ gs)).get "value" = some value :=
      (Json.get_ofFields nodup _).trans rfl
    simp [readRequest,hid,hcommand,hnode,hvalueId,hvalue,options,SetValue.inSeconds]
  cases transition with
  | none =>
    have plain : readOptions (.ofFields (fs ++ [])) = some none := by
      have options : (Json.ofFields (fs ++ [])).get "options" = none :=
        (Json.get_ofFields (by simp [fs]) _).trans rfl
      rw [readOptions,options]
    exact main [] (by simp [fs]) plain
  | some ms =>
    let duration : Json := .ofFields [("transitionDuration",.string (toString (ms/1000) ++ "s"))]
    have nodup : ((fs ++ [("options",duration)]).map Prod.fst).Nodup := by simp [fs]
    have faded : readOptions (.ofFields (fs ++ [("options",duration)])) = some (some (ms/1000*1000)) := by
      have options : (Json.ofFields (fs ++ [("options",duration)])).get "options" = some duration :=
        (Json.get_ofFields nodup _).trans rfl
      have seconds : duration.field "transitionDuration" readSeconds = some (ms/1000*1000) :=
        (Json.field_ofFields (by simp) rfl).trans (readSeconds_duration (ms/1000))
      rw [readOptions,options]
      dsimp only
      rw [seconds]
      rfl
    exact main [("options",duration)] nodup faded

end ZwaveJs

namespace ServerWs
variable {C R : Type}

/-- What a step asks for. -/
def Label.asked : Label C R → List (NodeAddress × C)
  | call address c => [(address,c)]
  | _ => []

/-- What is asked for, with the ids of the messages; the first is `next`. -/
def numbered (next : ℕ) : List (NodeAddress × C) → List (String × NodeAddress × C)
  | [] => []
  | x :: xs => (toString next,x) :: numbered ((next+1) % 2^64) xs

/-- The ids of fewer than 2^64 messages are distinct. -/
theorem nodup_numbered {next : ℕ} {xs : List (NodeAddress × C)} (few : next+xs.length ≤ 2^64) :
    ((numbered next xs).map Prod.fst).Nodup := by
  have ids : (numbered next xs).map Prod.fst = (List.range' next xs.length).map toString := by
    induction xs generalizing next with
    | nil => rfl
    | cons x xs ih =>
      rw [List.length_cons] at few
      rw [numbered,List.map_cons,List.length_cons,List.range'_succ,List.map_cons]
      congr 1
      cases xs with
      | nil => rfl
      | cons y ys =>
        rw [List.length_cons] at few
        have small : (next+1) % 2^64 = next+1 := Nat.mod_eq_of_lt (by omega)
        rw [small]
        exact ih (by rw [List.length_cons]; omega)
  rw [ids]
  have inj : Function.Injective (toString : ℕ → String) := fun a b h =>
    numbered_injective "" (congrArg ("" ++ ·) h)
  exact List.Nodup.map inj (List.nodup_range' ..)

section Asking
variable {p : Protocol C} {s s' : ServerWs R} {label : Label C R}

/-- Nobody calls a transport that has stopped. -/
def Reachable (s : ServerWs R) : Prop := s.phase = .stopped → s.held = false

/-- A call queues its frame, under the next id; nothing else does. -/
theorem step_accepted (h : s.Reachable) (hs : s.step p label = some s') : s'.Reachable ∧
    s'.outbox.accepted = s.outbox.accepted ++
      (numbered s.nextId label.asked).map (fun x => p.request x.1 x.2.1 x.2.2) ∧
    s'.nextId = if label.asked = [] then s.nextId else (s.nextId+1) % 2^64 := by
  unfold step at hs
  split at hs
  · -- a call
    split_ifs at hs with held
    cases hs
    have running : s.phase ≠ .stopped := fun hp => by
      rw [h hp] at held
      cases held
    unfold call
    dsimp only
    split
    · rename_i hp
      exact absurd hp running
    · exact ⟨fun hp => absurd hp running,rfl,rfl⟩
  · cases hs
    exact ⟨h,by simp [poll,Label.asked,numbered],rfl⟩
  · cases hs
    exact ⟨fun _ => rfl,by simp [Label.asked,numbered],rfl⟩
  iterate 8
    · cases hs
      refine ⟨fun hp => ?_,by simp [Label.asked,numbered],rfl⟩
      first | cases hp | (dsimp only at hp; split_ifs at hp) | exact h hp
  · -- a frame is taken
    obtain ⟨o,ho,rfl⟩ := Option.map_eq_some_iff.mp hs
    refine ⟨(fun hp => by cases hp),?_,rfl⟩
    unfold Outbox.take at ho
    split at ho
    · cases ho
      simp [Label.asked,numbered]
    · cases ho
  · cases hs
    exact ⟨(fun hp => by cases hp),by simp [Outbox.deliver,Label.asked,numbered],rfl⟩
  · cases hs
    exact ⟨(fun hp => by cases hp),by simp [Outbox.lose,Label.asked,numbered],rfl⟩
  · cases hs
    exact ⟨(fun hp => by cases hp),by simp [Label.asked,numbered],rfl⟩
  · split_ifs at hs with idle
    cases hs
    refine ⟨fun _ => ?_,by simp [Label.asked,numbered],rfl⟩
    rw [Bool.and_eq_true,Bool.not_eq_true'] at idle
    exact idle.2
  · cases hs

theorem numbered_append (next : ℕ) (x : NodeAddress × C) (xs : List (NodeAddress × C)) :
    numbered next ([x] ++ xs) = numbered next [x] ++ numbered ((next+1) % 2^64) xs := rfl

/-- Over a run, the frames are queued in the order of the calls. -/
theorem run_accepted {labels : List (Label C R)} (h : s.Reachable) (hr : s.run p labels = some s') :
    s'.outbox.accepted = s.outbox.accepted ++
      (numbered s.nextId (labels.flatMap Label.asked)).map fun x => p.request x.1 x.2.1 x.2.2 := by
  induction labels generalizing s with
  | nil =>
    cases hr
    simp [numbered]
  | cons label labels ih =>
    obtain ⟨t,ht,hr⟩ := Option.bind_eq_some_iff.mp hr
    obtain ⟨reachable,accepted,next⟩ := step_accepted h ht
    rw [ih reachable hr,accepted,next,List.flatMap_cons]
    rcases hasked : label.asked with _ | ⟨x,_ | ⟨y,rest⟩⟩
    · simp [numbered]
    · rw [if_neg (List.cons_ne_nil _ _),numbered_append,List.map_append,List.append_assoc]
    · cases label <;> cases hasked

/-- What the frames that were not lost are read as, where each is read as it was asked for. -/
theorem run_read {α : Type} {labels : List (Label C R)} (hr : connect.run p labels = some s)
    (read : Json → Option α) (meant : String → NodeAddress × C → α)
    (reads : ∀ id address c, read (p.request id address c) = some (meant id (address,c))) :
    (s.outbox.kept.map read).Sublist
        ((numbered 1 (labels.flatMap Label.asked)).map fun x => some (meant x.1 x.2)) ∧
      (.unwritten ∉ labels → s.outbox.kept.map read =
        (numbered 1 (labels.flatMap Label.asked)).map fun x => some (meant x.1 x.2)) := by
  have accepted := run_accepted (by nofun) hr
  obtain ⟨intact,order⟩ := kept_of_run hr
  have reading : s.outbox.accepted.map read =
      (numbered 1 (labels.flatMap Label.asked)).map fun x => some (meant x.1 x.2) := by
    rw [accepted,List.map_append,List.map_map]
    exact List.map_congr_left fun x _ => reads x.1 x.2.1 x.2.2
  refine ⟨reading ▸ order.map read,fun kept => ?_⟩
  rw [← reading,show s.outbox.kept = s.outbox.accepted from intact.mpr kept]

end Asking

/-- On either transport, however calls, connections and writes interleave: the frames that are written
or still to be written ask for what was called for, in the order of the calls, each under an id of its
own, and for all of it as long as no write has failed. On Z-Wave a fade is asked for in whole seconds. -/
theorem frames_say_what_was_asked (matter : List (Label ClusterCommand AttrReport))
    (zwave : List (Label SetValue ValueUpdate)) :
    (∀ s, connect.run Matter.protocol matter = some s →
      (s.outbox.kept.map Matter.readRequest).Sublist
          ((numbered 1 (matter.flatMap Label.asked)).map some) ∧
        (.unwritten ∉ matter → s.outbox.kept.map Matter.readRequest =
          (numbered 1 (matter.flatMap Label.asked)).map some)) ∧
      (∀ s, connect.run ZwaveJs.protocol zwave = some s →
        (s.outbox.kept.map ZwaveJs.readRequest).Sublist
            ((numbered 1 (zwave.flatMap Label.asked)).map fun x =>
              some (x.1,x.2.1,x.2.2.inSeconds)) ∧
          (.unwritten ∉ zwave → s.outbox.kept.map ZwaveJs.readRequest =
            (numbered 1 (zwave.flatMap Label.asked)).map fun x =>
              some (x.1,x.2.1,x.2.2.inSeconds))) ∧
      ((matter.flatMap Label.asked).length < 2^64 →
        ((numbered 1 (matter.flatMap Label.asked)).map Prod.fst).Nodup) ∧
      ((zwave.flatMap Label.asked).length < 2^64 →
        ((numbered 1 (zwave.flatMap Label.asked)).map Prod.fst).Nodup) :=
  ⟨fun _ hr => run_read hr Matter.readRequest (fun id x => (id,x)) Matter.readRequest_request,
    fun _ hr => run_read hr ZwaveJs.readRequest (fun id x => (id,x.1,x.2.inSeconds))
      ZwaveJs.readRequest_request,
    fun few => nodup_numbered (by omega),fun few => nodup_numbered (by omega)⟩

/-- The call that was made while the server was down. -/
theorem flushed_frame_is_read : ∃ s, connect.run ZwaveJs.protocol outage = some s ∧
    s.outbox.kept.map ZwaveJs.readRequest =
      [some ("1",(7,0),⟨ZwaveJs.ccBinarySwitch,"targetValue",.bool true,none⟩)] := by
  obtain ⟨s,hs⟩ : ∃ s, connect.run ZwaveJs.protocol outage = some s := ⟨_,rfl⟩
  have read := ((frames_say_what_was_asked [] outage).2.1 s hs).2 (by simp [outage])
  exact ⟨s,hs,read⟩

end ServerWs
end Domiform
