import Domiform.Adapters.ZwaveJs

/-! The frames of the Z-Wave server: an event, or the snapshot of every node. Each value in a frame
is an entry that names its node, its endpoint and its command class; the ids are cut to the widths
of the target types. -/
namespace Domiform
open Library

namespace Json

def asArray : Json → Option (List Json)
  | array items => some items
  | _ => none

/-- `is_number`. -/
def isNumber : Json → Bool
  | int _ | fraction _ => true
  | _ => false

theorem asU64_eq_some {v : Json} {n : ℕ} (h : v.asU64 = some n) : v = .int n ∧ n < 2^64 := by
  unfold asU64 at h
  split at h
  · split_ifs at h with hn
    cases h
    exact ⟨congrArg Json.int (by omega),by omega⟩
  · cases h

theorem asU64_int {n : ℕ} (h : n < 2^64) : asU64 (.int n) = some n := by
  rw [asU64,if_pos ⟨by omega,by omega⟩]
  rfl

end Json

namespace ZwaveJs

/-- What `serde_json` is relied on for: reading a text, and printing a number that is no integer. -/
structure JsonText where
  fromStr : String → Option Json
  number : Float → String

variable (serde : JsonText)

/-- The root endpoint where none is given, or where it is no number. -/
def endpointId (v : Option Json) : UInt16 := UInt16.ofNat ((v.bind Json.asU64).getD 0)

/-- `property_key_string`: a string, or a number as one. -/
def propertyKeyString (v : Json) : Option String :=
  match v with
  | .string s => some s
  | .int n => some (toString n)
  | .fraction x => some (serde.number x)
  | _ => none

def propertyString (v : Option Json) : Option String := v.bind (propertyKeyString serde)

/-- The two kinds of event that are folded: a press, and a reading. -/
def isNotification : String → Option Bool
  | "value notification" => some true
  | "value updated" => some false
  | _ => none

/-- A reading is fresh under `newValue`; a notification has its value inline. -/
def eventValue (args : Json) (notification : Bool) : Option Json :=
  if notification then args.get "value"
  else (args.get "newValue").orElse fun _ => args.get "value"

def parseEvent (event : Option Json) : Option ValueUpdate := do
  let event ← event
  if (event.get "source").bind Json.asStr ≠ some "node" then none
  else
    let notification ← ((event.get "event").bind Json.asStr).bind isNotification
    let node ← (event.get "nodeId").bind Json.asU64
    let args ← event.get "args"
    let value ← eventValue args notification
    let commandClass ← (args.get "commandClass").bind Json.asU64
    let property ← propertyString serde (args.get "property")
    some ⟨node%2^32,endpointId (args.get "endpoint"),commandClass%2^16,property,
      (args.get "propertyKey").bind (propertyKeyString serde),value,notification⟩

def parseNodeSnapshot (node : Json) : List ValueUpdate :=
  match (node.get "nodeId").bind Json.asU64 with
  | none => []
  | some id =>
    match (node.get "values").bind Json.asArray with
    | none => []
    | some values =>
      values.filterMap fun val => do
        let commandClass ← (val.get "commandClass").bind Json.asU64
        let property ← propertyString serde (val.get "property")
        let value ← val.get "value"
        some ⟨id%2^32,endpointId (val.get "endpoint"),commandClass%2^16,property,
          (val.get "propertyKey").bind (propertyKeyString serde),value,false⟩

/-- `result.state.nodes` of the answer to `start_listening`. -/
def snapshotNodes (v : Json) : Option (List Json) :=
  ((((v.get "result").bind fun r => r.get "state").bind fun s => s.get "nodes")).bind Json.asArray

def parseInbound (txt : String) : List ValueUpdate :=
  match serde.fromStr txt with
  | none => []
  | some v =>
    if (v.get "type").bind Json.asStr = some "event" then (parseEvent serde (v.get "event")).toList
    else
      match snapshotNodes v with
      | some nodes => nodes.flatMap (parseNodeSnapshot serde)
      | none => []

/-- One value of a frame: the object its node id is in, its own object, and whether it is a
notification or a reading. -/
structure Entry where
  node : Json
  args : Json
  value : Option Json
  notification : Bool

namespace Entry

/-- The entry of an event frame, when it is one of the two kinds of event that are folded. -/
def ofEvent (event : Json) : Option Entry :=
  if (event.get "source").bind Json.asStr ≠ some "node" then none
  else do
    let notification ← ((event.get "event").bind Json.asStr).bind isNotification
    let args ← event.get "args"
    some ⟨event,args,eventValue args notification,notification⟩

def ofNode (node : Json) : List Entry :=
  (((node.get "values").bind Json.asArray).getD []).map fun val =>
    ⟨node,val,val.get "value",false⟩

/-- The entries of a frame, in its order. -/
def ofFrame (v : Json) : List Entry :=
  if (v.get "type").bind Json.asStr = some "event" then ((v.get "event").bind ofEvent).toList
  else ((snapshotNodes v).getD []).flatMap ofNode

def ofText (txt : String) : List Entry := ((serde.fromStr txt).map ofFrame).getD []

variable (e : Entry)

def property : Option String := propertyString serde (e.args.get "property")

def propertyKey : Option String := (e.args.get "propertyKey").bind (propertyKeyString serde)

/-- The entry's node is `node`. -/
def NodeIs (node : ℕ) : Prop := e.node.get "nodeId" = some (.int node)

def ClassIs (commandClass : ℕ) : Prop := e.args.get "commandClass" = some (.int commandClass)

/-- The entry's endpoint is `endpoint`: the root where none is given, or where it is no number. -/
def EndpointIs (endpoint : ℕ) : Prop :=
  match e.args.get "endpoint" with
  | some v => if v.isNumber then v = .int endpoint else endpoint = 0
  | none => endpoint = 0

/-- All an update is made of is there: two unsigned ids, a property and a value. -/
def Complete : Prop :=
  ((e.node.get "nodeId").bind Json.asU64).isSome ∧
    ((e.args.get "commandClass").bind Json.asU64).isSome ∧
    (e.property serde).isSome ∧ e.value.isSome

/-- The ids fit the types they go to. -/
def Fits : Prop :=
  (∃ node < 2^32, e.NodeIs node) ∧ (∃ endpoint < 2^16, e.EndpointIs endpoint) ∧
    ∃ commandClass < 2^16, e.ClassIs commandClass

open Classical in
/-- The entry is due an update. -/
noncomputable def due : Bool := decide (e.Complete serde ∧ e.Fits)

/-- The update is the entry's own: its ids are the integers that the entry gives. -/
structure Carries (u : ValueUpdate) : Prop where
  node : e.NodeIs u.node
  endpoint : e.EndpointIs u.endpoint.toNat
  commandClass : e.ClassIs u.commandClass
  property : e.property serde = some u.property
  propertyKey : e.propertyKey serde = u.propertyKey
  value : e.value = some u.value
  notification : e.notification = u.notification

/-- What an entry becomes, in either kind of frame. -/
def update : Option ValueUpdate := do
  let node ← (e.node.get "nodeId").bind Json.asU64
  let commandClass ← (e.args.get "commandClass").bind Json.asU64
  let property ← e.property serde
  let value ← e.value
  some ⟨node%2^32,endpointId (e.args.get "endpoint"),commandClass%2^16,property,
    e.propertyKey serde,value,e.notification⟩

end Entry

/-- The event is of the device. -/
def Concerns (device : DeviceId) : Event → Prop
  | .action d _ | .stateReported d _ => d = device
  | _ => False

/-- A frame is attributed exactly: its updates are its complete entries whose ids fit, each with
its own ids, and an event is of a device that an entry of the frame names. -/
structure Attributed (txt : String) : Prop where
  updates : List.Forall₂ (Entry.Carries serde)
    ((Entry.ofText serde txt).filter (Entry.due serde)) (parseInbound serde txt)
  events : ∀ (byNode : HashMap NodeAddress DeviceId)
    (actions : HashMap DeviceId (HashMap String ActionId)) (device : DeviceId),
    ∀ u ∈ parseInbound serde txt, ∀ ev ∈ updateToEvents byNode actions u, Concerns device ev →
      ∃ e ∈ Entry.ofText serde txt, ∃ (node : ℕ) (endpoint : UInt16),
        e.NodeIs node ∧ e.EndpointIs endpoint.toNat ∧ byNode.lookup (node,endpoint) = some device

variable {serde}

theorem parseEvent_eq (event : Option Json) :
    parseEvent serde event = (event.bind Entry.ofEvent).bind (Entry.update serde) := by
  cases event with
  | none => rfl
  | some event =>
    simp only [parseEvent,Entry.ofEvent,Option.bind_some,Option.bind_eq_bind]
    by_cases hs : (event.get "source").bind Json.asStr = some "node"
    · rw [if_neg (not_not.mpr hs),if_neg (not_not.mpr hs)]
      cases ((event.get "event").bind Json.asStr).bind isNotification with
      | none => rfl
      | some notification =>
        simp only [Option.bind_some]
        cases event.get "args" with
        | none => cases (event.get "nodeId").bind Json.asU64 <;> rfl
        | some args =>
          simp only [Option.bind_some,Entry.update,Entry.property,Entry.propertyKey,
            Option.bind_eq_bind]
          cases (event.get "nodeId").bind Json.asU64 with
          | none => rfl
          | some node =>
            -- the two read the value and the ids in a different order
            cases eventValue args notification with
            | some value => rfl
            | none =>
              cases (args.get "commandClass").bind Json.asU64 with
              | none => rfl
              | some _ => cases propertyString serde (args.get "property") <;> rfl
    · rw [if_pos hs,if_pos hs]
      rfl

theorem parseNodeSnapshot_eq (node : Json) :
    parseNodeSnapshot serde node = (Entry.ofNode node).filterMap (Entry.update serde) := by
  unfold parseNodeSnapshot Entry.ofNode
  cases hn : (node.get "nodeId").bind Json.asU64 with
  | none =>
    symm
    apply List.filterMap_eq_nil_iff.mpr
    intro e he
    obtain ⟨val,-,rfl⟩ := List.mem_map.mp he
    rw [Entry.update,hn]
    rfl
  | some id =>
    cases (node.get "values").bind Json.asArray with
    | none => rfl
    | some values =>
      rw [Option.getD_some,List.filterMap_map]
      apply List.filterMap_congr
      intro val _
      simp only [Function.comp_apply,Entry.update,hn,Entry.property,Entry.propertyKey]
      rfl

/-- Both parsers read a frame entry by entry. -/
theorem parseInbound_eq (txt : String) :
    parseInbound serde txt = (Entry.ofText serde txt).filterMap (Entry.update serde) := by
  unfold parseInbound Entry.ofText
  cases serde.fromStr txt with
  | none => rfl
  | some v =>
    simp only [Option.map_some,Option.getD_some,Entry.ofFrame]
    split_ifs
    · rw [parseEvent_eq]
      cases (v.get "event").bind Entry.ofEvent with
      | none => rfl
      | some e => cases h : e.update serde <;> simp [h]
    · cases snapshotNodes v with
      | none => rfl
      | some nodes =>
        rw [Option.getD_some,List.filterMap_flatMap]
        exact List.flatMap_congr fun node _ => parseNodeSnapshot_eq node

namespace Entry
variable {e : Entry}

theorem due_iff : e.due serde = true ↔ e.Complete serde ∧ e.Fits := by simp [due]

theorem complete_iff_update : e.Complete serde ↔ (e.update serde).isSome := by
  unfold Complete update
  cases (e.node.get "nodeId").bind Json.asU64 <;>
    cases (e.args.get "commandClass").bind Json.asU64 <;>
    cases e.property serde <;> cases e.value <;> simp

/-- What an update is made of. -/
theorem of_update {u : ValueUpdate} (h : e.update serde = some u) :
    ∃ node < 2^64, e.NodeIs node ∧ u.node = node%2^32 ∧
      ∃ commandClass < 2^64, e.ClassIs commandClass ∧ u.commandClass = commandClass%2^16 ∧
        u.endpoint = endpointId (e.args.get "endpoint") ∧ e.property serde = some u.property ∧
        e.propertyKey serde = u.propertyKey ∧ e.value = some u.value ∧
        e.notification = u.notification := by
  simp only [update,Option.bind_eq_bind,Option.bind_eq_some_iff,Option.some.injEq] at h
  obtain ⟨node,⟨v,hv,hn⟩,commandClass,⟨w,hw,hc⟩,property,hp,value,hval,rfl⟩ := h
  obtain ⟨rfl,hnlt⟩ := Json.asU64_eq_some hn
  obtain ⟨rfl,hclt⟩ := Json.asU64_eq_some hc
  exact ⟨node,hnlt,hv,rfl,commandClass,hclt,hw,rfl,rfl,hp,rfl,hval,rfl⟩

/-- An endpoint that fits is read as it is. -/
theorem endpointIs_endpointId {endpoint : ℕ} (hlt : endpoint < 2^16) (h : e.EndpointIs endpoint) :
    e.EndpointIs (endpointId (e.args.get "endpoint")).toNat := by
  have hid : (endpointId (e.args.get "endpoint")).toNat = endpoint := by
    unfold EndpointIs at h
    split at h
    · rename_i v hv
      rw [endpointId,hv]
      split_ifs at h with hn
      · rw [h,Option.bind_some,Json.asU64_int (by omega),Option.getD_some]
        exact UInt16.toNat_ofNat_of_lt' hlt
      · subst h
        cases v <;> first | rfl | exact absurd rfl hn
    · rename_i hv
      rw [endpointId,hv,h]
      rfl
  rw [hid]
  exact h

theorem nodeIs_unique {n m : ℕ} (hn : e.NodeIs n) (hm : e.NodeIs m) : n = m := by
  have h := hn.symm.trans hm
  simpa using h

theorem classIs_unique {n m : ℕ} (hn : e.ClassIs n) (hm : e.ClassIs m) : n = m := by
  have h := hn.symm.trans hm
  simpa using h

/-- An entry whose ids fit gives them to its update uncut. -/
theorem carries_of_fits {u : ValueUpdate} (hf : e.Fits) (h : e.update serde = some u) :
    e.Carries serde u := by
  obtain ⟨node,-,hn,hun,commandClass,-,hc,huc,hue,hp,hk,hv,hm⟩ := of_update h
  obtain ⟨⟨n,hlt,hn'⟩,⟨endpoint,he,hend⟩,c,hclt,hc'⟩ := hf
  obtain rfl := nodeIs_unique hn hn'
  obtain rfl := classIs_unique hc hc'
  refine ⟨?_,?_,?_,hp,hk,hv,hm⟩
  · rwa [hun,Nat.mod_eq_of_lt hlt]
  · rw [hue]
    exact endpointIs_endpointId he hend
  · rwa [huc,Nat.mod_eq_of_lt hclt]

end Entry

/-- What a filter keeps, item by item as a partial function maps it. -/
theorem forall₂_filter_filterMap {α β : Type} {R : α → β → Prop} {f : α → Option β}
    {p : α → Bool} {l : List α} (hp : ∀ a ∈ l, p a = (f a).isSome)
    (hR : ∀ a ∈ l, ∀ b, f a = some b → R a b) : List.Forall₂ R (l.filter p) (l.filterMap f) := by
  induction l with
  | nil => exact .nil
  | cons a l ih =>
    have ih := ih (fun b hb => hp b (List.mem_cons_of_mem a hb))
      fun b hb => hR b (List.mem_cons_of_mem a hb)
    have ha := hp a List.mem_cons_self
    cases hf : f a with
    | none =>
      rw [hf] at ha
      rwa [List.filter_cons_of_neg (by simp [ha]),List.filterMap_cons_none hf]
    | some b =>
      rw [hf] at ha
      rw [List.filter_cons_of_pos ha,List.filterMap_cons_some hf]
      exact .cons (hR a List.mem_cons_self b hf) ih

/-- A filter of what a partial function maps is as long as the mapped list only where it keeps
all of it. -/
theorem of_length_filter_eq {α β : Type} {f : α → Option β} {p : α → Bool} {l : List α}
    (hp : ∀ a, p a = true → (f a).isSome) (h : (l.filter p).length = (l.filterMap f).length) :
    ∀ a ∈ l, (f a).isSome → p a = true := by
  intro a ha hf
  rw [List.length_filterMap_eq_countP,List.countP_eq_length_filter] at h
  have hsub := List.monotone_filter_right l hp
  have hmem : a ∈ l.filter fun b => (f b).isSome := List.mem_filter.mpr ⟨ha,hf⟩
  rw [← hsub.eq_of_length h] at hmem
  exact (List.mem_filter.mp hmem).2

/-- An event of an update is of the device that is looked up. -/
theorem lookup_of_mem_updateToEvents {byNode : HashMap NodeAddress DeviceId}
    {actions : HashMap DeviceId (HashMap String ActionId)} {u : ValueUpdate} {ev : Event}
    {device : DeviceId} (h : ev ∈ updateToEvents byNode actions u) (hd : Concerns device ev) :
    byNode.lookup (u.node,u.endpoint) = some device := by
  unfold updateToEvents at h
  split at h
  · cases h
  · rename_i d hl
    rw [hl]
    split_ifs at h with hs hn
    · obtain ⟨raw,-,hr⟩ := Option.bind_eq_some_iff.mp (Option.mem_toList.mp h)
      obtain ⟨action,-,rfl⟩ := Option.map_eq_some_iff.mp hr
      exact congrArg some hd
    · cases h
    · obtain ⟨s,-,rfl⟩ := List.mem_map.mp h
      exact congrArg some hd

/-- A frame is attributed exactly when the ids of its complete entries fit: a wider id is cut to
that of another node, endpoint or class, and an endpoint that is no unsigned integer to the root. -/
theorem attributed_iff_fits (serde : JsonText) (txt : String) :
    Attributed serde txt ↔ ∀ e ∈ Entry.ofText serde txt, e.Complete serde → e.Fits := by
  constructor
  · intro h e he hc
    have hlen := h.updates.length_eq
    rw [parseInbound_eq] at hlen
    have hdue := of_length_filter_eq
      (fun e hd => Entry.complete_iff_update.mp (Entry.due_iff.mp hd).1) hlen e he
      (Entry.complete_iff_update.mp hc)
    exact (Entry.due_iff.mp hdue).2
  · intro h
    refine ⟨?_,?_⟩
    · rw [parseInbound_eq]
      refine forall₂_filter_filterMap (fun e he => ?_) fun e he u hu => ?_
      · rw [Bool.eq_iff_iff,Entry.due_iff,← Entry.complete_iff_update]
        exact ⟨And.left,fun hc => ⟨hc,h e he hc⟩⟩
      · have hc := Entry.complete_iff_update.mpr (Option.isSome_iff_exists.mpr ⟨u,hu⟩)
        exact Entry.carries_of_fits (h e he hc) hu
    · intro byNode actions device u hu ev hev hd
      rw [parseInbound_eq] at hu
      obtain ⟨e,he,hue⟩ := List.mem_filterMap.mp hu
      have hc := Entry.complete_iff_update.mpr (Option.isSome_iff_exists.mpr ⟨u,hue⟩)
      have hcar := Entry.carries_of_fits (h e he hc) hue
      exact ⟨e,he,u.node,u.endpoint,hcar.node,hcar.endpoint,lookup_of_mem_updateToEvents hev hd⟩

/-- A reading of node 4294967301, one past the ids of 32 bits and five. -/
def wideFrame : Json :=
  .ofFields [("type",.string "event"),("event",.ofFields [("source",.string "node"),
    ("event",.string "value updated"),("nodeId",.int 4294967301),
    ("args",.ofFields [("commandClass",.int 37),("property",.string "currentValue"),
      ("newValue",.bool true)])])]

def wideText : String :=
  "\x7b\"type\":\"event\",\"event\":\x7b\"source\":\"node\",\"event\":\"value updated\"," ++
    "\"nodeId\":4294967301,\"args\":\x7b\"commandClass\":37,\"property\":\"currentValue\"," ++
    "\"newValue\":true\x7d\x7d\x7d"

/-- A reader that knows one text. -/
def wideJson : JsonText := ⟨fun txt => if txt = wideText then some wideFrame else none,Float.toString⟩

/-- It is read as node 5's, and switches the device that is node 5. -/
theorem not_attributed_wideFrame :
    (parseInbound wideJson wideText).flatMap
        (updateToEvents ((∅ : HashMap NodeAddress DeviceId).insert (5,0) ⟨1⟩) ∅) =
      [.stateReported ⟨1⟩ (.switch true)] ∧
    ¬Attributed wideJson wideText := by
  have read : wideJson.fromStr wideText = some wideFrame := by simp only [wideJson,if_true]
  have hread : (parseInbound wideJson wideText).flatMap
      (updateToEvents ((∅ : HashMap NodeAddress DeviceId).insert (5,0) ⟨1⟩) ∅) =
        [.stateReported ⟨1⟩ (.switch true)] := by
    rw [parseInbound,read]
    decide
  have hids : (Entry.ofText wideJson wideText).all fun e =>
      ((e.node.get "nodeId").bind Json.asU64) == some 4294967301 := by
    rw [Entry.ofText,read]
    decide
  refine ⟨hread,fun h => ?_⟩
  obtain ⟨u,hu,hev⟩ := List.mem_flatMap.mp (hread ▸ List.mem_singleton_self _)
  obtain ⟨e,he,node,endpoint,hn,-,hl⟩ := h.events _ _ ⟨1⟩ u hu _ hev rfl
  have hid := List.all_eq_true.mp hids e he
  rw [hn] at hid
  rw [HashMap.lookup_insert] at hl
  split_ifs at hl with hk
  · obtain rfl := congrArg Prod.fst hk
    exact absurd hid (by decide)
  · cases hl

end ZwaveJs
end Domiform
