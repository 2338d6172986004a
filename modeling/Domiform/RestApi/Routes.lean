import Domiform.RestApi.Describe
import Domiform.RestApi.Http
import Domiform.RestApi.Status

/-! Routing: a method, a path and a body give a response, and what is queued for the engine. Which
handler gets which entry is a function of the method and the path alone. -/
namespace Domiform
open Library

/-- The handle with the statuses of the rules and its channel: what was sent into it, and whether the
engine still holds the other end. -/
structure ApiHandle extends RestApiHandle where
  rules : HashMap RuleId RuleStatus
  outbound : List Inbound
  connected : Bool

namespace ApiHandle

def ruleStatus (h : ApiHandle) (rule : RuleId) : RuleStatus := (h.rules.lookup rule).getD .default

def engineNow (h : ApiHandle) : Millis := h.shared.now

/-- Whether the request could be queued. -/
def request (h : ApiHandle) (inbound : Inbound) : Bool × ApiHandle :=
  if h.connected then (true,{ h with outbound := h.outbound ++ [inbound] }) else (false,h)

end ApiHandle

namespace Routes

def methodNotAllowed (got allowed : String) : Response :=
  .error 405 "method_not_allowed" (got ++ " is not allowed here; use " ++ allowed)

def unknownRoute (path : String) : Response :=
  .error 404 "unknown_route" ("no route for '" ++ path ++ "'")

def unknownDevice (name : String) : Response :=
  .error 404 "unknown_device" ("no device named '" ++ name ++ "'")

def unknownScene (name : String) : Response :=
  .error 404 "unknown_scene" ("no scene named '" ++ name ++ "'")

def unknownRule (name : String) : Response :=
  .error 404 "unknown_rule" ("no rule named '" ++ name ++ "'")

def unknownEvent (entry : DeviceEntry) (name event : String) : Response :=
  let declared := ", ".intercalate (entry.events.map Prod.fst)
  .error 404 "unknown_event" ("device '" ++ name ++ "' declares no event '" ++ event ++
    "' (it has: " ++ (if declared = "" then "no events" else declared) ++ ")")

def truthName : Truth → String
  | .true => "true"
  | .false => "false"
  | .unknown => "unknown"

/-- `CARGO_PKG_VERSION`. -/
def packageVersion : String := "0.0.0"

section Handlers
variable (directory : NamedDirectory) (h : ApiHandle)

def getOnly (method : String) (response : Response) : Response × ApiHandle :=
  if method = "GET" then (response,h) else (methodNotAllowed method "GET",h)

def postOnly (method : String) (answer : Response × ApiHandle) : Response × ApiHandle :=
  if method = "POST" then answer else (methodNotAllowed method "POST",h)

def system : Response := ⟨200,.ofFields [
  ("name",.orNull (directory.systemName.map .string)),
  ("timezone",.string directory.timezone),
  ("engine_now_ms",.int h.engineNow),
  ("version",.string packageVersion),
  ("devices",.int directory.devices.length),
  ("scenes",.int directory.scenes.length),
  ("rules",.int directory.rules.length)]⟩

def device (name : String) : Response :=
  match directory.device name with
  | some entry => ⟨200,deviceJson entry h.toRestApiHandle⟩
  | none => unknownDevice name

def sceneJson (entry : SceneEntry) : Json :=
  .ofFields [
    ("name",.string entry.name),
    ("commands",.int entry.commands.length),
    ("then",.array (Describe.commands directory entry.commands))]

def scenes : Response := ⟨200,.ofFields [("scenes",.array (directory.scenes.map (sceneJson directory)))]⟩

def scene (name : String) : Response :=
  match directory.scene name with
  | some entry => ⟨200,sceneJson directory entry⟩
  | none => unknownScene name

/-- The fields of the status are inserted into the shape of the rule. -/
def ruleJson (rule : Rule) : Json :=
  let status := h.ruleStatus rule.id
  match Describe.ruleShape directory rule with
  | .object fields => .object ([
      ("last_considered_ms",.ofMillis status.lastConsideredMs),
      ("last_truth",.orNull (status.lastTruth.map fun t => .string (truthName t))),
      ("last_fired_ms",.ofMillis status.lastFiredMs),
      ("fire_count",.int status.fireCount)].foldl (fun fs f => Json.insertField fs f.1 f.2) fields)
  | other => other

def rules : Response := ⟨200,.ofFields [("rules",.array (directory.rules.map (ruleJson directory h)))]⟩

def rule (name : String) : Response :=
  match directory.rule name with
  | some entry => ⟨200,ruleJson directory h entry⟩
  | none => unknownRule name

def queue (inbound : Inbound) : Response × ApiHandle :=
  match h.request inbound with
  | (true,h) => (⟨202,.ofFields [("accepted",.bool true)]⟩,h)
  | (false,h) => (.error 503 "engine_unavailable"
      "the engine is not accepting requests (shutting down)",h)

def activate (name : String) : Response × ApiHandle :=
  match directory.scene name with
  | none => (unknownScene name,h)
  | some entry => queue h (.scene entry.id)

def fireEvent (name event : String) : Response × ApiHandle :=
  match directory.device name with
  | none => (unknownDevice name,h)
  | some entry =>
    match entry.action event with
    | none => (unknownEvent entry name event,h)
    | some action => queue h (.action entry.id action)

/-- `fromSlice` reads a body as JSON. -/
def intent (fromSlice : List UInt8 → Except String Json) (name : String) (body : List UInt8) :
    Response × ApiHandle :=
  match directory.device name with
  | none => (unknownDevice name,h)
  | some entry =>
    match parseIntent entry (fromSlice body) with
    | .ok desired => queue h (.device entry.id desired)
    | .error response => (response,h)

def handle (fromSlice : List UInt8 → Except String Json) (method path : String) (body : List UInt8) :
    Response × ApiHandle :=
  match (Text.segments path.toList).map String.ofList with
  | ["system"] => getOnly h method (system directory h)
  | ["devices"] => getOnly h method (devices directory.toDirectory h.toRestApiHandle)
  | ["devices",name] => getOnly h method (device directory h name)
  | ["devices",name,"intent"] => postOnly h method (intent directory h fromSlice name body)
  | ["devices",name,"events",event] => postOnly h method (fireEvent directory h name event)
  | ["scenes"] => getOnly h method (scenes directory)
  | ["scenes",name] => getOnly h method (scene directory name)
  | ["scenes",name,"activate"] => postOnly h method (activate directory h name)
  | ["rules"] => getOnly h method (rules directory h)
  | ["rules",name] => getOnly h method (rule directory h name)
  | _ => (unknownRoute path,h)

end Handlers

end Routes

/-- Where a request is routed to: the handler, with the entry it is about. -/
inductive Route
  | system
  | devices
  | device (entry : DeviceEntry)
  | intent (entry : DeviceEntry)
  | event (entry : DeviceEntry) (action : ActionId)
  | scenes
  | scene (entry : SceneEntry)
  | activate (entry : SceneEntry)
  | rules
  | rule (entry : Rule)
  | refused (response : Response)

namespace Route

/-- A route that takes one method only. -/
def only (allowed method : String) (route : Route) : Route :=
  if method = allowed then route else .refused (Routes.methodNotAllowed method allowed)

section Finding
variable (directory : NamedDirectory)

def ofDevice (make : DeviceEntry → Route) (name : String) : Route :=
  ((directory.device name).map make).getD (.refused (Routes.unknownDevice name))

def ofEvent (name event : String) : Route :=
  ofDevice directory (fun entry =>
    ((entry.action event).map (.event entry)).getD
      (.refused (Routes.unknownEvent entry name event))) name

def ofScene (make : SceneEntry → Route) (name : String) : Route :=
  ((directory.scene name).map make).getD (.refused (Routes.unknownScene name))

def ofRule (name : String) : Route :=
  ((directory.rule name).map .rule).getD (.refused (Routes.unknownRule name))

/-- The route of a request. -/
def find (method path : String) : Route :=
  match (Text.segments path.toList).map String.ofList with
  | ["system"] => only "GET" method .system
  | ["devices"] => only "GET" method .devices
  | ["devices",name] => only "GET" method (ofDevice directory .device name)
  | ["devices",name,"intent"] => only "POST" method (ofDevice directory .intent name)
  | ["devices",name,"events",eventName] => only "POST" method (ofEvent directory name eventName)
  | ["scenes"] => only "GET" method .scenes
  | ["scenes",name] => only "GET" method (ofScene directory .scene name)
  | ["scenes",name,"activate"] => only "POST" method (ofScene directory .activate name)
  | ["rules"] => only "GET" method .rules
  | ["rules",name] => only "GET" method (ofRule directory name)
  | _ => .refused (Routes.unknownRoute path)

/-- What the handler of a route does. -/
def answer (h : ApiHandle) (fromSlice : List UInt8 → Except String Json) (body : List UInt8) :
    Route → Response × ApiHandle
  | .system => (Routes.system directory h,h)
  | .devices => (Domiform.devices directory.toDirectory h.toRestApiHandle,h)
  | .device entry => (⟨200,deviceJson entry h.toRestApiHandle⟩,h)
  | .intent entry =>
    match parseIntent entry (fromSlice body) with
    | .ok desired => Routes.queue h (.device entry.id desired)
    | .error response => (response,h)
  | .event entry action => Routes.queue h (.action entry.id action)
  | .scenes => (Routes.scenes directory,h)
  | .scene entry => (⟨200,Routes.sceneJson directory entry⟩,h)
  | .activate entry => Routes.queue h (.scene entry.id)
  | .rules => (Routes.rules directory h,h)
  | .rule entry => (⟨200,Routes.ruleJson directory h entry⟩,h)
  | .refused response => (response,h)

end Finding

section Answers
variable {directory : NamedDirectory} {h : ApiHandle} {fromSlice : List UInt8 → Except String Json}
  {method path name event : String} {body : List UInt8} {response : Response}

theorem getOnly_eq {route : Route} (hr : route.answer directory h fromSlice body = (response,h)) :
    Routes.getOnly h method response =
      (only "GET" method route).answer directory h fromSlice body := by
  rw [Routes.getOnly,only]
  split_ifs
  · exact hr.symm
  · rfl

theorem postOnly_eq {route : Route} {answered : Response × ApiHandle}
    (hr : route.answer directory h fromSlice body = answered) : Routes.postOnly h method answered =
      (only "POST" method route).answer directory h fromSlice body := by
  rw [Routes.postOnly,only]
  split_ifs
  · exact hr.symm
  · rfl

theorem answer_device : (ofDevice directory .device name).answer directory h fromSlice body =
    (Routes.device directory h name,h) := by
  rw [ofDevice,Routes.device]
  cases directory.device name <;> rfl

theorem answer_intent : (ofDevice directory .intent name).answer directory h fromSlice body =
    Routes.intent directory h fromSlice name body := by
  rw [ofDevice,Routes.intent]
  cases directory.device name <;> rfl

theorem answer_event : (ofEvent directory name event).answer directory h fromSlice body =
    Routes.fireEvent directory h name event := by
  rw [ofEvent,ofDevice,Routes.fireEvent]
  cases directory.device name with
  | none => rfl
  | some entry =>
    dsimp only [Option.map_some,Option.getD_some]
    cases entry.action event <;> rfl

theorem answer_scene : (ofScene directory .scene name).answer directory h fromSlice body =
    (Routes.scene directory name,h) := by
  rw [ofScene,Routes.scene]
  cases directory.scene name <;> rfl

theorem answer_activate : (ofScene directory .activate name).answer directory h fromSlice body =
    Routes.activate directory h name := by
  rw [ofScene,Routes.activate]
  cases directory.scene name <;> rfl

theorem answer_rule : (ofRule directory name).answer directory h fromSlice body =
    (Routes.rule directory h name,h) := by
  rw [ofRule,Routes.rule]
  cases directory.rule name <;> rfl

/-- A request is handled as its route says. -/
theorem handle_eq_answer : Routes.handle directory h fromSlice method path body =
    (find directory method path).answer directory h fromSlice body := by
  unfold Routes.handle find
  split
  · exact getOnly_eq rfl
  · exact getOnly_eq rfl
  · exact getOnly_eq answer_device
  · exact postOnly_eq answer_intent
  · exact postOnly_eq answer_event
  · exact getOnly_eq rfl
  · exact getOnly_eq answer_scene
  · exact postOnly_eq answer_activate
  · exact getOnly_eq rfl
  · exact getOnly_eq answer_rule
  · rfl

end Answers
end Route
end Domiform
