import Domiform.Library.Percent
import Domiform.RestApi.Requests
import Domiform.RestApi.Routes

/-! Names in the path of a request. A client writes them percent-encoded; the path is split and looked
up as it came, so that a name is found exactly if its encoding is the name itself. -/
namespace Domiform
open Library

/-- What a request can be about, by name. -/
inductive Destination
  | device (d : DeviceDef)
  | intent (d : DeviceDef)
  | event (d : DeviceDef) (e : DeviceEvent)
  | scene (s : CompiledScene)
  | activate (s : CompiledScene)
  | rule (r : Rule)

namespace Destination

def method : Destination → String
  | device _ | scene _ | rule _ => "GET"
  | intent _ | event _ _ | activate _ => "POST"

/-- The names in the path. -/
def names : Destination → List String
  | device d | intent d => [d.name]
  | event d e => [d.name,e.name]
  | scene s | activate s => [s.name]
  | rule r => [r.name]

/-- The segments of the path, with the names as they are written in it. -/
def segments (write : String → String) : Destination → List String
  | device d => ["devices",write d.name]
  | intent d => ["devices",write d.name,"intent"]
  | event d e => ["devices",write d.name,"events",write e.name]
  | scene s => ["scenes",write s.name]
  | activate s => ["scenes",write s.name,"activate"]
  | rule r => ["rules",write r.name]

/-- The handler, and the entry of what the request is about. -/
def route : Destination → Route
  | device d => .device (.ofDevice d)
  | intent d => .intent (.ofDevice d)
  | event d e => .event (.ofDevice d) e.id
  | scene s => .scene (.ofScene s)
  | activate s => .activate (.ofScene s)
  | rule r => .rule r

/-- It is in the config. -/
def Declared (cfg : CompiledConfig) : Destination → Prop
  | device d | intent d => d ∈ cfg.devices
  | event d e => d ∈ cfg.devices ∧ e ∈ d.events
  | scene s | activate s => s ∈ cfg.scenes
  | rule r => r ∈ cfg.rules

/-- The device, if the request is about one. -/
def target : Destination → Option DeviceDef
  | device d | intent d | event d _ => some d
  | scene _ | activate _ | rule _ => none

/-- The names stand for themselves, and none is that of the clock. -/
structure Plain (x : Destination) : Prop where
  unreserved : ∀ n ∈ x.names, Percent.Unreserved n.toList
  other : ∀ d ∈ x.target, d.name ≠ clockDeviceName

/-- A name as it is written in a path. -/
def encoded (name : String) : String := .ofList (Percent.encode name.toList)

/-- The path of a request with percent-encoded names. -/
def path (x : Destination) : List Char :=
  (x.segments encoded).flatMap fun s => '/' :: s.toList

end Destination

namespace Text

theorem intercalate_slash (s : List Char) (ss : List (List Char)) :
    ['/'].intercalate (s :: ss) = s ++ ss.flatMap fun t => '/' :: t := by
  induction ss generalizing s with
  | nil => simp
  | cons t ss ih =>
    rw [List.intercalate_cons_cons,ih,List.flatMap_cons,List.cons_append,List.append_assoc,
      List.singleton_append]

/-- A path of segments is split into them. -/
theorem segments_flatMap {ss : List (List Char)} (h : ∀ s ∈ ss, s ≠ [] ∧ '/' ∉ s) :
    segments (ss.flatMap fun s => '/' :: s) = ss := by
  have hs : (ss.flatMap fun s => '/' :: s).splitOn '/' = [] :: ss := by
    rw [← List.nil_append (ss.flatMap fun s => '/' :: s),← intercalate_slash]
    refine List.splitOn_intercalate '/' ?_ (List.cons_ne_nil _ _)
    rintro l hl
    rcases List.mem_cons.mp hl with rfl | hl
    · simp
    · exact (h l hl).2
  rw [segments,hs,List.filter_cons_of_neg (by simp)]
  refine List.filter_eq_self.mpr fun s hs => ?_
  simpa using (h s hs).1

end Text

namespace Destination

theorem encoded_eq_self_iff {n : String} :
    encoded n = n ↔ Percent.Unreserved n.toList := by
  rw [← Percent.encode_eq_self_iff,encoded]
  constructor
  · intro h
    rw [← String.toList_ofList (l := Percent.encode n.toList),h]
  · intro h
    rw [h,String.ofList_toList]

section Paths
variable {x : Destination}

theorem mem_segments {write : String → String} {s : String} (h : s ∈ x.segments write) :
    s ∈ ["devices","intent","events","scenes","activate","rules"] ∨ ∃ n ∈ x.names, s = write n := by
  cases x <;> (simp only [segments,names,List.mem_cons,List.not_mem_nil,or_false] at h ⊢; grind)

/-- What stands between the slashes of a path. -/
theorem clean_of_mem_segments (named : ∀ n ∈ x.names, n ≠ "") {s : String}
    (h : s ∈ x.segments encoded) :
    s.toList ≠ [] ∧ Percent.Clean s.toList := by
  have fixed : ∀ s ∈ ["devices","intent","events","scenes","activate","rules"],
      s.toList ≠ [] ∧ Percent.Clean s.toList := by decide
  rcases mem_segments h with h | ⟨n,hn,rfl⟩
  · exact fixed s h
  · rw [encoded,String.toList_ofList]
    refine ⟨Percent.encode_ne_nil fun hnil => ?_,Percent.clean_encode _⟩
    exact named n hn (String.toList_eq_nil_iff.mp hnil)

theorem pathOf_path (named : ∀ n ∈ x.names, n ≠ "") : Http.pathOf x.path = x.path := by
  refine List.takeWhile_eq_self_iff.mpr fun c hc => ?_
  obtain ⟨s,hs,hc⟩ := List.mem_flatMap.mp hc
  have clean : Percent.unreserved c = true ∨ c = '%' ∨ c = '/' := by
    rcases List.mem_cons.mp hc with rfl | hc
    · exact .inr (.inr rfl)
    · rcases (clean_of_mem_segments named hs).2 c hc with h | h
      · exact .inl h
      · exact .inr (.inl h)
  rw [decide_eq_true_eq]
  constructor
  · rintro rfl
    revert clean
    decide
  · rintro rfl
    revert clean
    decide

theorem segments_path (named : ∀ n ∈ x.names, n ≠ "") :
    (Text.segments x.path).map String.ofList = x.segments encoded := by
  have hpath : x.path = ((x.segments encoded).map String.toList).flatMap fun s => '/' :: s := by
    rw [path,List.flatMap_map]
  rw [hpath,Text.segments_flatMap]
  · rw [List.map_map]
    refine (List.map_congr_left fun s _ => ?_).trans (List.map_id _)
    exact String.ofList_toList
  · intro l hl
    obtain ⟨s,hs,rfl⟩ := List.mem_map.mp hl
    obtain ⟨filled,clean⟩ := clean_of_mem_segments named hs
    refine ⟨filled,fun hslash => ?_⟩
    exact absurd (clean _ hslash) (by decide)

/-- What is found under the names as they are written. -/
def found (directory : NamedDirectory) (write : String → String) : Destination → Route
  | device d => .ofDevice directory .device (write d.name)
  | intent d => .ofDevice directory .intent (write d.name)
  | event d e => .ofEvent directory (write d.name) (write e.name)
  | scene s => .ofScene directory .scene (write s.name)
  | activate s => .ofScene directory .activate (write s.name)
  | rule r => .ofRule directory (write r.name)

theorem find_path (directory : NamedDirectory) (named : ∀ n ∈ x.names, n ≠ "") :
    Route.find directory x.method (.ofList x.path) = x.found directory encoded := by
  rw [Route.find,String.toList_ofList,segments_path named]
  cases x <;> rfl

end Paths

section Lookups
variable {lib : Libraries} {π : HashOrder} {raw : RawConfig} {cfg : CompiledConfig}

/-- A device is found under its own name, if that is not the clock's. -/
theorem device_eq_some_iff (accepted : resolve lib π raw = .ok cfg) {d : DeviceDef}
    (hd : d ∈ cfg.devices) {n : String} :
    (NamedDirectory.fromConfig cfg).device n = some (.ofDevice d) ↔
      n = d.name ∧ d.name ≠ clockDeviceName := by
  constructor
  · intro h
    obtain rfl : d.name = n := NamedDirectory.name_of_device accepted h
    refine ⟨rfl,fun same => ?_⟩
    rw [same,NamedDirectory.device_clock accepted] at h
    have hid := congrArg DeviceEntry.id (Option.some.inj h)
    exact NamedDirectory.id_ne_clockDevice accepted hd hid.symm
  · rintro ⟨rfl,other⟩
    exact NamedDirectory.device_of_ne accepted hd other

theorem action_eq_some_iff (accepted : resolve lib π raw = .ok cfg) {d : DeviceDef}
    (hd : d ∈ cfg.devices) {e : DeviceEvent} (he : e ∈ d.events) {n : String} :
    (DeviceEntry.ofDevice d).action n = some e.id ↔ n = e.name := by
  constructor
  · intro h
    obtain ⟨p,hf,hp⟩ := Option.map_eq_some_iff.mp h
    obtain ⟨e',he',rfl⟩ := List.mem_map.mp (List.mem_of_find?_eq_some hf)
    have hn : e'.name = n := by simpa using List.find?_some hf
    rw [← List.inj_on_of_nodup_map (event_ids_nodup accepted hd) he' he hp]
    exact hn.symm
  · rintro rfl
    exact NamedDirectory.action_ofDevice accepted hd he

theorem scene_eq_some_iff (accepted : resolve lib π raw = .ok cfg) {s : CompiledScene}
    (hs : s ∈ cfg.scenes) {n : String} :
    (NamedDirectory.fromConfig cfg).scene n = some (.ofScene s) ↔ n = s.name := by
  constructor
  · exact fun h => (NamedDirectory.name_of_scene accepted h).symm
  · rintro rfl
    exact (NamedDirectory.scene_ofScene accepted hs).1

theorem rule_eq_some_iff (accepted : resolve lib π raw = .ok cfg) {r : Rule} (hr : r ∈ cfg.rules)
    {n : String} : (NamedDirectory.fromConfig cfg).rule n = some r ↔ n = r.name := by
  constructor
  · exact fun h => (NamedDirectory.name_of_rule accepted h).symm
  · rintro rfl
    exact (NamedDirectory.rule_of_mem accepted hr).1

/-- An entry that was looked up is the entry of the route. -/
theorem getD_map_eq_iff {α : Type} {make : α → Route} (inj : Function.Injective make) {a : α}
    {response : Response} (apart : .refused response ≠ make a) {o : Option α} :
    (o.map make).getD (.refused response) = make a ↔ o = some a := by
  cases o with
  | none => simp [apart]
  | some b => simp [inj.eq_iff]

theorem ofEvent_eq_iff {directory : NamedDirectory} {n m : String} {entry : DeviceEntry}
    {action : ActionId} : Route.ofEvent directory n m = .event entry action ↔
      directory.device n = some entry ∧ entry.action m = some action := by
  rw [Route.ofEvent,Route.ofDevice]
  cases directory.device n with
  | none => simp
  | some entry' =>
    rw [Option.map_some,Option.getD_some]
    cases ha : entry'.action m with
    | none =>
      simp only [Option.map_none,Option.getD_none,reduceCtorEq,false_iff,Option.some.injEq,not_and]
      rintro rfl
      simp [ha]
    | some action' =>
      simp only [Option.map_some,Option.getD_some,Route.event.injEq,Option.some.injEq]
      refine and_congr_right ?_
      rintro rfl
      rw [ha,Option.some.injEq]

/-- Under whatever names it is looked up, an entry is found exactly under its own. -/
theorem found_iff (accepted : resolve lib π raw = .ok cfg) {x : Destination}
    (declared : x.Declared cfg) {write : String → String} :
    x.found (.fromConfig cfg) write = x.route ↔
      (∀ n ∈ x.names, write n = n) ∧ ∀ d ∈ x.target, d.name ≠ clockDeviceName := by
  cases x with
  | device d =>
    refine (getD_map_eq_iff (fun _ _ => Route.device.inj) nofun).trans ?_
    simpa [names,target] using device_eq_some_iff accepted declared
  | intent d =>
    refine (getD_map_eq_iff (fun _ _ => Route.intent.inj) nofun).trans ?_
    simpa [names,target] using device_eq_some_iff accepted declared
  | event d e =>
    refine ofEvent_eq_iff.trans ?_
    rw [device_eq_some_iff accepted declared.1,action_eq_some_iff accepted declared.1 declared.2]
    simp [names,target,and_right_comm]
  | scene s =>
    refine (getD_map_eq_iff (fun _ _ => Route.scene.inj) nofun).trans ?_
    simpa [names,target] using scene_eq_some_iff accepted declared
  | activate s =>
    refine (getD_map_eq_iff (fun _ _ => Route.activate.inj) nofun).trans ?_
    simpa [names,target] using scene_eq_some_iff accepted declared
  | rule r =>
    refine (getD_map_eq_iff (fun _ _ => Route.rule.inj) nofun).trans ?_
    simpa [names,target] using rule_eq_some_iff accepted declared

theorem found_encoded_iff (accepted : resolve lib π raw = .ok cfg) {x : Destination}
    (declared : x.Declared cfg) : x.found (.fromConfig cfg) encoded = x.route ↔ x.Plain := by
  rw [found_iff accepted declared]
  simp only [encoded_eq_self_iff]
  exact ⟨fun h => ⟨h.1,h.2⟩,fun h => ⟨h.unreserved,h.other⟩⟩

end Lookups

section Requests
variable {lib : Libraries} {π : HashOrder} {raw : RawConfig} {cfg : CompiledConfig}
variable {s : TcpStream} {text : List Char} {request : Request} {token : Option String}

/-- No path with a name is that of the stream. -/
theorem path_not_stream (x : Destination) : x.path.rdropWhile (· == '/') ≠ "/stream".toList := by
  intro h
  have hp := List.rdropWhile_append_rtakeWhile (p := (· == '/')) (l := x.path)
  have hs : "/stream".toList = ['/','s','t','r','e','a','m'] := rfl
  have starts : ∃ rest, x.path = '/' :: 'd' :: rest ∨ x.path = '/' :: 's' :: 'c' :: rest ∨
      x.path = '/' :: 'r' :: rest := by
    cases x with
    | device | intent | event => exact ⟨_,.inl rfl⟩
    | scene | activate => exact ⟨_,.inr (.inl rfl)⟩
    | rule => exact ⟨_,.inr (.inr rfl)⟩
  rw [h,hs] at hp
  obtain ⟨rest,he | he | he⟩ := starts <;> (rw [he] at hp; simp at hp)

/-- A request whose target is percent-encoded is handled by its route; that is the one of what it
names exactly if the names need no encoding, and the device has not the name of the clock. -/
theorem encoded_name_routed_iff (accepted : resolve lib π raw = .ok cfg) {x : Destination}
    (declared : x.Declared cfg) (named : ∀ n ∈ x.names, n ≠ "") (whole : Http.Whole s text)
    (line : Http.requestLine text = some (x.method.toList,x.path))
    (read : (Http.readRequest s).1 = .ok request)
    (authorized : ∀ expected, token = some expected →
      Http.checkAuth expected request.authorization = .ok ()) :
    Http.serve token s = .routed request ∧
      (∀ h fromSlice, Routes.handle (.fromConfig cfg) h fromSlice request.method request.path
          request.body =
        (Route.find (.fromConfig cfg) request.method request.path).answer (.fromConfig cfg) h fromSlice
          request.body) ∧
      (Route.find (.fromConfig cfg) request.method request.path = x.route ↔ x.Plain) := by
  obtain ⟨hm,hp⟩ : request.method = x.method ∧ request.path = .ofList x.path := by
    rw [Http.readRequest_of_whole whole line] at read
    cases hr : (Http.readHeaders Http.maxHeaderLines ⟨none,none,0⟩ (Http.pastLine ⟨s,0⟩)).1 with
    | error e =>
      rw [hr] at read
      cases read
    | ok p =>
      rw [hr] at read
      cases read
      exact ⟨String.ofList_toList,by rw [pathOf_path named]⟩
  refine ⟨?_,fun h fromSlice => Route.handle_eq_answer,?_⟩
  · have unstreamed : ¬(request.method = "GET" ∧
        request.path.toList.rdropWhile (· == '/') = "/stream".toList) := by
      rw [hp,String.toList_ofList]
      exact fun h => path_not_stream x h.2
    rw [Http.serve,read]
    dsimp only
    rw [if_neg unstreamed]
    cases ht : token with
    | none => rfl
    | some expected =>
      rw [Option.map_some,authorized expected ht]
  · rw [hm,hp,find_path _ named]
    exact found_encoded_iff accepted declared

end Requests

/-- A press of a bell button that needs no encoding. -/
def ring : Http.Sent where
  method := "POST"
  target := "/devices/lamp/events/chime"
  headers := []
  body := []

theorem ring_withinLimits : ring.WithinLimits where
  method := by decide
  target := by decide
  lines := by decide
  printable := by decide
  size := by decide
  unchunked := by decide
  lengths := by decide
  announced := by decide
  body := by decide

theorem lamp_event_routed : ∃ cfg d e,
    resolve plainLibraries .identity (NamedDirectory.tickingConfig "lamp") = .ok cfg ∧
      d ∈ cfg.devices ∧ d.name = "lamp" ∧ e ∈ d.events ∧ e.name = "chime" ∧
      Http.serve none ⟨ring.bytes,false⟩ = .routed ⟨"POST","/devices/lamp/events/chime",[],none⟩ ∧
      Route.find (.fromConfig cfg) "POST" "/devices/lamp/events/chime" = .event (.ofDevice d) e.id := by
  obtain ⟨cfg,d,e,h,hd,hn,he,hm⟩ : ∃ cfg d e,
      resolve plainLibraries .identity (NamedDirectory.tickingConfig "lamp") = .ok cfg ∧
        d ∈ cfg.devices ∧ d.name = "lamp" ∧ e ∈ d.events ∧ e.name = "chime" :=
    ⟨_,_,_,rfl,List.mem_cons_self,rfl,List.mem_cons_self,rfl⟩
  have path : (event d e).path = ring.target.toList := by
    simp only [Destination.path,segments,hn,hm]
    decide
  have named : ∀ n ∈ (event d e).names, n ≠ "" := by
    simp only [names,hn,hm]
    decide
  have plain : (event d e).Plain := by
    constructor
    · simp only [names,hn,hm]
      decide
    · rintro d' ⟨⟩
      rw [hn]
      decide
  have whole : Http.Whole ⟨ring.bytes,false⟩ (ring.firstLine ++ ['\r','\n']) :=
    Http.Sent.whole_line (by decide)
  have line := Http.Sent.requestLine_line ring_withinLimits.method ring_withinLimits.target
  rw [← path] at line
  obtain ⟨r,read⟩ := ring_withinLimits.readRequest [] false
  rw [List.append_nil] at read
  have declared : (event d e).Declared cfg := ⟨hd,he⟩
  obtain ⟨served,-,routed⟩ := @encoded_name_routed_iff _ _ _ _ _ _ _ none h _ declared named whole line
    (congrArg Prod.fst read) nofun
  exact ⟨cfg,d,e,h,hd,hn,he,hm,served,routed.mpr plain⟩

/-- A blank in a name is sent as `%20`, and not read as a blank. -/
theorem blank_in_name_unknown : ∃ cfg d e,
    resolve plainLibraries .identity (NamedDirectory.tickingConfig "desk lamp") = .ok cfg ∧
      d ∈ cfg.devices ∧ d.name = "desk lamp" ∧ e ∈ d.events ∧ e.name = "chime" ∧
      (event d e).path = "/devices/desk%20lamp/events/chime".toList ∧
      Http.pathOf (event d e).path = (event d e).path ∧
      Route.find (.fromConfig cfg) "POST" "/devices/desk%20lamp/events/chime" =
        .refused (Routes.unknownDevice "desk%20lamp") ∧
      ∀ h fromSlice body, Routes.handle (.fromConfig cfg) h fromSlice "POST"
        "/devices/desk%20lamp/events/chime" body = (Routes.unknownDevice "desk%20lamp",h) := by
  refine ⟨_,_,_,rfl,List.mem_cons_self,rfl,List.mem_cons_self,rfl,?_,?_,?_,fun h fromSlice body => ?_⟩
  · decide
  · decide
  · rfl
  · rfl

end Destination
end Domiform
