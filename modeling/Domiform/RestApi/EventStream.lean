import Domiform.Library.EventStream
import Domiform.RestApi.Delivery
import Domiform.RestApi.Rendering
import Domiform.RestApi.Routes
import Domiform.RestApi.Wire

/-! `GET /stream` on the wire. The observer renders every notification as a named JSON frame; the
thread of the connection writes the snapshot, and then batch after batch, with a notice before the
frames that follow a gap and a comment where there is nothing to say. -/
namespace Domiform.Stream
open Library Resolve

/-- A frame as it is written: the name of its event, and its JSON. -/
structure Rendered where
  event : String
  data : Json

def stateFrame (device capability : String) (value : Json) : Rendered :=
  ⟨"state",.ofFields [("device",.string device),("capability",.string capability),("value",value)]⟩

def ruleFrame (rule truth : String) (fired : Bool) : Rendered :=
  ⟨"rule",.ofFields [("rule",.string rule),("truth",.string truth),("fired",.bool fired)]⟩

def actionFrame (device event : String) (depth : ℕ) : Rendered :=
  ⟨"action",.ofFields [("device",.string device),("event",.string event),("depth",.int depth)]⟩

def commandFailedFrame (command : Json) (reason : String) (attempts : ℕ) : Rendered :=
  ⟨"command_failed",
    .ofFields [("command",command),("reason",.string reason),("attempts",.int attempts)]⟩

def snapshotFrame (devices : Json) : Rendered := ⟨"snapshot",.ofFields [("devices",devices)]⟩

def laggedFrame : Rendered :=
  ⟨"lagged",.ofFields [("message",.string "frames were dropped; re-sync with GET /devices")]⟩

/-- What the observer makes of a notification. -/
def Frame.render (directory : NamedDirectory) : Frame → Rendered
  | state device s => stateFrame (directory.deviceName device) s.kind.name (stateToJson s)
  | rule id truth fired => ruleFrame (directory.ruleName id) (Routes.truthName truth) fired
  | action device id depth =>
    actionFrame (directory.deviceName device) (directory.actionName device id) depth
  | commandFailed command reason attempts =>
    commandFailedFrame (Describe.command directory command) reason attempts

section Text
variable (toString : Json → String)

/-- `Frame::encode`. -/
def Rendered.encode (f : Rendered) : List Char :=
  ("event: " ++ f.event).toList ++ '\n' :: ("data: " ++ toString f.data).toList ++ ['\n','\n']

def keepalive : List Char := ':' :: " keepalive".toList ++ ['\n'] ++ ['\n']

/-- What the loop of `serve_stream` writes for what `next_batch` gives it. -/
def written (directory : NamedDirectory) : List Batch → List Char
  | [] => []
  | .frames frames lagged :: rest =>
    (if lagged then laggedFrame.encode toString else []) ++
      (frames.flatMap fun f => (f.render directory).encode toString) ++ written directory rest
  | .idle :: rest => keepalive ++ written directory rest
  | .done :: _ => []

/-- The body of the stream. -/
def body (directory : NamedDirectory) (handle : RestApiHandle) (batches : List Batch) : List Char :=
  (snapshotFrame (devicesValue directory.toDirectory handle)).encode toString ++
    written toString directory batches

end Text

/-- The frames of what `next_batch` gives, the notices of gaps among them. -/
def announced (directory : NamedDirectory) : List Batch → List Rendered
  | [] => []
  | .frames frames lagged :: rest =>
    (if lagged then [laggedFrame] else []) ++ frames.map (Frame.render directory) ++
      announced directory rest
  | .idle :: rest => announced directory rest
  | .done :: _ => []

/-- Everything the stream writes, in order. -/
def frames (directory : NamedDirectory) (handle : RestApiHandle) (batches : List Batch) :
    List Rendered :=
  snapshotFrame (devicesValue directory.toDirectory handle) :: announced directory batches

/-- JSON as it is written: on one line, and read back as it was. -/
structure Lawful (toString : Json → String) (fromStr : String → Option Json) (v : Json) : Prop where
  oneLine : EventStream.OneLine (toString v).toList
  reads : fromStr (toString v) = some v

/-- What a client makes of the text. -/
def clientReads (fromStr : String → Option Json) (text : List Char) : List (String × Option Json) :=
  (EventStream.read text).map fun e => (.ofList e.kind,fromStr (.ofList e.data))

section Client
variable {toString : Json → String} {fromStr : String → Option Json} {f : Rendered}

/-- The event that a frame is for the client. -/
def Rendered.told (toString : Json → String) (f : Rendered) : EventStream.Event :=
  ⟨f.event.toList,(toString f.data).toList⟩

/-- The name of the event stands on one line. -/
def Rendered.Named (f : Rendered) : Prop :=
  f.event.toList ≠ [] ∧ EventStream.OneLine f.event.toList

theorem named_render (directory : NamedDirectory) (frame : Frame) :
    (frame.render directory).Named := by
  cases frame <;> simp [Frame.render,stateFrame,ruleFrame,actionFrame,commandFailedFrame,
    Rendered.Named,EventStream.OneLine]

theorem named_lagged : laggedFrame.Named := by
  simp [laggedFrame,Rendered.Named,EventStream.OneLine]

theorem named_snapshot (devices : Json) : (snapshotFrame devices).Named := by
  simp [snapshotFrame,Rendered.Named,EventStream.OneLine]

theorem encode_eq (toString : Json → String) (f : Rendered) :
    f.encode toString = EventStream.encode f.event.toList (toString f.data).toList := by
  simp [Rendered.encode,EventStream.encode,EventStream.fieldLine]

theorem foldl_frame (named : f.Named) (oneLine : EventStream.OneLine (toString f.data).toList)
    (events : List EventStream.Event) :
    (f.encode toString).foldl EventStream.Reader.read (.after events) =
      .after (events ++ [f.told toString]) := by
  rw [encode_eq]
  exact EventStream.foldl_encode named.2 oneLine named.1 events

theorem foldl_frames (directory : NamedDirectory) (frames : List Frame)
    (oneLine : ∀ f ∈ frames, EventStream.OneLine (toString (f.render directory).data).toList)
    (events : List EventStream.Event) :
    (frames.flatMap fun f => (f.render directory).encode toString).foldl EventStream.Reader.read
        (.after events) =
      .after (events ++ frames.map fun f => (f.render directory).told toString) := by
  induction frames generalizing events with
  | nil => simp
  | cons frame frames ih =>
    obtain ⟨first,rest⟩ := List.forall_mem_cons.mp oneLine
    rw [List.flatMap_cons,List.foldl_append,foldl_frame (named_render directory frame) first,
      ih rest]
    simp

theorem foldl_keepalive (events : List EventStream.Event) :
    keepalive.foldl EventStream.Reader.read (.after events) = .after events := by
  have line : EventStream.OneLine " keepalive".toList := by simp [EventStream.OneLine]
  rw [keepalive]
  exact EventStream.foldl_comment line events

/-- What is written is read as what was announced. -/
theorem foldl_written (directory : NamedDirectory) (batches : List Batch)
    (oneLine : ∀ f ∈ announced directory batches, EventStream.OneLine (toString f.data).toList)
    (events : List EventStream.Event) :
    (written toString directory batches).foldl EventStream.Reader.read (.after events) =
      .after (events ++ (announced directory batches).map (Rendered.told toString)) := by
  induction batches generalizing events with
  | nil => simp [written,announced]
  | cons batch rest ih =>
    cases batch with
    | done => simp [written,announced]
    | idle =>
      rw [written,List.foldl_append,foldl_keepalive,ih oneLine]
      rfl
    | frames frames lagged =>
      rw [announced,List.forall_mem_append,List.forall_mem_append,List.forall_mem_map] at oneLine
      obtain ⟨⟨gap,own⟩,rest'⟩ := oneLine
      have notice : (if lagged then laggedFrame.encode toString else []).foldl
          EventStream.Reader.read (.after events) =
            .after (events ++ (if lagged then [laggedFrame] else []).map (Rendered.told toString)) := by
        cases lagged with
        | false => simp
        | true => exact foldl_frame named_lagged (gap laggedFrame (List.mem_singleton_self _)) events
      rw [written,List.foldl_append,List.foldl_append,notice,foldl_frames directory frames own,
        ih rest',announced]
      simp only [List.map_append,List.map_map,List.append_assoc]
      rfl

theorem read_body (directory : NamedDirectory) (handle : RestApiHandle) (batches : List Batch)
    (oneLine : ∀ f ∈ frames directory handle batches,
      EventStream.OneLine (toString f.data).toList) :
    EventStream.read (body toString directory handle batches) =
      (frames directory handle batches).map (Rendered.told toString) := by
  obtain ⟨first,rest⟩ := List.forall_mem_cons.mp oneLine
  have start : EventStream.Reader.start = .after [] := rfl
  rw [EventStream.read,body,List.foldl_append,start,foldl_frame (named_snapshot _) first,
    foldl_written directory batches rest]
  simp [EventStream.Reader.after,frames]

end Client

/-! ### What the frames tell apart -/

/-- A notification without the infrared code that is left out of it. -/
def Frame.uncoded : Frame → Frame
  | commandFailed command reason attempts => commandFailed command.uncoded reason attempts
  | f => f

/-- A notification about what the config knows. -/
def About (cfg : CompiledConfig) : Frame → Prop
  | .state device s => NamedDirectory.Listed cfg device ∧ s.Canonical
  | .rule id _ _ => ∃ r ∈ cfg.rules, r.id = id
  | .action device action _ => ∃ d ∈ cfg.devices, d.id = device ∧ ∃ e ∈ d.events, e.id = action
  | .commandFailed command _ _ => command.WellFormed cfg.scope

section Apart
variable {lib : Libraries} {π : HashOrder} {raw : RawConfig} {cfg : CompiledConfig}

theorem truthName_injective : Function.Injective Routes.truthName := by
  intro t t' h
  cases t <;> cases t' <;> simp [Routes.truthName] at h ⊢

variable (accepted : resolve lib π raw = .ok cfg)
  (free : ∀ d ∈ cfg.devices, d.name ≠ clockDeviceName)
include accepted free

theorem state_injOn {d d' : DeviceId} {s s' : CapabilityState} (hd : NamedDirectory.Listed cfg d)
    (hd' : NamedDirectory.Listed cfg d') (hs : s.Canonical) (hs' : s'.Canonical)
    (h : (Frame.state d s).render (.fromConfig cfg) = (Frame.state d' s').render (.fromConfig cfg)) :
    d = d' ∧ s = s' := by
  have hf := Json.ofFields_injective (Rendered.mk.inj h).2 rfl (by simp)
  simp only [List.cons.injEq,Prod.mk.injEq,Json.string.injEq,true_and,and_true] at hf
  obtain ⟨hname,hkind,hvalue⟩ := hf
  refine ⟨NamedDirectory.deviceName_injOn accepted free hd hd' hname,?_⟩
  have read := stateJson_bijective.1 s hs
  rw [CapabilityKind.name_injective hkind,hvalue,stateJson_bijective.1 s' hs'] at read
  exact (Except.ok.inj read).symm

theorem action_injOn {d d' : DeviceId} {a a' : ActionId} {depth depth' : ℕ}
    (hd : About cfg (.action d a depth)) (hd' : About cfg (.action d' a' depth'))
    (h : (Frame.action d a depth).render (.fromConfig cfg) =
      (Frame.action d' a' depth').render (.fromConfig cfg)) : d = d' ∧ a = a' ∧ depth = depth' := by
  have hf := Json.ofFields_injective (Rendered.mk.inj h).2 rfl (by simp)
  simp only [List.cons.injEq,Prod.mk.injEq,Json.string.injEq,Json.int.injEq,Nat.cast_inj,true_and,
    and_true] at hf
  obtain ⟨hname,hevent,hdepth⟩ := hf
  obtain ⟨x,hx,rfl,e,he,rfl⟩ := hd
  obtain ⟨x',hx',rfl,e',he',rfl⟩ := hd'
  have hid := NamedDirectory.deviceName_injOn accepted free (.inl ⟨x,hx,rfl⟩) (.inl ⟨x',hx',rfl⟩) hname
  obtain rfl := eq_of_device_id accepted hx hx' hid.symm
  rw [NamedDirectory.actionName_injOn accepted hx he he' hevent]
  exact ⟨rfl,rfl,hdepth⟩

theorem render_injOn {f f' : Frame} (hf : About cfg f) (hf' : About cfg f')
    (h : f.render (.fromConfig cfg) = f'.render (.fromConfig cfg)) : f.uncoded = f'.uncoded := by
  have hevent := congrArg Rendered.event h
  cases f with
  | state d s =>
    cases f' with
    | state d' s' =>
      obtain ⟨rfl,rfl⟩ := state_injOn accepted free hf.1 hf'.1 hf.2 hf'.2 h
      rfl
    | _ => simp [Frame.render,stateFrame,ruleFrame,actionFrame,commandFailedFrame] at hevent
  | rule id truth fired =>
    cases f' with
    | rule id' truth' fired' =>
      have hj := Json.ofFields_injective (Rendered.mk.inj h).2 rfl (by simp)
      simp only [List.cons.injEq,Prod.mk.injEq,Json.string.injEq,Json.bool.injEq,true_and,
        and_true] at hj
      obtain ⟨hname,htruth,rfl⟩ := hj
      obtain ⟨r,hr,rfl⟩ := hf
      obtain ⟨r',hr',rfl⟩ := hf'
      rw [(NamedDirectory.rule_of_mem accepted hr).2,(NamedDirectory.rule_of_mem accepted hr').2]
        at hname
      rw [List.inj_on_of_nodup_map (rule_names_nodup accepted) hr hr' hname,
        truthName_injective htruth]
    | _ => simp [Frame.render,stateFrame,ruleFrame,actionFrame,commandFailedFrame] at hevent
  | action d a depth =>
    cases f' with
    | action d' a' depth' =>
      obtain ⟨rfl,rfl,rfl⟩ := action_injOn accepted free hf hf' h
      rfl
    | _ => simp [Frame.render,stateFrame,ruleFrame,actionFrame,commandFailedFrame] at hevent
  | commandFailed cmd reason attempts =>
    cases f' with
    | commandFailed cmd' reason' attempts' =>
      have hj := Json.ofFields_injective (Rendered.mk.inj h).2 rfl (by simp)
      simp only [List.cons.injEq,Prod.mk.injEq,Json.string.injEq,Json.int.injEq,Nat.cast_inj,
        true_and,and_true] at hj
      obtain ⟨hcmd,rfl,rfl⟩ := hj
      rw [Frame.uncoded,Frame.uncoded,Describe.command_injOn accepted free hf hf' hcmd]
    | _ => simp [Frame.render,stateFrame,ruleFrame,actionFrame,commandFailedFrame] at hevent

omit free in
/-- A device that is named as the clock is has its states told like the clock's. -/
theorem free_of_render_injOn (injOn : ∀ f f', About cfg f → About cfg f' →
    f.render (.fromConfig cfg) = f'.render (.fromConfig cfg) → f.uncoded = f'.uncoded) :
    ∀ d ∈ cfg.devices, d.name ≠ clockDeviceName := by
  intro d hd named
  have told : (Frame.state d.id (.switch true)).render (.fromConfig cfg) =
      (Frame.state cfg.clockDevice (.switch true)).render (.fromConfig cfg) := by
    have hc := NamedDirectory.deviceName_ofDevice accepted hd
    rw [named,← NamedDirectory.deviceName_clock accepted] at hc
    rw [Frame.render,Frame.render]
    exact congrArg (stateFrame · _ _) hc
  have same := injOn (.state d.id (.switch true)) (.state cfg.clockDevice (.switch true))
    ⟨.inl ⟨d,hd,rfl⟩,trivial⟩ ⟨.inr rfl,trivial⟩ told
  exact NamedDirectory.id_ne_clockDevice accepted hd (Frame.state.inj same).1

omit accepted free in
/-- A client of the stream reads exactly the frames that were written, in order, whatever comments
stand between them; cut short anywhere, it reads the first of them and no part of another; and the
frames keep apart what the notifications are about, but for the infrared codes, if and only if no
device has the name of the clock. -/
theorem streams_are_read_back (accepted : resolve lib π raw = .ok cfg) {toString : Json → String}
    {fromStr : String → Option Json} (handle : RestApiHandle) (batches : List Batch)
    (lawful : ∀ f ∈ frames (.fromConfig cfg) handle batches, Lawful toString fromStr f.data) :
    clientReads fromStr (body toString (.fromConfig cfg) handle batches) =
        (frames (.fromConfig cfg) handle batches).map (fun f => (f.event,some f.data)) ∧
      (∀ text, text <+: body toString (.fromConfig cfg) handle batches →
        clientReads fromStr text <+:
          (frames (.fromConfig cfg) handle batches).map fun f => (f.event,some f.data)) ∧
      ((∀ f f', About cfg f → About cfg f' →
          f.render (.fromConfig cfg) = f'.render (.fromConfig cfg) → f.uncoded = f'.uncoded) ↔
        ∀ d ∈ cfg.devices, d.name ≠ clockDeviceName) := by
  have whole : clientReads fromStr (body toString (.fromConfig cfg) handle batches) =
      (frames (.fromConfig cfg) handle batches).map fun f => (f.event,some f.data) := by
    rw [clientReads,read_body _ _ _ fun f hf => (lawful f hf).oneLine,List.map_map]
    refine List.map_congr_left fun f hf => ?_
    simp [Rendered.told,(lawful f hf).reads]
  refine ⟨whole,fun text cut => ?_,free_of_render_injOn accepted,
    fun free f f' hf hf' h => render_injOn accepted free hf hf' h⟩
  rw [← whole]
  exact (EventStream.read_prefix cut).map _

end Apart

/-- The snapshot of the house at night, and the frame of its rule. -/
def nightSnapshot : String :=
  "\x7b\"devices\":[\x7b\"capabilities\":\x7b\"switch\":null\x7d," ++
    ("\"events\":[],\"name\":\"lamp\",\"room\":null,\"synthetic\":false\x7d," ++
    ("\x7b\"capabilities\":\x7b\"sun_up\":null,\"time_of_day\":null\x7d," ++
    "\"events\":[],\"name\":\"clock\",\"room\":null,\"synthetic\":true\x7d]\x7d"))

theorem oneLine_append {s t : String} (hs : EventStream.OneLine s.toList)
    (ht : EventStream.OneLine t.toList) : EventStream.OneLine (s ++ t).toList := by
  rw [String.toList_append]
  exact hs.append ht

theorem oneLine_nightSnapshot : EventStream.OneLine nightSnapshot.toList := by
  refine oneLine_append ?_ (oneLine_append ?_ (oneLine_append ?_ ?_)) <;>
    simp [EventStream.OneLine]

def nightFired : String := "\x7b\"fired\":true,\"rule\":\"night\",\"truth\":\"true\"\x7d"

def nightText (v : Json) : String := if (v.get "devices").isSome then nightSnapshot else nightFired

/-- What the two texts stand for. -/
def nightJson (cfg : CompiledConfig) (text : String) : Option Json :=
  if text = nightSnapshot then
    some (snapshotFrame (devicesValue (NamedDirectory.fromConfig cfg).toDirectory ⟨.default⟩)).data
  else some (ruleFrame ((NamedDirectory.fromConfig cfg).ruleName ⟨0⟩) "true" true).data

/-- A keepalive, and then the rule fires. -/
theorem night_stream_is_read_back : ∃ cfg : CompiledConfig,
    resolve plainLibraries .identity nightConfig = .ok cfg ∧
    (clientReads (nightJson cfg) (body nightText (.fromConfig cfg) ⟨.default⟩
        [.idle,.frames [.rule ⟨0⟩ .true true] false,.done])).map Prod.fst = ["snapshot","rule"] := by
  obtain ⟨cfg,h⟩ : ∃ cfg, resolve plainLibraries .identity nightConfig = .ok cfg := ⟨_,rfl⟩
  have snapshot (v : Json) : nightText (snapshotFrame v).data = nightSnapshot := if_pos (by rfl)
  have fired (id t : String) (b : Bool) : nightText (ruleFrame id t b).data = nightFired :=
    if_neg (by simp [ruleFrame,Json.get_ofFields])
  have lawful : ∀ f ∈ frames (.fromConfig cfg) ⟨.default⟩
      [.idle,.frames [.rule ⟨0⟩ .true true] false,.done],
      Lawful nightText (nightJson cfg) f.data := by
    intro f hf
    rcases List.mem_cons.mp hf with rfl | hf
    · refine ⟨?_,?_⟩
      · rw [snapshot]
        exact oneLine_nightSnapshot
      · rw [snapshot]
        exact if_pos rfl
    · rw [List.mem_singleton.mp hf]
      refine ⟨?_,?_⟩
      · rw [Frame.render,fired]
        simp [nightFired,EventStream.OneLine]
      · rw [Frame.render,fired]
        exact if_neg (by decide)
  have read := (streams_are_read_back h ⟨.default⟩
    [.idle,.frames [.rule ⟨0⟩ .true true] false,.done] lawful).1
  refine ⟨cfg,h,?_⟩
  rw [read]
  rfl

end Domiform.Stream
