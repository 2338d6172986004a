import Domiform.Adapters.Link
import Domiform.Adapters.ZwaveFrames
import Domiform.Compile.Numbers
import Domiform.RestApi.Rendering

/-! The frames of the Matter server: an attribute that was updated, or the snapshot of every node. A
report says which attribute of which cluster of which endpoint of which node has which value. -/
namespace Domiform
open Library

namespace Json

def asObject : Json → Option (List (String × Json))
  | object fields => some fields
  | _ => none

end Json

namespace Matter

/-- `parse_path`; what follows a third slash is not looked at. -/
def parsePath (path : String) : Option (UInt16 × ℕ × ℕ) :=
  match path.toList.splitOn '/' with
  | endpoint :: cluster :: attr :: _ => do
    let endpoint ← Text.parseUnsigned (2^16-1) endpoint
    let cluster ← Text.parseUnsigned (2^32-1) cluster
    let attr ← Text.parseUnsigned (2^32-1) attr
    some (UInt16.ofNat endpoint,cluster,attr)
  | _ => none

/-- `[node_id, "endpoint/cluster/attribute", value]`. -/
def parseAttributeUpdated (data : List Json) : Option AttrReport := do
  let node ← data[0]?.bind Json.asU64
  let (endpoint,cluster,attr) ← (data[1]?.bind Json.asStr).bind parsePath
  let value ← data[2]?
  some ⟨node,endpoint,cluster,attr,value⟩

def parseNodeSnapshot (node : Json) : List AttrReport :=
  match (node.get "node_id").bind Json.asU64 with
  | none => []
  | some id =>
    match (node.get "attributes").bind Json.asObject with
    | none => []
    | some attrs =>
      attrs.filterMap fun x => (parsePath x.1).map fun p => ⟨id,p.1,p.2.1,p.2.2,x.2⟩

/-- A frame that is JSON. -/
def parseFrame (v : Json) : List AttrReport :=
  if (v.get "event").bind Json.asStr = some "attribute_updated" then
    (((v.get "data").bind Json.asArray).bind parseAttributeUpdated).toList
  else
    match (v.get "result").bind Json.asArray with
    | some nodes => nodes.flatMap parseNodeSnapshot
    | none => []

def parseInbound (fromStr : String → Option Json) (txt : String) : List AttrReport :=
  match fromStr txt with
  | none => []
  | some v => parseFrame v

/-- A number in decimal, with or without a `+`, within a bound. -/
def Numeral (bound : ℕ) (s : List Char) (n : ℕ) : Prop :=
  (Text.Decimal s n ∨ ∃ digits, s = '+' :: digits ∧ Text.Decimal digits n) ∧ n ≤ bound

/-- A path that starts with the three ids, each up to a slash or the end. -/
def Names (path : String) (endpoint : UInt16) (cluster attr : ℕ) : Prop :=
  ∃ e c a rest, path.toList = e ++ '/' :: (c ++ '/' :: (a ++ rest)) ∧
    (rest = [] ∨ ∃ more, rest = '/' :: more) ∧ Numeral (2^16-1) e endpoint.toNat ∧
    Numeral (2^32-1) c cluster ∧ Numeral (2^32-1) a attr

/-- What a frame says: the attribute that was updated, or one of those that are listed. -/
inductive Says (v : Json) (r : AttrReport) : Prop
  | updated {path : String} {rest : List Json}
      (event : v.get "event" = some (.string "attribute_updated"))
      (data : v.get "data" = some (.array (.int r.node :: .string path :: r.value :: rest)))
      (fits : r.node < 2^64) (names : Names path r.endpoint r.cluster r.attr)
  | listed {nodes : List Json} {node : Json} {attrs : List (String × Json)} {path : String}
      (event : v.get "event" ≠ some (.string "attribute_updated"))
      (result : v.get "result" = some (.array nodes)) (here : node ∈ nodes)
      (id : node.get "node_id" = some (.int r.node)) (fits : r.node < 2^64)
      (attributes : node.get "attributes" = some (.object attrs)) (found : (path,r.value) ∈ attrs)
      (names : Names path r.endpoint r.cluster r.attr)

section Paths
variable {path : String} {endpoint : UInt16} {cluster attr : ℕ}

theorem numeral_digits {bound : ℕ} {s : List Char} {n : ℕ} (h : Numeral bound s n) : '/' ∉ s := by
  have slash {digits : List Char} (hd : Text.Decimal digits n) : '/' ∉ digits :=
    hd.not_mem (by decide)
  rcases h.1 with hd | ⟨digits,rfl,hd⟩
  · exact slash hd
  · rw [List.mem_cons,not_or]
    exact ⟨by decide,slash hd⟩

/-- The first piece between slashes, and the pieces after it. -/
theorem splitOn_eq_cons {s first : List Char} {rest : List (List Char)} :
    s.splitOn '/' = first :: rest ↔ '/' ∉ first ∧
      (s = first ∧ rest = [] ∨ ∃ more, s = first ++ '/' :: more ∧ rest = more.splitOn '/') := by
  constructor
  · intro h
    by_cases hs : '/' ∈ s
    · obtain ⟨a,b,hab⟩ := Text.splitOnce_of_mem hs
      obtain ⟨rfl,hn⟩ := Text.splitOnce_eq_some.mp hab
      rw [List.splitOn_append_cons_self_of_not_mem hn] at h
      obtain ⟨rfl,rfl⟩ := List.cons.inj h
      exact ⟨hn,.inr ⟨b,rfl,rfl⟩⟩
    · rw [List.splitOn_eq_singleton hs] at h
      obtain ⟨rfl,rfl⟩ := List.cons.inj h
      exact ⟨hs,.inl ⟨rfl,rfl⟩⟩
  · rintro ⟨hn,⟨rfl,rfl⟩ | ⟨more,rfl,rfl⟩⟩
    · exact List.splitOn_eq_singleton hn
    · exact List.splitOn_append_cons_self_of_not_mem hn more

theorem parseUnsigned_iff {bound : ℕ} {s : List Char} {n : ℕ} :
    Text.parseUnsigned bound s = some n ↔ Numeral bound s n := Text.parseUnsigned_eq_some

/-- A path is read exactly where it names the ids. -/
theorem parsePath_eq_some : parsePath path = some (endpoint,cluster,attr) ↔
    Names path endpoint cluster attr := by
  have bound (n : ℕ) (h : n ≤ 2^16-1) : (UInt16.ofNat n).toNat = n :=
    UInt16.toNat_ofNat_of_lt' (by simp [UInt16.size]; omega)
  constructor
  · intro h
    unfold parsePath at h
    split at h
    · rename_i e c a more hsplit
      obtain ⟨n,hn,h⟩ := Option.bind_eq_some_iff.mp h
      obtain ⟨k,hk,h⟩ := Option.bind_eq_some_iff.mp h
      obtain ⟨m,hm,h⟩ := Option.bind_eq_some_iff.mp h
      obtain ⟨rfl,rfl,rfl⟩ : UInt16.ofNat n = endpoint ∧ k = cluster ∧ m = attr := by simpa using h
      rw [parseUnsigned_iff] at hn hk hm
      obtain ⟨-,⟨-,none⟩ | ⟨s,hs,hmore⟩⟩ := splitOn_eq_cons.mp hsplit
      · cases none
      obtain ⟨-,⟨-,none⟩ | ⟨t,ht,hrest⟩⟩ := splitOn_eq_cons.mp hmore.symm
      · cases none
      have last := splitOn_eq_cons.mp hrest.symm
      refine ⟨e,c,a,t.drop a.length,?_,?_,?_,hk,hm⟩
      · rcases last with ⟨-,⟨rfl,-⟩ | ⟨u,rfl,-⟩⟩ <;> simp [hs,ht]
      · rcases last with ⟨-,⟨rfl,-⟩ | ⟨u,rfl,-⟩⟩ <;> simp
      · rw [bound n hn.2]
        exact hn
    · cases h
  · rintro ⟨e,c,a,rest,hpath,hrest,hn,hk,hm⟩
    have third : ∃ more, (a ++ rest).splitOn '/' = a :: more := by
      rcases hrest with rfl | ⟨more,rfl⟩
      · rw [List.append_nil]
        exact ⟨_,splitOn_eq_cons.mpr ⟨numeral_digits hm,.inl ⟨rfl,rfl⟩⟩⟩
      · exact ⟨_,splitOn_eq_cons.mpr ⟨numeral_digits hm,.inr ⟨more,rfl,rfl⟩⟩⟩
    obtain ⟨more,third⟩ := third
    have first : path.toList.splitOn '/' = e :: c :: a :: more := by
      rw [hpath,List.splitOn_append_cons_self_of_not_mem (numeral_digits hn),
        List.splitOn_append_cons_self_of_not_mem (numeral_digits hk),third]
    rw [← parseUnsigned_iff] at hn hk hm
    rw [parsePath,first]
    simp only [hn,hk,hm,Option.bind_eq_bind,Option.bind_some,UInt16.ofNat_toNat]

end Paths

section Frames
variable {v : Json} {r : AttrReport}

theorem eq_string {x : Option Json} {s : String} : x.bind Json.asStr = some s ↔
    x = some (.string s) := by
  constructor
  · intro h
    obtain ⟨y,rfl,hy⟩ := Option.bind_eq_some_iff.mp h
    unfold Json.asStr at hy
    split at hy <;> cases hy
    rfl
  · rintro rfl
    rfl

theorem eq_array {x : Option Json} {items : List Json} : x.bind Json.asArray = some items ↔
    x = some (.array items) := by
  constructor
  · intro h
    obtain ⟨y,rfl,hy⟩ := Option.bind_eq_some_iff.mp h
    unfold Json.asArray at hy
    split at hy <;> cases hy
    rfl
  · rintro rfl
    rfl

theorem eq_object {x : Option Json} {fields : List (String × Json)} :
    x.bind Json.asObject = some fields ↔ x = some (.object fields) := by
  constructor
  · intro h
    obtain ⟨y,rfl,hy⟩ := Option.bind_eq_some_iff.mp h
    unfold Json.asObject at hy
    split at hy <;> cases hy
    rfl
  · rintro rfl
    rfl

theorem eq_id {x : Option Json} {n : ℕ} : x.bind Json.asU64 = some n ↔
    x = some (.int n) ∧ n < 2^64 := by
  constructor
  · intro h
    obtain ⟨y,rfl,hy⟩ := Option.bind_eq_some_iff.mp h
    obtain ⟨rfl,hn⟩ := Json.asU64_eq_some hy
    exact ⟨rfl,hn⟩
  · rintro ⟨rfl,hn⟩
    rw [Option.bind_some,Json.asU64_int hn]

theorem mem_parseAttributeUpdated {data : List Json} : parseAttributeUpdated data = some r ↔
    r.node < 2^64 ∧ ∃ path rest, data = .int r.node :: .string path :: r.value :: rest ∧
      Names path r.endpoint r.cluster r.attr := by
  constructor
  · intro h
    obtain ⟨node,hnode,h⟩ := Option.bind_eq_some_iff.mp h
    obtain ⟨⟨endpoint,cluster,attr⟩,hpath,h⟩ := Option.bind_eq_some_iff.mp h
    obtain ⟨value,hvalue,h⟩ := Option.bind_eq_some_iff.mp h
    cases h
    obtain ⟨first,hn⟩ := eq_id.mp hnode
    obtain ⟨path,second,hp⟩ := Option.bind_eq_some_iff.mp hpath
    rw [eq_string] at second
    obtain ⟨x,y,z,rest,rfl⟩ : ∃ x y z rest, data = x :: y :: z :: rest := by
      rcases data with _ | ⟨x,_ | ⟨y,_ | ⟨z,rest⟩⟩⟩
      · cases first
      · cases second
      · cases hvalue
      · exact ⟨x,y,z,rest,rfl⟩
    obtain rfl : x = .int node := by simpa using first
    obtain rfl : y = .string path := by simpa using second
    obtain rfl : z = value := by simpa using hvalue
    exact ⟨hn,path,rest,rfl,parsePath_eq_some.mp hp⟩
  · rintro ⟨hn,path,rest,rfl,names⟩
    have node : (some (Json.int r.node)).bind Json.asU64 = some r.node := eq_id.mpr ⟨rfl,hn⟩
    have read : (some (Json.string path)).bind Json.asStr = some path := rfl
    unfold parseAttributeUpdated
    simp only [List.getElem?_cons_zero,List.getElem?_cons_succ,node,read,Option.bind_eq_bind,
      Option.bind_some,parsePath_eq_some.mpr names]

theorem mem_parseNodeSnapshot {node : Json} : r ∈ parseNodeSnapshot node ↔
    r.node < 2^64 ∧ node.get "node_id" = some (.int r.node) ∧ ∃ attrs path,
      node.get "attributes" = some (.object attrs) ∧ (path,r.value) ∈ attrs ∧
        Names path r.endpoint r.cluster r.attr := by
  unfold parseNodeSnapshot
  constructor
  · intro h
    split at h
    · cases h
    · rename_i id hid
      split at h
      · cases h
      · rename_i attrs hattrs
        obtain ⟨⟨path,value⟩,hm,h⟩ := List.mem_filterMap.mp h
        obtain ⟨⟨endpoint,cluster,attr⟩,hp,rfl⟩ := Option.map_eq_some_iff.mp h
        obtain ⟨hid,hn⟩ := eq_id.mp hid
        exact ⟨hn,hid,attrs,path,eq_object.mp hattrs,hm,parsePath_eq_some.mp hp⟩
  · rintro ⟨hn,hid,attrs,path,hattrs,hm,names⟩
    rw [eq_id.mpr ⟨hid,hn⟩,eq_object.mpr hattrs]
    refine List.mem_filterMap.mpr ⟨(path,r.value),hm,?_⟩
    rw [parsePath_eq_some.mpr names]
    rfl

/-- A frame is read to exactly what it says. -/
theorem mem_parseFrame : r ∈ parseFrame v ↔ Says v r := by
  unfold parseFrame
  by_cases event : (v.get "event").bind Json.asStr = some "attribute_updated"
  · rw [if_pos event]
    rw [eq_string] at event
    constructor
    · intro h
      rw [Option.mem_toList] at h
      obtain ⟨data,hdata,h⟩ := Option.bind_eq_some_iff.mp h
      obtain ⟨hn,path,rest,rfl,names⟩ := mem_parseAttributeUpdated.mp h
      exact .updated event (eq_array.mp hdata) hn names
    · rintro (⟨-,data,fits,names⟩ | ⟨other,-⟩)
      · rw [eq_array.mpr data,Option.mem_toList,Option.bind_some]
        exact mem_parseAttributeUpdated.mpr ⟨fits,_,_,rfl,names⟩
      · exact absurd event other
  · rw [if_neg event]
    rw [eq_string] at event
    constructor
    · intro h
      split at h
      · rename_i nodes hnodes
        obtain ⟨node,hm,h⟩ := List.mem_flatMap.mp h
        obtain ⟨hn,hid,attrs,path,hattrs,ha,names⟩ := mem_parseNodeSnapshot.mp h
        exact .listed event (eq_array.mp hnodes) hm hid hn hattrs ha names
      · cases h
    · rintro (⟨this,-⟩ | ⟨-,result,here,id,fits,attributes,found,names⟩)
      · exact absurd this event
      · rw [eq_array.mpr result]
        exact List.mem_flatMap.mpr ⟨_,here,mem_parseNodeSnapshot.mpr
          ⟨fits,id,_,_,attributes,found,names⟩⟩

end Frames

section Written
variable {r : AttrReport}

/-- The ids as the server writes them. -/
def pathOf (r : AttrReport) : String :=
  toString r.endpoint.toNat ++ "/" ++ toString r.cluster ++ "/" ++ toString r.attr

/-- An attribute as the server may report it. -/
def Reportable (r : AttrReport) : Prop := r.node < 2^64 ∧ r.cluster < 2^32 ∧ r.attr < 2^32

/-- The frame of an update. -/
def updatedFrame (r : AttrReport) : Json :=
  .ofFields [("event",.string "attribute_updated"),
    ("data",.array [.int r.node,.string (pathOf r),r.value])]

/-- A node with what it reports. -/
def nodeObject (node : ℕ × List AttrReport) : Json :=
  .ofFields [("node_id",.int node.1),
    ("attributes",.object (node.2.map fun r => (pathOf r,r.value)))]

/-- The answer to `start_listening`. -/
def snapshotFrame (nodes : List (ℕ × List AttrReport)) : Json :=
  .ofFields [("message_id",.string "start_listening"),("result",.array (nodes.map nodeObject))]

theorem numeral_toString {bound n : ℕ} (h : n ≤ bound) : Numeral bound (toString n).toList n := by
  have hlist : (toString n).toList = Nat.toDigits 10 n := by
    rw [Nat.toString_eq_ofList_toDigits,String.toList_ofList]
  have digits : (Nat.toDigits 10 n).all Char.isDigit = true := List.all_eq_true.mpr fun c hc =>
    Nat.isDigit_of_mem_toDigits (by decide) (by decide) hc
  rw [hlist]
  exact ⟨.inl ⟨Nat.toDigits_ne_nil,digits,Nat.ofDigitChars_ten_toDigits⟩,h⟩

theorem names_pathOf (h : Reportable r) : Names (pathOf r) r.endpoint r.cluster r.attr := by
  have endpoint := r.endpoint.toNat_lt
  refine ⟨(toString r.endpoint.toNat).toList,(toString r.cluster).toList,(toString r.attr).toList,[],
    ?_,.inl rfl,numeral_toString (by omega),numeral_toString ?_,numeral_toString ?_⟩
  · simp [pathOf]
  · have := h.2.1
    omega
  · have := h.2.2
    omega

/-- An update is read as it was written. -/
theorem parseFrame_updatedFrame (h : Reportable r) : parseFrame (updatedFrame r) = [r] := by
  have event : (updatedFrame r).get "event" = some (.string "attribute_updated") :=
    (Json.get_ofFields (by simp) _).trans rfl
  have data : (updatedFrame r).get "data" = some (.array [.int r.node,.string (pathOf r),r.value]) :=
    (Json.get_ofFields (by simp) _).trans rfl
  have read : parseAttributeUpdated [.int r.node,.string (pathOf r),r.value] = some r :=
    mem_parseAttributeUpdated.mpr ⟨h.1,_,[],rfl,names_pathOf h⟩
  rw [parseFrame,if_pos (eq_string.mpr event),eq_array.mpr data,Option.bind_some,read]
  rfl

theorem parseNodeSnapshot_eq {v : Json} {node : ℕ × List AttrReport}
    (id : v.get "node_id" = some (.int node.1))
    (attrs : v.get "attributes" = some (.object (node.2.map fun r => (pathOf r,r.value))))
    (h : ∀ r ∈ node.2, Reportable r ∧ r.node = node.1) : parseNodeSnapshot v = node.2 := by
  have read : ∀ r ∈ node.2, (parsePath (pathOf r)).map
      (fun p => (⟨node.1,p.1,p.2.1,p.2.2,r.value⟩ : AttrReport)) = some r := by
    intro r hr
    obtain ⟨reportable,hnode⟩ := h r hr
    rw [parsePath_eq_some.mpr (names_pathOf reportable),← hnode]
    rfl
  unfold parseNodeSnapshot
  rw [eq_object.mpr attrs]
  cases hid : (v.get "node_id").bind Json.asU64 with
  | none =>
    -- A node whose id does not fit reports nothing.
    symm
    refine List.eq_nil_iff_forall_not_mem.mpr fun r hr => ?_
    obtain ⟨⟨fits,-⟩,hnode⟩ := h r hr
    rw [hnode] at fits
    rw [eq_id.mpr ⟨id,fits⟩] at hid
    cases hid
  | some n =>
    have same : some (Json.int node.1) = some (Json.int n) := id.symm.trans (eq_id.mp hid).1
    obtain rfl : node.1 = n := by simpa using same
    dsimp only
    rw [List.filterMap_map]
    exact (List.filterMap_congr read).trans List.filterMap_some

theorem parseNodeSnapshot_nodeObject {node : ℕ × List AttrReport}
    (h : ∀ r ∈ node.2, Reportable r ∧ r.node = node.1) :
    parseNodeSnapshot (nodeObject node) = node.2 :=
  parseNodeSnapshot_eq ((Json.get_ofFields (by simp) _).trans rfl)
    ((Json.get_ofFields (by simp) _).trans rfl) h

/-- So is a snapshot, node by node. -/
theorem parseFrame_snapshotFrame {nodes : List (ℕ × List AttrReport)}
    (h : ∀ node ∈ nodes, ∀ r ∈ node.2, Reportable r ∧ r.node = node.1) :
    parseFrame (snapshotFrame nodes) = nodes.flatMap Prod.snd := by
  have event : (snapshotFrame nodes).get "event" = none := (Json.get_ofFields (by simp) _).trans rfl
  have result : (snapshotFrame nodes).get "result" = some (.array (nodes.map nodeObject)) :=
    (Json.get_ofFields (by simp) _).trans rfl
  have other : ¬((snapshotFrame nodes).get "event").bind Json.asStr = some "attribute_updated" := by
    rw [event]
    nofun
  rw [parseFrame,if_neg other,eq_array.mpr result]
  dsimp only
  rw [List.flatMap_map]
  exact List.flatMap_congr fun node hn => parseNodeSnapshot_nodeObject (h node hn)

end Written

end Matter

namespace ServerWs

/-- What is heard on the socket, with the reports that are made of it. -/
def Label.parse {C T R : Type} (f : T → List R) : Label C T → Label C R
  | call address c => .call address c
  | poll => .poll
  | connected => .connected
  | refused => .refused
  | greeted version => .greeted version
  | sent => .sent
  | unsent => .unsent
  | listening => .listening
  | heard texts => .heard (texts.flatMap f)
  | dropped => .dropped
  | take => .take
  | written => .written
  | unwritten => .unwritten
  | awake => .awake
  | released => .released
  | stopped => .stopped

/-- What a step brings in. -/
def Label.reports {C R : Type} : Label C R → List R
  | heard reports => reports
  | _ => []

theorem Label.reports_parse {C T R : Type} (f : T → List R) (label : Label C T) :
    (label.parse f).reports = label.reports.flatMap f := by
  cases label <;> rfl

section Collecting
variable {C R : Type} {p : Protocol C} {s s' : ServerWs R} {label : Label C R} {got : List R}

/-- What a step hands out. -/
def polled (s : ServerWs R) : Label C R → List R
  | .poll => s.poll.1
  | _ => []

/-- The reports that the polls of a run return, and the transport after it. -/
def collect (p : Protocol C) (s : ServerWs R) : List (Label C R) → Option (List R × ServerWs R)
  | [] => some ([],s)
  | label :: labels => (s.step p label).bind fun t =>
    (collect p t labels).map fun x => (s.polled label ++ x.1,x.2)

/-- What comes in is handed out, or it stays in line. -/
theorem step_inbound (h : s.step p label = some s') :
    s.polled label ++ s'.inbound = s.inbound ++ label.reports := by
  unfold step at h
  split at h
  · -- a call
    split_ifs at h
    cases h
    simp only [call,polled,Label.reports,List.nil_append,List.append_nil]
    split <;> rfl
  · cases h
    simp [polled,poll,Label.reports]
  iterate 9
    · cases h
      simp [polled,Label.reports]
  · obtain ⟨o,-,rfl⟩ := Option.map_eq_some_iff.mp h
    simp [polled,Label.reports]
  iterate 3
    · cases h
      simp [polled,Label.reports]
  · split_ifs at h
    cases h
    simp [polled,Label.reports]
  · cases h

/-- Over a run, every report is handed out once and in order, or waits. -/
theorem collect_inbound {labels : List (Label C R)} (h : s.collect p labels = some (got,s')) :
    got ++ s'.inbound = s.inbound ++ labels.flatMap Label.reports := by
  induction labels generalizing s got with
  | nil =>
    cases h
    simp
  | cons label labels ih =>
    obtain ⟨t,ht,h⟩ := Option.bind_eq_some_iff.mp h
    obtain ⟨⟨rest,u⟩,hrest,h⟩ := Option.map_eq_some_iff.mp h
    cases h
    rw [List.append_assoc,ih hrest,← List.append_assoc,step_inbound ht,List.flatMap_cons,
      List.append_assoc]

end Collecting
end ServerWs

namespace Matter
open ServerWs

/-- Whatever happens to the connection, the reports that the adapter polls, and then those that wait
for it, are those of the frames that were heard, in order. A frame is read to exactly what it says; an
update and a snapshot are read as they were written. -/
theorem reports_are_exact (fromStr : String → Option Json)
    {labels : List (Label ClusterCommand String)} {got : List AttrReport} {s : ServerWs AttrReport}
    (run : connect.collect protocol (labels.map (.parse (parseInbound fromStr))) = some (got,s)) :
    got ++ s.inbound = (labels.flatMap Label.reports).flatMap (parseInbound fromStr) ∧
      (∀ txt r, r ∈ parseInbound fromStr txt ↔ ∃ v, fromStr txt = some v ∧ Says v r) ∧
      (∀ txt r, Reportable r → fromStr txt = some (updatedFrame r) →
        parseInbound fromStr txt = [r]) ∧
      ∀ txt nodes, (∀ node ∈ nodes, ∀ r ∈ node.2, Reportable r ∧ r.node = node.1) →
        fromStr txt = some (snapshotFrame nodes) →
          parseInbound fromStr txt = nodes.flatMap Prod.snd := by
  refine ⟨?_,fun txt r => ?_,fun txt r fits read => ?_,fun txt nodes fits read => ?_⟩
  · rw [collect_inbound run,List.flatMap_map,List.flatMap_assoc]
    exact List.flatMap_congr fun label _ => Label.reports_parse _ label
  · unfold parseInbound
    cases hv : fromStr txt with
    | none => simp
    | some v => simp [mem_parseFrame]
  · rw [parseInbound,read]
    exact parseFrame_updatedFrame fits
  · rw [parseInbound,read]
    exact parseFrame_snapshotFrame fits

/-- The lamp reports that it is on. -/
def lampOn : AttrReport := ⟨7,1,6,0,.bool true⟩

def lampText : String := "\x7b\"event\":\"attribute_updated\",\"data\":[7,\"1/6/0\",true]\x7d"

def lampJson (txt : String) : Option Json := if txt = lampText then some (updatedFrame lampOn) else none

/-- The connection is lost after the report and a text that is no JSON, and then there is a poll. -/
def lampLabels : List (Label ClusterCommand String) :=
  [.connected,.sent,.listening,.heard [lampText,"pong"],.dropped,.poll]

theorem update_is_polled : ∃ s : ServerWs AttrReport,
    connect.collect protocol (lampLabels.map (.parse (parseInbound lampJson))) = some ([lampOn],s) := by
  obtain ⟨got,s,run,none⟩ : ∃ got, ∃ s : ServerWs AttrReport, connect.collect protocol
    (lampLabels.map (.parse (parseInbound lampJson))) = some (got,s) ∧ s.inbound = [] :=
      ⟨_,_,rfl,rfl⟩
  obtain ⟨order,-,update,-⟩ := reports_are_exact lampJson run
  have fits : Reportable lampOn := by simp [Reportable,lampOn]
  have lamp : parseInbound lampJson lampText = [lampOn] := update _ _ fits (if_pos rfl)
  have pong : parseInbound lampJson "pong" = [] := by
    have unread : lampJson "pong" = Option.none := if_neg (by decide)
    rw [parseInbound,unread]
  have texts : lampLabels.flatMap Label.reports = [lampText,"pong"] := rfl
  rw [none,List.append_nil,texts,List.flatMap_cons,List.flatMap_singleton,lamp,pong,
    List.append_nil] at order
  rw [order] at run
  exact ⟨s,run⟩

end Matter
end Domiform
