import Domiform.Compile.Bare
import Domiform.Compile.Spelling
import Domiform.Compile.WellFormed

/-! Plain payloads. A payload the compiler reads may be spelled in ways that it alone takes; of those
that keep clear of them the schema admits every one, verb by verb. -/
namespace Domiform
open Library Checked Text

/-! What a node keeps clear of. -/
namespace Plain

/-- Fields in a map, not in a list; none of them null, and those that need care spelled with it. -/
def fields (careful : List (String × Schema)) : Schema := fun v => ∃ entries, v = .mapping entries ∧
  ∀ name value, Value.get entries name = some value →
    value ≠ .null ∧ ∀ plain, careful.lookup name = some plain → plain value

def percent : Schema := fun v => ∀ n, v.asI64 = some n → n ≤ 100

def duration : Schema := fun v => ∀ s, v.asStr = some s → Compact s.toList

def time : Schema := fun v => ∀ s, v.asStr = some s → PlainTime s.toList

/-- A `#` before the digits of a text; nothing but the three channels in a map. -/
def color : Schema := fun v => (∀ s, v.asStr = some s → startsWith s.toList "#" = true) ∧
  ∀ entries, v = .mapping entries → ∀ e ∈ entries, ∃ name ∈ ["r","g","b"], e.1 = .string name

def reference : Schema := fun v => ∀ s, v.asStr = some s → PlainReference s.toList

/-- The verbs that are not listed take a single name, and any name will do. -/
def triggers : List (String × Schema) :=
  [("event",reference),("changed",fields []),("crosses",fields []),("reports",fields [])]

def leaves : List (String × Schema) :=
  [("switch",fields []),("occupancy_is",fields []),("compare",fields []),
   ("color_is",fields [("color",color)]),("time_after",time),("time_before",time)]

def commands : List (String × Schema) :=
  [("set_brightness",fields [("value",percent),("transition",duration)]),
   ("decrease_brightness",fields [("by",percent)]),
   ("increase_brightness",fields [("by",percent)]),
   ("set_color",fields [("color",color),("transition",duration)]),
   ("set_color_temperature",fields [("transition",duration)]),
   ("schedule_timer",fields [("after",duration)]),
   ("send_ir_code",fields [])]

/-- The payload of a node is plain, as far as its verb asks for it. -/
def node (table : List (String × Schema)) : Schema := fun v =>
  ∀ verb payload plain, v = .mapping [(.string verb,payload)] → table.lookup verb = some plain →
    plain payload

def trigger : Schema := node triggers

def command : Schema := node commands

mutual
/-- A condition is plain when every condition in it is. -/
def condition (v : Value) : Prop :=
  match v with
  | .mapping [(.string verb,payload)] =>
    if verb = "all" ∨ verb = "any" then conditions payload
    else if verb = "not" then condition payload
    else ∀ plain, leaves.lookup verb = some plain → plain payload
  | _ => True
termination_by structural v
def conditions (v : Value) : Prop :=
  match v with
  | .sequence items => eachCondition items
  | _ => True
termination_by structural v
def eachCondition (items : List Value) : Prop :=
  match items with
  | [] => True
  | v :: vs => condition v ∧ eachCondition vs
termination_by structural items
end

end Plain

/-- The schema admits a field just as it is plain. -/
def Agree (schema : Schema) (plain : Option Schema) (field : Option Value) : Prop :=
  ∀ value, field = some value → (schema value ↔ value ≠ .null ∧ ∀ p, plain = some p → p value)

section Fields
variable {float : String → Option ℤ} {v : Value} {field : Option Value} {f : String → Option Value}
  {names required : List String} {properties careful : List (String × Schema)} {s : String}

/-- A payload whose fields agree, one by one, is admitted just as it is plain. -/
theorem object_iff (bare : v.Bare) (hf : v.fields names = some f)
    (present : required.Forall fun name => (f name).isSome)
    (known : names.Forall fun name => (properties.lookup name).isSome)
    (agree : properties.Forall fun p => Agree p.2 (careful.lookup p.1) (f p.1)) :
    Schema.object required properties v ↔ Plain.fields careful v := by
  rw [List.forall_iff_forall_mem] at present known agree
  have each {name : String} {schema : Schema} (hs : properties.lookup name = some schema) :
      Agree schema (careful.lookup name) (f name) := by
    obtain ⟨before,after,rfl,-⟩ := List.lookup_eq_some_iff.mp hs
    exact agree (name,schema) (by simp)
  obtain ⟨-,⟨entries,rfl,rfl,keys⟩ | ⟨items,rfl⟩⟩ := bare.fields_eq_some hf
  · constructor
    · rintro ⟨_,⟨⟩,-,valid,-⟩
      refine ⟨entries,rfl,fun name value hv => ?_⟩
      obtain ⟨e,he,rfl⟩ := Option.map_eq_some_iff.mp hv
      obtain ⟨key,hkey,hk⟩ := keys e (List.mem_of_find?_eq_some he)
      obtain rfl : key = name := by
        have hfound := List.find?_some he
        rw [hk] at hfound
        simpa [Value.isKey] using hfound
      obtain ⟨schema,hs⟩ := Option.isSome_iff_exists.mp (known key hkey)
      exact (each hs e.2 hv).mp (valid key schema e.2 hs hv)
    · rintro ⟨_,⟨⟩,plain⟩
      refine ⟨entries,rfl,fun e he => ?_,fun name schema value hs hv => ?_,present⟩
      · obtain ⟨name,hn,hk⟩ := keys e he
        exact ⟨name,hk,known name hn⟩
      · exact (each hs value hv).mpr (plain name value hv)
  · constructor
    · rintro ⟨_,⟨⟩,-⟩
    · rintro ⟨_,⟨⟩,-⟩

theorem agree_string (bare : ∀ value, field = some value → value.Bare)
    (h : field.bind Value.asStr = some s) : Agree Schema.string none field := by
  rintro value rfl
  obtain rfl := (bare value rfl).asStr_eq_some.mp h
  exact ⟨fun _ => ⟨by simp,by simp⟩,fun _ => ⟨s,rfl⟩⟩

theorem agree_boolean {b : Bool} (bare : ∀ value, field = some value → value.Bare)
    (h : field.bind Value.asBool = some b) : Agree Schema.boolean none field := by
  rintro value rfl
  obtain rfl := (bare value rfl).asBool_eq_some.mp h
  exact ⟨fun _ => ⟨by simp,by simp⟩,fun _ => ⟨b,rfl⟩⟩

/-- What is read as an integer is one, and within the bounds of the reading. -/
theorem asInt_eq_some {lo hi i : ℤ} : v.asInt lo hi = some i ↔
    (∃ n, v.untag = .number n ∧ n.whole (fun _ => none) = some i) ∧ lo ≤ i ∧ i ≤ hi := by
  unfold Value.asInt
  constructor
  · intro h
    split at h
    · rename_i n hv
      split_ifs at h with hn
      cases h
      exact ⟨⟨_,hv,rfl⟩,hn⟩
    · rename_i n hv
      split_ifs at h with hn
      cases h
      exact ⟨⟨_,hv,rfl⟩,hn⟩
    · cases h
  · rintro ⟨⟨n,hv,hn⟩,hi⟩
    rw [hv]
    cases n with
    | posInt n | negInt n =>
      cases hn
      exact if_pos hi
    | float text => cases hn

theorem Number.whole_of_integer (float : String → Option ℤ) {n : Number} {i : ℤ}
    (h : n.whole (fun _ => none) = some i) : n.whole float = some i := by
  cases n with
  | float text => cases h
  | _ => exact h

theorem number_of_asInt (float : String → Option ℤ) {lo hi i : ℤ} (bare : v.Bare)
    (h : v.asInt lo hi = some i) :
    ∃ n, v = .number n ∧ n.whole float = some i ∧ lo ≤ i ∧ i ≤ hi := by
  obtain ⟨⟨n,hv,hn⟩,hi⟩ := asInt_eq_some.mp h
  rw [bare.untag] at hv
  exact ⟨n,hv,n.whole_of_integer float hn,hi⟩

theorem agree_integer {i : ℤ} (bare : ∀ value, field = some value → value.Bare)
    (h : field.bind Value.asI64 = some i) : Agree (Schema.integer float) none field := by
  rintro value rfl
  obtain ⟨n,rfl,hn,-⟩ := number_of_asInt float (bare value rfl) h
  exact ⟨fun _ => ⟨by simp,by simp⟩,fun _ => ⟨n,i,rfl,hn⟩⟩

theorem asInt_mono {lo hi lo' hi' i : ℤ} (h : v.asInt lo hi = some i) (hlo : lo' ≤ lo)
    (hhi : hi ≤ hi') : v.asInt lo' hi' = some i := by
  obtain ⟨hn,hl,hu⟩ := asInt_eq_some.mp h
  exact asInt_eq_some.mpr ⟨hn,hlo.trans hl,hu.trans hhi⟩

theorem asInt_of_asU32 {u : UInt32} (h : v.asU32 = some u) :
    v.asInt 0 (2^32-1) = some (u.toNat : ℤ) := by
  obtain ⟨i,hi,rfl⟩ := Option.map_eq_some_iff.mp h
  obtain ⟨-,hlo,hhi⟩ := asInt_eq_some.mp hi
  rw [hi,UInt32.toNat_ofNat']
  congr 1
  omega

theorem asInt_of_asU16 {u : UInt16} (h : v.asU16 = some u) :
    v.asInt 0 65535 = some (u.toNat : ℤ) := by
  obtain ⟨i,hi,rfl⟩ := Option.map_eq_some_iff.mp h
  obtain ⟨-,hlo,hhi⟩ := asInt_eq_some.mp hi
  rw [hi,UInt16.toNat_ofNat']
  congr 1
  omega

/-- Of the levels a byte holds, those up to 100 are percentages. -/
theorem agree_percent {u : UInt8} (bare : ∀ value, field = some value → value.Bare)
    (h : field.bind Value.asU8 = some u) :
    Agree (Schema.integerIn float 0 100) (some Plain.percent) field := by
  rintro value rfl
  obtain ⟨i,hi,-⟩ := Option.map_eq_some_iff.mp (show value.asU8 = some u from h)
  obtain ⟨n,rfl,hn,hlo,-⟩ := number_of_asInt float (bare value rfl) hi
  have hwide : Value.asI64 (.number n) = some i := asInt_mono hi (by norm_num) (by norm_num)
  constructor
  · rintro ⟨_,j,⟨⟩,hj,-,hle⟩
    cases hn.symm.trans hj
    refine ⟨by simp,?_⟩
    rintro _ ⟨⟩ k hk
    cases hwide.symm.trans hk
    exact hle
  · rintro ⟨-,plain⟩
    exact ⟨n,i,rfl,hn,hlo,plain _ rfl i hwide⟩

/-- A field that may be missing, or null. -/
theorem agree_optional {α : Type} {decode : Value → Option α} {r : Option α} {schema : Schema}
    {plain : Option Schema} (h : Value.optional decode field = some r) (null : ¬schema .null)
    (present : ∀ value x, field = some value → decode value = some x → r = some x →
      (schema value ↔ ∀ p, plain = some p → p value)) : Agree schema plain field := by
  rintro value rfl
  by_cases hv : value = .null
  · subst hv
    exact ⟨fun hs => absurd hs null,fun hp => absurd rfl hp.1⟩
  · have hd : (decode value).map some = some r := by
      cases value with
      | null => exact absurd rfl hv
      | _ => exact h
    obtain ⟨x,hx,rfl⟩ := Option.map_eq_some_iff.mp hd
    rw [present value x rfl hx rfl]
    exact ⟨fun hp => ⟨hv,hp⟩,And.right⟩

theorem agree_optional_integer {r : Option ℤ} (bare : ∀ value, field = some value → value.Bare)
    (h : Value.optional Value.asI64 field = some r) : Agree (Schema.integer float) none field := by
  refine agree_optional h (by rintro ⟨_,_,⟨⟩,-⟩) fun value i hv hi _ => ?_
  obtain ⟨n,rfl,hn,-⟩ := number_of_asInt float (bare value hv) hi
  exact ⟨fun _ => by simp,fun _ => ⟨n,i,rfl,hn⟩⟩

/-- An integer known to be in the range of the schema. -/
theorem agree_optional_range {α : Type} {decode : Value → Option α} {r : Option α} {lo hi lo' hi' : ℤ}
    {num : α → ℤ} (bare : ∀ value, field = some value → value.Bare)
    (reads : ∀ value x, decode value = some x → value.asInt lo hi = some (num x))
    (h : Value.optional decode field = some r)
    (range : ∀ x, r = some x → lo' ≤ num x ∧ num x ≤ hi') :
    Agree (Schema.integerIn float lo' hi') none field := by
  refine agree_optional h (by rintro ⟨_,_,⟨⟩,-⟩) fun value x hv hx hr => ?_
  obtain ⟨n,rfl,hn,-⟩ := number_of_asInt float (bare value hv) (reads value x hx)
  exact ⟨fun _ => by simp,fun _ => ⟨n,num x,rfl,hn,range x hr⟩⟩

theorem agree_duration {r : Option String} (bare : ∀ value, field = some value → value.Bare)
    (h : Value.optional Value.asStr field = some r)
    (reads : ∀ s, r = some s → ∃ ms, durationOf s = some ms) :
    Agree Schema.duration (some Plain.duration) field := by
  refine agree_optional h (by rintro ⟨_,⟨⟩,-⟩) fun value s hv hs hr => ?_
  obtain ⟨ms,hms⟩ := reads s hr
  obtain rfl := (bare value hv).asStr_eq_some.mp hs
  constructor
  · rintro ⟨_,⟨⟩,hm⟩ _ ⟨⟩ t ⟨⟩
    exact (mem_durationPattern_iff hms).mp hm
  · exact fun plain => ⟨s,rfl,(mem_durationPattern_iff hms).mpr (plain _ rfl s rfl)⟩

/-- A duration that must be there. -/
theorem agree_required_duration {ms : Millis} (bare : ∀ value, field = some value → value.Bare)
    (h : field.bind Value.asStr = some s) (reads : durationOf s = some ms) :
    Agree Schema.duration (some Plain.duration) field := by
  rintro value rfl
  obtain rfl := (bare value rfl).asStr_eq_some.mp h
  constructor
  · rintro ⟨_,⟨⟩,hm⟩
    refine ⟨by simp,?_⟩
    rintro _ ⟨⟩ t ⟨⟩
    exact (mem_durationPattern_iff reads).mp hm
  · exact fun plain => ⟨s,rfl,(mem_durationPattern_iff reads).mpr (plain.2 _ rfl s rfl)⟩

/-- A map with the three channels is admitted when it has nothing else. -/
theorem channels_iff (float : String → Option ℤ) {entries : List (Value × Value)} {r g b : ℕ}
    (bare : (Value.mapping entries).Bare)
    (hr : (Value.get entries "r").bind Value.asU64 = some r)
    (hg : (Value.get entries "g").bind Value.asU64 = some g)
    (hb : (Value.get entries "b").bind Value.asU64 = some b) (hle : r ≤ 255 ∧ g ≤ 255 ∧ b ≤ 255) :
    Schema.object ["r","g","b"] [("r",Schema.integerIn float 0 255),
      ("g",Schema.integerIn float 0 255),("b",Schema.integerIn float 0 255)] (.mapping entries) ↔
      ∀ e ∈ entries, ∃ name ∈ ["r","g","b"], e.1 = .string name := by
  have channel {name : String} {n : ℕ} (hn : (Value.get entries name).bind Value.asU64 = some n)
      (hle : n ≤ 255) : (Value.get entries name).isSome ∧
        ∀ value, Value.get entries name = some value → Schema.integerIn float 0 255 value := by
    obtain ⟨value,hv,hu⟩ := Option.bind_eq_some_iff.mp hn
    refine ⟨by rw [hv]; rfl,fun value' hv' => ?_⟩
    cases hv.symm.trans hv'
    have := (bare.of_get hv).asU64_eq_some.mp hu
    exact ⟨_,n,this,rfl,by omega,by omega⟩
  constructor
  · rintro ⟨_,⟨⟩,keys,-⟩ e he
    obtain ⟨name,hk,hs⟩ := keys e he
    refine ⟨name,?_,hk⟩
    rw [List.lookup_isSome_iff] at hs
    simpa using hs
  · intro keys
    refine ⟨entries,rfl,fun e he => ?_,fun name schema value hs hv => ?_,?_⟩
    · obtain ⟨name,hn,hk⟩ := keys e he
      refine ⟨name,hk,?_⟩
      rw [List.lookup_isSome_iff]
      simpa using hn
    · obtain ⟨before,after,he,-⟩ := List.lookup_eq_some_iff.mp hs
      have hm : (name,schema) ∈ [("r",Schema.integerIn float 0 255),
          ("g",Schema.integerIn float 0 255),("b",Schema.integerIn float 0 255)] := by
        rw [he]
        simp
      simp only [List.mem_cons,Prod.mk.injEq,List.not_mem_nil,or_false] at hm
      rcases hm with ⟨rfl,rfl⟩ | ⟨rfl,rfl⟩ | ⟨rfl,rfl⟩
      · exact (channel hr hle.1).2 value hv
      · exact (channel hg hle.2.1).2 value hv
      · exact (channel hb hle.2.2).2 value hv
    · simpa using ⟨(channel hr hle.1).1,(channel hg hle.2.1).1,(channel hb hle.2.2).1⟩

/-- A text is one of the two forms of a colour, and not the other. -/
theorem color_text_iff {rgb : UInt8 × UInt8 × UInt8} (h : hexToRgb s.toList = some rgb) :
    Schema.color float (.string s) ↔ Plain.color (.string s) := by
  constructor
  · rintro (⟨⟨_,⟨⟩,hm⟩,-⟩ | ⟨⟨_,⟨⟩,-⟩,-⟩)
    refine ⟨?_,by rintro _ ⟨⟩⟩
    rintro _ ⟨⟩
    exact (mem_hexPattern_iff h).mp hm
  · refine fun plain => .inl ⟨⟨s,rfl,(mem_hexPattern_iff h).mpr (plain.1 s rfl)⟩,?_⟩
    rintro ⟨_,⟨⟩,-⟩

theorem color_map_iff {entries : List (Value × Value)} {r g b : ℕ}
    (bare : (Value.mapping entries).Bare) (hr : (Value.get entries "r").bind Value.asU64 = some r)
    (hg : (Value.get entries "g").bind Value.asU64 = some g)
    (hb : (Value.get entries "b").bind Value.asU64 = some b) (hle : r ≤ 255 ∧ g ≤ 255 ∧ b ≤ 255) :
    Schema.color float (.mapping entries) ↔ Plain.color (.mapping entries) := by
  constructor
  · rintro (⟨⟨_,⟨⟩,-⟩,-⟩ | ⟨ho,-⟩)
    refine ⟨by rintro _ ⟨⟩,?_⟩
    rintro _ ⟨⟩
    exact (channels_iff float bare hr hg hb hle).mp ho
  · refine fun plain => .inr ⟨(channels_iff float bare hr hg hb hle).mpr (plain.2 entries rfl),?_⟩
    rintro ⟨_,⟨⟩,-⟩

/-- A colour the compiler reads. -/
theorem agree_color {color : Value} {context : String} (bare : color.Bare)
    (given : field = some color) (h : Quiet Note.Rejects (Lowerer.parseColor color context)) :
    Agree (Schema.color float) (some Plain.color) field := by
  obtain ⟨rgb,hrgb,-⟩ := Lowerer.parseColor_finds h
  subst given
  rintro _ ⟨⟩
  have agree (hn : color ≠ .null) (hiff : Schema.color float color ↔ Plain.color color) :
      Schema.color float color ↔ color ≠ .null ∧ ∀ p, some Plain.color = some p → p color := by
    simpa [hn] using hiff
  unfold Lowerer.parseColor at hrgb
  dsimp only at hrgb
  split at hrgb
  · rename_i s hs
    obtain rfl := bare.asStr_eq_some.mp hs
    split at hrgb
    · rename_i hhex
      exact agree (by simp) (color_text_iff hhex)
    · cases hrgb
  · split at hrgb
    · split at hrgb
      · rename_i r g b hr hg hb
        split_ifs at hrgb with hle
        · exact agree (by simp) (color_map_iff bare hr hg hb hle)
        · cases hrgb
      · cases hrgb
    · cases hrgb

/-- An operator the compiler knows is one the schema lists. -/
theorem agree_op {context : String} (bare : ∀ value, field = some value → value.Bare)
    (h : field.bind Value.asStr = some s)
    (known : Quiet Note.Rejects (Lowerer.parseCmpOp s context)) :
    Agree (Schema.enum ["<","<=","==","!=",">=",">"]) none field := by
  rintro value rfl
  obtain rfl := (bare value rfl).asStr_eq_some.mp h
  refine ⟨fun _ => ⟨by simp,by simp⟩,fun _ => ⟨s,?_,rfl⟩⟩
  obtain ⟨op,hop,-⟩ := Lowerer.parseCmpOp_finds known
  unfold Lowerer.parseCmpOp at hop
  split_ifs at hop
  all_goals first | (subst s; simp) | cases hop

theorem present_of_bind {α β : Type} {o : Option α} {g : α → Option β} {b : β}
    (h : o.bind g = some b) : o.isSome := by
  obtain ⟨a,rfl,-⟩ := Option.bind_eq_some_iff.mp h
  rfl

end Fields

/-! What a payload decodes to tells how far the two descriptions of it agree. -/
section Payloads
variable {float : String → Option ℤ} {v : Value} (bare : v.Bare)
include bare

theorem changed_iff {x : RawChanged} (h : RawChanged.decode v = some x) :
    Schema.changed v ↔ Plain.fields [] v := by
  obtain ⟨f,hf,h⟩ := Option.bind_eq_some_iff.mp h
  obtain ⟨_,hd,h⟩ := Option.bind_eq_some_iff.mp h
  obtain ⟨_,hc,h⟩ := Option.bind_eq_some_iff.mp h
  obtain ⟨_,ht,-⟩ := Option.bind_eq_some_iff.mp h
  have hb := (bare.fields_eq_some hf).1
  exact object_iff bare hf ⟨present_of_bind hd,present_of_bind hc,present_of_bind ht⟩
    ⟨rfl,rfl,rfl⟩ ⟨agree_string (hb _) hd,agree_string (hb _) hc,agree_boolean (hb _) ht⟩

theorem crosses_iff {x : RawCrosses} (h : RawCrosses.decode v = some x) :
    Schema.crosses float v ↔ Plain.fields [] v := by
  obtain ⟨f,hf,h⟩ := Option.bind_eq_some_iff.mp h
  obtain ⟨_,hd,h⟩ := Option.bind_eq_some_iff.mp h
  obtain ⟨_,hc,h⟩ := Option.bind_eq_some_iff.mp h
  obtain ⟨_,ha,h⟩ := Option.bind_eq_some_iff.mp h
  obtain ⟨_,hl,-⟩ := Option.bind_eq_some_iff.mp h
  have hb := (bare.fields_eq_some hf).1
  exact object_iff bare hf ⟨present_of_bind hd,present_of_bind hc⟩ ⟨rfl,rfl,rfl,rfl⟩
    ⟨agree_string (hb _) hd,agree_string (hb _) hc,agree_optional_integer (hb _) ha,
      agree_optional_integer (hb _) hl⟩

theorem reports_iff {x : RawReports} (h : RawReports.decode v = some x) :
    Schema.reports v ↔ Plain.fields [] v := by
  obtain ⟨f,hf,h⟩ := Option.bind_eq_some_iff.mp h
  obtain ⟨_,hd,h⟩ := Option.bind_eq_some_iff.mp h
  obtain ⟨_,hc,-⟩ := Option.bind_eq_some_iff.mp h
  have hb := (bare.fields_eq_some hf).1
  exact object_iff bare hf ⟨present_of_bind hd,present_of_bind hc⟩ ⟨rfl,rfl⟩
    ⟨agree_string (hb _) hd,agree_string (hb _) hc⟩

theorem switch_iff {x : RawSwitchIs} (h : RawSwitchIs.decode v = some x) :
    Schema.switch v ↔ Plain.fields [] v := by
  obtain ⟨f,hf,h⟩ := Option.bind_eq_some_iff.mp h
  obtain ⟨_,hd,h⟩ := Option.bind_eq_some_iff.mp h
  obtain ⟨_,ho,-⟩ := Option.bind_eq_some_iff.mp h
  have hb := (bare.fields_eq_some hf).1
  exact object_iff bare hf ⟨present_of_bind hd,present_of_bind ho⟩ ⟨rfl,rfl⟩
    ⟨agree_string (hb _) hd,agree_boolean (hb _) ho⟩

theorem occupancyIs_iff {x : RawOccupancyIs} (h : RawOccupancyIs.decode v = some x) :
    Schema.occupancyIs v ↔ Plain.fields [] v := by
  obtain ⟨f,hf,h⟩ := Option.bind_eq_some_iff.mp h
  obtain ⟨_,hd,h⟩ := Option.bind_eq_some_iff.mp h
  obtain ⟨_,ho,-⟩ := Option.bind_eq_some_iff.mp h
  have hb := (bare.fields_eq_some hf).1
  exact object_iff bare hf ⟨present_of_bind hd,present_of_bind ho⟩ ⟨rfl,rfl⟩
    ⟨agree_string (hb _) hd,agree_boolean (hb _) ho⟩

theorem compare_iff {x : RawCompare} {context : String} (h : RawCompare.decode v = some x)
    (known : Quiet Note.Rejects (Lowerer.parseCmpOp x.op context)) :
    Schema.compare float v ↔ Plain.fields [] v := by
  obtain ⟨f,hf,h⟩ := Option.bind_eq_some_iff.mp h
  obtain ⟨_,hd,h⟩ := Option.bind_eq_some_iff.mp h
  obtain ⟨_,hc,h⟩ := Option.bind_eq_some_iff.mp h
  obtain ⟨_,ho,h⟩ := Option.bind_eq_some_iff.mp h
  obtain ⟨_,hv,h⟩ := Option.bind_eq_some_iff.mp h
  cases h
  have hb := (bare.fields_eq_some hf).1
  exact object_iff bare hf
    ⟨present_of_bind hd,present_of_bind hc,present_of_bind ho,present_of_bind hv⟩ ⟨rfl,rfl,rfl,rfl⟩
    ⟨agree_string (hb _) hd,agree_string (hb _) hc,agree_op (hb _) ho known,agree_integer (hb _) hv⟩

theorem colorIs_iff {x : RawColorIs} {context : String} (h : RawColorIs.decode v = some x)
    (read : Quiet Note.Rejects (Lowerer.parseColor x.color context)) :
    Schema.colorIs float v ↔ Plain.fields [("color",Plain.color)] v := by
  obtain ⟨f,hf,h⟩ := Option.bind_eq_some_iff.mp h
  obtain ⟨_,hd,h⟩ := Option.bind_eq_some_iff.mp h
  obtain ⟨_,hc,h⟩ := Option.bind_eq_some_iff.mp h
  cases h
  have hb := (bare.fields_eq_some hf).1
  exact object_iff bare hf ⟨present_of_bind hd,Option.isSome_iff_exists.mpr ⟨_,hc⟩⟩ ⟨rfl,rfl⟩
    ⟨agree_string (hb _) hd,agree_color (hb _ _ hc) hc read⟩

theorem setBrightness_iff {x : RawSetBrightness} (h : RawSetBrightness.decode v = some x)
    (reads : ∀ s, x.transition = some s → ∃ ms, durationOf s = some ms) :
    Schema.setBrightness float v ↔
      Plain.fields [("value",Plain.percent),("transition",Plain.duration)] v := by
  obtain ⟨f,hf,h⟩ := Option.bind_eq_some_iff.mp h
  obtain ⟨_,hd,h⟩ := Option.bind_eq_some_iff.mp h
  obtain ⟨_,hv,h⟩ := Option.bind_eq_some_iff.mp h
  obtain ⟨_,ht,h⟩ := Option.bind_eq_some_iff.mp h
  cases h
  have hb := (bare.fields_eq_some hf).1
  exact object_iff bare hf ⟨present_of_bind hd,present_of_bind hv⟩ ⟨rfl,rfl,rfl⟩
    ⟨agree_string (hb _) hd,agree_percent (hb _) hv,agree_duration (hb _) ht reads⟩

theorem stepBrightness_iff {x : RawStepBrightness} (h : RawStepBrightness.decode v = some x) :
    Schema.stepBrightness float v ↔ Plain.fields [("by",Plain.percent)] v := by
  obtain ⟨f,hf,h⟩ := Option.bind_eq_some_iff.mp h
  obtain ⟨_,hd,h⟩ := Option.bind_eq_some_iff.mp h
  obtain ⟨_,hv,-⟩ := Option.bind_eq_some_iff.mp h
  have hb := (bare.fields_eq_some hf).1
  exact object_iff bare hf ⟨present_of_bind hd,present_of_bind hv⟩ ⟨rfl,rfl⟩
    ⟨agree_string (hb _) hd,agree_percent (hb _) hv⟩

theorem setColor_iff {x : RawSetColor} {context : String} (h : RawSetColor.decode v = some x)
    (read : Quiet Note.Rejects (Lowerer.parseColor x.color context))
    (reads : ∀ s, x.transition = some s → ∃ ms, durationOf s = some ms) :
    Schema.setColor float v ↔
      Plain.fields [("color",Plain.color),("transition",Plain.duration)] v := by
  obtain ⟨f,hf,h⟩ := Option.bind_eq_some_iff.mp h
  obtain ⟨_,hd,h⟩ := Option.bind_eq_some_iff.mp h
  obtain ⟨_,hc,h⟩ := Option.bind_eq_some_iff.mp h
  obtain ⟨_,ht,h⟩ := Option.bind_eq_some_iff.mp h
  cases h
  have hb := (bare.fields_eq_some hf).1
  exact object_iff bare hf ⟨present_of_bind hd,Option.isSome_iff_exists.mpr ⟨_,hc⟩⟩ ⟨rfl,rfl,rfl⟩
    ⟨agree_string (hb _) hd,agree_color (hb _ _ hc) hc read,agree_duration (hb _) ht reads⟩

/-- Of `kelvin` and `mireds` the one that is given is in its range. -/
theorem setColorTemperature_iff {x : RawSetColorTemperature} {context : String}
    (h : RawSetColorTemperature.decode v = some x)
    (read : Quiet Note.Rejects (Lowerer.parseColorTemperature x context))
    (reads : ∀ s, x.transition = some s → ∃ ms, durationOf s = some ms) :
    Schema.setColorTemperature float v ↔ Plain.fields [("transition",Plain.duration)] v := by
  have range : (∀ k : UInt32, x.kelvin = some k → 1000 ≤ (k.toNat : ℤ) ∧ (k.toNat : ℤ) ≤ 10000) ∧
      ∀ m : UInt16, x.mireds = some m → 100 ≤ (m.toNat : ℤ) ∧ (m.toNat : ℤ) ≤ 1000 := by
    obtain ⟨mireds,hm,-⟩ := Lowerer.parseColorTemperature_finds read
    unfold Lowerer.parseColorTemperature at hm
    split at hm
    · cases hm
    · cases hm
    · rename_i kelvin hk hn
      split_ifs at hm with hr
      · refine ⟨fun k h => ?_,fun m h => ?_⟩
        · cases hk.symm.trans h
          omega
        · cases hn.symm.trans h
      · cases hm
    · rename_i mireds hk hn
      split_ifs at hm with hr
      · refine ⟨fun k h => ?_,fun m h => ?_⟩
        · cases hk.symm.trans h
        · cases hn.symm.trans h
          omega
      · cases hm
  obtain ⟨f,hf,h⟩ := Option.bind_eq_some_iff.mp h
  obtain ⟨_,hd,h⟩ := Option.bind_eq_some_iff.mp h
  obtain ⟨_,hk,h⟩ := Option.bind_eq_some_iff.mp h
  obtain ⟨_,hm,h⟩ := Option.bind_eq_some_iff.mp h
  obtain ⟨_,ht,h⟩ := Option.bind_eq_some_iff.mp h
  cases h
  have hb := (bare.fields_eq_some hf).1
  exact object_iff bare hf (present_of_bind hd) ⟨rfl,rfl,rfl,rfl⟩
    ⟨agree_string (hb _) hd,agree_optional_range (hb _) (fun _ _ => asInt_of_asU32) hk range.1,
      agree_optional_range (hb _) (fun _ _ => asInt_of_asU16) hm range.2,
      agree_duration (hb _) ht reads⟩

theorem scheduleTimer_iff {x : RawScheduleTimer} {ms : Millis}
    (h : RawScheduleTimer.decode v = some x) (reads : durationOf x.after = some ms) :
    Schema.scheduleTimer v ↔ Plain.fields [("after",Plain.duration)] v := by
  obtain ⟨f,hf,h⟩ := Option.bind_eq_some_iff.mp h
  obtain ⟨_,hk,h⟩ := Option.bind_eq_some_iff.mp h
  obtain ⟨_,ha,h⟩ := Option.bind_eq_some_iff.mp h
  cases h
  have hb := (bare.fields_eq_some hf).1
  exact object_iff bare hf ⟨present_of_bind hk,present_of_bind ha⟩ ⟨rfl,rfl⟩
    ⟨agree_string (hb _) hk,agree_required_duration (hb _) ha reads⟩

theorem sendIrCode_iff {x : RawSendIrCode} (h : RawSendIrCode.decode v = some x) :
    Schema.sendIrCode v ↔ Plain.fields [] v := by
  obtain ⟨f,hf,h⟩ := Option.bind_eq_some_iff.mp h
  obtain ⟨_,hd,h⟩ := Option.bind_eq_some_iff.mp h
  obtain ⟨_,hc,-⟩ := Option.bind_eq_some_iff.mp h
  have hb := (bare.fields_eq_some hf).1
  exact object_iff bare hf ⟨present_of_bind hd,present_of_bind hc⟩ ⟨rfl,rfl⟩
    ⟨agree_string (hb _) hd,agree_string (hb _) hc⟩

end Payloads

end Domiform
