import Domiform.Compile.Keys
import Domiform.Compile.Plain
import Domiform.Compile.Reading

/-! Admission. The compiler and the published schema describe the rule nodes each in their own way. Of
the nodes that compile, the schema admits those that keep clear of the spellings which the compiler
alone takes. -/
namespace Domiform
open Library Checked Text Resolve

/-- For one verb and its payload the two tables come to the same. -/
def Concur (schemas plains : List (String × Schema)) (verb : String) (payload : Value) : Prop :=
  (∃ schema, schemas.lookup verb = some schema ∧ schema payload) ↔
    ∀ plain, plains.lookup verb = some plain → plain payload

section Tables
variable {schemas plains : List (String × Schema)} {verb : String} {payload : Value}
  {schema plain : Schema}

theorem Concur.listed (hs : schemas.lookup verb = some schema) (hp : plains.lookup verb = some plain)
    (h : schema payload ↔ plain payload) : Concur schemas plains verb payload := by
  unfold Concur
  rw [hs,hp]
  simpa using h

theorem Concur.unlisted (hs : schemas.lookup verb = some schema) (hp : plains.lookup verb = none)
    (h : schema payload) : Concur schemas plains verb payload := by
  unfold Concur
  rw [hs,hp]
  simpa using h

theorem Concur.node (h : Concur schemas plains verb payload) :
    Schema.node schemas (.mapping [(.string verb,payload)]) ↔
      Plain.node plains (.mapping [(.string verb,payload)]) := by
  constructor
  · rintro ⟨_,_,schema,⟨⟩,hs,hv⟩ _ _ plain ⟨⟩ hp
    exact h.mp ⟨schema,hs,hv⟩ plain hp
  · intro hp
    obtain ⟨schema,hs,hv⟩ := h.mpr fun plain hl => hp _ _ plain rfl hl
    exact ⟨_,_,schema,rfl,hs,hv⟩

end Tables

namespace Lowerer
variable {α β : Type} {lw : Lowerer} {float : String → Option ℤ} {v payload : Value}
  {verb node name usage context : String}

theorem error_not_quiet {code message : String} :
    ¬Quiet Note.Rejects (error code message context : Lower α) := by
  intro h
  obtain ⟨_,-,hf⟩ := error_finds (P := fun _ => False) h
  exact hf

section Bare
variable (bare : v.Bare)
include bare

/-- A name the compiler reads is a text. -/
theorem asName_bare {f : String → Lower α} (h : Quiet Note.Rejects (asName v node context >>= f)) :
    ∃ s, v = .string s ∧ Quiet Note.Rejects (f s) := by
  obtain ⟨s,hs,-,h⟩ := asName_finds.next h
  exact ⟨s,bare.asStr_eq_some.mp (asName_eq_some hs),h⟩

/-- A payload the compiler reads decodes as it stands. -/
theorem payload_bare {decode : Value → Option α} {f : α → Lower β}
    (h : Quiet Note.Rejects (lw.payload decode v node context >>= f)) :
    ∃ x, decode v = some x ∧ Quiet Note.Rejects (f x) := by
  obtain ⟨x,hx,-,h⟩ := payload_finds.next h
  obtain ⟨merged,hm,hd⟩ := payload_eq_some hx
  cases bare.applyMerge.symm.trans hm
  exact ⟨x,hd,h⟩

theorem singleEntry_bare {f : String × Value → Lower α}
    (h : Quiet Note.Rejects (singleEntry v node context >>= f)) :
    ∃ verb payload, v = .mapping [(.string verb,payload)] ∧ payload.Bare ∧
      Quiet Note.Rejects (f (verb,payload)) := by
  obtain ⟨⟨verb,payload⟩,he,-,h⟩ := singleEntry_finds.next h
  obtain ⟨k,rfl,hk⟩ := singleEntry_eq_some he
  obtain ⟨-,hkb,hpb⟩ := bare.entry (List.mem_singleton_self _)
  obtain rfl := hkb.asStr_eq_some.mp hk
  exact ⟨verb,payload,rfl,hpb,h⟩

end Bare

/-- A device that is not found ends the lowering with an error. -/
theorem device_next {f : DeviceId → Lower α}
    (h : Quiet Note.Rejects (lw.resolveDevice name context >>= f)) :
    ∃ device, Quiet Note.Rejects (f device) := by
  have found : Finds (fun _ => True) (lw.resolveDevice name context) := by
    unfold resolveDevice
    split
    · exact .pure trivial
    · exact error_finds
  obtain ⟨device,-,-,h⟩ := found.next h
  exact ⟨device,h⟩

/-- A capability that is not declared is noted, and the lowering goes on. -/
theorem requireCap_next {device : DeviceId} {kind : CapabilityKind} {f : Unit → Lower α}
    (h : Quiet Note.Rejects (lw.requireCap device name kind usage context >>= f)) :
    Quiet Note.Rejects (f ()) := by
  refine h.bind.2 () ?_
  unfold requireCap
  dsimp only
  split_ifs
  · rfl
  · rfl
  · rfl

theorem durationOf_of_quiet {s : String} (h : Quiet Note.Rejects (parseDuration s context)) :
    ∃ ms, durationOf s = some ms := by
  unfold parseDuration at h
  split at h
  · exact ⟨_,‹_›⟩
  · exact absurd h error_not_quiet

theorem transition_of_quiet {t : Option String}
    (h : Quiet Note.Rejects (parseTransition t context)) (s : String) (ht : t = some s) :
    ∃ ms, durationOf s = some ms := by
  subst ht
  exact durationOf_of_quiet h.bind.1

/-- A time of day the compiler reads. -/
theorem time_iff {f : ℤ → Lower α} (bare : v.Bare) (h : Quiet Note.Rejects (do
    let t ← asName v node context
    let minute ← parseTime t context
    f minute)) : Schema.timeOfDay v ↔ Plain.time v := by
  obtain ⟨t,rfl,ht⟩ := asName_bare bare h
  obtain ⟨minute,hm,-,-⟩ := parseTime_finds.next ht
  obtain ⟨hour,m,hc,-⟩ := parseTime_eq_some hm
  constructor
  · rintro ⟨_,⟨⟩,hp⟩ s ⟨⟩
    exact (mem_timePattern_iff hc).mp hp
  · exact fun plain => ⟨t,rfl,(mem_timePattern_iff hc).mpr (plain t rfl)⟩

theorem triggerOf_concur (bare : payload.Bare)
    (h : Quiet Note.Rejects (lw.triggerOf verb payload context)) :
    Concur (Schema.triggers float) Plain.triggers verb payload := by
  unfold triggerOf at h
  split_ifs at h with hevent hchanged hcrosses hreports htimer hschedule hfailed
  · obtain ⟨spec,rfl,hspec⟩ := asName_bare bare h
    subst hevent
    refine .listed rfl rfl ?_
    split at hspec
    · exact absurd hspec error_not_quiet
    · rename_i device event hs
      constructor
      · rintro ⟨_,⟨⟩,hm⟩ s ⟨⟩
        exact (mem_eventPattern_iff hs).mp hm
      · exact fun plain => ⟨spec,rfl,(mem_eventPattern_iff hs).mpr (plain spec rfl)⟩
  · obtain ⟨x,hx,-⟩ := payload_bare bare h
    subst hchanged
    exact .listed rfl rfl (changed_iff bare hx)
  · obtain ⟨x,hx,-⟩ := payload_bare bare h
    subst hcrosses
    exact .listed rfl rfl (crosses_iff bare hx)
  · obtain ⟨x,hx,-⟩ := payload_bare bare h
    subst hreports
    exact .listed rfl rfl (reports_iff bare hx)
  · obtain ⟨key,rfl,-⟩ := asName_bare bare h
    subst htimer
    exact .unlisted rfl rfl ⟨key,rfl⟩
  · obtain ⟨name,rfl,-⟩ := asName_bare bare h
    subst hschedule
    exact .unlisted rfl rfl ⟨name,rfl⟩
  · obtain ⟨spec,rfl,-⟩ := asName_bare bare h
    subst hfailed
    exact .unlisted rfl rfl ⟨spec,rfl⟩
  · exact absurd h error_not_quiet

theorem leafCondition_concur (bare : payload.Bare)
    (h : Quiet Note.Rejects (lw.leafCondition verb payload context)) :
    Concur (Schema.leaves float) Plain.leaves verb payload := by
  unfold leafCondition at h
  split_ifs at h with hsun hswitch hoccupancy hcompare hcolor hafter hbefore
  · obtain ⟨up,hup,-⟩ := asFlag_finds.next h
    obtain rfl := bare.asBool_eq_some.mp (asFlag_eq_some hup)
    subst hsun
    exact .unlisted rfl rfl ⟨up,rfl⟩
  · obtain ⟨x,hx,-⟩ := payload_bare bare h
    subst hswitch
    exact .listed rfl rfl (switch_iff bare hx)
  · obtain ⟨x,hx,-⟩ := payload_bare bare h
    subst hoccupancy
    exact .listed rfl rfl (occupancyIs_iff bare hx)
  · obtain ⟨x,hx,h⟩ := payload_bare bare h
    obtain ⟨device,h⟩ := device_next h
    obtain ⟨kind,-,-,h⟩ := shapedCapability_finds.next h
    subst hcompare
    exact .listed rfl rfl (compare_iff bare hx h.bind.1)
  · obtain ⟨x,hx,h⟩ := payload_bare bare h
    obtain ⟨device,h⟩ := device_next h
    subst hcolor
    exact .listed rfl rfl (colorIs_iff bare hx (requireCap_next h).bind.1)
  · subst hafter
    exact .listed rfl rfl (time_iff bare h)
  · subst hbefore
    exact .listed rfl rfl (time_iff bare h)
  · exact absurd h error_not_quiet

theorem commandOf_concur (bare : payload.Bare)
    (h : Quiet Note.Rejects (lw.commandOf verb payload context)) :
    Concur (Schema.commands float) Plain.commands verb payload := by
  unfold commandOf at h
  refine h.either (fun hv h => ?_) fun _ h => ?_
  · obtain ⟨name,rfl,-⟩ := asName_bare bare h
    rcases hv with rfl | rfl
    · exact .unlisted rfl rfl ⟨name,rfl⟩
    · exact .unlisted rfl rfl ⟨name,rfl⟩
  refine h.either (fun hv h => ?_) fun _ h => ?_
  · subst hv
    obtain ⟨name,rfl,-⟩ := asName_bare bare h
    exact .unlisted rfl rfl ⟨name,rfl⟩
  refine h.either (fun hv h => ?_) fun _ h => ?_
  · subst hv
    obtain ⟨x,hx,h⟩ := payload_bare bare h
    obtain ⟨device,h⟩ := device_next h
    have h := requireCap_next h
    exact .listed rfl rfl (setBrightness_iff bare hx (transition_of_quiet h.bind.1))
  refine h.either (fun hv h => ?_) fun _ h => ?_
  · subst hv
    obtain ⟨x,hx,-⟩ := payload_bare bare h
    exact .listed rfl rfl (stepBrightness_iff bare hx)
  refine h.either (fun hv h => ?_) fun _ h => ?_
  · subst hv
    obtain ⟨x,hx,-⟩ := payload_bare bare h
    exact .listed rfl rfl (stepBrightness_iff bare hx)
  refine h.either (fun hv h => ?_) fun _ h => ?_
  · subst hv
    obtain ⟨x,hx,h⟩ := payload_bare bare h
    obtain ⟨device,h⟩ := device_next h
    have h := requireCap_next h
    have hread := h.bind.1
    obtain ⟨rgb,-,-,h⟩ := parseColor_finds.next h
    exact .listed rfl rfl (setColor_iff bare hx hread (transition_of_quiet h.bind.1))
  refine h.either (fun hv h => ?_) fun _ h => ?_
  · subst hv
    obtain ⟨x,hx,h⟩ := payload_bare bare h
    obtain ⟨device,h⟩ := device_next h
    have h := requireCap_next h
    have hread := h.bind.1
    obtain ⟨mireds,-,-,h⟩ := parseColorTemperature_finds.next h
    exact .listed rfl rfl (setColorTemperature_iff bare hx hread (transition_of_quiet h.bind.1))
  refine h.either (fun hv h => ?_) fun _ h => ?_
  · subst hv
    obtain ⟨name,rfl,-⟩ := asName_bare bare h
    exact .unlisted rfl rfl ⟨name,rfl⟩
  refine h.either (fun hv h => ?_) fun _ h => ?_
  · subst hv
    obtain ⟨x,hx,h⟩ := payload_bare bare h
    obtain ⟨ms,hms⟩ := durationOf_of_quiet (h.bind.2 () rfl).bind.1
    exact .listed rfl rfl (scheduleTimer_iff bare hx hms)
  refine h.either (fun hv h => ?_) fun _ h => ?_
  · subst hv
    obtain ⟨key,rfl,-⟩ := asName_bare bare h
    exact .unlisted rfl rfl ⟨key,rfl⟩
  refine h.either (fun hv h => ?_) fun _ h => absurd h error_not_quiet
  subst hv
  obtain ⟨x,hx,-⟩ := payload_bare bare h
  exact .listed rfl rfl (sendIrCode_iff bare hx)

theorem trigger_concur (bare : v.Bare) (h : Quiet Note.Rejects (lw.trigger context v)) :
    Schema.trigger float v ↔ Plain.trigger v := by
  obtain ⟨verb,payload,rfl,hp,h⟩ := singleEntry_bare bare h
  exact (triggerOf_concur hp h).node

theorem command_concur (bare : v.Bare) (h : Quiet Note.Rejects (lw.command context v)) :
    Schema.command float v ↔ Plain.command v := by
  obtain ⟨verb,payload,rfl,hp,h⟩ := singleEntry_bare bare h
  exact (commandOf_concur hp h).node

mutual
/-- A condition is admitted just as it is plain, however deep the conditions in it lie. -/
theorem condition_concur (float : String → Option ℤ) {v : Value} (bare : v.Bare)
    (h : Quiet Note.Rejects (lw.condition context v)) :
    Schema.condition float v ↔ Plain.condition v := by
  match v,bare,h with
  | .mapping [(k,payload)],bare,h =>
    obtain ⟨-,hk,hp⟩ := bare.entry (List.mem_singleton_self _)
    rw [condition] at h
    split at h
    · exact absurd h error_not_quiet
    · rename_i verb hverb
      obtain rfl := hk.asStr_eq_some.mp hverb
      rw [Schema.condition,Plain.condition]
      refine h.either (fun hv h => ?_) fun hall h => ?_
      · rw [if_pos (.inl hv),if_pos (.inl hv)]
        exact conditionList_concur float hp h.bind.1
      refine h.either (fun hv h => ?_) fun hany h => ?_
      · rw [if_pos (.inr hv),if_pos (.inr hv)]
        exact conditionList_concur float hp h.bind.1
      rw [if_neg (not_or.mpr ⟨hall,hany⟩),if_neg (not_or.mpr ⟨hall,hany⟩)]
      refine h.either (fun hv h => ?_) fun hnot h => ?_
      · rw [if_pos hv,if_pos hv]
        exact condition_concur float hp h.bind.1
      · rw [if_neg hnot,if_neg hnot]
        exact leafCondition_concur hp h
  | .mapping [],_,h | .mapping (_ :: _ :: _),_,h | .null,_,h | .bool _,_,h | .number _,_,h
  | .string _,_,h | .sequence _,_,h | .tagged _ _,_,h =>
    exact absurd h error_not_quiet

theorem conditionList_concur (float : String → Option ℤ) {node : String} {v : Value} (bare : v.Bare)
    (h : Quiet Note.Rejects (lw.conditionList context node v)) :
    Schema.conditions float v ↔ Plain.conditions v := by
  match v,bare,h with
  | .sequence items,bare,h => exact conditionItems_concur float bare h
  | .null,_,h | .bool _,_,h | .number _,_,h | .string _,_,h | .mapping _,_,h =>
    exact absurd h error_not_quiet

theorem conditionItems_concur (float : String → Option ℤ) {items : List Value}
    (bare : (Value.sequence items).Bare)
    (h : Quiet Note.Rejects (lw.conditionItems context items)) :
    Schema.eachCondition float items ↔ Plain.eachCondition items := by
  match items with
  | [] => exact Iff.rfl
  | v :: vs =>
    have hv := condition_concur float (bare.item (List.mem_cons_self ..)) fun n hn =>
      h n (List.mem_append_left _ hn)
    have rest : (Value.sequence vs).Bare :=
      Value.bareItems_iff.mpr fun x hx => bare.item (List.mem_cons_of_mem _ hx)
    have hvs := conditionItems_concur float rest fun n hn => h n (List.mem_append_right _ hn)
    rw [Schema.eachCondition,Plain.eachCondition,hv,hvs]
end

end Lowerer

/-- A trigger, a condition or a command without tags and merge keys that lowers without an error is
admitted by the schema exactly when it is plain. How the validator reads the text of a float has no
part in it. -/
theorem admitted_iff_plain (lw : Lowerer) (context : String) (float : String → Option ℤ) {v : Value}
    (bare : v.Bare) :
    (Quiet Note.Rejects (lw.trigger context v) → (Schema.trigger float v ↔ Plain.trigger v)) ∧
      (Quiet Note.Rejects (lw.condition context v) →
        (Schema.condition float v ↔ Plain.condition v)) ∧
      (Quiet Note.Rejects (lw.command context v) → (Schema.command float v ↔ Plain.command v)) :=
  ⟨Lowerer.trigger_concur bare,Lowerer.condition_concur float bare,Lowerer.command_concur bare⟩

namespace Plain

/-- Of two fields only the second needs care. -/
theorem fields_pair_iff {careful : List (String × Schema)} {a b x : String} {value : Value}
    {plain : Schema} (apart : a ≠ b) (free : careful.lookup a = none)
    (care : careful.lookup b = some plain) (given : value ≠ .null) :
    fields careful (.mapping [(.string a,.string x),(.string b,value)]) ↔ plain value := by
  have hget (name : String) : Value.get [(.string a,.string x),(.string b,value)] name =
      [(a,.string x),(b,value)].lookup name := Value.Bare.get_named [(a,.string x),(b,value)] name
  constructor
  · rintro ⟨_,⟨⟩,h⟩
    refine (h b value ?_).2 plain care
    rw [hget,List.lookup_cons,beq_false_of_ne apart.symm]
    simp
  · refine fun h => ⟨_,rfl,fun name value' hv => ?_⟩
    rw [hget] at hv
    obtain ⟨before,after,hl,-⟩ := List.lookup_eq_some_iff.mp hv
    have hm : (name,value') ∈ [(a,Value.string x),(b,value)] := by
      rw [hl]
      simp
    rcases List.mem_cons.mp hm with he | hm
    · cases he
      refine ⟨by simp,fun p hp => ?_⟩
      rw [free] at hp
      cases hp
    · cases List.mem_singleton.mp hm
      refine ⟨given,fun p hp => ?_⟩
      cases care.symm.trans hp
      exact h

theorem node_of_listed {table : List (String × Schema)} {verb : String} {payload : Value}
    {plain : Schema} (listed : table.lookup verb = some plain) :
    node table (.mapping [(.string verb,payload)]) ↔ plain payload := by
  constructor
  · exact fun h => h verb payload plain rfl listed
  · rintro h _ _ plain' ⟨⟩ listed'
    cases listed.symm.trans listed'
    exact h

end Plain

/-! A scene and a rule for a lamp, with a number that has a bound and texts that have a pattern. -/
namespace Hall

def dim (level : ℕ) : Value := .mapping [(.string "set_brightness",.mapping [
  (.string "device",.string "lamp"),(.string "value",.number (.posInt level))])]

def tint (color : String) : Value := .mapping [(.string "set_color",.mapping [
  (.string "device",.string "lamp"),(.string "color",.string color)])]

def wait (after : String) : Value := .mapping [(.string "schedule_timer",.mapping [
  (.string "key",.string "dawn"),(.string "after",.string after)])]

def early (time : String) : Value :=
  .mapping [(.string "not",.mapping [(.string "time_after",.string time)])]

def config (level : ℕ) (color after time : String) : RawConfig where
  system := .default
  adapters := .single "bus" ⟨"virtual",.mapping []⟩
  devices := .single "lamp" ⟨"bus",none,none,["brightness","color"],.empty,none,none,none⟩
  scenes := .single "hall" [dim level,tint color,wait after]
  schedules := .empty
  rules := .single "dawn" {
    trigger := .mapping [(.string "timer",.string "dawn")]
    condition := some (early time)
    forDuration := none
    commands := [.mapping [(.string "activate_scene",.string "hall")]] }

/-- How the file is lowered; what it is called in a message is left open. -/
def lowering (level : ℕ) (color after time : String) : Lowerer :=
  lowerer plainLibraries (config level color after time)

section Texts
variable (level : ℕ) (color after time : String)

theorem dim_bare : (dim level).Bare := by
  simp [dim,Value.Bare,Value.BareEntries,Value.BareEntry,Value.isKey]

theorem tint_bare : (tint color).Bare := by
  simp [tint,Value.Bare,Value.BareEntries,Value.BareEntry,Value.isKey]

theorem wait_bare : (wait after).Bare := by
  simp [wait,Value.Bare,Value.BareEntries,Value.BareEntry,Value.isKey]

theorem early_bare : (early time).Bare := by
  simp [early,Value.Bare,Value.BareEntries,Value.BareEntry,Value.isKey]

theorem dim_plain_iff (read : level < 2^63) : Plain.command (dim level) ↔ level ≤ 100 := by
  have hr : (-2^63 : ℤ) ≤ level ∧ (level : ℤ) ≤ 2^63-1 := by omega
  have hlevel : (Value.number (.posInt level)).asI64 = some (level : ℤ) := if_pos hr
  have percent : Plain.percent (.number (.posInt level)) ↔ level ≤ 100 := by
    unfold Plain.percent
    rw [hlevel]
    simp
  exact (Plain.node_of_listed rfl).trans
    ((Plain.fields_pair_iff (by decide) rfl rfl (by simp)).trans percent)

theorem tint_plain_iff : Plain.command (tint color) ↔ startsWith color.toList "#" = true := by
  refine (Plain.node_of_listed rfl).trans
    ((Plain.fields_pair_iff (by decide) rfl rfl (by simp)).trans ?_)
  constructor
  · exact fun h => h.1 color rfl
  · refine fun h => ⟨?_,by rintro _ ⟨⟩⟩
    rintro _ ⟨⟩
    exact h

theorem wait_plain_iff : Plain.command (wait after) ↔ Compact after.toList := by
  refine (Plain.node_of_listed rfl).trans
    ((Plain.fields_pair_iff (by decide) rfl rfl (by simp)).trans ?_)
  constructor
  · exact fun h => h after rfl
  · rintro h _ ⟨⟩
    exact h

theorem early_plain_iff : Plain.condition (early time) ↔ PlainTime time.toList := by
  rw [early,Plain.condition,if_neg (by decide),if_pos rfl,Plain.condition,if_neg (by decide),
    if_neg (by decide)]
  constructor
  · exact fun h => h Plain.time rfl time rfl
  · rintro h plain ⟨⟩ s ⟨⟩
    exact h

end Texts
end Hall

open Hall

/-- Every part of the file is spelled as the schema has it, and admitted. -/
theorem strict_hall_admitted : ∃ cfg,
    resolve plainLibraries .identity (config 40 "#ff8800" "10m" "07:05") = .ok cfg ∧
      ∀ float, Schema.condition float (early "07:05") ∧ Schema.command float (dim 40) ∧
        Schema.command float (tint "#ff8800") ∧ Schema.command float (wait "10m") := by
  refine ⟨_,rfl,fun float => ?_⟩
  have admitted {v : Value} (bare : v.Bare) :=
    admitted_iff_plain (lowering 40 "#ff8800" "10m" "07:05") "" float bare
  refine ⟨((admitted (early_bare _)).2.1 (by unfold Quiet; decide)).mpr ?_,
    ((admitted (dim_bare _)).2.2 (by unfold Quiet; decide)).mpr ?_,
    ((admitted (tint_bare _)).2.2 (by unfold Quiet; decide)).mpr ?_,
    ((admitted (wait_bare _)).2.2 (by unfold Quiet; decide)).mpr ?_⟩
  · refine (early_plain_iff _).mpr ⟨compact_of_all rfl,?_⟩
    rintro h m ⟨⟩
    decide
  · exact (dim_plain_iff 40 (by norm_num)).mpr (by norm_num)
  · exact (tint_plain_iff _).mpr (by decide)
  · exact (wait_plain_iff _).mpr (compact_of_all rfl)

/-- What the compiler accepts in the same places, and the schema does not: a level above 100, a colour
without its `#`, a blank in a duration, and a time with single digits. -/
theorem loose_hall_not_admitted : ∃ cfg,
    resolve plainLibraries .identity (config 200 "ff8800" "10 m" "7:5") = .ok cfg ∧
      ((early "7:5").Bare ∧ (dim 200).Bare ∧ (tint "ff8800").Bare ∧ (wait "10 m").Bare) ∧
      (Quiet Note.Rejects ((lowering 200 "ff8800" "10 m" "7:5").condition "" (early "7:5")) ∧
        ∀ v ∈ [dim 200,tint "ff8800",wait "10 m"],
          Quiet Note.Rejects ((lowering 200 "ff8800" "10 m" "7:5").command "" v)) ∧
      ∀ float, ¬Schema.condition float (early "7:5") ∧ ¬Schema.command float (dim 200) ∧
        ¬Schema.command float (tint "ff8800") ∧ ¬Schema.command float (wait "10 m") := by
  have hearly : Quiet Note.Rejects
      ((lowering 200 "ff8800" "10 m" "7:5").condition "" (early "7:5")) := by
    unfold Quiet
    decide
  have hlines : ∀ v ∈ [dim 200,tint "ff8800",wait "10 m"],
      Quiet Note.Rejects ((lowering 200 "ff8800" "10 m" "7:5").command "" v) := by
    unfold Quiet
    decide
  refine ⟨_,rfl,⟨early_bare _,dim_bare _,tint_bare _,wait_bare _⟩,⟨hearly,hlines⟩,fun float => ?_⟩
  have line {v : Value} (bare : v.Bare) (hv : v ∈ [dim 200,tint "ff8800",wait "10 m"]) :
      Schema.command float v ↔ Plain.command v := Lowerer.command_concur bare (hlines v hv)
  refine ⟨?_,?_,?_,?_⟩
  · rw [Lowerer.condition_concur float (early_bare _) hearly,early_plain_iff]
    exact fun h => absurd (h.2 ['7'] ['5'] rfl).2 (by decide)
  · rw [line (dim_bare _) (by simp),dim_plain_iff 200 (by norm_num)]
    norm_num
  · rw [line (tint_bare _) (by simp),tint_plain_iff]
    decide
  · rw [line (wait_bare _) (by simp),wait_plain_iff]
    exact fun h => absurd (h ' ' (by decide)).1 (by decide)

end Domiform
