import Domiform.Bindings
import Domiform.Compile.Reading
import Domiform.Replay

/-! What `unknown` means. A condition that is definite stays as it is when more gets reported; and
in a compiled rule a leaf is unknown exactly until its capability is first reported, after which
the condition reads like the one in the file. -/
namespace Domiform
open Library

/-- Nothing is lost from one store to the other. -/
def StateStore.Extends (s s' : StateStore) : Prop :=
  ∀ d k v, s.get d k = some v → s'.get d k = some v

namespace Truth

/-- The second is what the first may turn into once more is known. -/
def Refines (t t' : Truth) : Prop := t = unknown ∨ t' = t

namespace Refines
variable {t t' u u' : Truth}

theorem refl (t : Truth) : t.Refines t := .inr rfl

theorem eq_of_ne (h : t.Refines t') (known : t ≠ unknown) : t' = t := h.resolve_left known

theorem not (h : t.Refines t') : t.not.Refines t'.not := by
  rcases h with rfl | rfl
  · exact .inl rfl
  · exact refl _

theorem and (h : t.Refines t') (h' : u.Refines u') : (t.and u).Refines (t'.and u') := by
  rcases h with rfl | rfl <;> rcases h' with rfl | rfl
  · exact .inl rfl
  · cases u' <;> cases t' <;> first | exact .inl rfl | exact refl _
  · cases t' <;> cases u' <;> first | exact .inl rfl | exact refl _
  · exact refl _

theorem or (h : t.Refines t') (h' : u.Refines u') : (t.or u).Refines (t'.or u') := by
  rcases h with rfl | rfl <;> rcases h' with rfl | rfl
  · exact .inl rfl
  · cases u' <;> cases t' <;> first | exact .inl rfl | exact refl _
  · cases t' <;> cases u' <;> first | exact .inl rfl | exact refl _
  · exact refl _

end Refines

@[simp] theorem not_fromBool (b : Bool) : (fromBool b).not = fromBool !b := by
  cases b <;> rfl

@[simp] theorem and_fromBool (a b : Bool) : (fromBool a).and (fromBool b) = fromBool (a && b) := by
  cases a <;> cases b <;> rfl

@[simp] theorem or_fromBool (a b : Bool) : (fromBool a).or (fromBool b) = fromBool (a || b) := by
  cases a <;> cases b <;> rfl

/-- A definite value, that of the statement. -/
def Decides (t : Truth) (p : Prop) : Prop := t = true ∧ p ∨ t = false ∧ ¬p

namespace Decides
variable {t u : Truth} {p q : Prop}

theorem ne_unknown (h : t.Decides p) : t ≠ unknown := by
  rcases h with ⟨rfl,-⟩ | ⟨rfl,-⟩ <;> simp

theorem congr (h : t.Decides p) (hp : p ↔ q) : t.Decides q := by
  rwa [Decides,← hp]

theorem of_fromBool {b : Bool} (h : b = Bool.true ↔ p) : (fromBool b).Decides p := by
  cases b with
  | true => exact .inl ⟨rfl,h.mp rfl⟩
  | false => exact .inr ⟨rfl,fun hp => Bool.false_ne_true (h.mpr hp)⟩

theorem not (h : t.Decides p) : t.not.Decides ¬p := by
  rcases h with ⟨rfl,hp⟩ | ⟨rfl,hp⟩
  · exact .inr ⟨rfl,not_not.mpr hp⟩
  · exact .inl ⟨rfl,hp⟩

theorem and (h : t.Decides p) (h' : u.Decides q) : (t.and u).Decides (p ∧ q) := by
  rcases h with ⟨rfl,hp⟩ | ⟨rfl,hp⟩ <;> rcases h' with ⟨rfl,hq⟩ | ⟨rfl,hq⟩
  · exact .inl ⟨rfl,hp,hq⟩
  · exact .inr ⟨rfl,fun h => hq h.2⟩
  · exact .inr ⟨rfl,fun h => hp h.1⟩
  · exact .inr ⟨rfl,fun h => hp h.1⟩

theorem or (h : t.Decides p) (h' : u.Decides q) : (t.or u).Decides (p ∨ q) := by
  rcases h with ⟨rfl,hp⟩ | ⟨rfl,hp⟩ <;> rcases h' with ⟨rfl,hq⟩ | ⟨rfl,hq⟩
  · exact .inl ⟨rfl,.inl hp⟩
  · exact .inl ⟨rfl,.inl hp⟩
  · exact .inl ⟨rfl,.inr hq⟩
  · exact .inr ⟨rfl,fun h => h.elim hp hq⟩

/-- The units of the two folds are what the empty lists say. -/
theorem foldl_and {ts : List Truth} {ps : List Prop} (hs : List.Forall₂ Decides ts ps)
    (h : t.Decides p) : (ts.foldl Truth.and t).Decides (p ∧ ∀ q ∈ ps, q) := by
  induction hs generalizing t p with
  | nil => simpa using h
  | cons hq _ ih => exact (ih (h.and hq)).congr (by rw [List.forall_mem_cons,and_assoc])

theorem foldl_or {ts : List Truth} {ps : List Prop} (hs : List.Forall₂ Decides ts ps)
    (h : t.Decides p) : (ts.foldl Truth.or t).Decides (p ∨ ∃ q ∈ ps, q) := by
  induction hs generalizing t p with
  | nil => simpa using h
  | cons hq _ ih =>
    apply (ih (h.or hq)).congr
    simp only [List.mem_cons,or_and_right,exists_or,exists_eq_left,or_assoc]

end Decides
end Truth

namespace Condition

section Monotone
variable {s s' : StateStore}

theorem evalAnd_eq (acc : Truth) (cs : List Condition) (s : StateStore) :
    evalAnd acc cs s = (cs.map fun c => c.eval s).foldl Truth.and acc := by
  induction cs generalizing acc with
  | nil => rfl
  | cons c cs ih => rw [evalAnd,ih,List.map_cons,List.foldl_cons]

theorem evalOr_eq (acc : Truth) (cs : List Condition) (s : StateStore) :
    evalOr acc cs s = (cs.map fun c => c.eval s).foldl Truth.or acc := by
  induction cs generalizing acc with
  | nil => rfl
  | cons c cs ih => rw [evalOr,ih,List.map_cons,List.foldl_cons]

theorem boolValue_extends (more : s.Extends s') {d : DeviceId} {k : CapabilityKind} {b : Bool}
    (h : s.boolValue d k = some b) : s'.boolValue d k = some b := by
  obtain ⟨v,hv,hb⟩ := Option.bind_eq_some_iff.mp h
  rw [StateStore.boolValue,more d k v hv]
  exact hb

theorem numValue_extends (more : s.Extends s') {d : DeviceId} {k : CapabilityKind} {n : ℤ}
    (h : s.numValue d k = some n) : s'.numValue d k = some n := by
  obtain ⟨v,hv,hn⟩ := Option.bind_eq_some_iff.mp h
  rw [StateStore.numValue,more d k v hv]
  exact hn

mutual
/-- Every connective and every leaf keeps what is definite. -/
theorem eval_refines (more : s.Extends s') (c : Condition) : (c.eval s).Refines (c.eval s') := by
  match c with
  | always => exact .refl _
  | not inner => exact (eval_refines more inner).not
  | and cs =>
    rw [eval,eval,evalAnd_eq,evalAnd_eq]
    exact List.rel_foldl (fun _ _ h _ _ h' => h.and h') (.refl .true) (evals_refine more cs)
  | or cs =>
    rw [eval,eval,evalOr_eq,evalOr_eq]
    exact List.rel_foldl (fun _ _ h _ _ h' => h.or h') (.refl .false) (evals_refine more cs)
  | boolEquals device kind value =>
    rw [eval,eval]
    cases h : s.boolValue device kind with
    | none => exact .inl rfl
    | some b =>
      rw [boolValue_extends more h]
      exact .refl _
  | compare device kind op value =>
    rw [eval,eval]
    cases h : s.numValue device kind with
    | none => exact .inl rfl
    | some n =>
      rw [numValue_extends more h]
      exact .refl _
  | colorEquals device r g b =>
    rw [eval,eval]
    cases h : s.get device .color with
    | none => exact .inl rfl
    | some v =>
      rw [more device .color v h]
      exact .refl _

theorem evals_refine (more : s.Extends s') (cs : List Condition) :
    List.Forall₂ Truth.Refines (cs.map fun c => c.eval s) (cs.map fun c => c.eval s') := by
  match cs with
  | [] => exact .nil
  | c :: cs => exact .cons (eval_refines more c) (evals_refine more cs)
end

end Monotone

end Condition

/-- Unknown is sound: no later report of a capability overturns a definite condition, so a rule that
fires while part of the state is unreported fires under everything that part may turn out to be. -/
theorem unknown_is_sound (c : Condition) {s s' : StateStore} (more : s.Extends s') :
    (c.eval s ≠ .unknown → c.eval s' = c.eval s) ∧
      ∀ {A N : Type} (e : Engine A N) (ev : Event) (prior : Option CapabilityState), e.state = s →
        List.Sublist (e.considerRules ev prior).2 ({ e with state := s' }.considerRules ev prior).2 := by
  refine ⟨(Condition.eval_refines more c).eq_of_ne,fun e ev prior hs => ?_⟩
  subst hs
  refine List.monotone_filter_right _ fun r hr => ?_
  rw [Truth.isTrue_iff] at hr ⊢
  have known : r.condition.eval e.state ≠ .unknown := by simp [hr]
  exact ((Condition.eval_refines more r.condition).eq_of_ne known).trans hr

/-- While presence is unknown, the switch alone makes the conjunction false; and so it stays. -/
theorem unlit_room_is_sound : ∃ s s' : StateStore, s.Extends s' ∧ s ≠ s' ∧
    ∃ c : Condition, c.eval s = .false ∧ c.eval s' = c.eval s := by
  let s := StateStore.empty.set lamp (.switch false)
  let s' := s.set lamp (.occupancy true)
  let c : Condition := .and [.boolEquals lamp .occupancy true,.boolEquals lamp .switch true]
  have more : s.Extends s' := by
    intro d k v h
    have hk : k ≠ .occupancy := by
      rintro rfl
      simp [s,StateStore.get_set,CapabilityState.kind] at h
    rw [StateStore.get_set,if_neg fun he => hk he.2]
    exact h
  refine ⟨s,s',more,fun he => ?_,c,by decide,(unknown_is_sound c more).1 (by decide)⟩
  have hn : s.get lamp .occupancy = s'.get lamp .occupancy := by rw [← he]
  exact absurd hn (by decide)

namespace Condition

/-- The capability that a leaf reads. -/
def watches : Condition → Option (DeviceId × CapabilityKind)
  | boolEquals device kind _ | compare device kind _ _ => some (device,kind)
  | colorEquals device _ _ _ => some (device,.color)
  | _ => none

mutual
def leaves (c : Condition) : List Condition :=
  match c with
  | always => []
  | not inner => inner.leaves
  | and cs | or cs => leavesOf cs
  | c => [c]

def leavesOf (cs : List Condition) : List Condition :=
  match cs with
  | [] => []
  | c :: cs => c.leaves ++ leavesOf cs
end

section Classical
variable {sc : Scope} {s : StateStore}

/-- A leaf is unknown as long as nothing is stored where it reads, and then it is as it says. -/
def Told (s : StateStore) (l : Condition) (x : DeviceId × CapabilityKind) : Prop :=
  s.get x.1 x.2 = none ∧ l.eval s = .unknown ∨
    s.get x.1 x.2 ≠ none ∧ (l.eval s).Decides (l.Says s)

/-- A reading that fits what is stored gives a value just when something is stored. -/
theorem stored_cases {α β : Type} {stored : Option α} {reading : Option β}
    (h : reading.isSome = stored.isSome) :
    stored = none ∧ reading = none ∨ stored ≠ none ∧ ∃ b, reading = some b := by
  cases stored with
  | none =>
    rw [Option.isSome_none,Option.isSome_eq_false_iff,Option.isNone_iff_eq_none] at h
    exact .inl ⟨rfl,h⟩
  | some v => exact .inr ⟨by simp,Option.isSome_iff_exists.mp (by rw [h]; rfl)⟩

theorem told_boolEquals (d : DeviceId) {k : CapabilityKind} (b : Bool) (hk : k.isBool = true) :
    (boolEquals d k b).Told s (d,k) := by
  rw [Told,eval,Says]
  obtain ⟨hg,hv⟩ | ⟨hg,a,hv⟩ := stored_cases (StateStore.boolValue_isSome (s := s) (d := d) hk)
  · rw [hv]
    exact .inl ⟨hg,rfl⟩
  · obtain ⟨v,hg',ha⟩ := Option.bind_eq_some_iff.mp hv
    rw [hv]
    exact .inr ⟨hg,.of_fromBool (by simp [hg',ha])⟩

theorem told_compare (d : DeviceId) {k : CapabilityKind} (op : CmpOp) (n : ℤ)
    (hk : k.isNumeric = true) : (compare d k op n).Told s (d,k) := by
  rw [Told,eval,Says]
  obtain ⟨hg,hv⟩ | ⟨hg,a,hv⟩ := stored_cases (StateStore.numValue_isSome (s := s) (d := d) hk)
  · rw [hv]
    exact .inl ⟨hg,rfl⟩
  · obtain ⟨v,hg',ha⟩ := Option.bind_eq_some_iff.mp hv
    rw [hv]
    exact .inr ⟨hg,.of_fromBool (by simp [hg',ha])⟩

theorem told_colorEquals (d : DeviceId) (r g b : UInt8) :
    (colorEquals d r g b).Told s (d,.color) := by
  rw [Told,eval,Says]
  cases hg : s.get d .color with
  | none => exact .inl ⟨rfl,rfl⟩
  | some v =>
    have hk := StateStore.kind_of_get hg
    cases v <;> cases hk
    exact .inr ⟨by simp,.of_fromBool (by simp [and_assoc])⟩

/-- The compiler lets a leaf read a capability only if it has the leaf's shape. -/
theorem WellFormed.told {l : Condition} (h : l.WellFormed sc) {x : DeviceId × CapabilityKind}
    (hx : l.watches = some x) : l.Told s x := by
  cases h with
  | always | not | and | or => cases hx
  | sun up =>
    cases hx
    exact told_boolEquals _ _ rfl
  | boolEquals value declared shape =>
    cases hx
    exact told_boolEquals _ _ shape
  | time op minute =>
    cases hx
    exact told_compare _ _ _ rfl
  | compare op value declared shape =>
    cases hx
    exact told_compare _ _ _ shape
  | colorEquals r g b declared =>
    cases hx
    exact told_colorEquals _ _ _ _

mutual
theorem WellFormed.leaves {c : Condition} (h : c.WellFormed sc) :
    ∀ l ∈ c.leaves, l.WellFormed sc ∧ l.watches.isSome := by
  match c,h with
  | .always,_ => exact fun _ hl => absurd hl List.not_mem_nil
  | .not inner,.not h => exact WellFormed.leaves (c := inner) h
  | .and cs,.and h | .or cs,.or h => exact WellFormed.leavesOf h
  | .boolEquals _ _ _,h | .compare _ _ _ _,h | .colorEquals _ _ _ _,h =>
    intro l hl
    rw [List.mem_singleton.mp hl]
    exact ⟨h,rfl⟩

theorem WellFormed.leavesOf {cs : List Condition} (h : ∀ c ∈ cs, c.WellFormed sc) :
    ∀ l ∈ Condition.leavesOf cs, l.WellFormed sc ∧ l.watches.isSome := by
  match cs with
  | [] => exact fun _ hl => absurd hl List.not_mem_nil
  | c :: cs =>
    rw [List.forall_mem_cons] at h
    intro l hl
    exact (List.mem_append.mp hl).elim (WellFormed.leaves h.1 l) (WellFormed.leavesOf h.2 l)
end

mutual
/-- Once every leaf is told, the folds read classically. -/
theorem eval_decides {c : Condition} (h : ∀ l ∈ c.leaves, (l.eval s).Decides (l.Says s)) :
    (c.eval s).Decides (c.Says s) := by
  match c with
  | .always => exact .inl ⟨rfl,trivial⟩
  | .not inner =>
    rw [eval,Says]
    exact (eval_decides (c := inner) h).not
  | .and cs =>
    rw [eval,evalAnd_eq,Says,saying_eq]
    exact (Truth.Decides.foldl_and (evals_decide h) (p := True) (.inl ⟨rfl,trivial⟩)).congr
      (true_and _).to_iff
  | .or cs =>
    rw [eval,evalOr_eq,Says,saying_eq]
    exact (Truth.Decides.foldl_or (evals_decide h) (p := False) (.inr ⟨rfl,id⟩)).congr
      (false_or _).to_iff
  | .boolEquals _ _ _ | .compare _ _ _ _ | .colorEquals _ _ _ _ =>
    exact h _ (List.mem_singleton_self _)

theorem evals_decide {cs : List Condition}
    (h : ∀ l ∈ leavesOf cs, (l.eval s).Decides (l.Says s)) :
    List.Forall₂ Truth.Decides (cs.map fun c => c.eval s) (cs.map (Says s)) := by
  match cs with
  | [] => exact .nil
  | c :: cs =>
    exact .cons (eval_decides fun l hl => h l (List.mem_append_left _ hl))
      (evals_decide fun l hl => h l (List.mem_append_right _ hl))
end

end Classical
end Condition

/-- Whether a capability was never reported, as far as the history goes. -/
def Unreported (tr : List (Millis × Entry)) (x : DeviceId × CapabilityKind) : Prop :=
  ∀ v : CapabilityState, v.kind = x.2 → (x.1,v) ∉ reports tr

theorem Engine.Replays.get_eq_none_iff {A N : Type} {e : Engine A N} (h : e.Replays)
    (x : DeviceId × CapabilityKind) : e.state.get x.1 x.2 = none ↔ Unreported e.trace x := by
  rw [h,StateStore.get_replay,lastWrite_eq_none_iff,List.forall_mem_map]
  constructor
  · rintro hn v hv hm
    exact hn _ hm (Prod.ext rfl hv)
  · rintro hn ⟨d,v⟩ hm he
    obtain ⟨rfl,hk⟩ := Prod.mk.inj he
    exact hn v hk hm

/-- What the condition of a rule of the file says; a rule without one asks for nothing. -/
def RawRule.Holds (lw : Lowerer) (name : String) (s : StateStore) (raw : RawRule) : Prop :=
  ∀ v, raw.condition = some v → lw.Holds (Resolve.ruleContext name) s v

theorem Lowerer.RuleOf.reads {lw : Lowerer} {name : String} {i : ℕ} {raw : RawRule} {r : Rule}
    (h : lw.RuleOf name i raw r) (s : StateStore) : r.condition.Says s ↔ raw.Holds lw name s := by
  cases hc : raw.condition with
  | none =>
    rw [h.always.mpr hc]
    exact ⟨fun _ v hv => (by cases hc.symm.trans hv),fun _ => trivial⟩
  | some v =>
    rw [(h.condition v hc).reads]
    refine ⟨fun hv w hw => ?_,fun hv => hv v hc⟩
    cases hc.symm.trans hw
    exact hv

/-- Every rule of an accepted config is the one at its position in the file. -/
theorem exists_ruleOf {lib : Libraries} {π : HashOrder} {raw : RawConfig} {cfg : CompiledConfig}
    (accepted : resolve lib π raw = .ok cfg) : ∀ r ∈ cfg.rules, ∃ rr,
      raw.rules.entries[r.id.val]? = some (r.name,rr) ∧
        (Resolve.lowerer lib raw).RuleOf r.name r.id.val rr r ∧ r.WellFormed cfg.scope := by
  have matched := (List.forall₂_and_left _ _).mpr ⟨fun _ hx => hx,rules_of_accepted accepted⟩
  refine forall_mem_right matched fun ⟨⟨name,rr⟩,i⟩ r ⟨hm,hr,hw⟩ => ?_
  obtain ⟨numbered,named,-⟩ := id hr
  dsimp only at numbered named hr
  subst named
  rw [numbered]
  exact ⟨rr,List.mem_zipIdx_iff_getElem?.mp hm,hr,hw⟩

/-- In a compiled program unknown means never reported: so it is for every leaf of every rule in
every state reached; and once all a rule reads was reported, its condition is what the file says. -/
theorem unknown_is_unreported {A N : Type} [Adapter A] [NorthboundAdapter N] {b : Builders A N}
    {lib : Libraries} {π : HashOrder} {raw : RawConfig} {cfg : CompiledConfig}
    (accepted : resolve lib π raw = .ok cfg) {e₀ : Engine A N}
    (built : buildEngineFull b cfg = some e₀) {host : Host N} {p : Phase} {c : Config A N}
    (run : Run π host ⟨e₀,p⟩ c) :
    ∀ r ∈ cfg.rules, (∀ l ∈ r.condition.leaves, ∃ x, l.watches = some x ∧
        (l.eval c.engine.state = .unknown ↔ Unreported c.engine.trace x)) ∧
      ∃ rr, raw.rules.entries[r.id.val]? = some (r.name,rr) ∧
        ((∀ l ∈ r.condition.leaves, ∀ x, l.watches = some x → ¬Unreported c.engine.trace x) →
          (r.condition.eval c.engine.state).Decides
            (rr.Holds (Resolve.lowerer lib raw) r.name c.engine.state)) := by
  have replays : c.engine.Replays :=
    (store_is_reported_reality (built_of_accepted accepted built).fresh run).1
  intro r hr
  obtain ⟨rr,hrr,hof,hw⟩ := exists_ruleOf accepted r hr
  have told (l : Condition) (hl : l ∈ r.condition.leaves) : ∃ x, l.watches = some x ∧
      l.Told c.engine.state x := by
    obtain ⟨hl,hx⟩ := hw.condition.leaves l hl
    obtain ⟨x,hx⟩ := Option.isSome_iff_exists.mp hx
    exact ⟨x,hx,hl.told hx⟩
  refine ⟨fun l hl => ?_,rr,hrr,fun known => ?_⟩
  · obtain ⟨x,hx,ht⟩ := told l hl
    refine ⟨x,hx,?_⟩
    rw [← replays.get_eq_none_iff]
    rcases ht with ⟨hn,hu⟩ | ⟨hn,hd⟩
    · simp only [hn,hu]
    · simp only [hn,hd.ne_unknown]
  · refine (Condition.eval_decides fun l hl => ?_).congr (hof.reads _)
    obtain ⟨x,hx,ht⟩ := told l hl
    have hk := known l hl x hx
    rw [← replays.get_eq_none_iff] at hk
    rcases ht with ⟨hn,-⟩ | ⟨-,hd⟩
    · exact absurd hn hk
    · exact hd

/-- Once the sun and the time were reported, the night rule is asked what its file asks. -/
theorem night_rule_is_asked : ∃ cfg e₀ c, resolve plainLibraries .identity nightConfig = .ok cfg ∧
    buildEngineFull plainBuilders cfg = some e₀ ∧ Run .identity .any ⟨e₀,.wired⟩ c ∧
    ∃ r ∈ cfg.rules, ∃ rr, nightConfig.rules.entries[r.id.val]? = some (r.name,rr) ∧
      r.condition.eval c.engine.state = .true ∧
      rr.Holds (Resolve.lowerer plainLibraries nightConfig) r.name c.engine.state := by
  obtain ⟨cfg,e₀,h,hb,hq,e₁,h₁,e₂,h₂,r,hr,hk,ht⟩ : ∃ cfg e₀,
      resolve plainLibraries .identity nightConfig = .ok cfg ∧
        buildEngineFull plainBuilders cfg = some e₀ ∧ e₀.queue = [] ∧
        ∃ e₁, e₀.inject .identity 3 (.stateReported ⟨1⟩ (.sunUp false)) = .ok e₁ ∧
        ∃ e₂, e₁.inject .identity 3 (.stateReported ⟨1⟩ (.timeOfDay 1380)) = .ok e₂ ∧
        ∃ r, r ∈ cfg.rules ∧ (∀ l ∈ r.condition.leaves, l.eval e₂.state ≠ .unknown) ∧
          r.condition.eval e₂.state = .true :=
    ⟨_,_,rfl,rfl,rfl,_,rfl,_,rfl,_,List.mem_singleton_self _,by decide,by decide⟩
  obtain ⟨run₁,q₁⟩ := inject_run .any .wired trivial hq (by decide) h₁
  obtain ⟨run₂,q₂⟩ := inject_run .any .wired trivial q₁ (by decide) h₂
  obtain ⟨hl,rr,hrr,hd⟩ := unknown_is_unreported h hb (run₁.trans run₂) r hr
  refine ⟨cfg,e₀,_,h,hb,run₁.trans run₂,r,hr,rr,hrr,ht,?_⟩
  have reads := hd fun l hm x hx hu => by
    obtain ⟨x',hx',hiff⟩ := hl l hm
    cases hx.symm.trans hx'
    exact hk l hm (hiff.mpr hu)
  rcases reads with ⟨-,hp⟩ | ⟨hf,-⟩
  · exact hp
  · exact absurd (ht.symm.trans hf) (by simp)

end Domiform
