import Domiform.Compiled

/-! The classical reading of a condition, in which everything holds or does not: once for a compiled
condition, and once for the node of the file it comes from. Lowering keeps it. -/
namespace Domiform
open Library Checked

namespace Condition

mutual
/-- What the condition says of the stored values. -/
def Says (s : StateStore) (c : Condition) : Prop :=
  match c with
  | always => True
  | not inner => ¬inner.Says s
  | and cs => ∀ p ∈ saying s cs, p
  | or cs => ∃ p ∈ saying s cs, p
  | boolEquals device kind value => ∃ v, s.get device kind = some v ∧ v.asBool = some value
  | compare device kind op value =>
    ∃ v n, s.get device kind = some v ∧ v.asI64 = some n ∧ op.test n value = true
  | colorEquals device r g b => s.get device .color = some (.color r g b)

def saying (s : StateStore) (cs : List Condition) : List Prop :=
  match cs with
  | [] => []
  | c :: cs => c.Says s :: saying s cs
end

theorem saying_eq (s : StateStore) (cs : List Condition) : saying s cs = cs.map (Says s) := by
  induction cs with
  | nil => rfl
  | cons c cs ih => rw [saying,ih,List.map_cons]

end Condition

/-- The relation that a comparison operator is written for. -/
def Compares (op : String) (a b : ℤ) : Prop :=
  op = "<" ∧ a < b ∨ op = "<=" ∧ a ≤ b ∨ op = "==" ∧ a = b ∨ op = "!=" ∧ a ≠ b ∨
    op = ">=" ∧ b ≤ a ∨ op = ">" ∧ b < a

namespace Lowerer

/-- A payload stands for a record, once its merge keys are expanded. -/
def Decodes {α : Type} (decode : Value → Option α) (payload : Value) (x : α) : Prop :=
  ∃ merged, payload.applyMerge = .ok merged ∧ decode merged = some x

theorem Decodes.unique {α : Type} {decode : Value → Option α} {payload : Value} {x y : α}
    (h : Decodes decode payload x) (h' : Decodes decode payload y) : x = y := by
  obtain ⟨m,hm,hx⟩ := h
  obtain ⟨m',hm',hy⟩ := h'
  cases hm.symm.trans hm'
  exact Option.some.inj (hx.symm.trans hy)

/-- What a node without other conditions in it says of the stored values. -/
def LeafHolds (lw : Lowerer) (context : String) (s : StateStore) (verb : String)
    (payload : Value) : Prop :=
  if verb = "sun_up" then
    ∃ up, payload.asBool = some up ∧ s.get lw.clockDevice .sunUp = some (.sunUp up)
  else if verb = "switch" then
    ∃ x device, Decodes RawSwitchIs.decode payload x ∧
      lw.deviceIndex.lookup x.device = some device ∧ s.get device .switch = some (.switch x.on)
  else if verb = "occupancy_is" then
    ∃ x device, Decodes RawOccupancyIs.decode payload x ∧
      lw.deviceIndex.lookup x.device = some device ∧
        s.get device .occupancy = some (.occupancy x.occupied)
  else if verb = "compare" then
    ∃ x device kind v n, Decodes RawCompare.decode payload x ∧
      lw.deviceIndex.lookup x.device = some device ∧ parseCapability x.capability = some kind ∧
        s.get device kind = some v ∧ v.asI64 = some n ∧ Compares x.op n x.value
  else if verb = "color_is" then
    ∃ x device r g b, Decodes RawColorIs.decode payload x ∧
      lw.deviceIndex.lookup x.device = some device ∧
        (parseColor x.color context).value = some (r,g,b) ∧
          s.get device .color = some (.color r g b)
  else if verb = "time_after" then
    ∃ t hour minute now, payload.asStr = some t ∧ clockOf t = some (hour,minute) ∧
      s.get lw.clockDevice .timeOfDay = some (.timeOfDay now) ∧ hour*60+minute ≤ now.toNat
  else if verb = "time_before" then
    ∃ t hour minute now, payload.asStr = some t ∧ clockOf t = some (hour,minute) ∧
      s.get lw.clockDevice .timeOfDay = some (.timeOfDay now) ∧ now.toNat < hour*60+minute
  else False

mutual
/-- What a condition of the file says of the stored values. -/
def Holds (lw : Lowerer) (context : String) (s : StateStore) (v : Value) : Prop :=
  match v with
  | .mapping [(k,payload)] =>
    match k.asStr with
    | none => False
    | some verb =>
      if verb = "all" then ∀ p ∈ membersHold lw context s payload, p
      else if verb = "any" then ∃ p ∈ membersHold lw context s payload, p
      else if verb = "not" then ¬Holds lw context s payload
      else lw.LeafHolds context s verb payload
  | _ => False
termination_by structural v

def membersHold (lw : Lowerer) (context : String) (s : StateStore) (v : Value) : List Prop :=
  match v with
  | .tagged _ v => membersHold lw context s v
  | .sequence items => itemsHold lw context s items
  | _ => []
termination_by structural v

def itemsHold (lw : Lowerer) (context : String) (s : StateStore) (items : List Value) :
    List Prop :=
  match items with
  | [] => []
  | v :: vs => Holds lw context s v :: itemsHold lw context s vs
termination_by structural items
end

section Leaves
variable {lw : Lowerer} {context : String} {s : StateStore}

theorem resolveDevice_eq_some {name : String} {device : DeviceId}
    (h : (lw.resolveDevice name context).value = some device) :
    lw.deviceIndex.lookup name = some device := by
  simp only [resolveDevice] at h
  split at h
  · rename_i id hid
    cases h
    exact hid
  · cases h

theorem asFlag_eq_some {v : Value} {node : String} {b : Bool}
    (h : (asFlag v node context).value = some b) : v.asBool = some b := by
  simp only [asFlag] at h
  split at h
  · rename_i b' hb
    cases h
    exact hb
  · cases h

theorem shapedCapability_eq_some {shape : CapabilityKind → Bool} {code message name : String}
    {kind : CapabilityKind}
    (h : (shapedCapability shape code message name context).value = some kind) :
    parseCapability name = some kind := by
  simp only [shapedCapability] at h
  split at h
  · rename_i k hk
    split_ifs at h
    · cases h
      exact hk
    · cases h
  · cases h

theorem parseTime_eq_some {t : String} {minute : ℤ}
    (h : (parseTime t context).value = some minute) :
    ∃ hour m, clockOf t = some (hour,m) ∧ minute = (hour*60+m : ℕ) := by
  simp only [parseTime] at h
  split at h
  · rename_i hour m hc
    cases h
    exact ⟨hour,m,hc,rfl⟩
  · cases h

theorem parseCmpOp_eq_some {text : String} {op : CmpOp}
    (h : (parseCmpOp text context).value = some op) (a b : ℤ) :
    op.test a b = true ↔ Compares text a b := by
  simp only [parseCmpOp] at h
  split_ifs at h with h₁ h₂ h₃ h₄ h₅ h₆
  all_goals first | (cases h; subst text; simp [CmpOp.test,Compares]) | cases h

/-- A value of a kind that has one shape is stored as that shape. -/
theorem reads_boolEquals {d : DeviceId} {kind : CapabilityKind} {b : Bool}
    {mk : Bool → CapabilityState} (only : ∀ v : CapabilityState, v.kind = kind → ∃ on, v = mk on)
    (reads : ∀ on, (mk on).asBool = some on) :
    (Condition.boolEquals d kind b).Says s ↔ s.get d kind = some (mk b) := by
  rw [Condition.Says]
  constructor
  · rintro ⟨v,hv,hb⟩
    obtain ⟨on,rfl⟩ := only v (StateStore.kind_of_get hv)
    rw [reads,Option.some.injEq] at hb
    exact hb ▸ hv
  · exact fun h => ⟨_,h,reads b⟩

theorem reads_time {d : DeviceId} {op : CmpOp} {bound : ℤ} :
    (Condition.compare d .timeOfDay op bound).Says s ↔
      ∃ now : UInt16, s.get d .timeOfDay = some (.timeOfDay now) ∧ op.test now.toNat bound = true := by
  rw [Condition.Says]
  constructor
  · rintro ⟨v,n,hv,hn,ht⟩
    have hk := StateStore.kind_of_get hv
    cases v <;> cases hk
    cases hn
    exact ⟨_,hv,ht⟩
  · exact fun ⟨now,hv,ht⟩ => ⟨_,_,hv,rfl,ht⟩

theorem only_switch (v : CapabilityState) (h : v.kind = .switch) : ∃ on, v = .switch on := by
  cases v <;> cases h
  exact ⟨_,rfl⟩

theorem only_occupancy (v : CapabilityState) (h : v.kind = .occupancy) : ∃ on, v = .occupancy on := by
  cases v <;> cases h
  exact ⟨_,rfl⟩

theorem only_sunUp (v : CapabilityState) (h : v.kind = .sunUp) : ∃ up, v = .sunUp up := by
  cases v <;> cases h
  exact ⟨_,rfl⟩

/-- What a payload and the device it names are is no choice. -/
theorem named_iff {α : Type} {decode : Value → Option α} {name : α → String} {payload : Value}
    {P : α → DeviceId → Prop} {x : α} {device : DeviceId} (hx : Decodes decode payload x)
    (hd : lw.deviceIndex.lookup (name x) = some device) :
    (∃ y d, Decodes decode payload y ∧ lw.deviceIndex.lookup (name y) = some d ∧ P y d) ↔
      P x device := by
  constructor
  · rintro ⟨y,d,hy,hd',hp⟩
    cases hx.unique hy
    cases hd.symm.trans hd'
    exact hp
  · exact fun hp => ⟨x,device,hx,hd,hp⟩

/-- The same for a time of day. -/
theorem clock_iff {payload : Value} {t : String} {hour minute : ℕ} {P : ℕ → UInt16 → Prop}
    (named : payload.asStr = some t) (clock : clockOf t = some (hour,minute)) :
    (∃ t h m now, payload.asStr = some t ∧ clockOf t = some (h,m) ∧
      s.get lw.clockDevice .timeOfDay = some (.timeOfDay now) ∧ P (h*60+m) now) ↔
      ∃ now, s.get lw.clockDevice .timeOfDay = some (.timeOfDay now) ∧ P (hour*60+minute) now := by
  constructor
  · rintro ⟨t',h,m,now,hn,hc,hs,hp⟩
    cases named.symm.trans hn
    cases clock.symm.trans hc
    exact ⟨now,hs,hp⟩
  · exact fun ⟨now,hs,hp⟩ => ⟨t,hour,minute,now,named,clock,hs,hp⟩

theorem compare_reads {payload : Value} {x : RawCompare} {device : DeviceId} {kind : CapabilityKind}
    {op : CmpOp} (hx : Decodes RawCompare.decode payload x)
    (hd : lw.deviceIndex.lookup x.device = some device)
    (hk : parseCapability x.capability = some kind)
    (hop : (parseCmpOp x.op context).value = some op) :
    (Condition.compare device kind op x.value).Says s ↔
      ∃ y d k v n, Decodes RawCompare.decode payload y ∧ lw.deviceIndex.lookup y.device = some d ∧
        parseCapability y.capability = some k ∧ s.get d k = some v ∧ v.asI64 = some n ∧
          Compares y.op n y.value := by
  rw [Condition.Says]
  constructor
  · rintro ⟨v,n,hv,hn,ht⟩
    exact ⟨x,device,kind,v,n,hx,hd,hk,hv,hn,(parseCmpOp_eq_some hop n x.value).mp ht⟩
  · rintro ⟨y,d,k,v,n,hy,hd',hk',hv,hn,hr⟩
    cases hx.unique hy
    cases hd.symm.trans hd'
    cases hk.symm.trans hk'
    exact ⟨v,n,hv,hn,(parseCmpOp_eq_some hop n x.value).mpr hr⟩

theorem color_reads {payload : Value} {x : RawColorIs} {device : DeviceId} {r g b : UInt8}
    (hx : Decodes RawColorIs.decode payload x) (hd : lw.deviceIndex.lookup x.device = some device)
    (hc : (parseColor x.color context).value = some (r,g,b)) :
    (Condition.colorEquals device r g b).Says s ↔
      ∃ y d r g b, Decodes RawColorIs.decode payload y ∧ lw.deviceIndex.lookup y.device = some d ∧
        (parseColor y.color context).value = some (r,g,b) ∧
          s.get d .color = some (.color r g b) := by
  rw [Condition.Says]
  constructor
  · exact fun hs => ⟨x,device,r,g,b,hx,hd,hc,hs⟩
  · rintro ⟨y,d,r',g',b',hy,hd',hc',hs⟩
    cases hx.unique hy
    cases hd.symm.trans hd'
    cases hc.symm.trans hc'
    exact hs

/-- A leaf says what its node says. -/
theorem leafCondition_reads {verb : String} {payload : Value} {c : Condition}
    (h : (lw.leafCondition verb payload context).value = some c) :
    c.Says s ↔ lw.LeafHolds context s verb payload := by
  rw [leafCondition] at h
  rw [LeafHolds]
  split_ifs at h ⊢
  · -- sun_up
    obtain ⟨up,hup,h⟩ := value_bind_eq_some.mp h
    cases h
    rw [reads_boolEquals only_sunUp fun _ => rfl,asFlag_eq_some hup]
    simp
  · -- switch
    obtain ⟨x,hx,h⟩ := value_bind_eq_some.mp h
    obtain ⟨device,hd,h⟩ := value_bind_eq_some.mp h
    obtain ⟨-,-,h⟩ := value_bind_eq_some.mp h
    cases h
    rw [reads_boolEquals only_switch fun _ => rfl]
    exact (named_iff (P := fun x device => s.get device .switch = some (.switch x.on))
      (payload_eq_some hx) (resolveDevice_eq_some hd)).symm
  · -- occupancy_is
    obtain ⟨x,hx,h⟩ := value_bind_eq_some.mp h
    obtain ⟨device,hd,h⟩ := value_bind_eq_some.mp h
    obtain ⟨-,-,h⟩ := value_bind_eq_some.mp h
    cases h
    rw [reads_boolEquals only_occupancy fun _ => rfl]
    exact (named_iff (P := fun x device => s.get device .occupancy = some (.occupancy x.occupied))
      (payload_eq_some hx) (resolveDevice_eq_some hd)).symm
  · -- compare
    obtain ⟨x,hx,h⟩ := value_bind_eq_some.mp h
    obtain ⟨device,hd,h⟩ := value_bind_eq_some.mp h
    obtain ⟨kind,hk,h⟩ := value_bind_eq_some.mp h
    obtain ⟨op,hop,h⟩ := value_bind_eq_some.mp h
    obtain ⟨-,-,h⟩ := value_bind_eq_some.mp h
    cases h
    exact compare_reads (payload_eq_some hx) (resolveDevice_eq_some hd)
      (shapedCapability_eq_some hk) hop
  · -- color_is
    obtain ⟨x,hx,h⟩ := value_bind_eq_some.mp h
    obtain ⟨device,hd,h⟩ := value_bind_eq_some.mp h
    obtain ⟨-,-,h⟩ := value_bind_eq_some.mp h
    obtain ⟨⟨r,g,b⟩,hc,h⟩ := value_bind_eq_some.mp h
    cases h
    exact color_reads (payload_eq_some hx) (resolveDevice_eq_some hd) hc
  · -- time_after
    obtain ⟨t,ht,h⟩ := value_bind_eq_some.mp h
    obtain ⟨minute,hm,h⟩ := value_bind_eq_some.mp h
    cases h
    obtain ⟨hour,m,hc,rfl⟩ := parseTime_eq_some hm
    rw [reads_time,clock_iff (P := fun bound now => bound ≤ now.toNat) (asName_eq_some ht) hc]
    simp only [CmpOp.test,decide_eq_true_eq,Nat.cast_le]
  · -- time_before
    obtain ⟨t,ht,h⟩ := value_bind_eq_some.mp h
    obtain ⟨minute,hm,h⟩ := value_bind_eq_some.mp h
    cases h
    obtain ⟨hour,m,hc,rfl⟩ := parseTime_eq_some hm
    rw [reads_time,clock_iff (P := fun bound now => now.toNat < bound) (asName_eq_some ht) hc]
    simp only [CmpOp.test,decide_eq_true_eq,Nat.cast_lt]
  · cases h

end Leaves

/-- Lists that agree member by member agree on all of them, and on any. -/
theorem forall₂_all {ps qs : List Prop} (h : List.Forall₂ Iff ps qs) :
    (∀ p ∈ ps, p) ↔ ∀ q ∈ qs, q := by
  induction h with
  | nil => simp
  | cons hp _ ih => rw [List.forall_mem_cons,List.forall_mem_cons,hp,ih]

theorem forall₂_any {ps qs : List Prop} (h : List.Forall₂ Iff ps qs) :
    (∃ p ∈ ps, p) ↔ ∃ q ∈ qs, q := by
  induction h with
  | nil => simp
  | cons hp _ ih => simp only [List.mem_cons,or_and_right,exists_or,exists_eq_left,hp,ih]

section Readings
variable {lw : Lowerer} {context : String} {s : StateStore}

mutual
/-- A lowered condition says what its node says, whatever is stored. -/
theorem Mirrors.reads {v : Value} {c : Condition} (h : lw.Mirrors context v c) :
    c.Says s ↔ lw.Holds context s v := by
  match v,h with
  | .mapping [(k,payload)],.all verb list members =>
    rw [Holds,verb,Condition.Says,Condition.saying_eq]
    exact forall₂_all (Mirrors.members list members)
  | .mapping [(k,payload)],.any verb list members =>
    rw [Holds,verb,Condition.Says,Condition.saying_eq]
    exact forall₂_any (Mirrors.members list members)
  | .mapping [(k,payload)],.not verb inner =>
    rw [Holds,verb,Condition.Says]
    exact not_congr (Mirrors.reads inner)
  | .mapping [(k,payload)],.leaf verb plain lowered =>
    rw [Holds,verb]
    simp only [if_neg plain.1,if_neg plain.2.1,if_neg plain.2.2]
    exact leafCondition_reads lowered

theorem Mirrors.members {payload : Value} {items : List Value} {cs : List Condition}
    (list : payload.asSequence = some items) (members : List.Forall₂ (lw.Mirrors context) items cs) :
    List.Forall₂ Iff (cs.map (Condition.Says s)) (lw.membersHold context s payload) := by
  match payload,list with
  | .tagged _ v,list =>
    have list' : v.asSequence = some items := list
    have inner := Mirrors.members list' members
    exact inner
  | .sequence _,rfl => exact Mirrors.items members

theorem Mirrors.items {items : List Value} {cs : List Condition}
    (members : List.Forall₂ (lw.Mirrors context) items cs) :
    List.Forall₂ Iff (cs.map (Condition.Says s)) (lw.itemsHold context s items) := by
  match items,members with
  | [],.nil => exact .nil
  | v :: vs,.cons h hs => exact .cons (Mirrors.reads h) (Mirrors.items hs)
end

end Readings
end Lowerer
end Domiform
