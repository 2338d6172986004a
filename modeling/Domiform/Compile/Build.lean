import Domiform.Compile.Accepted
import Domiform.Engine.Run

/-! Assembly: a compiled config to a wired engine. What an adapter is made of is the business of its
builder; which slot it gets, and which device is bound to that slot, is decided here. Indexing out
of bounds and `expect` on nothing are `none`. -/
namespace Domiform
open Library

/-- `usize::MAX`: the slot of an adapter that is no dispatch target. -/
def noSlot : AdapterIdx := 2^64-1

/-- How adapters are made, with the waker, the boot epoch and the config directory filled in. -/
structure Builders (A N : Type) where
  build : Plugin → Value → List DeviceDef → A
  buildNorthbound : Plugin → Value → List DeviceDef → String → Option N
  clock : DeviceId → SystemConfig → List CompiledSchedule → A

namespace AdapterTable
variable {A : Type}

/-- The adapter behind an index, the scheduler aside. -/
def slot (t : AdapterTable A) : AdapterIdx → Option A
  | 0 => none
  | i+1 => t.rest[i]?

theorem slot_lt {t : AdapterTable A} {idx : AdapterIdx} {a : A} (h : t.slot idx = some a) :
    idx < t.size := by
  cases idx with
  | zero => cases h
  | succ i =>
    exact Nat.succ_lt_succ (List.getElem?_eq_some_iff.mp h).1

end AdapterTable

namespace Build
variable {A N : Type}

/-- The devices a northbound adapter exposes. -/
def exposedDevices (cfg : CompiledConfig) (config : Value) (p : Plugin) : List DeviceDef :=
  match p.exposeSpec config with
  | some .all => cfg.devices
  | some (.named names) => cfg.devices.filter fun d => names.any fun n => n == d.name
  | none => []

/-- `by_adapter[i]`. -/
def devicesOf (cfg : CompiledConfig) (i : ℕ) : List DeviceDef :=
  cfg.devices.filter fun d => d.adapter == i

/-- Build one adapter of the config; a southbound one takes the next slot. -/
def addAdapterDef (b : Builders A N) (cfg : CompiledConfig) (e : Engine A N)
    (x : AdapterDef × ℕ) : Option (Engine A N × AdapterIdx) :=
  match x.1.plugin with
  | none => none
  | some p =>
    match p.polarity with
    | .southbound => some (e.addAdapter (b.build p x.1.config (devicesOf cfg x.2)))
    | .northbound =>
      match b.buildNorthbound p x.1.config (exposedDevices cfg x.1.config p) x.1.name with
      | some nb => some (e.addNorthbound nb,noSlot)
      | none => some (e,noSlot)

/-- The engine with every adapter of the list, and `runtime_idx` for them. -/
def addAdapterDefs (b : Builders A N) (cfg : CompiledConfig) (e : Engine A N) :
    List (AdapterDef × ℕ) → Option (Engine A N × List AdapterIdx)
  | [] => some (e,[])
  | x :: xs => do
    let (e,idx) ← addAdapterDef b cfg e x
    let (e,slots) ← addAdapterDefs b cfg e xs
    some (e,idx :: slots)

def bindDevices (slots : List AdapterIdx) (e : Engine A N) : List DeviceDef → Option (Engine A N)
  | [] => some e
  | d :: ds => do
    let slot ← slots[d.adapter]?
    bindDevices slots (e.bindDevice d.id slot) ds

def addScenes (e : Engine A N) (scenes : List CompiledScene) : Engine A N :=
  scenes.foldl (fun e s => e.addScene s.id s.commands) e

def addRules (e : Engine A N) (rules : List Rule) : Engine A N := rules.foldl Engine.addRule e

end Build

open Build in
def buildEngineFull {A N : Type} (b : Builders A N) (cfg : CompiledConfig) :
    Option (Engine A N) := do
  guard (cfg.devices.all fun d => decide (d.adapter < cfg.adapters.length))
  let (e,slots) ← addAdapterDefs b cfg Engine.new cfg.adapters.zipIdx
  let e ← bindDevices slots e cfg.devices
  let (e,clockIdx) := e.addAdapter (b.clock cfg.clockDevice cfg.system cfg.schedules)
  let e := e.bindDevice cfg.clockDevice clockIdx
  some (addRules (addScenes e cfg.scenes) cfg.rules)

namespace Build
variable {A N : Type} {b : Builders A N} {cfg : CompiledConfig}

/-- The part of an engine that adding adapters leaves alone. -/
structure Plain (e e' : Engine A N) : Prop where
  fresh : e.Fresh → e'.Fresh
  rules : e'.rules = e.rules
  scenes : e'.scenes = e.scenes
  deviceToAdapter : e'.deviceToAdapter = e.deviceToAdapter
  maxCascadeDepth : e'.maxCascadeDepth = e.maxCascadeDepth

theorem addAdapterDef_plain {e e' : Engine A N} {x : AdapterDef × ℕ} {idx : AdapterIdx}
    (h : addAdapterDef b cfg e x = some (e',idx)) : Plain e e' := by
  simp only [addAdapterDef] at h
  split at h
  · cases h
  · split at h
    · cases h
      exact ⟨fun hf => hf.addAdapter _,rfl,rfl,rfl,rfl⟩
    · split at h
      · cases h
        exact ⟨fun hf => hf.addNorthbound _,rfl,rfl,rfl,rfl⟩
      · cases h
        exact ⟨id,rfl,rfl,rfl,rfl⟩

theorem addAdapterDefs_plain {e e' : Engine A N} {xs : List (AdapterDef × ℕ)}
    {slots : List AdapterIdx} (h : addAdapterDefs b cfg e xs = some (e',slots)) : Plain e e' := by
  induction xs generalizing e slots with
  | nil =>
    cases h
    exact ⟨id,rfl,rfl,rfl,rfl⟩
  | cons x xs ih =>
    obtain ⟨⟨e₁,idx⟩,h₁,h⟩ := Option.bind_eq_some_iff.mp h
    obtain ⟨⟨e₂,rest⟩,h₂,h⟩ := Option.bind_eq_some_iff.mp h
    cases h
    have p₁ := addAdapterDef_plain h₁
    have p₂ := ih h₂
    exact ⟨p₂.fresh ∘ p₁.fresh,p₂.rules.trans p₁.rules,p₂.scenes.trans p₁.scenes,
      p₂.deviceToAdapter.trans p₁.deviceToAdapter,p₂.maxCascadeDepth.trans p₁.maxCascadeDepth⟩

/-- What adding an adapter of either kind leaves alone, adding them all does. -/
theorem addAdapterDefs_keeps {α : Type} {f : Engine A N → α} (south : ∀ e a, f (e.addAdapter a).1 = f e)
    (north : ∀ e n, f (e.addNorthbound n) = f e) {e e' : Engine A N} {xs : List (AdapterDef × ℕ)}
    {slots : List AdapterIdx} (h : addAdapterDefs b cfg e xs = some (e',slots)) : f e' = f e := by
  induction xs generalizing e slots with
  | nil =>
    cases h
    rfl
  | cons x xs ih =>
    obtain ⟨⟨e₁,idx⟩,h₁,h⟩ := Option.bind_eq_some_iff.mp h
    obtain ⟨⟨e₂,rest⟩,h₂,h⟩ := Option.bind_eq_some_iff.mp h
    cases h
    refine (ih h₂).trans ?_
    simp only [addAdapterDef] at h₁
    split at h₁
    · cases h₁
    · split at h₁
      · cases h₁
        exact south e _
      · split at h₁
        · cases h₁
          exact north e _
        · cases h₁
          rfl

/-- What a slot number means in an engine: the built adapter is behind it, or nothing ever is. -/
def SlotFor (b : Builders A N) (cfg : CompiledConfig) (e : Engine A N) (x : AdapterDef × ℕ)
    (idx : AdapterIdx) : Prop :=
  ∃ p, x.1.plugin = some p ∧
    (p.polarity = .southbound →
      e.adapters.slot idx = some (b.build p x.1.config (devicesOf cfg x.2))) ∧
    (p.polarity = .northbound → idx = noSlot)

/-- Adapters are only ever appended. -/
theorem SlotFor.of_append {e e' : Engine A N} {x : AdapterDef × ℕ} {idx : AdapterIdx}
    (h : SlotFor b cfg e x idx) {more : List A}
    (he : e'.adapters.rest = e.adapters.rest ++ more) : SlotFor b cfg e' x idx := by
  obtain ⟨p,hp,hs,hn⟩ := h
  refine ⟨p,hp,fun hpol => ?_,hn⟩
  have hslot := hs hpol
  cases idx with
  | zero => cases hslot
  | succ i =>
    have hi := (List.getElem?_eq_some_iff.mp hslot).1
    rw [AdapterTable.slot,he,List.getElem?_append_left hi]
    exact hslot

theorem addAdapterDef_slot (b : Builders A N) (cfg : CompiledConfig) (e : Engine A N)
    {x : AdapterDef × ℕ} {p : Plugin} (hp : x.1.plugin = some p) :
    ∃ e' idx more, addAdapterDef b cfg e x = some (e',idx) ∧
      SlotFor b cfg e' x idx ∧ e'.adapters.rest = e.adapters.rest ++ more ∧ more.length ≤ 1 := by
  simp only [addAdapterDef,hp]
  cases hpol : p.polarity with
  | southbound =>
    refine ⟨_,_,[_],rfl,⟨p,hp,fun _ => ?_,fun h => ?_⟩,rfl,le_rfl⟩
    · simp [AdapterTable.slot]
    · rw [hpol] at h
      cases h
  | northbound =>
    have hslot (e' : Engine A N) : SlotFor b cfg e' x noSlot := by
      refine ⟨p,hp,fun h => ?_,fun _ => rfl⟩
      rw [hpol] at h
      cases h
    dsimp only
    split
    · exact ⟨_,_,[],rfl,hslot _,by simp [Engine.addNorthbound],by simp⟩
    · exact ⟨_,_,[],rfl,hslot _,by simp,by simp⟩

/-- Every adapter of the list gets its slot number, in order. -/
theorem addAdapterDefs_slots (b : Builders A N) (cfg : CompiledConfig) (e : Engine A N)
    {xs : List (AdapterDef × ℕ)} (known : ∀ x ∈ xs, ∃ p, x.1.plugin = some p) : ∃ e' slots more,
      addAdapterDefs b cfg e xs = some (e',slots) ∧ slots.length = xs.length ∧
      (∀ (k : ℕ) (x : AdapterDef × ℕ), xs[k]? = some x →
        ∃ idx, slots[k]? = some idx ∧ SlotFor b cfg e' x idx) ∧
      e'.adapters.rest = e.adapters.rest ++ more ∧ more.length ≤ xs.length := by
  induction xs generalizing e with
  | nil => exact ⟨e,[],[],rfl,rfl,by simp,by simp,le_rfl⟩
  | cons x xs ih =>
    obtain ⟨p,hp⟩ := known x List.mem_cons_self
    obtain ⟨e₁,idx,m₁,h₁,hslot,hr₁,hl₁⟩ := addAdapterDef_slot b cfg e hp
    obtain ⟨e₂,slots,m₂,h₂,hlen,hslots,hr₂,hl₂⟩ :=
      ih e₁ fun y hy => known y (List.mem_cons_of_mem x hy)
    refine ⟨e₂,idx :: slots,m₁ ++ m₂,by simp [addAdapterDefs,h₁,h₂],by simp [hlen],?_,?_,?_⟩
    · intro k y hk
      cases k with
      | zero =>
        cases hk
        exact ⟨idx,rfl,hslot.of_append hr₂⟩
      | succ k => exact hslots k y hk
    · rw [hr₂,hr₁,List.append_assoc]
    · simp only [List.length_append,List.length_cons]
      omega

/-- Binding a list of devices with distinct ids binds each to the slot of its adapter. -/
theorem bindDevices_spec (slots : List AdapterIdx) (e : Engine A N) {ds : List DeviceDef}
    (known : ∀ d ∈ ds, d.adapter < slots.length) (nodup : (ds.map DeviceDef.id).Nodup) :
    ∃ m, bindDevices slots e ds = some { e with deviceToAdapter := m } ∧
      (∀ d ∈ ds, m.lookup d.id = slots[d.adapter]?) ∧
      ∀ id, id ∉ ds.map DeviceDef.id → m.lookup id = e.deviceToAdapter.lookup id := by
  induction ds generalizing e with
  | nil => exact ⟨e.deviceToAdapter,rfl,by simp,fun _ _ => rfl⟩
  | cons d ds ih =>
    rw [List.map_cons,List.nodup_cons] at nodup
    have hd := known d List.mem_cons_self
    obtain ⟨m,hm,hin,hout⟩ := ih (e.bindDevice d.id slots[d.adapter])
      (fun d' h => known d' (List.mem_cons_of_mem d h)) nodup.2
    have hs : slots[d.adapter]? = some slots[d.adapter] := List.getElem?_eq_getElem hd
    refine ⟨m,?_,fun d' h => ?_,fun id h => ?_⟩
    · rw [bindDevices,hs]
      exact hm
    · rcases List.mem_cons.mp h with rfl | h
      · rw [hout d'.id nodup.1,hs]
        exact (HashMap.lookup_insert _ _ _ _).trans (if_pos rfl)
      · exact hin d' h
    · rw [List.map_cons,List.mem_cons,not_or] at h
      rw [hout id h.2]
      exact (HashMap.lookup_insert _ _ _ _).trans (if_neg h.1)

theorem addRules_eq (e : Engine A N) (rules : List Rule) :
    addRules e rules = { e with rules := e.rules ++ rules } := by
  induction rules generalizing e with
  | nil => simp [addRules]
  | cons r rules ih =>
    rw [addRules,List.foldl_cons]
    exact (ih (e.addRule r)).trans (by simp [Engine.addRule])

theorem addScenes_eq (e : Engine A N) (scenes : List CompiledScene) :
    addScenes e scenes = { e with scenes :=
      (scenes.map fun s => (s.id,s.commands)).foldl (fun m x => m.insert x.1 x.2) e.scenes } := by
  induction scenes generalizing e with
  | nil => rfl
  | cons s scenes ih =>
    rw [addScenes,List.foldl_cons]
    exact ih (e.addScene s.id s.commands)

end Build

open Build

/-- A built engine starts at time zero, and retries by the default policy. -/
theorem buildEngineFull_initial {A N : Type} {b : Builders A N} {cfg : CompiledConfig}
    {e : Engine A N} (h : buildEngineFull b cfg = some e) : e.now = 0 ∧ e.retry = .default := by
  obtain ⟨-,-,h⟩ := Option.bind_eq_some_iff.mp h
  obtain ⟨⟨e₁,slots⟩,h₁,h⟩ := Option.bind_eq_some_iff.mp h
  obtain ⟨e₂,h₂,h⟩ := Option.bind_eq_some_iff.mp h
  cases h
  rw [addScenes_eq,addRules_eq]
  have bound (ds : List DeviceDef) (e e' : Engine A N) (h : bindDevices slots e ds = some e') :
      e'.now = e.now ∧ e'.retry = e.retry := by
    induction ds generalizing e with
    | nil =>
      cases h
      exact ⟨rfl,rfl⟩
    | cons d ds ih =>
      obtain ⟨slot,-,h⟩ := Option.bind_eq_some_iff.mp h
      exact ih (e.bindDevice d.id slot) h
  obtain ⟨hn,hr⟩ := bound cfg.devices e₁ e₂ h₂
  constructor
  · exact hn.trans (addAdapterDefs_keeps (fun _ _ => rfl) (fun _ _ => rfl) h₁)
  · exact hr.trans (addAdapterDefs_keeps (fun _ _ => rfl) (fun _ _ => rfl) h₁)

/-- The scenes of a compiled config by id. -/
def CompiledConfig.sceneTable (cfg : CompiledConfig) : HashMap SceneId (List Command) :=
  (cfg.scenes.map fun s => (s.id,s.commands)).foldl (fun m x => m.insert x.1 x.2) ∅

/-- What assembly makes of an accepted config. -/
structure Built {A N : Type} (b : Builders A N) (cfg : CompiledConfig) (e : Engine A N) : Prop where
  fresh : e.Fresh
  rules : e.rules = cfg.rules
  scenes : e.scenes = cfg.sceneTable
  maxCascadeDepth : e.maxCascadeDepth = defaultMaxCascadeDepth
  /-- Every device is bound to the slot of the adapter it names. -/
  device : ∀ d ∈ cfg.devices, ∃ x idx, cfg.adapters[d.adapter]? = some x ∧
    e.deviceToAdapter.lookup d.id = some idx ∧ SlotFor b cfg e (x,d.adapter) idx
  clock : ∃ idx, e.deviceToAdapter.lookup cfg.clockDevice = some idx ∧
    e.adapters.slot idx = some (b.clock cfg.clockDevice cfg.system cfg.schedules)
  /-- No other device is bound. -/
  bound : ∀ id idx, e.deviceToAdapter.lookup id = some idx →
    id = cfg.clockDevice ∨ ∃ d ∈ cfg.devices, d.id = id
  small : e.adapters.size < noSlot

/-- The builder never panics on an accepted config. -/
theorem buildEngineFull_built {A N : Type} (b : Builders A N) {lib : Libraries} {π : HashOrder}
    {raw : RawConfig} {cfg : CompiledConfig} (h : resolve lib π raw = .ok cfg) :
    ∃ e, buildEngineFull b cfg = some e ∧ Built b cfg e := by
  obtain ⟨hids,hadapter,hclock,hlen⟩ := devices_of_accepted h
  have hnodup := device_ids_nodup h
  have hfresh : cfg.clockDevice ∉ cfg.devices.map DeviceDef.id := by
    rw [hids,hclock]
    simp
  obtain ⟨e₁,slots,more,h₁,hslots,hslot,hrest,hmore⟩ :=
    addAdapterDefs_slots b cfg (Engine.new : Engine A N)
      fun (x : AdapterDef × ℕ) (hx : x ∈ cfg.adapters.zipIdx) =>
        plugin_of_accepted h x.1 (List.fst_mem_of_mem_zipIdx hx)
  have hp := addAdapterDefs_plain h₁
  rw [List.length_zipIdx] at hslots hmore
  obtain ⟨m,hbind,hin,hout⟩ := bindDevices_spec slots e₁
    (fun d hd => by rw [hslots]; exact hadapter d hd) hnodup
  have hguard : (cfg.devices.all fun d => decide (d.adapter < cfg.adapters.length)) = true := by
    simpa using hadapter
  -- the clock comes after the adapters of the config
  let clock := b.clock cfg.clockDevice cfg.system cfg.schedules
  let e₂ : Engine A N := { e₁ with deviceToAdapter := m }
  let e₃ := (e₂.addAdapter clock).1.bindDevice cfg.clockDevice (e₂.addAdapter clock).2
  have hlookup (id : DeviceId) : e₃.deviceToAdapter.lookup id =
      if id = cfg.clockDevice then some (e₂.addAdapter clock).2 else m.lookup id :=
    HashMap.lookup_insert _ _ _ _
  have hrest₃ : e₃.adapters.rest = e₁.adapters.rest ++ [clock] := rfl
  refine ⟨addRules (addScenes e₃ cfg.scenes) cfg.rules,?_,?_⟩
  · simp [buildEngineFull,hguard,h₁,hbind,e₃,e₂,clock]
  · rw [addScenes_eq,addRules_eq]
    have hf := hp.fresh Engine.Fresh.new
    refine ⟨⟨hf.queue,hf.state,hf.timers,hf.received,hf.overflowed,hf.trace⟩,?_,?_,
      hp.maxCascadeDepth,fun d hd => ?_,⟨_,(hlookup _).trans (if_pos rfl),?_⟩,
      fun id idx hid => ?_,?_⟩
    · exact congrArg (· ++ cfg.rules) hp.rules
    · rw [show e₃.scenes = ∅ from hp.scenes]
      rfl
    · have hi := hadapter d hd
      obtain ⟨idx,hidx,hsf⟩ := hslot d.adapter (cfg.adapters[d.adapter],d.adapter)
        (by simp [hi])
      refine ⟨cfg.adapters[d.adapter],idx,List.getElem?_eq_getElem hi,?_,hsf.of_append hrest₃⟩
      have hne : d.id ≠ cfg.clockDevice := fun he => hfresh (he ▸ List.mem_map_of_mem hd)
      exact ((hlookup d.id).trans (if_neg hne)).trans ((hin d hd).trans hidx)
    · change (e₁.adapters.rest ++ [clock])[e₁.adapters.rest.length]? = _
      simp [clock]
    · have hid' := (hlookup id).symm.trans hid
      split_ifs at hid' with hc
      · exact .inl hc
      · refine .inr (by_contra fun hn => ?_)
        rw [hout id fun hm => hn (List.mem_map.mp hm),hp.deviceToAdapter] at hid'
        cases hid'
    · change e₃.adapters.rest.length+1 < noSlot
      have hn : (Engine.new : Engine A N).adapters.rest = [] := rfl
      rw [hrest₃,hrest,hn,noSlot]
      simp only [List.nil_append,List.length_append,List.length_singleton]
      omega

theorem built_of_accepted {A N : Type} {b : Builders A N} {lib : Libraries} {π : HashOrder}
    {raw : RawConfig} {cfg : CompiledConfig} {e : Engine A N} (h : resolve lib π raw = .ok cfg)
    (built : buildEngineFull b cfg = some e) : Built b cfg e := by
  obtain ⟨e',he,hb⟩ := buildEngineFull_built b h
  rw [built] at he
  cases he
  exact hb

end Domiform
