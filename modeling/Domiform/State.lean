import Domiform.Model
import Domiform.Library.HashMap
import Domiform.Library.Writes

/-! The runtime state store: capability state keyed by device and capability. -/
namespace Domiform
open Library

/-- The map is written by `set` alone, so a value is always stored under its own kind. -/
structure StateStore where
  map : HashMap (DeviceId × CapabilityKind) CapabilityState
  kind_eq : ∀ key v, map.lookup key = some v → v.kind = key.2

namespace StateStore

/-- The store of a new engine. -/
def empty : StateStore := ⟨∅,by simp⟩

def set (s : StateStore) (device : DeviceId) (state : CapabilityState) : StateStore where
  map := s.map.insert (device,state.kind) state
  kind_eq key v h := by
    rw [HashMap.lookup_insert] at h
    split_ifs at h with hk
    · cases h
      rw [hk]
    · exact s.kind_eq key v h

def get (s : StateStore) (device : DeviceId) (kind : CapabilityKind) : Option CapabilityState :=
  s.map.lookup (device,kind)

/-- `none` means the capability was never reported. -/
def boolValue (s : StateStore) (device : DeviceId) (kind : CapabilityKind) : Option Bool :=
  (s.get device kind).bind CapabilityState.asBool

def numValue (s : StateStore) (device : DeviceId) (kind : CapabilityKind) : Option ℤ :=
  (s.get device kind).bind CapabilityState.asI64

def switchIs (s : StateStore) (device : DeviceId) : Option Bool :=
  s.boolValue device .switch

/-- Every known pair, in the order the hasher yields. -/
def iter (π : HashOrder) (n : ℕ) (s : StateStore) : List (DeviceId × CapabilityState) :=
  (HashMap.iter π n s.map).map fun entry => (entry.1.1,entry.2)

@[simp] theorem get_empty (d : DeviceId) (k : CapabilityKind) : empty.get d k = none := rfl

theorem get_set (s : StateStore) (device d : DeviceId) (state : CapabilityState)
    (k : CapabilityKind) :
    (s.set device state).get d k =
      if d = device ∧ k = state.kind then some state else s.get d k := by
  simp only [get,set,HashMap.lookup_insert,Prod.mk.injEq]

@[simp] theorem get_set_self (s : StateStore) (d : DeviceId) (state : CapabilityState) :
    (s.set d state).get d state.kind = some state := by simp [get_set]

theorem kind_of_get {s : StateStore} {d : DeviceId} {k : CapabilityKind} {v : CapabilityState}
    (h : s.get d k = some v) : v.kind = k := s.kind_eq _ v h

@[simp] theorem mem_iter {π : HashOrder} {n : ℕ} {s : StateStore} {d : DeviceId}
    {v : CapabilityState} : (d,v) ∈ s.iter π n ↔ s.get d v.kind = some v := by
  rw [iter,List.mem_map]
  constructor
  · rintro ⟨⟨⟨d',k⟩,v'⟩,h,he⟩
    cases he
    rw [HashMap.mem_iter] at h
    rw [kind_of_get h]
    exact h
  · exact fun h => ⟨((d,v.kind),v),HashMap.mem_iter.mpr h,rfl⟩

/-- A shape the kind does not have is never read from the store. -/
theorem boolValue_isSome {s : StateStore} {d : DeviceId} {k : CapabilityKind} (h : k.isBool = true) :
    (s.boolValue d k).isSome = (s.get d k).isSome := by
  rw [boolValue]
  cases hg : s.get d k with
  | none => rfl
  | some v =>
    have hv := v.asBool_isSome
    rw [kind_of_get hg,h] at hv
    simpa using hv

theorem numValue_isSome {s : StateStore} {d : DeviceId} {k : CapabilityKind}
    (h : k.isNumeric = true) : (s.numValue d k).isSome = (s.get d k).isSome := by
  rw [numValue]
  cases hg : s.get d k with
  | none => rfl
  | some v =>
    have hv := v.asI64_isSome
    rw [kind_of_get hg,h] at hv
    simpa using hv

/-- The write a reported state stands for. -/
def write (x : DeviceId × CapabilityState) : (DeviceId × CapabilityKind) × CapabilityState :=
  ((x.1,x.2.kind),x.2)

/-- The store that results from folding reports into an empty one. -/
def replay (reports : List (DeviceId × CapabilityState)) : StateStore :=
  reports.foldl (fun s x => s.set x.1 x.2) empty

@[simp] theorem replay_concat (reports : List (DeviceId × CapabilityState))
    (x : DeviceId × CapabilityState) : replay (reports ++ [x]) = (replay reports).set x.1 x.2 := by
  simp [replay]

/-- A replayed store holds the last report of every capability. -/
theorem get_replay (reports : List (DeviceId × CapabilityState)) (d : DeviceId)
    (k : CapabilityKind) : (replay reports).get d k = lastWrite (reports.map write) (d,k) := by
  induction reports using List.reverseRecOn with
  | nil => rfl
  | append_singleton xs x ih =>
    rw [replay_concat,get_set,ih,List.map_append,List.map_singleton,lastWrite_concat]
    simp only [write,Prod.mk.injEq,eq_comm]

end StateStore
end Domiform
