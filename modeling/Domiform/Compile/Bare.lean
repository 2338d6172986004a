import Domiform.Compile.Ast

/-! Values without merge keys and tags. To expand and to strip them changes nothing, and every reading
of such a value is a reading of the value itself. -/
namespace Domiform.Value

mutual
/-- Neither the value nor anything in it has a tag or a merge key. -/
def Bare : Value → Prop
  | tagged _ _ => False
  | sequence items => BareItems items
  | mapping entries => BareEntries entries
  | _ => True
def BareItems : List Value → Prop
  | [] => True
  | v :: vs => Bare v ∧ BareItems vs
def BareEntries : List (Value × Value) → Prop
  | [] => True
  | e :: es => BareEntry e ∧ BareEntries es
def BareEntry : Value × Value → Prop
  | (k,v) => k.isKey "<<" = false ∧ Bare k ∧ Bare v
end

theorem bareItems_iff {items : List Value} : BareItems items ↔ ∀ v ∈ items, v.Bare := by
  induction items with
  | nil => simp [BareItems]
  | cons v vs ih => rw [BareItems,ih,List.forall_mem_cons]

theorem bareEntries_iff {entries : List (Value × Value)} : BareEntries entries ↔
    ∀ e ∈ entries, e.1.isKey "<<" = false ∧ e.1.Bare ∧ e.2.Bare := by
  induction entries with
  | nil => simp [BareEntries]
  | cons e es ih => rw [BareEntries,BareEntry,ih,List.forall_mem_cons]

namespace Bare
variable {v : Value} {entries : List (Value × Value)} {items : List Value}

theorem item (h : (sequence items).Bare) (hv : v ∈ items) : v.Bare := bareItems_iff.mp h v hv

theorem entry (h : (mapping entries).Bare) {e : Value × Value} (he : e ∈ entries) :
    e.1.isKey "<<" = false ∧ e.1.Bare ∧ e.2.Bare := bareEntries_iff.mp h e he

theorem untag (h : v.Bare) : v.untag = v := by
  cases v with
  | tagged => exact h.elim
  | _ => rfl

theorem asStr_eq_some (h : v.Bare) {s : String} : v.asStr = some s ↔ v = .string s := by
  unfold asStr
  rw [h.untag]
  cases v <;> simp

theorem asBool_eq_some (h : v.Bare) {b : Bool} : v.asBool = some b ↔ v = .bool b := by
  unfold asBool
  rw [h.untag]
  cases v <;> simp

theorem asU64_eq_some (h : v.Bare) {n : ℕ} : v.asU64 = some n ↔ v = .number (.posInt n) := by
  unfold asU64
  rw [h.untag]
  cases v with
  | number n => cases n <;> simp
  | _ => simp

/-- Without a `<<` there is nothing to merge. -/
theorem mergeEntries (h : (mapping entries).Bare) : mergeEntries entries = .ok entries := by
  have hn : get entries "<<" = none := by
    unfold get
    rw [List.find?_eq_none.mpr fun e he => by simp [(h.entry he).1]]
    rfl
  unfold Value.mergeEntries
  rw [hn]

theorem mapM_ok {α : Type} {f : α → Except MergeError α} {xs : List α} (h : ∀ x ∈ xs, f x = .ok x) :
    xs.mapM f = .ok xs := by
  induction xs with
  | nil => rfl
  | cons x xs ih =>
    rw [List.forall_mem_cons] at h
    rw [List.mapM_cons,h.1,ih h.2]
    rfl

theorem applyMergeTo (h : v.Bare) (depth : ℕ) : v.applyMergeTo depth = .ok v := by
  induction depth generalizing v with
  | zero => rfl
  | succ depth ih =>
    cases v with
    | mapping entries =>
      have hm : (entries.mapM fun e => do
          let v ← Value.applyMergeTo depth e.2
          .ok (e.1,v)) = .ok entries :=
        mapM_ok fun e he => by rw [ih (h.entry he).2.2]; rfl
      unfold Value.applyMergeTo
      dsimp only
      rw [h.mergeEntries]
      exact congrArg (fun m => m >>= fun entries => Except.ok (mapping entries)) hm
    | sequence items =>
      have hm := mapM_ok (f := Value.applyMergeTo depth) fun v hv => ih (h.item hv)
      unfold Value.applyMergeTo
      dsimp only
      rw [hm]
      rfl
    | tagged => exact h.elim
    | _ => rfl

theorem applyMerge (h : v.Bare) : v.applyMerge = .ok v := h.applyMergeTo v.depth

theorem of_get (h : (mapping entries).Bare) {name : String} (hv : get entries name = some v) :
    v.Bare := by
  obtain ⟨e,he,rfl⟩ := Option.map_eq_some_iff.mp hv
  exact (h.entry (List.mem_of_find?_eq_some he)).2.2

/-- Where every key is a name, an entry is found by name. -/
theorem get_named (named : List (String × Value)) (name : String) :
    get (named.map fun e => (.string e.1,e.2)) name = named.lookup name := by
  induction named with
  | nil => rfl
  | cons e es ih =>
    by_cases hn : name = e.1
    · subst hn
      obtain ⟨name,value⟩ := e
      simp [get,isKey]
    · have hk : (string e.1).isKey name = false := by
        simpa [isKey] using Ne.symm hn
      rw [List.map_cons,get,List.find?_cons_of_neg (by simp [hk]),List.lookup_cons,
        beq_false_of_ne hn]
      exact ih

theorem named (h : (mapping entries).Bare) {names : List (String × Value)}
    (hm : (entries.mapM fun e => e.1.asStr.map fun name => (name,e.2)) = some names) :
    entries = names.map fun e => (.string e.1,e.2) := by
  induction entries generalizing names with
  | nil =>
    cases hm
    rfl
  | cons e es ih =>
    rw [List.mapM_cons,Option.bind_eq_bind,Option.bind_eq_some_iff] at hm
    obtain ⟨e',he,hm⟩ := hm
    obtain ⟨name,hn,rfl⟩ := Option.map_eq_some_iff.mp he
    rw [Option.bind_eq_bind,Option.bind_eq_some_iff] at hm
    obtain ⟨names',hm,hp⟩ := hm
    cases hp
    obtain ⟨hk,hes⟩ : e.1 = .string name ∧ (mapping es).Bare := by
      have he := h.entry (List.mem_cons_self ..)
      refine ⟨he.2.1.asStr_eq_some.mp hn,?_⟩
      exact bareEntries_iff.mpr fun x hx => h.entry (List.mem_cons_of_mem _ hx)
    rw [List.map_cons,← ih hes hm,← hk]

/-- What the fields of a struct are read from: a map, by name, or a list. -/
theorem fields_eq_some (h : v.Bare) {names : List String} {f : String → Option Value}
    (hf : v.fields names = some f) : (∀ name value, f name = some value → value.Bare) ∧
      ((∃ entries, v = .mapping entries ∧ f = get entries ∧
        ∀ e ∈ entries, ∃ name ∈ names, e.1 = .string name) ∨ ∃ items, v = .sequence items) := by
  unfold fields at hf
  rw [h.untag] at hf
  cases v with
  | mapping entries =>
    dsimp only at hf
    split at hf
    · rename_i named hm
      split_ifs at hf with hn
      have he := h.named hm
      have hget : f = get entries := by
        rw [← Option.some.inj hf,he]
        funext name
        exact (get_named named name).symm
      refine ⟨fun name value hv => h.of_get (hget ▸ hv),.inl ⟨entries,rfl,hget,fun e hm => ?_⟩⟩
      rw [he] at hm
      obtain ⟨x,hx,rfl⟩ := List.mem_map.mp hm
      exact ⟨x.1,by simpa using List.all_eq_true.mp hn.1 x hx,rfl⟩
    · cases hf
  | sequence items =>
    dsimp only at hf
    split_ifs at hf
    refine ⟨fun name value hv => ?_,.inr ⟨items,rfl⟩⟩
    rw [← Option.some.inj hf] at hv
    obtain ⟨before,after,hz,-⟩ := List.lookup_eq_some_iff.mp hv
    have hm : (name,value) ∈ names.zip items := by simp [hz]
    exact h.item (List.of_mem_zip hm).2
  | _ => cases hf

end Bare
end Domiform.Value
