import Mathlib.Data.List.AList
import Mathlib.Data.List.Sort

/-! Hash maps whose iteration order is arbitrary.
A map is an association list without duplicate keys. What the hasher decides is a separate
parameter, so that a program can be run under every order its maps may yield. -/
namespace Library

/-- At each point of an execution, how the entries of a map are permuted when it is iterated. -/
structure HashOrder where
  shuffle : ℕ → {α : Type} → List α → List α
  perm : ∀ (n : ℕ) {α : Type} (l : List α), (shuffle n l).Perm l

namespace HashOrder

/-- The order that leaves every map as it is. -/
def identity : HashOrder := ⟨fun _ _ l => l,fun _ _ _ => .refl _⟩

/-- The order that turns every map around. -/
def reversed : HashOrder := ⟨fun _ _ l => l.reverse,fun _ _ l => l.reverse_perm⟩

@[simp] theorem mem_shuffle (π : HashOrder) (n : ℕ) {α : Type} {l : List α} {a : α} :
    a ∈ π.shuffle n l ↔ a ∈ l := (π.perm n l).mem_iff

@[simp] theorem shuffle_nil (π : HashOrder) (n : ℕ) {α : Type} :
    π.shuffle n ([] : List α) = [] := (π.perm n []).eq_nil

/-- A predicate that at most one element meets picks the same element in every order. -/
theorem find_shuffle (π : HashOrder) (n : ℕ) {α : Type} (p : α → Bool) (l : List α)
    (unique : ∀ a ∈ l, ∀ b ∈ l, p a = true → p b = true → a = b) :
    (π.shuffle n l).find? p = l.find? p := by
  cases hl : l.find? p with
  | none =>
    rw [List.find?_eq_none] at hl ⊢
    intro a ha
    exact hl a ((π.mem_shuffle n).mp ha)
  | some b =>
    cases hs : (π.shuffle n l).find? p with
    | none =>
      rw [List.find?_eq_none] at hs
      have hb := List.mem_of_find?_eq_some hl
      exact absurd (List.find?_some hl) (hs b ((π.mem_shuffle n).mpr hb))
    | some c =>
      have hc := (π.mem_shuffle n).mp (List.mem_of_find?_eq_some hs)
      have h := unique c hc b (List.mem_of_find?_eq_some hl) (List.find?_some hs)
        (List.find?_some hl)
      rw [h]

/-- What is left of a set is listed alike in every order only if it is one element at most. -/
theorem filter_shuffle_iff (n : ℕ) {α : Type} (p : α → Bool) {l : List α} (nodup : l.Nodup) :
    (∀ π π' : HashOrder, (π.shuffle n l).filter p = (π'.shuffle n l).filter p) ↔
      ∀ a ∈ l, ∀ b ∈ l, p a = true → p b = true → a = b := by
  have mem {a : α} : a ∈ l.filter p ↔ a ∈ l ∧ p a = true := List.mem_filter
  have hn : (l.filter p).Nodup := nodup.filter p
  constructor
  · intro h a ha b hb pa pb
    have hr : l.filter p = (l.filter p).reverse := by
      rw [← List.filter_reverse]
      exact h identity reversed
    have ma := mem.mpr ⟨ha,pa⟩
    have mb := mem.mpr ⟨hb,pb⟩
    generalize l.filter p = m at hn hr ma mb
    cases m with
    | nil => cases ma
    | cons x t =>
      have last : (x :: t).getLast? = some x := by
        rw [hr]
        simp
      cases t with
      | nil => exact (List.mem_singleton.mp ma).trans (List.mem_singleton.mp mb).symm
      | cons y t =>
        rw [List.getLast?_cons_cons] at last
        exact absurd (List.mem_of_getLast? last) (List.nodup_cons.mp hn).1
  · intro unique π π'
    have hp (π : HashOrder) : ((π.shuffle n l).filter p).Perm (l.filter p) := (π.perm n l).filter p
    have one : l.filter p = [] ∨ ∃ a, l.filter p = [a] := by
      have all : ∀ a ∈ l.filter p, ∀ b ∈ l.filter p, a = b := by
        intro a ha b hb
        exact unique a (mem.mp ha).1 b (mem.mp hb).1 (mem.mp ha).2 (mem.mp hb).2
      generalize l.filter p = m at hn all
      cases m with
      | nil => exact .inl rfl
      | cons x t =>
        cases t with
        | nil => exact .inr ⟨x,rfl⟩
        | cons y t =>
          have hxy := all x List.mem_cons_self y (List.mem_cons_of_mem x List.mem_cons_self)
          exact absurd (hxy ▸ List.mem_cons_self) (List.nodup_cons.mp hn).1
    rcases one with h | ⟨a,h⟩
    · have empty (π : HashOrder) : (π.shuffle n l).filter p = [] :=
        List.perm_nil.mp (by rw [← h]; exact hp π)
      rw [empty π,empty π']
    · have single (π : HashOrder) : (π.shuffle n l).filter p = [a] :=
        List.perm_singleton.mp (by rw [← h]; exact hp π)
      rw [single π,single π']

end HashOrder

/-- A finite map, up to the order in which it is iterated. -/
abbrev HashMap (K V : Type) := AList (fun _ : K => V)

namespace HashMap
variable {K V : Type}

/-- The entries in the order the hasher yields at point `n`. -/
def iter (π : HashOrder) (n : ℕ) (m : HashMap K V) : List (K × V) :=
  π.shuffle n (m.entries.map fun s => (s.1,s.2))

/-- Two iterations of a map yield the same entries. -/
theorem iter_perm (π π' : HashOrder) (n n' : ℕ) (m : HashMap K V) :
    (iter π n m).Perm (iter π' n' m) := (π.perm n _).trans (π'.perm n' _).symm

theorem iter_keys_nodup (π : HashOrder) (n : ℕ) (m : HashMap K V) :
    ((iter π n m).map Prod.fst).Nodup := by
  rw [iter,((π.perm n _).map Prod.fst).nodup_iff,List.map_map]
  exact m.nodupKeys

variable [DecidableEq K]

@[simp] theorem mem_iter {π : HashOrder} {n : ℕ} {m : HashMap K V} {k : K} {v : V} :
    (k,v) ∈ iter π n m ↔ m.lookup k = some v := by
  rw [iter,HashOrder.mem_shuffle,List.mem_map,← Option.mem_def,AList.mem_lookup_iff]
  constructor
  · rintro ⟨⟨k',v'⟩,h,he⟩
    cases he
    exact h
  · exact fun h => ⟨⟨k,v⟩,h,rfl⟩

theorem lookup_insert (m : HashMap K V) (k k' : K) (v : V) :
    (m.insert k v).lookup k' = if k' = k then some v else m.lookup k' := by
  split_ifs with h
  · rw [h,AList.lookup_insert]
  · exact AList.lookup_insert_ne h

theorem lookup_erase (m : HashMap K V) (k k' : K) :
    (m.erase k).lookup k' = if k' = k then none else m.lookup k' := by
  split_ifs with h
  · rw [h,AList.lookup_erase]
  · exact AList.lookup_erase_ne h

/-- Update the value of a key in place, starting from `d` where there is none. -/
def upsert (m : HashMap K V) (k : K) (d : V) (f : V → V) : HashMap K V :=
  m.insert k (f ((m.lookup k).getD d))

theorem getD_upsert (m : HashMap K V) (k k' : K) (d : V) (f : V → V) :
    ((m.upsert k d f).lookup k').getD d =
      if k' = k then f ((m.lookup k').getD d) else (m.lookup k').getD d := by
  rw [upsert,lookup_insert]
  split_ifs with h
  · rw [h,Option.getD_some]
  · rfl

/-- A key sees the updates that are meant for it, in order. -/
theorem getD_foldl_upsert {α : Type} (key : α → K) (d : V) (f : α → V → V) (xs : List α)
    (m : HashMap K V) (k : K) :
    ((xs.foldl (fun m x => m.upsert (key x) d (f x)) m).lookup k).getD d =
      (xs.filter fun x => decide (key x = k)).foldl (fun v x => f x v) ((m.lookup k).getD d) := by
  induction xs generalizing m with
  | nil => rfl
  | cons x xs ih =>
    rw [List.foldl_cons,ih,getD_upsert,List.filter_cons]
    by_cases h : key x = k
    · rw [if_pos h.symm,decide_eq_true h,if_pos rfl]
      rfl
    · rw [if_neg (Ne.symm h),decide_eq_false h]
      rfl

/-- Erasing a list of keys leaves exactly the others. -/
theorem lookup_foldl_erase (ks : List K) (m : HashMap K V) (k : K) :
    (ks.foldl (fun m k => m.erase k) m).lookup k = if k ∈ ks then none else m.lookup k := by
  induction ks generalizing m with
  | nil => simp
  | cons a ks ih =>
    rw [List.foldl_cons,ih,lookup_erase]
    by_cases h : k = a <;> simp [h]

/-- Erasing commutes. -/
theorem foldl_erase_perm {ks ks' : List K} (h : ks.Perm ks') (m : HashMap K V) :
    ks.foldl (fun m k => m.erase k) m = ks'.foldl (fun m k => m.erase k) m :=
  h.foldl_eq' (fun a _ b _ m => AList.erase_erase a b m) m

/-- Number a list of keys, and map each to what its position stands for. -/
def ofKeys (f : ℕ → V) (ks : List K) : HashMap K V :=
  ks.zipIdx.foldl (fun m x => m.insert x.1 (f x.2)) ∅

/-- Inserting entries with distinct keys files each under its own. -/
theorem lookup_foldl_insert {xs : List (K × V)} (nodup : (xs.map Prod.fst).Nodup) (m : HashMap K V)
    (k : K) (v : V) : (xs.foldl (fun m x => m.insert x.1 x.2) m).lookup k = some v ↔
      (k,v) ∈ xs ∨ k ∉ xs.map Prod.fst ∧ m.lookup k = some v := by
  induction xs generalizing m with
  | nil => simp
  | cons x xs ih =>
    rw [List.map_cons,List.nodup_cons] at nodup
    rw [List.foldl_cons,ih nodup.2,lookup_insert]
    by_cases hk : k = x.1
    · subst hk
      have hx : (x.1,v) ∉ xs := fun h => nodup.1 (List.mem_map.mpr ⟨_,h,rfl⟩)
      simp only [hx,nodup.1,not_false_eq_true,true_and,false_or,if_true,List.mem_cons,
        List.map_cons,not_true_eq_false,false_and,or_false,Option.some.injEq]
      constructor
      · rintro rfl
        rfl
      · exact fun h => (congrArg Prod.snd h).symm
    · have hx : (k,v) ≠ x := by
        rintro rfl
        exact hk rfl
      simp [hk,hx]

theorem lookup_ofKeys {f : ℕ → V} {ks : List K} (nodup : ks.Nodup) (k : K) (v : V) :
    (ofKeys f ks).lookup k = some v ↔ ∃ i, ks[i]? = some k ∧ f i = v := by
  have hfold : ofKeys f ks =
      (ks.zipIdx.map fun x => (x.1,f x.2)).foldl (fun m x => m.insert x.1 x.2) ∅ := by
    rw [ofKeys,List.foldl_map]
  have hn : ((ks.zipIdx.map fun x => (x.1,f x.2)).map Prod.fst).Nodup := by
    rw [List.map_map]
    have : (Prod.fst ∘ fun x : K × ℕ => (x.1,f x.2)) = Prod.fst := rfl
    rw [this,List.zipIdx_map_fst]
    exact nodup
  rw [hfold,lookup_foldl_insert hn]
  simp only [List.mem_map,Prod.mk.injEq,AList.lookup_empty,reduceCtorEq,and_false,or_false]
  constructor
  · rintro ⟨⟨k',i⟩,hm,rfl,rfl⟩
    exact ⟨i,by simpa using List.mem_zipIdx_iff_getElem?.mp hm,rfl⟩
  · rintro ⟨i,hi,rfl⟩
    exact ⟨(k,i),List.mem_zipIdx_iff_getElem?.mpr hi,rfl,rfl⟩

end HashMap
end Library
