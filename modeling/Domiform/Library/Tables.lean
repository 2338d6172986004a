import Domiform.Library.HashMap
import Domiform.Library.Writes

/-! Tables filled in one loop. A table holds the last entry of every key; a table of tables holds
the last entry of every pair of keys; a pair of tables, one for each direction, agrees on an entry
as long as no later one takes over its image. -/
namespace Library
variable {K K' A V : Type} [DecidableEq K] [DecidableEq K'] [DecidableEq A]

/-- A table is what its entries, read as writes, leave behind. -/
theorem HashMap.lookup_foldl_eq_lastWrite (xs : List (K × V)) (m : HashMap K V) (k : K) :
    (xs.foldl (fun m x => m.insert x.1 x.2) m).lookup k = (lastWrite xs k).or (m.lookup k) := by
  induction xs generalizing m with
  | nil => rfl
  | cons x xs ih =>
    rw [List.foldl_cons,ih,HashMap.lookup_insert,lastWrite,Option.or_assoc]
    by_cases h : k = x.1
    · simp [h]
    · simp [h,Ne.symm h]

/-- Both keys of a nested entry. -/
def nestedKey (x : K × K' × V) : (K × K') × V := ((x.1,x.2.1),x.2.2)

/-- A table of tables, read at both keys. -/
theorem HashMap.lookup_nested (xs : List (K × K' × V)) (m : HashMap K (HashMap K' V)) (k : K)
    (k' : K') :
    ((xs.foldl (fun m x => m.insert x.1 (((m.lookup x.1).getD ∅).insert x.2.1 x.2.2)) m).lookup
      k).bind (fun t => t.lookup k') =
        (lastWrite (xs.map nestedKey) (k,k')).or ((m.lookup k).bind fun t => t.lookup k') := by
  induction xs generalizing m with
  | nil => rfl
  | cons x xs ih =>
    rw [List.foldl_cons,ih,HashMap.lookup_insert,List.map_cons,lastWrite,Option.or_assoc]
    congr 1
    by_cases h : k = x.1
    · subst h
      rw [if_pos rfl,Option.bind_some,HashMap.lookup_insert]
      by_cases h' : k' = x.2.1
      · simp [nestedKey,h']
      · have hne : (nestedKey x).1 ≠ (x.1,k') := fun he => h' (Prod.ext_iff.mp he).2.symm
        rw [if_neg h',if_neg hne,Option.none_or]
        cases m.lookup x.1 <;> rfl
    · have hne : (nestedKey x).1 ≠ (k,k') := fun he => h (Prod.ext_iff.mp he).1.symm
      rw [if_neg h,if_neg hne,Option.none_or]

/-- The entries are in the order of their keys. -/
def Ordered (lt : K → K → Prop) (entries : List (K × A)) : Prop :=
  entries.Pairwise fun x y => lt x.1 y.1

variable {lt : K → K → Prop} {entries : List (K × A)} {k : K} {a : A}

omit [DecidableEq A] in
theorem Ordered.lastWrite (ordered : Ordered lt entries) (asymm : ∀ x y, lt x y → ¬lt y x)
    (h : (k,a) ∈ entries) : Library.lastWrite entries k = some a := by
  obtain ⟨xs,ys,rfl⟩ := List.append_of_mem h
  refine lastWrite_eq_some_iff.mpr ⟨xs,ys,rfl,fun y hy he => ?_⟩
  have hlt := (List.pairwise_cons.mp (List.pairwise_append.mp ordered).2.1).1 y hy
  rw [he] at hlt
  exact asymm _ _ hlt hlt

omit [DecidableEq K] in
/-- The way back from an image leads to the entry, unless a later one has the same image. -/
theorem Ordered.lastWrite_swap_iff (ordered : Ordered lt entries)
    (asymm : ∀ x y, lt x y → ¬lt y x) (h : (k,a) ∈ entries) :
    Library.lastWrite (entries.map Prod.swap) a = some k ↔
      ∀ x ∈ entries, lt k x.1 → x.2 ≠ a := by
  obtain ⟨xs,ys,rfl⟩ := List.append_of_mem h
  obtain ⟨-,hys,hxs⟩ := List.pairwise_append.mp ordered
  have hlater := (List.pairwise_cons.mp hys).1
  have hsplit : Library.lastWrite ((xs ++ (k,a) :: ys).map Prod.swap) a =
      (Library.lastWrite (ys.map Prod.swap) a).or (some k) := by
    rw [List.map_append,List.map_cons,lastWrite_append,Library.lastWrite]
    cases Library.lastWrite (ys.map Prod.swap) a <;> simp
  rw [hsplit]
  constructor
  · intro hk x hx hlt he
    have hy : x ∈ ys := by
      rcases List.mem_append.mp hx with hx | hx
      · exact absurd hlt (asymm _ _ (hxs x hx (k,a) List.mem_cons_self))
      · rcases List.mem_cons.mp hx with rfl | hx
        · exact absurd hlt (asymm _ _ hlt)
        · exact hx
    cases hl : Library.lastWrite (ys.map Prod.swap) a with
    | none => exact lastWrite_eq_none_iff.mp hl _ (List.mem_map_of_mem hy) he
    | some k' =>
      rw [hl] at hk
      cases hk
      obtain ⟨y,hy',hswap⟩ := List.mem_map.mp (mem_of_lastWrite hl)
      have hyk : y.1 = k := (Prod.ext_iff.mp hswap).2
      have hlt' := hlater y hy'
      rw [hyk] at hlt'
      exact asymm _ _ hlt' hlt'
  · intro hfree
    have hn : Library.lastWrite (ys.map Prod.swap) a = none := by
      refine lastWrite_eq_none_iff.mpr fun w hw => ?_
      obtain ⟨y,hy,rfl⟩ := List.mem_map.mp hw
      exact hfree y (List.mem_append_right _ (List.mem_cons_of_mem _ hy)) (hlater y hy)
    rw [hn]
    rfl

end Library
