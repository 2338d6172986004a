import Mathlib.Data.Finset.Sort
import Mathlib.Order.Interval.Finset.Basic
import Mathlib.Order.Interval.Finset.Defs
import Mathlib.Tactic

/-! Sets of instants that are walked through from one member to the next. Between two instants the
members form a list, and lists of adjoining intervals join up. -/
namespace Library
variable {α : Type} [LinearOrder α]

/-- The first member of a set after an instant, if there is one. -/
def NextIn (S : Set α) (a : α) : Option α → Prop
  | some n => IsLeast {m | m ∈ S ∧ a < m} n
  | none => ∀ m ∈ S, m ≤ a

namespace NextIn
variable {S : Set α} {a b : α} {next : Option α}

theorem lt {n : α} (h : NextIn S a (some n)) : a < n := h.1.2

/-- What comes next does not change before it comes. -/
theorem skip (h : NextIn S a next) (hab : a ≤ b) (ahead : ∀ n, next = some n → b < n) :
    NextIn S b next := by
  cases next with
  | none => exact fun m hm => (h m hm).trans hab
  | some n =>
    refine ⟨⟨h.1.1,ahead n rfl⟩,fun m hm => h.2 ⟨hm.1,hab.trans_lt hm.2⟩⟩

end NextIn

variable [LocallyFiniteOrder α]

open Classical in
/-- The members after the first instant and up to the second, in order. -/
noncomputable def within (S : Set α) (a b : α) : List α :=
  ((Finset.Ioc a b).filter (· ∈ S)).sort (· ≤ ·)

section Within
variable {S : Set α} {a b c : α}

theorem mem_within {m : α} : m ∈ within S a b ↔ m ∈ S ∧ a < m ∧ m ≤ b := by
  simp [within,and_comm]

theorem pairwise_within : (within S a b).Pairwise (· ≤ ·) := Finset.pairwise_sort _ _

theorem nodup_within : (within S a b).Nodup := Finset.sort_nodup _ _

/-- A sorted list without repetitions is known by its members. -/
theorem eq_within {l : List α} (sorted : l.Pairwise (· ≤ ·)) (nodup : l.Nodup)
    (mem : ∀ m, m ∈ l ↔ m ∈ S ∧ a < m ∧ m ≤ b) : l = within S a b := by
  apply List.Perm.eq_of_pairwise' sorted pairwise_within
  rw [List.perm_ext_iff_of_nodup nodup nodup_within]
  exact fun m => (mem m).trans mem_within.symm

theorem within_eq_nil (h : ∀ m ∈ S, a < m → b < m) : within S a b = [] := by
  rw [List.eq_nil_iff_forall_not_mem]
  intro m hm
  obtain ⟨hm,ha,hb⟩ := mem_within.mp hm
  exact not_lt.mpr hb (h m hm ha)

theorem NextIn.within_eq_nil {next : Option α} (h : NextIn S a next)
    (ahead : ∀ n, next = some n → b < n) : within S a b = [] := by
  refine Library.within_eq_nil fun m hm ha => ?_
  cases next with
  | none => exact absurd ha (not_lt.mpr (h m hm))
  | some n => exact (ahead n rfl).trans_le (h.2 ⟨hm,ha⟩)

/-- Up to an instant that the next member does not exceed, it is the first. -/
theorem NextIn.within_eq_cons {n : α} (h : NextIn S a (some n)) (hn : n ≤ b) :
    within S a b = n :: within S n b := by
  refine (eq_within ?_ ?_ fun m => ?_).symm
  · exact List.pairwise_cons.mpr ⟨fun m hm => (mem_within.mp hm).2.1.le,pairwise_within⟩
  · exact List.nodup_cons.mpr ⟨fun hm => lt_irrefl n (mem_within.mp hm).2.1,nodup_within⟩
  · rw [List.mem_cons,mem_within]
    constructor
    · rintro (rfl | ⟨hm,hnm,hmb⟩)
      · exact ⟨h.1.1,h.lt,hn⟩
      · exact ⟨hm,h.lt.trans hnm,hmb⟩
    · rintro ⟨hm,ham,hmb⟩
      rcases (h.2 ⟨hm,ham⟩).eq_or_lt with he | hlt
      · exact .inl he.symm
      · exact .inr ⟨hm,hlt,hmb⟩

theorem within_append (hab : a ≤ b) (hbc : b ≤ c) :
    within S a b ++ within S b c = within S a c := by
  refine eq_within ?_ ?_ fun m => ?_
  · refine List.pairwise_append.mpr ⟨pairwise_within,pairwise_within,fun x hx y hy => ?_⟩
    exact (mem_within.mp hx).2.2.trans (mem_within.mp hy).2.1.le
  · refine List.nodup_append'.mpr ⟨nodup_within,nodup_within,fun x hx hy => ?_⟩
    exact not_lt.mpr (mem_within.mp hx).2.2 (mem_within.mp hy).2.1
  · rw [List.mem_append,mem_within,mem_within]
    constructor
    · rintro (⟨hm,ham,hmb⟩ | ⟨hm,hbm,hmc⟩)
      · exact ⟨hm,ham,hmb.trans hbc⟩
      · exact ⟨hm,hab.trans_lt hbm,hmc⟩
    · rintro ⟨hm,ham,hmc⟩
      rcases le_or_gt m b with hmb | hbm
      · exact .inl ⟨hm,ham,hmb⟩
      · exact .inr ⟨hm,hbm,hmc⟩

end Within
end Library
