import Mathlib.Data.List.Basic
import Mathlib.Tactic

/-! A queue between a sender, whose items it accepts, and a courier, who takes them out one at a time
and delivers each or loses it. Nothing is duplicated or reordered, and what is missing is lost. -/
namespace Library

/-- `accepted`, `delivered` and `lost` are records of what was. -/
structure Outbox (F : Type) where
  accepted : List F
  queue : List F
  hand : Option F
  delivered : List F
  lost : List F

namespace Outbox
variable {F : Type}

def empty : Outbox F := ⟨[],[],none,[],[]⟩

def accept (f : F) (o : Outbox F) : Outbox F :=
  { o with accepted := o.accepted ++ [f],queue := o.queue ++ [f] }

/-- Only an empty hand takes an item. -/
def take (o : Outbox F) : Option (Outbox F) :=
  match o.hand,o.queue with
  | none,f :: rest => some { o with queue := rest,hand := some f }
  | _,_ => none

def deliver (o : Outbox F) : Outbox F :=
  { o with delivered := o.delivered ++ o.hand.toList,hand := none }

def lose (o : Outbox F) : Outbox F := { o with lost := o.lost ++ o.hand.toList,hand := none }

/-- What is accounted for, in order. -/
def kept (o : Outbox F) : List F := o.delivered ++ o.hand.toList ++ o.queue

/-- Everything accepted is delivered, in hand or still queued, in this order. -/
def Intact (o : Outbox F) : Prop := o.kept = o.accepted

/-- What is kept is in the order of acceptance, and the rest is lost. -/
structure Conserved (o : Outbox F) : Prop where
  order : o.kept.Sublist o.accepted
  count : o.kept.length+o.lost.length = o.accepted.length

namespace Conserved
variable {o o' : Outbox F}

theorem empty : (empty : Outbox F).Conserved := ⟨.slnil,rfl⟩

theorem accept (h : o.Conserved) (f : F) : (o.accept f).Conserved := by
  have hk : (o.accept f).kept = o.kept ++ [f] := by simp [kept,Outbox.accept]
  constructor
  · rw [hk]
    exact h.order.append_right [f]
  · have := h.count
    rw [hk]
    simp only [Outbox.accept,List.length_append,List.length_singleton]
    omega

theorem take (h : o.Conserved) (ht : o.take = some o') : o'.Conserved := by
  have hk : o'.kept = o.kept ∧ o'.accepted = o.accepted ∧ o'.lost = o.lost := by
    simp only [Outbox.take] at ht
    split at ht
    · rename_i f rest hh hq
      cases ht
      exact ⟨by simp [kept,hh,hq],rfl,rfl⟩
    · cases ht
  obtain ⟨hk,ha,hl⟩ := hk
  exact ⟨by rw [hk,ha]; exact h.order,by rw [hk,ha,hl]; exact h.count⟩

theorem deliver (h : o.Conserved) : o.deliver.Conserved := by
  have hk : o.deliver.kept = o.kept := by simp [kept,Outbox.deliver]
  exact ⟨by rw [hk]; exact h.order,by rw [hk]; exact h.count⟩

theorem lose (h : o.Conserved) : o.lose.Conserved := by
  have hs : o.lose.kept.Sublist o.kept := by
    refine List.Sublist.append_right ?_ _
    simp [Outbox.lose]
  refine ⟨hs.trans h.order,?_⟩
  have := h.count
  simp only [kept,Outbox.lose,List.length_append,Option.toList_none,List.length_nil] at this ⊢
  omega

theorem intact_iff (h : o.Conserved) : o.Intact ↔ o.lost = [] := by
  have hc := h.count
  constructor
  · intro hi
    rw [hi] at hc
    exact List.length_eq_zero_iff.mp (by omega)
  · intro hl
    rw [hl,List.length_nil] at hc
    exact h.order.eq_of_length hc

end Conserved
end Outbox
end Library
