import Mathlib.Tactic

/-! Arithmetic of fixed width. A computation carries, beside its value, whether every result on the
way fitted the width it was put in. -/
namespace Library
variable {α β : Type}

/-- A value, and whether nothing was cut off on the way to it. -/
structure Machine (α : Type) where
  value : α
  exact : Bool

namespace Machine

instance : Monad Machine where
  pure a := ⟨a,true⟩
  bind m f := ⟨(f m.value).value,m.exact && (f m.value).exact⟩

/-- A result in `w` bits: what does not fit is cut off. -/
def wrap (w n : ℕ) : Machine ℕ := ⟨n % 2^w,decide (n < 2^w)⟩

@[simp] theorem value_pure (a : α) : (pure a : Machine α).value = a := rfl

@[simp] theorem exact_pure (a : α) : (pure a : Machine α).exact = true := rfl

@[simp] theorem value_bind (m : Machine α) (f : α → Machine β) :
    (m >>= f).value = (f m.value).value := rfl

@[simp] theorem exact_bind (m : Machine α) (f : α → Machine β) :
    (m >>= f).exact = (m.exact && (f m.value).exact) := rfl

@[simp] theorem value_map (f : α → β) (m : Machine α) : (f <$> m).value = f m.value := rfl

@[simp] theorem exact_map (f : α → β) (m : Machine α) : (f <$> m).exact = m.exact :=
  Bool.and_true _

@[simp] theorem value_wrap (w n : ℕ) : (wrap w n).value = n % 2^w := rfl

@[simp] theorem exact_wrap (w n : ℕ) : (wrap w n).exact = decide (n < 2^w) := rfl

end Machine
end Library
