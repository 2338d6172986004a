import Domiform.Engine.Run
import Domiform.Replay
import Domiform.Library.Truncation

/-! The host pump: it sleeps, and then advances virtual time by the whole milliseconds since the
last iteration. -/
namespace Domiform
open Library Relation

/-- The loop of `run_engine`: the engine, and the instant (in nanoseconds) of the last iteration. -/
structure Pump (A N : Type) where
  engine : Engine A N
  last : ℕ

/-- `now.duration_since(last).as_millis() as u64`. -/
def elapsedMillis (last now : ℕ) : Millis := (now-last)/1000000 % 2^64

namespace Pump
variable {A N : Type} [Adapter A] [NorthboundAdapter N]

/-- One iteration, awake at `now`. -/
def iterate (π : HashOrder) (fuel : ℕ) (now : ℕ) (p : Pump A N) : Exec (Pump A N) := do
  let engine ← p.engine.advance π fuel (elapsedMillis p.last now)
  .ok ⟨engine,now⟩

/-- The iterations at the given instants, one after another. -/
inductive Iterated (π : HashOrder) (p₀ : Pump A N) : List ℕ → Pump A N → Prop
  | nil : Iterated π p₀ [] p₀
  | concat {instants : List ℕ} {p p' : Pump A N} (fuel now : ℕ) (run : Iterated π p₀ instants p)
      (h : p.iterate π fuel now = .ok p') : Iterated π p₀ (instants ++ [now]) p'

end Pump

/-- The lengths of the sleeps between consecutive instants. -/
def sleeps : ℕ → List ℕ → List ℕ
  | _,[] => []
  | last,now :: rest => (now-last) :: sleeps now rest

theorem sleeps_concat (last now : ℕ) (instants : List ℕ) :
    sleeps last (instants ++ [now]) =
      sleeps last instants ++ [now-(instants.getLast?.getD last)] := by
  induction instants generalizing last with
  | nil => rfl
  | cons i rest ih =>
    rw [List.cons_append,sleeps,sleeps,ih,List.cons_append]
    cases rest with
    | nil => rfl
    | cons j rest => simp [List.getLast?_eq_some_getLast]

/-- Sleeps between instants in order add up to the whole time. -/
theorem sum_sleeps {last : ℕ} {instants : List ℕ} (order : (last :: instants).Pairwise (· ≤ ·)) :
    (sleeps last instants).sum = instants.getLast?.getD last-last := by
  induction instants generalizing last with
  | nil => simp [sleeps]
  | cons i rest ih =>
    rw [List.pairwise_cons] at order
    rw [sleeps,List.sum_cons,ih order.2]
    have hi := order.1 i List.mem_cons_self
    have hl : i ≤ rest.getLast?.getD i := by
      cases h : rest.getLast? with
      | none => exact le_rfl
      | some j => exact (List.pairwise_cons.mp order.2).1 j (List.mem_of_getLast? h)
    have hc : (i :: rest).getLast?.getD last = rest.getLast?.getD i := by
      cases rest with
      | nil => rfl
      | cons j rest => simp [List.getLast?_eq_some_getLast]
    omega

variable {A N : Type} [Adapter A] [NorthboundAdapter N]

/-- Draining takes no virtual time. -/
theorem Engine.drain_now {π : HashOrder} {fuel : ℕ} {e e' : Engine A N}
    (h : Engine.drain π fuel e = .ok e') : e'.now = e.now := by
  refine (Engine.drain_induct (I := fun b => b.now = e.now) ?_ h rfl).1
  intro fuel ev depth rest b b' hq hp hb
  exact (Engine.process_processed hp).now.trans hb

theorem Engine.advance_now {π : HashOrder} {fuel : ℕ} {dt : Millis} {e e' : Engine A N}
    (h : Engine.advance π fuel dt e = .ok e') : e'.now = addMillis e.now dt :=
  Engine.drain_now h

namespace Pump
variable {π : HashOrder} {p₀ p p' : Pump A N} {instants : List ℕ}

theorem iterate_eq_ok {fuel now : ℕ} (h : p.iterate π fuel now = .ok p') :
    p'.last = now ∧ p'.engine.now = addMillis p.engine.now (elapsedMillis p.last now) := by
  obtain ⟨e,he,h⟩ := bind_ok_iff.mp h
  cases h
  exact ⟨rfl,Engine.advance_now he⟩

/-- After the iterations, virtual time counts the whole milliseconds of every sleep. -/
theorem Iterated.clock (run : Iterated π p₀ instants p) (boot : p₀.engine.now = 0) :
    p.last = instants.getLast?.getD p₀.last ∧
      p.engine.now = wholes 1000000 (sleeps p₀.last instants) % 2^64 := by
  induction run with
  | nil => exact ⟨rfl,by simp [boot,sleeps]⟩
  | concat fuel now run h ih =>
    obtain ⟨hl,hn⟩ := iterate_eq_ok h
    refine ⟨by simp [hl],?_⟩
    rw [hn,ih.1,ih.2,sleeps_concat,wholes_concat,addMillis,elapsedMillis,← Nat.add_mod]

/-- Virtual time is real time in whole milliseconds, exactly as long as the rests that the
iterations dropped stay below one millisecond (and real time fits the counter). -/
theorem now_eq_elapsed_iff (run : Iterated π p₀ instants p) (boot : p₀.engine.now = 0)
    (order : (p₀.last :: instants).Pairwise (· ≤ ·)) :
    p.engine.now = (p.last-p₀.last)/1000000 ↔
      (p.last-p₀.last)/1000000 < 2^64 ∧ rests 1000000 (sleeps p₀.last instants) < 1000000 := by
  obtain ⟨hl,hn⟩ := run.clock boot
  rw [hn,hl,← sum_sleeps order,← wholes_eq_sum_div_iff (by decide)]
  have hle : wholes 1000000 (sleeps p₀.last instants) ≤ (sleeps p₀.last instants).sum/1000000 := by
    rw [sum_div_eq (by decide)]
    exact Nat.le_add_right _ _
  constructor
  · intro h
    have hlt : (sleeps p₀.last instants).sum/1000000 < 2^64 := by
      rw [← h]
      exact Nat.mod_lt _ (by decide)
    rw [Nat.mod_eq_of_lt (hle.trans_lt hlt)] at h
    exact ⟨hlt,h⟩
  · rintro ⟨hlt,h⟩
    rw [Nat.mod_eq_of_lt (hle.trans_lt hlt),h]

end Pump

/-- The pump wakes every 2 milliseconds on the dot. -/
theorem punctual_pump_keeps_time : ∃ p : Pump VirtualDeviceAdapter MockNorthbound,
    Pump.Iterated .identity ⟨lampEngine,0⟩ [2000000,4000000] p ∧
      p.engine.now = (p.last-0)/1000000 := by
  obtain ⟨p₁,h₁,p₂,h₂⟩ : ∃ p₁, Pump.iterate .identity 3 2000000 ⟨lampEngine,0⟩ = .ok p₁ ∧
      ∃ p₂, p₁.iterate .identity 3 4000000 = .ok p₂ := ⟨_,rfl,_,rfl⟩
  have run : Pump.Iterated .identity ⟨lampEngine,0⟩ [2000000,4000000] p₂ :=
    ((Pump.Iterated.nil).concat 3 _ h₁).concat 3 _ h₂
  refine ⟨p₂,run,(Pump.now_eq_elapsed_iff run rfl (by decide)).mpr ⟨?_,by decide⟩⟩
  rw [(run.clock rfl).1]
  decide

/-- Two sleeps of 0.999999 ms each: almost 2 ms of real time, and virtual time stands still. -/
theorem short_sleeps_lose_time : ∃ p : Pump VirtualDeviceAdapter MockNorthbound,
    Pump.Iterated .identity ⟨lampEngine,0⟩ [999999,1999998] p ∧ p.engine.now = 0 ∧
      (p.last-0)/1000000 = 1 := by
  obtain ⟨p₁,h₁,p₂,h₂,hn,hl⟩ : ∃ p₁, Pump.iterate .identity 3 999999 ⟨lampEngine,0⟩ = .ok p₁ ∧
      ∃ p₂, p₁.iterate .identity 3 1999998 = .ok p₂ ∧ p₂.engine.now = 0 ∧
        (p₂.last-0)/1000000 = 1 := ⟨_,rfl,_,rfl,rfl,rfl⟩
  exact ⟨p₂,((Pump.Iterated.nil).concat 3 _ h₁).concat 3 _ h₂,hn,hl⟩

end Domiform
