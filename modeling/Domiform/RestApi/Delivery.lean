import Domiform.Library.Mailbox
import Domiform.RestApi.Stream

/-! What each subscriber is delivered. Every operation on the broadcaster holds the mutex of the
registry, so that a run is a list of operations; the log of a run says what each of them did. -/
namespace Domiform.Stream
open Library

/-- The registry, and whether the host is shutting down. -/
structure Broadcaster where
  registry : Registry
  shutdown : Bool

/-- An operation under the mutex. A call of `next_batch` that finds nothing waits, and looks again
when it is woken. -/
inductive Op
  | subscribe
  | broadcast (frame : Frame)
  | nextBatch (id : ℕ)
  | drop (id : ℕ)
  | shutdown

/-- What an operation did. -/
inductive Served
  | subscribed (id : ℕ)
  | broadcast (frame : Frame)
  | batch (id : ℕ) (batch : Batch)
  | dropped (id : ℕ)
  | shutdown

namespace Broadcaster

def default : Broadcaster := ⟨.default,false⟩

/-- One look of `next_batch`; `idle` is that there is nothing yet. -/
def nextBatch (id : ℕ) (b : Broadcaster) : Batch × Broadcaster :=
  if b.shutdown then (.done,b)
  else ((b.registry.nextBatch id).1,{ b with registry := (b.registry.nextBatch id).2 })

def step (b : Broadcaster) : Op → Served × Broadcaster
  | .subscribe => (.subscribed b.registry.subscribe.1,{ b with registry := b.registry.subscribe.2 })
  | .broadcast frame => (.broadcast frame,{ b with registry := b.registry.broadcast frame })
  | .nextBatch id => (.batch id (b.nextBatch id).1,(b.nextBatch id).2)
  | .drop id => (.dropped id,{ b with registry := b.registry.remove id })
  | .shutdown => (.shutdown,{ b with shutdown := true })

/-- The log of a run, and the broadcaster after it. -/
def run (ops : List Op) : List Served × Broadcaster :=
  ops.foldl (fun x op => (x.1 ++ [(x.2.step op).1],(x.2.step op).2)) ([],default)

end Broadcaster

/-! ### The account of a subscriber -/

namespace Served

/-- The entry is the subscriber's own, or everybody's. -/
def concerns (id : ℕ) : Served → Bool
  | subscribed i | batch i _ | dropped i => i == id
  | broadcast _ | shutdown => true

def isShutdown : Served → Bool
  | shutdown => true
  | _ => false

/-- An entry without the answer it gave. -/
def request : Served → Served
  | batch i _ => batch i .idle
  | x => x

/-- A request with its answer. -/
def answered (b : Batch) : Served → Served
  | batch i _ => batch i b
  | x => x

/-- What an entry makes of the frames a subscriber has still to get. -/
def account (id : ℕ) (frames : Option (List Frame)) : Served → Option (List Frame)
  | subscribed i => if i = id then some [] else frames
  | broadcast frame => frames.map (· ++ [frame])
  | batch i (.frames _ _) => if i = id then frames.map fun _ => [] else frames
  | batch _ _ => frames
  | dropped i => if i = id then none else frames
  | shutdown => frames

end Served

/-- The frames broadcast since the subscriber's last batch of frames, or since its subscription;
nothing while it is not subscribed. -/
def since (id : ℕ) (log : List Served) : Option (List Frame) := log.foldl (Served.account id) none

@[simp] theorem since_nil (id : ℕ) : since id [] = none := rfl

@[simp] theorem since_concat (id : ℕ) (log : List Served) (x : Served) :
    since id (log ++ [x]) = x.account id (since id log) := by
  rw [since,List.foldl_append]
  rfl

/-- What is asked by a subscriber, among what concerns everybody. -/
def requests (id : ℕ) (log : List Served) : List Served :=
  (log.filter (Served.concerns id)).map Served.request

/-- The entries of others do not count. -/
theorem since_filter (id : ℕ) (log : List Served) :
    since id (log.filter (Served.concerns id)) = since id log := by
  induction log using List.reverseRecOn with
  | nil => rfl
  | append_singleton log x ih =>
    rw [List.filter_append,since_concat]
    by_cases hx : x.concerns id = true
    · rw [List.filter_singleton,hx,cond_true,since_concat,ih]
    · have other : x.account id (since id log) = since id log := by
        cases x with
        | subscribed i | dropped i => exact if_neg fun h => hx (beq_iff_eq.mpr h)
        | batch i b =>
          cases b with
          | frames => exact if_neg fun h => hx (beq_iff_eq.mpr h)
          | _ => rfl
        | _ => exact absurd rfl hx
      rw [other,← ih]
      simp [hx]

/-- The mailbox of a subscriber with that account. -/
def mailbox (id : ℕ) (frames : List Frame) : Subscriber :=
  ⟨id,newest queueCapacity frames,decide (queueCapacity < frames.length),true⟩

/-- The answer to a subscriber with that account. -/
def answer (stopped : Bool) (frames : Option (List Frame)) : Batch :=
  match frames with
  | none => .done
  | some fs =>
    if stopped then .done
    else if fs.isEmpty then .idle
    else .frames (newest queueCapacity fs) (decide (queueCapacity < fs.length))

theorem answer_frames {stopped : Bool} {account : Option (List Frame)} {frames : List Frame}
    {lagged : Bool} (h : answer stopped account = .frames frames lagged) :
    ∃ sent, account = some sent ∧ sent ≠ [] ∧ frames = newest queueCapacity sent ∧
      (lagged = true ↔ queueCapacity < sent.length) := by
  cases account with
  | none => cases h
  | some sent =>
    rw [answer] at h
    split_ifs at h with _ hne
    obtain ⟨rfl,rfl⟩ := Batch.frames.inj h
    refine ⟨sent,rfl,?_,rfl,by rw [decide_eq_true_iff]⟩
    rintro rfl
    exact hne rfl

theorem push_mailbox (id : ℕ) (frames : List Frame) (frame : Frame) :
    (mailbox id frames).push frame = mailbox id (frames ++ [frame]) := by
  have pos : 0 < queueCapacity := by decide
  simp only [Subscriber.push,mailbox,if_true,length_newest]
  by_cases h : queueCapacity ≤ frames.length
  · have hole : queueCapacity < (frames ++ [frame]).length := by
      simpa using Nat.lt_succ_of_le h
    rw [if_pos (by omega),newest_append_full pos h,decide_eq_true hole]
  · have room : ¬queueCapacity < frames.length := by omega
    have still : ¬queueCapacity < (frames ++ [frame]).length := by
      simpa using h
    rw [if_neg (by omega),newest_append_room (by omega),decide_eq_false room,decide_eq_false still]

namespace Registry
variable {r : Registry} {id : ℕ} {frames : List Frame}

theorem subscriber_subscribe_other (h : id ≠ r.nextId) :
    r.subscribe.2.subscriber id = r.subscriber id := by
  cases hs : r.subscriber id with
  | some s => exact subscriber_subscribe_old hs
  | none =>
    rw [subscriber] at hs ⊢
    simp [subscribe,List.find?_append,hs,h.symm]

theorem subscriber_remove_self (r : Registry) (id : ℕ) : (r.remove id).subscriber id = none := by
  rw [subscriber,remove,List.find?_eq_none]
  intro s hs he
  have := (List.mem_filter.mp hs).2
  simp_all

/-- A look at a mailbox answers by its account. -/
theorem nextBatch_mailbox (h : r.subscriber id = some (mailbox id frames)) :
    (r.nextBatch id).1 = answer false (some frames) := by
  have pos : 0 < queueCapacity := by decide
  have hempty : (newest queueCapacity frames).isEmpty = frames.isEmpty := by
    rw [Bool.eq_iff_iff,List.isEmpty_iff,List.isEmpty_iff,newest_eq_nil_iff pos]
  simp only [nextBatch,h,mailbox,answer,hempty]
  cases frames with
  | nil => rfl
  | cons frame frames => rfl

/-- A look that finds no frames leaves the mailboxes alone. -/
theorem nextBatch_still (h : ∀ batch hole, (r.nextBatch id).1 ≠ .frames batch hole) :
    (r.nextBatch id).2 = r := by
  rw [nextBatch] at h ⊢
  cases hs : r.subscriber id with
  | none => rfl
  | some s =>
    rw [hs] at h
    dsimp only at h ⊢
    split_ifs at h ⊢
    · rfl
    · exact absurd rfl (h _ _)

theorem nextBatch_none (h : r.subscriber id = none) : r.nextBatch id = (.done,r) := by
  rw [nextBatch,h]

end Registry

/-- The mailboxes are those of the accounts that the log gives. -/
structure Broadcaster.Accounts (b : Broadcaster) (log : List Served) : Prop where
  numbered : b.registry.Numbered
  stopped : b.shutdown = log.any Served.isShutdown
  held : ∀ id, b.registry.subscriber id = (since id log).map (mailbox id)

namespace Broadcaster
variable {b : Broadcaster} {log : List Served}

theorem nextBatch_answer (h : b.Accounts log) (id : ℕ) :
    (b.nextBatch id).1 = answer b.shutdown (since id log) := by
  rw [nextBatch]
  cases hb : b.shutdown with
  | true => cases since id log <;> rfl
  | false =>
    have held := h.held id
    cases hs : since id log with
    | none =>
      rw [hs,Option.map_none] at held
      exact congrArg Prod.fst (Registry.nextBatch_none held)
    | some frames =>
      rw [hs,Option.map_some] at held
      exact Registry.nextBatch_mailbox held

theorem nextBatch_held (h : b.Accounts log) (id id' : ℕ) :
    (b.nextBatch id).2.registry.subscriber id' =
      ((Served.batch id (b.nextBatch id).1).account id' (since id' log)).map (mailbox id') := by
  have held := h.held id'
  by_cases hb : b.shutdown = true
  · rw [nextBatch,if_pos hb]
    exact held
  · rw [nextBatch,if_neg hb]
    dsimp only
    by_cases hid : id = id'
    · subst hid
      cases hn : (b.registry.nextBatch id).1 with
      | frames batch hole =>
        cases hs : since id log with
        | none =>
          rw [hs,Option.map_none] at held
          rw [Registry.nextBatch_none held] at hn
          cases hn
        | some frames =>
          rw [hs,Option.map_some] at held
          obtain ⟨-,-,drained⟩ := Registry.nextBatch_frames held hn
          rw [drained,Served.account,if_pos rfl]
          simp [mailbox]
      | idle | done =>
        rw [Registry.nextBatch_still (by rw [hn]; rintro _ _ ⟨⟩)]
        exact held
    · rw [Registry.subscriber_nextBatch_other (Ne.symm hid),held]
      cases (b.registry.nextBatch id).1 with
      | frames batch hole => rw [Served.account,if_neg hid]
      | _ => rfl

theorem stopped_concat (h : b.Accounts log) {x : Served} (other : x.isShutdown = false) :
    b.shutdown = (log ++ [x]).any Served.isShutdown := by
  rw [h.stopped,List.any_append]
  simp [other]

/-- Every operation keeps the accounts. -/
theorem Accounts.step (h : b.Accounts log) (op : Op) :
    (b.step op).2.Accounts (log ++ [(b.step op).1]) := by
  cases op with
  | subscribe =>
    refine ⟨h.numbered.subscribe,stopped_concat h rfl,fun id => ?_⟩
    rw [since_concat]
    by_cases hid : b.registry.subscribe.1 = id
    · subst hid
      refine (Registry.subscriber_subscribe_new h.numbered).trans ?_
      simp [Broadcaster.step,Served.account,mailbox]
    · refine (Registry.subscriber_subscribe_other (Ne.symm hid)).trans ((h.held id).trans ?_)
      simp [Broadcaster.step,Served.account,hid]
  | broadcast frame =>
    refine ⟨h.numbered.broadcast frame,stopped_concat h rfl,fun id => ?_⟩
    rw [since_concat]
    refine (Registry.subscriber_broadcast _ _ _).trans ?_
    rw [h.held id,Option.map_map]
    simp only [Broadcaster.step,Served.account,Option.map_map,Function.comp_def,push_mailbox]
  | nextBatch id =>
    have registry : (b.nextBatch id).2.registry.Numbered := by
      rw [Broadcaster.nextBatch]
      split_ifs
      · exact h.numbered
      · exact h.numbered.nextBatch id
    have flag : (b.nextBatch id).2.shutdown = b.shutdown := by
      rw [Broadcaster.nextBatch]
      split_ifs <;> rfl
    refine ⟨registry,?_,fun id' => ?_⟩
    · rw [Broadcaster.step,flag]
      exact stopped_concat h rfl
    · rw [since_concat]
      exact nextBatch_held h id id'
  | drop id =>
    refine ⟨h.numbered.remove id,stopped_concat h rfl,fun id' => ?_⟩
    rw [since_concat]
    by_cases hid : id = id'
    · subst hid
      refine (Registry.subscriber_remove_self _ _).trans ?_
      simp [Broadcaster.step,Served.account]
    · refine (Registry.subscriber_remove (Ne.symm hid) _).trans ((h.held id').trans ?_)
      simp [Broadcaster.step,Served.account,hid]
  | shutdown =>
    refine ⟨h.numbered,?_,fun id => ?_⟩
    · rw [List.any_append]
      exact (Bool.or_true _).symm
    · rw [since_concat]
      exact h.held id

theorem accounts_default : default.Accounts [] := by
  refine ⟨?_,by simp [default],fun _ => rfl⟩
  rintro _ ⟨⟩

theorem run_concat (ops : List Op) (op : Op) : run (ops ++ [op]) =
    ((run ops).1 ++ [((run ops).2.step op).1],((run ops).2.step op).2) := by
  rw [run,List.foldl_append]
  rfl

theorem run_accounts (ops : List Op) : (run ops).2.Accounts (run ops).1 := by
  induction ops using List.reverseRecOn with
  | nil => exact accounts_default
  | append_singleton ops op ih =>
    rw [run_concat]
    exact ih.step op

/-- Every answer in the log is the answer to the account of its subscriber at that point. -/
theorem run_answers (ops : List Op) {xs ys : List Served} {id : ℕ} {batch : Batch}
    (h : (run ops).1 = xs ++ .batch id batch :: ys) :
    ∃ stopped, batch = answer stopped (since id xs) := by
  induction ops using List.reverseRecOn generalizing ys with
  | nil => cases List.append_eq_nil_iff.mp h.symm |>.2
  | append_singleton ops op ih =>
    rw [run_concat] at h
    rcases List.eq_nil_or_concat ys with rfl | ⟨ys',y,rfl⟩
    · obtain ⟨hlog,hx⟩ := List.append_inj' h rfl
      cases op with
      | nextBatch i =>
        obtain ⟨rfl,rfl⟩ := Served.batch.inj (List.cons.inj hx).1
        rw [nextBatch_answer (run_accounts ops),hlog]
        exact ⟨_,rfl⟩
      | _ => cases hx
    · rw [List.concat_eq_append,← List.cons_append,← List.append_assoc] at h
      exact ih (List.append_inj' h rfl).1

/-- What a step logs is its request, answered. -/
theorem step_answered (h : b.Accounts log) {op : Op} {id : ℕ}
    (own : (b.step op).1.concerns id = true) : (b.step op).1 =
      (b.step op).1.request.answered (answer (log.any Served.isShutdown) (since id log)) := by
  cases op with
  | nextBatch i =>
    have hi : i = id := beq_iff_eq.mp own
    rw [← hi,← h.stopped,← nextBatch_answer h i]
    rfl
  | _ => rfl

/-- The requests that concern a subscriber decide everything it is answered. -/
theorem filter_run (ops : List Op) (id : ℕ) : (run ops).1.filter (Served.concerns id) =
    (requests id (run ops).1).foldl (fun log x =>
      log ++ [x.answered (answer (log.any Served.isShutdown) (since id log))]) [] := by
  induction ops using List.reverseRecOn with
  | nil => rfl
  | append_singleton ops op ih =>
    rw [run_concat,requests,List.filter_append]
    by_cases own : ((run ops).2.step op).1.concerns id = true
    · have stopped : ((run ops).1.filter (Served.concerns id)).any Served.isShutdown =
          (run ops).1.any Served.isShutdown := by
        rw [List.any_filter]
        refine congrArg (fun p => (run ops).1.any p) (funext fun x => ?_)
        cases x <;> first | rfl | exact Bool.and_false _
      rw [List.filter_singleton,own,cond_true,List.map_append,List.foldl_append,← requests,← ih,
        List.map_singleton,List.foldl_cons,List.foldl_nil,since_filter,stopped,
        ← step_answered (run_accounts ops) own]
    · rw [List.filter_singleton,eq_false_of_ne_true own,cond_false,List.append_nil]
      exact ih

/-- Each batch of frames is the newest of what was broadcast since the last one, and is flagged
exactly if that did not fit; what there is, is had at once; and what a subscriber is served follows
from what is broadcast and what it asks for itself. -/
theorem delivery_law (ops : List Op) :
    (∀ xs ys id frames lagged, (run ops).1 = xs ++ .batch id (.frames frames lagged) :: ys →
      ∃ sent, since id xs = some sent ∧ sent ≠ [] ∧ frames = newest queueCapacity sent ∧
        (lagged = true ↔ queueCapacity < sent.length)) ∧
    (∀ id sent, since id (run ops).1 = some sent → sent ≠ [] → Served.shutdown ∉ (run ops).1 →
      ∃ frames lagged, ((run ops).2.step (.nextBatch id)).1 = .batch id (.frames frames lagged)) ∧
    ∀ ops' id, requests id (run ops).1 = requests id (run ops').1 →
      (run ops).1.filter (Served.concerns id) = (run ops').1.filter (Served.concerns id) := by
  refine ⟨?_,?_,?_⟩
  · intro xs ys id frames lagged h
    obtain ⟨stopped,hb⟩ := run_answers ops h
    obtain ⟨sent,hs,hne,hf,hl⟩ := answer_frames hb.symm
    exact ⟨sent,hs,hne,hf,hl⟩
  · intro id sent hs hne running
    have stopped : (run ops).2.shutdown = false := by
      rw [(run_accounts ops).stopped,List.any_eq_false]
      intro x hx hs
      cases x with
      | shutdown => exact running hx
      | _ => cases hs
    refine ⟨newest queueCapacity sent,decide (queueCapacity < sent.length),?_⟩
    rw [step,nextBatch_answer (run_accounts ops),stopped,hs]
    cases sent with
    | nil => exact absurd rfl hne
    | cons frame sent => rfl
  · intro ops' id h
    rw [filter_run,h,← filter_run]

end Broadcaster
end Domiform.Stream
