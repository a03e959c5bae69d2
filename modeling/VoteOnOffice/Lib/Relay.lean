import Mathlib.Data.List.Basic

/-!
# Relays: a variable bound to a subject

A variable replays its value to every new subscriber and notifies all its subscribers each time it
is set.  A subject sets it once for every time that it has been bound to it.  Nothing is ever
unsubscribed or unbound.

* `Relay α`            the variable, with the numbers of its subscribers and of its bindings;
* `subscribe`, `bind`, `set`, `onNext`
                       each with what the subscribers are notified of, in that order;
* `onNext_notified`    an event of the subject notifies subscribers times bindings times;
* `Signal`, `step`      someone subscribes and binds (`attach`), or the subject emits (`emit`);
* `attachments`, `last`
                       how often the former has happened in a history, and what was emitted last;
* `after_attach`       **what a history that starts with an attachment leaves**.
-/

structure Relay (α : Type) where
  value : α
  subscribers : Nat := 0
  bindings : Nat := 0

namespace Relay

variable {α : Type}

/-- the value is replayed to the new subscriber -/
def subscribe (r : Relay α) : Relay α × List α :=
  ({ r with subscribers := r.subscribers + 1 }, [r.value])

def bind (r : Relay α) : Relay α := { r with bindings := r.bindings + 1 }

def set (r : Relay α) (a : α) : Relay α × List α :=
  ({ r with value := a }, List.replicate r.subscribers a)

def setTimes (a : α) : Nat → Relay α → Relay α × List α
  | 0, r => (r, [])
  | n+1, r => ((setTimes a n (r.set a).1).1, (r.set a).2 ++ (setTimes a n (r.set a).1).2)

/-- an event of the subject reaches the variable through every binding -/
def onNext (r : Relay α) (a : α) : Relay α × List α := setTimes a r.bindings r

inductive Signal (α : Type) where
  | attach
  | emit (a : α)

def step (r : Relay α) : Signal α → Relay α × List α
  | .attach => (r.subscribe.1.bind, r.subscribe.2)
  | .emit a => r.onNext a

/-! ## fan-out -/

theorem setTimes_notified (a : α) (n : Nat) (r : Relay α) :
    (setTimes a n r).2 = List.replicate (n * r.subscribers) a := by
  induction n generalizing r with
  | zero => simp [setTimes]
  | succ n ih =>
    show List.replicate r.subscribers a ++ (setTimes a n (r.set a).1).2 = _
    rw [ih, List.replicate_append_replicate]
    congr 1
    show r.subscribers + n * r.subscribers = _
    rw [Nat.add_mul, Nat.one_mul, Nat.add_comm]

theorem setTimes_succ_fst (a : α) (n : Nat) (r : Relay α) :
    (setTimes a (n+1) r).1 = { r with value := a } := by
  induction n generalizing r with
  | zero => rfl
  | succ n ih => exact ih (r.set a).1

/-- **Fan-out.** -/
theorem onNext_notified (r : Relay α) (a : α) :
    (r.onNext a).2 = List.replicate (r.bindings * r.subscribers) a :=
  setTimes_notified a r.bindings r

theorem onNext_fst {r : Relay α} (h : r.bindings ≠ 0) (a : α) :
    (r.onNext a).1 = { r with value := a } := by
  obtain ⟨n, hn⟩ := Nat.exists_eq_succ_of_ne_zero h
  have hset := setTimes_succ_fst a n r
  rwa [← Nat.succ_eq_add_one, ← hn] at hset

/-! ## histories -/

def attachments : List (Signal α) → Nat
  | [] => 0
  | .attach :: es => attachments es + 1
  | .emit _ :: es => attachments es

/-- the last value emitted, or `a` -/
def last : α → List (Signal α) → α
  | a, [] => a
  | a, .attach :: es => last a es
  | _, .emit b :: es => last b es

theorem attachments_append (es es' : List (Signal α)) :
    attachments (es ++ es') = attachments es + attachments es' := by
  induction es with
  | nil => exact (Nat.zero_add _).symm
  | cons e es ih =>
    cases e with
    | attach =>
      show attachments (es ++ es') + 1 = attachments es + 1 + attachments es'
      rw [ih, Nat.add_right_comm]
    | emit a => exact ih

def after (r : Relay α) (es : List (Signal α)) : Relay α := es.foldl (fun r e => (r.step e).1) r

theorem after_bound {r : Relay α} (h : r.bindings ≠ 0) (es : List (Signal α)) :
    r.after es = ⟨last r.value es, r.subscribers + attachments es, r.bindings + attachments es⟩ := by
  induction es generalizing r with
  | nil => rfl
  | cons e es ih =>
    cases e with
    | attach =>
      refine (ih (Nat.succ_ne_zero r.bindings)).trans ?_
      show Relay.mk (last r.value es) (r.subscribers + 1 + attachments es)
        (r.bindings + 1 + attachments es) = _
      simp only [attachments, last, Nat.add_assoc, Nat.add_comm 1]
    | emit b =>
      have hstep : (r.step (.emit b)).1 = { r with value := b } := onNext_fst h b
      show ((r.step (.emit b)).1).after es = _
      rw [hstep]
      exact @ih { r with value := b } h

/-- **After a history that starts with an attachment every attachment counts twice:** as a subscriber
and as a binding. -/
theorem after_attach (a : α) (es : List (Signal α)) :
    (Relay.mk a 0 0).after (.attach :: es)
      = ⟨last a (.attach :: es), attachments (.attach :: es), attachments (.attach :: es)⟩ := by
  refine (after_bound (Nat.succ_ne_zero 0) es).trans ?_
  show Relay.mk (last a es) (0 + 1 + attachments es) (0 + 1 + attachments es) = _
  simp only [attachments, last, Nat.zero_add, Nat.add_comm 1]

end Relay
