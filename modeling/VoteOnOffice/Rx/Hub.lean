import Mathlib.Data.List.Induction
import VoteOnOffice.Rx.Bag

/-!
# Subjects and their observers

A subject hands every event to a copy of its bag of observers.  The observers are numbered in the
order in which they subscribed; each has the flag of `ObserverBase`, and the key that its
`SubscriptionDisposable` removes it with.  No handler calls back into the subject.

* `Event`, `observerOn`
                       events, and what an `ObserverBase` does with one;
* `SubjectType`        the functions of a subject that its observers and its users call;
* `Act`, `Hub.step`, `Hub.run`
                       histories of a subject, and what its observers hear, in the order of the calls;
* `opened`, `follow`   whether the subject still goes on after a history, and what an observer that has
                       subscribed should hear of the rest;
* `SubjectType.Serves` what a subject has to do;
* `heard_run`          **an observer of such a subject hears what it should, whatever the others do.**
-/

namespace VoteOnOffice.Rx

/-- a `Swift.Error` -/
inductive RxError where
  | disposed
  | other (debugDescription : String)
  deriving DecidableEq, Repr

inductive Event (E : Type) where
  | next (element : E)
  | error (error : RxError)
  | completed
  deriving DecidableEq, Repr

variable {S E : Type}

def Event.isStopEvent : Event E → Bool
  | .next _ => false
  | .error _ => true
  | .completed => true

/-- `on` of an `ObserverBase`: the flag `isStopped`, and whether the handler is called -/
def observerOn (isStopped : Bool) : Event E → Bool × Bool
  | .next _ => (isStopped, !isStopped)
  | .error _ => (true, !isStopped)
  | .completed => (true, !isStopped)

/-- the parts of a subject that run under its lock; an observer is its number -/
structure SubjectType (S E : Type) where
  /-- the observers that the event goes to -/
  synchronizedOn : S → Event E → S × Bag Nat
  /-- what the observer is sent at once, and its key -/
  synchronizedSubscribe : S → Nat → S × Option (Event E) × Option BagKey
  synchronizedUnsubscribe : S → BagKey → Except Fatal S
  dispose : S → S

structure Subscriber where
  isStopped : Bool := false
  disposeKey : Option BagKey
  deriving DecidableEq

structure Hub (S : Type) where
  subject : S
  subscribers : List Subscriber := []

inductive Act (E : Type) where
  | subscribe
  /-- the disposable of the `i`-th observer is disposed -/
  | unsubscribe (i : Nat)
  | on (event : Event E)
  | dispose

def deliver (event : Event E) :
    List Nat → List Subscriber → List Subscriber × List (Nat × Event E)
  | [], subscribers => (subscribers, [])
  | i :: is, subscribers =>
    match subscribers[i]? with
    | none => deliver event is subscribers
    | some o =>
      let (isStopped, calls) := observerOn o.isStopped event
      let (subscribers, rest) :=
        deliver event is (subscribers.set i { o with isStopped := isStopped })
      (subscribers, if calls then (i, event) :: rest else rest)

def Hub.step (K : SubjectType S E) (order : Enumeration Nat) (h : Hub S) :
    Act E → Except Fatal (Hub S × List (Nat × Event E))
  | .subscribe =>
    let i := h.subscribers.length
    let (subject, event, disposeKey) := K.synchronizedSubscribe h.subject i
    let subscribers := h.subscribers ++ [{ disposeKey := disposeKey }]
    match event with
    | none => .ok (⟨subject, subscribers⟩, [])
    | some event =>
      let (subscribers, heard) := deliver event [i] subscribers
      .ok (⟨subject, subscribers⟩, heard)
  | .unsubscribe i =>
    match h.subscribers[i]?.bind Subscriber.disposeKey with
    | none => .ok (h, [])
    | some disposeKey => do
      let subject ← K.synchronizedUnsubscribe h.subject disposeKey
      return ({ h with subject := subject }, [])
  | .on event =>
    let (subject, observers) := K.synchronizedOn h.subject event
    let (subscribers, heard) := deliver event (observers.dispatch order) h.subscribers
    .ok (⟨subject, subscribers⟩, heard)
  | .dispose => .ok ({ h with subject := K.dispose h.subject }, [])

def Hub.run (K : SubjectType S E) (order : Enumeration Nat) :
    Hub S → List (Act E) → Except Fatal (Hub S × List (Nat × Event E))
  | h, [] => .ok (h, [])
  | h, act :: acts => do
    let (h, heard) ← h.step K order act
    let (h, rest) ← h.run K order acts
    return (h, heard ++ rest)

def heard (i : Nat) (calls : List (Nat × Event E)) : List (Event E) :=
  calls.filterMap fun call => if call.1 = i then some call.2 else none

/-! ## what should be heard -/

def subscribes : List (Act E) → Nat
  | [] => 0
  | .subscribe :: acts => subscribes acts + 1
  | _ :: acts => subscribes acts

def disposed (past : List (Act E)) : Bool := past.any fun
  | .dispose => true
  | _ => false

/-- the first stop event, since the subject was disposed -/
def firstStop (past : List (Act E)) : Option (Event E) := past.foldl (fun stop act =>
  match act with
  | .on event => if event.isStopEvent then stop.or (some event) else stop
  | .dispose => none
  | _ => stop) none

/-- the subject has neither stopped nor been disposed -/
def opened (past : List (Act E)) : Bool := !disposed past && (firstStop past).isNone

/-- the rest of the history, for the `i`-th observer: the elements up to its end, to the end of the
subject, or to the first stop event, which it hears too -/
def follow (i : Nat) : List (Act E) → List (Event E)
  | [] => []
  | .on event :: acts => event :: if event.isStopEvent then [] else follow i acts
  | .unsubscribe j :: acts => if i = j then [] else follow i acts
  | .dispose :: _ => []
  | .subscribe :: acts => follow i acts

/-- `next* (error | completed)` -/
def Grammatical (l : List (Event E)) : Prop := ∀ e ∈ l.dropLast, e.isStopEvent = false

def audience (past : List (Act E)) : Registry Nat := past.foldl (fun r act =>
  match act with
  | .subscribe => r.add r.next
  | .unsubscribe i => r.drop i
  | _ => r) .empty

/-- `Inv past s`: the subject after a history; `welcome past`: what a new observer of an open subject is
sent; `late past`: what it is sent by one that is not -/
structure SubjectType.Serves (K : SubjectType S E) (Inv : List (Act E) → S → Prop)
    (welcome : List (Act E) → Option E) (late : List (Act E) → Event E) : Prop where
  on {past : List (Act E)} {s : S} (h : Inv past s) (event : Event E) :
    Inv (past ++ [.on event]) (K.synchronizedOn s event).1 ∧
      (opened past = true → (K.synchronizedOn s event).2.Refines (audience past)) ∧
      (opened past = false → ∀ order, (K.synchronizedOn s event).2.dispatch order = [])
  subscribe {past : List (Act E)} {s : S} (h : Inv past s) (hn : subscribes past < UInt64.size) :
    ∃ s', Inv (past ++ [.subscribe]) s' ∧
      K.synchronizedSubscribe s (subscribes past) =
        if opened past then (s', (welcome past).map .next, some (.ofNat (subscribes past)))
        else (s', some (late past), none)
  unsubscribe {past : List (Act E)} {s : S} (h : Inv past s) {i : Nat} (hi : i < UInt64.size) :
    ∃ s', K.synchronizedUnsubscribe s (.ofNat i) = .ok s' ∧ Inv (past ++ [.unsubscribe i]) s'
  skip {past : List (Act E)} {s : S} (h : Inv past s) {i : Nat}
    (hi : opened past = true → subscribes past ≤ i) : Inv (past ++ [.unsubscribe i]) s
  dispose {past : List (Act E)} {s : S} (h : Inv past s) : Inv (past ++ [.dispose]) (K.dispose s)

/-! ## histories, extended -/

section
variable (past : List (Act E))

theorem subscribes_append (acts : List (Act E)) :
    subscribes (past ++ acts) = subscribes past + subscribes acts := by
  induction past with
  | nil => exact (Nat.zero_add _).symm
  | cons x past ih =>
    cases x with
    | subscribe =>
      show subscribes (past ++ acts) + 1 = subscribes past + 1 + _
      rw [ih, Nat.add_right_comm]
    | _ => exact ih

theorem subscribes_concat (act : Act E) : subscribes (past ++ [act]) =
    subscribes past + match act with | .subscribe => 1 | _ => 0 := by
  rw [subscribes_append]
  cases act <;> rfl

theorem subscribes_subscribe : subscribes (past ++ [.subscribe]) = subscribes past + 1 :=
  subscribes_concat past .subscribe

theorem disposed_concat (act : Act E) : disposed (past ++ [act]) =
    (disposed past || match act with | .dispose => true | _ => false) := by
  unfold disposed
  rw [List.any_append]
  cases act <;> simp

theorem firstStop_concat (act : Act E) : firstStop (past ++ [act]) =
    match act with
    | .on event => if event.isStopEvent then (firstStop past).or (some event) else firstStop past
    | .dispose => none
    | _ => firstStop past := List.foldl_concat ..

theorem audience_concat (act : Act E) : audience (past ++ [act]) =
    match act with
    | .subscribe => (audience past).add (audience past).next
    | .unsubscribe i => (audience past).drop i
    | _ => audience past := List.foldl_concat ..

theorem opened_concat (act : Act E) : opened (past ++ [act]) = (opened past && match act with
    | .on event => !event.isStopEvent
    | .dispose => false
    | _ => true) := by
  unfold opened
  rw [disposed_concat, firstStop_concat]
  cases act with
  | on event =>
    cases hstop : event.isStopEvent <;> cases disposed past <;> cases firstStop past <;> simp [hstop]
  | _ => cases disposed past <;> cases firstStop past <;> rfl

theorem opened_on (event : Event E) :
    opened (past ++ [.on event]) = (opened past && !event.isStopEvent) := opened_concat past (.on event)

theorem firstStop_on (event : Event E) : firstStop (past ++ [.on event]) =
    if event.isStopEvent then (firstStop past).or (some event) else firstStop past :=
  firstStop_concat past (.on event)

theorem disposed_on (event : Event E) : disposed (past ++ [.on event]) = disposed past :=
  (disposed_concat past (.on event)).trans (Bool.or_false _)

/-- observers come and go -/
theorem subject_quiet {act : Act E} (h : act = .subscribe ∨ ∃ i, act = .unsubscribe i) :
    disposed (past ++ [act]) = disposed past ∧ firstStop (past ++ [act]) = firstStop past ∧
      opened (past ++ [act]) = opened past := by
  rcases h with rfl | ⟨i, rfl⟩
  · exact ⟨(disposed_concat past .subscribe).trans (Bool.or_false _), firstStop_concat past .subscribe,
      (opened_concat past .subscribe).trans (Bool.and_true _)⟩
  · exact ⟨(disposed_concat past (.unsubscribe i)).trans (Bool.or_false _),
      firstStop_concat past (.unsubscribe i),
      (opened_concat past (.unsubscribe i)).trans (Bool.and_true _)⟩

theorem audience_next : (audience past).next = subscribes past := by
  induction past using List.reverseRecOn with
  | nil => rfl
  | append_singleton past act ih =>
    rw [audience_concat, subscribes_concat, ← ih]
    cases act <;> rfl

theorem audience_diag : ∀ e ∈ (audience past).live, e.2 = e.1 := by
  induction past using List.reverseRecOn with
  | nil => exact fun e he => absurd he List.not_mem_nil
  | append_singleton past act ih =>
    rw [audience_concat]
    cases act with
    | subscribe =>
      intro e he
      rcases List.mem_append.mp he with he | he
      · exact ih e he
      · rw [List.mem_singleton.mp he]
    | unsubscribe i => exact fun e he => ih e (List.mem_of_mem_filter he)
    | _ => exact ih

end

/-! ## one event -/

@[simp] theorem heard_append (i : Nat) (a b : List (Nat × Event E)) :
    heard i (a ++ b) = heard i a ++ heard i b := List.filterMap_append

theorem observerOn_false (event : Event E) : observerOn false event = (event.isStopEvent, true) := by
  cases event <;> rfl

theorem deliver_eq (event : Event E) {is : List Nat} (hnodup : is.Nodup) {l : List Subscriber}
    (h : ∀ i ∈ is, ∃ key, l[i]? = some ⟨false, key⟩) :
    (deliver event is l).2 = is.map (·, event) ∧
      ((deliver event is l).1.length = l.length) ∧
      ∀ i, (deliver event is l).1[i]? = if i ∈ is
        then l[i]?.map fun o => { o with isStopped := event.isStopEvent } else l[i]? := by
  induction is generalizing l with
  | nil => exact ⟨rfl, rfl, fun _ => rfl⟩
  | cons i is ih =>
    obtain ⟨hi, hnodup⟩ := List.nodup_cons.mp hnodup
    obtain ⟨key, hkey⟩ := h i List.mem_cons_self
    have hlt : i < l.length := (List.getElem?_eq_some_iff.mp hkey).1
    have hset : ∀ j, j ≠ i → (l.set i ⟨event.isStopEvent, key⟩)[j]? = l[j]? := fun j hj =>
      List.getElem?_set_ne (Ne.symm hj)
    obtain ⟨hcalls, hlength, hget⟩ := ih hnodup (l := l.set i ⟨event.isStopEvent, key⟩)
      fun j hj => by
        rw [hset j fun hji => hi (hji ▸ hj)]
        exact h j (List.mem_cons_of_mem _ hj)
    unfold deliver
    simp only [hkey, observerOn_false, if_true]
    refine ⟨by rw [hcalls]; rfl, by rw [hlength, List.length_set], fun j => ?_⟩
    rw [hget]
    by_cases hji : j = i
    · subst hji
      rw [if_neg hi, if_pos List.mem_cons_self, List.getElem?_set_self hlt, hkey]
      rfl
    · rw [hset j hji]
      by_cases hj : j ∈ is
      · rw [if_pos hj, if_pos (List.mem_cons_of_mem _ hj)]
      · rw [if_neg hj, if_neg fun hmem => hj ((List.mem_cons.mp hmem).resolve_left hji)]

theorem heard_map (event : Event E) {is : List Nat} (hnodup : is.Nodup) (j : Nat) :
    heard j (is.map (·, event)) = if j ∈ is then [event] else [] := by
  induction is with
  | nil => rfl
  | cons i is ih =>
    obtain ⟨hi, hnodup⟩ := List.nodup_cons.mp hnodup
    have hcons : heard j ((i :: is).map (·, event)) =
        (if i = j then [event] else []) ++ heard j (is.map (·, event)) := by
      unfold heard
      by_cases hij : i = j <;> simp [hij]
    rw [hcons, ih hnodup]
    by_cases hij : i = j
    · subst hij
      rw [if_pos rfl, if_neg hi, if_pos List.mem_cons_self]
      rfl
    · rw [if_neg hij, List.nil_append]
      by_cases hj : j ∈ is
      · rw [if_pos hj, if_pos (List.mem_cons_of_mem _ hj)]
      · rw [if_neg hj, if_neg fun hmem => hj ((List.mem_cons.mp hmem).resolve_left (Ne.symm hij))]

theorem grammatical_singleton (event : Event E) : Grammatical [event] :=
  fun _ he => absurd he List.not_mem_nil

theorem Grammatical.next {l : List (Event E)} (h : Grammatical l) (x : E) :
    Grammatical (.next x :: l) := by
  cases l with
  | nil => exact grammatical_singleton _
  | cons y l =>
    intro e he
    rcases List.mem_cons.mp he with rfl | he
    · rfl
    · exact h e he

theorem follow_grammatical (i : Nat) (acts : List (Act E)) : Grammatical (follow i acts) := by
  induction acts with
  | nil => exact fun _ he => absurd he List.not_mem_nil
  | cons act acts ih =>
    cases act with
    | subscribe => exact ih
    | unsubscribe j =>
      unfold follow
      by_cases hij : i = j
      · rw [if_pos hij]
        exact fun _ he => absurd he List.not_mem_nil
      · rw [if_neg hij]
        exact ih
    | on event =>
      cases event with
      | next x => exact ih.next x
      | _ => exact grammatical_singleton _
    | dispose => exact fun _ he => absurd he List.not_mem_nil

/-! ## histories of observers -/

def attends (past : List (Act E)) (i : Nat) : Prop :=
  opened past = true ∧ (i, i) ∈ (audience past).live

instance (past : List (Act E)) (i : Nat) : Decidable (attends past i) :=
  inferInstanceAs (Decidable (_ ∧ _))

/-- what a new observer hears at once -/
def greeting (welcome : List (Act E) → Option E) (late : List (Act E) → Event E)
    (past : List (Act E)) : List (Event E) :=
  if opened past then ((welcome past).map .next).toList else [late past]

/-- what a label lets the observer hear that has subscribed before -/
def hears (past : List (Act E)) (i : Nat) : Act E → List (Event E)
  | .on event => if attends past i then [event] else []
  | _ => []

section
variable {past : List (Act E)} {i : Nat}

theorem mem_audience : i ∈ (audience past).live.map Prod.snd ↔ (i, i) ∈ (audience past).live := by
  rw [List.mem_map]
  constructor
  · rintro ⟨⟨j, k⟩, he, rfl⟩
    obtain rfl : k = j := audience_diag past _ he
    exact he
  · exact fun he => ⟨_, he, rfl⟩

theorem audience_nodup : ((audience past).live.map Prod.snd).Nodup := by
  rw [List.map_congr_left (audience_diag past)]
  exact (audience past).nodup

theorem lt_of_attends (h : attends past i) : i < subscribes past := by
  rw [← audience_next]
  exact (audience past).below _ h.2

theorem follow_cons (hi : i < subscribes past) (act : Act E) (acts : List (Act E)) :
    (if attends past i then follow i (act :: acts) else []) =
      hears past i act ++ if attends (past ++ [act]) i then follow i acts else [] := by
  have hiff : attends (past ++ [act]) i ↔ attends past i ∧ match act with
      | .on event => event.isStopEvent = false
      | .unsubscribe j => i ≠ j
      | .dispose => False
      | .subscribe => True := by
    unfold attends
    rw [opened_concat, audience_concat]
    cases act with
    | subscribe =>
      have hne : ((i, i) : Nat × Nat) ≠ ((audience past).next, (audience past).next) := fun he => by
        have heq := (Prod.mk.inj he).1
        rw [audience_next] at heq
        omega
      simp [hne]
    | unsubscribe j => simp [and_assoc]
    | on event => simp [and_right_comm]
    | dispose => simp
  by_cases hat : attends past i
  · cases act with
    | subscribe =>
      rw [if_pos hat, if_pos (hiff.mpr ⟨hat, trivial⟩)]
      rfl
    | unsubscribe j =>
      rw [if_pos hat]
      by_cases hij : i = j
      · rw [if_neg fun h => (hiff.mp h).2 hij]
        exact if_pos hij
      · rw [if_pos (hiff.mpr ⟨hat, hij⟩)]
        exact if_neg hij
    | on event =>
      have hears_now : hears past i (.on event) = [event] := if_pos hat
      rw [if_pos hat, hears_now]
      show event :: (if event.isStopEvent = true then [] else follow i acts) = event :: _
      by_cases hstop : event.isStopEvent = true
      · rw [if_pos hstop, if_neg fun h => Bool.false_ne_true ((hiff.mp h).2.symm.trans hstop)]
        rfl
      · rw [if_neg hstop, if_pos (hiff.mpr ⟨hat, Bool.eq_false_iff.mpr hstop⟩)]
        rfl
    | dispose =>
      rw [if_pos hat, if_neg fun h => (hiff.mp h).2]
      rfl
  · have hears_none : hears past i act = [] := by
      cases act with
      | on event => exact if_neg hat
      | _ => rfl
    rw [if_neg hat, hears_none, if_neg fun h => hat (hiff.mp h).1]
    rfl

end

/-- the hub after a history -/
structure Hub.After (Inv : List (Act E) → S → Prop) (past : List (Act E)) (h : Hub S) : Prop where
  subject : Inv past h.subject
  length : h.subscribers.length = subscribes past
  running : opened past = true → ∀ i < subscribes past,
    h.subscribers[i]? = some ⟨false, some (.ofNat i)⟩
  keys : ∀ i key, h.subscribers[i]?.bind Subscriber.disposeKey = some key → key = .ofNat i

section
variable {K : SubjectType S E} {Inv : List (Act E) → S → Prop} {welcome : List (Act E) → Option E}
  {late : List (Act E) → Event E} (hK : K.Serves Inv welcome late) {past : List (Act E)} {h : Hub S}
  (hafter : h.After Inv past)
include hK hafter

theorem Hub.After.on (order : Enumeration Nat) (event : Event E) :
    ∃ h' calls, h.step K order (.on event) = .ok (h', calls) ∧ h'.After Inv (past ++ [.on event]) ∧
      (∀ j, heard j calls = if attends past j then [event] else []) ∧
      calls.map Prod.snd =
        List.replicate (if opened past then (audience past).live.length else 0) event := by
  obtain ⟨hsubject, hopen, hclosed⟩ := hK.on hafter.subject event
  refine ⟨_, _, rfl, ?_⟩
  have hsubscribes : subscribes (past ++ [.on event]) = subscribes past := subscribes_concat past _
  cases ho : opened past with
  | false =>
    have hnobody := hclosed ho order
    refine ⟨⟨hsubject, ?_, fun hopened => ?_, fun i key => ?_⟩, fun j => ?_, by rw [hnobody]; rfl⟩
    · show (deliver event ((K.synchronizedOn h.subject event).2.dispatch order) _).1.length = _
      rw [hnobody, hsubscribes]
      exact hafter.length
    · rw [opened_concat, ho] at hopened
      cases hopened
    · show (deliver event ((K.synchronizedOn h.subject event).2.dispatch order) _).1[i]?.bind _ = _ → _
      rw [hnobody]
      exact hafter.keys i key
    · rw [hnobody, if_neg fun hat => Bool.false_ne_true (ho.symm.trans hat.1)]
      rfl
  | true =>
    have hperm := (hopen ho).dispatch order
    have hnodup := hperm.nodup_iff.mpr audience_nodup
    have hmem : ∀ j, j ∈ (K.synchronizedOn h.subject event).2.dispatch order ↔ attends past j :=
      fun j => by
        rw [hperm.mem_iff, mem_audience]
        exact ⟨fun hj => ⟨ho, hj⟩, fun hj => hj.2⟩
    obtain ⟨hcalls, hlength, hget⟩ := deliver_eq event hnodup (l := h.subscribers) fun j hj =>
      ⟨_, hafter.running ho j (lt_of_attends ((hmem j).mp hj))⟩
    refine ⟨⟨hsubject, ?_, fun hopened i hi => ?_, fun i key hkey => ?_⟩, fun j => ?_, ?_⟩
    · rw [hsubscribes]
      exact hlength.trans hafter.length
    · rw [opened_concat, ho] at hopened
      have hstop : event.isStopEvent = false := by simpa using hopened
      rw [hsubscribes] at hi
      have hrunning := hafter.running ho i hi
      show (deliver event _ h.subscribers).1[i]? = _
      rw [hget, hrunning, hstop]
      exact ite_self _
    · have hget := hget i
      have hkey : (deliver event _ h.subscribers).1[i]?.bind Subscriber.disposeKey = some key := hkey
      rw [hget] at hkey
      refine hafter.keys i key ?_
      rw [← hkey]
      by_cases hi : i ∈ (K.synchronizedOn h.subject event).2.dispatch order
      · rw [if_pos hi]
        cases h.subscribers[i]? <;> rfl
      · rw [if_neg hi]
    · rw [hcalls, heard_map event hnodup j]
      by_cases hj : attends past j
      · rw [if_pos hj, if_pos ((hmem j).mpr hj)]
      · rw [if_neg hj, if_neg fun h => hj ((hmem j).mp h)]
    · have hlen := hperm.length_eq
      rw [List.length_map] at hlen
      rw [hcalls, List.map_map, if_pos rfl, ← hlen]
      exact List.map_const' ..

omit hK in
theorem Hub.After.enrol {s' : S} (hs' : Inv (past ++ [.subscribe]) s') {l : List Subscriber}
    {o : Subscriber} (hlength : l.length = subscribes past + 1)
    (hget : ∀ i, l[i]? = if i = subscribes past then some o else h.subscribers[i]?)
    (ho : opened past = true → o = ⟨false, some (.ofNat (subscribes past))⟩)
    (hkey : ∀ key, o.disposeKey = some key → key = .ofNat (subscribes past)) :
    Hub.After Inv (past ++ [.subscribe]) ⟨s', l⟩ where
  subject := hs'
  length := hlength.trans (subscribes_subscribe past).symm
  running := by
    intro hopened i hi
    rw [opened_concat, Bool.and_true] at hopened
    rw [subscribes_subscribe] at hi
    show l[i]? = _
    rw [hget]
    by_cases hin : i = subscribes past
    · rw [if_pos hin, ho hopened, hin]
    · rw [if_neg hin]
      exact hafter.running hopened i (by omega)
  keys := by
    intro i key hik
    have hik : l[i]?.bind Subscriber.disposeKey = some key := hik
    rw [hget] at hik
    by_cases hin : i = subscribes past
    · rw [if_pos hin] at hik
      rw [hin]
      exact hkey key hik
    · rw [if_neg hin] at hik
      exact hafter.keys i key hik

theorem Hub.After.subscribe (order : Enumeration Nat) (hn : subscribes past < UInt64.size) :
    ∃ h' calls, h.step K order .subscribe = .ok (h', calls) ∧ h'.After Inv (past ++ [.subscribe]) ∧
      (∀ j, heard j calls = if j = subscribes past then greeting welcome late past else []) ∧
      calls.map Prod.snd = greeting welcome late past := by
  obtain ⟨s', hs', heq⟩ := hK.subscribe hafter.subject hn
  have hget : ∀ (o : Subscriber) i, (h.subscribers ++ [o])[i]? =
      if i = subscribes past then some o else h.subscribers[i]? := fun o i => by
    rw [← hafter.length, List.getElem?_append]
    rcases Nat.lt_trichotomy i h.subscribers.length with hlt | rfl | hgt
    · rw [if_pos hlt, if_neg (Nat.ne_of_lt hlt)]
    · rw [if_neg (Nat.lt_irrefl _), if_pos rfl, Nat.sub_self]
      rfl
    · rw [if_neg (by omega), if_neg (by omega), List.getElem?_eq_none (by simp; omega),
        List.getElem?_eq_none (by omega)]
  have hlength : ∀ o : Subscriber, (h.subscribers ++ [o]).length = subscribes past + 1 := fun o => by
    rw [List.length_append, hafter.length]
    rfl
  -- the new observer is greeted, and nobody else hears anything
  have hgreet : ∀ (key : Option BagKey) (event : Event E),
      (deliver event [subscribes past] (h.subscribers ++ [⟨false, key⟩])).1.length
        = subscribes past + 1 ∧
      (∀ i, (deliver event [subscribes past] (h.subscribers ++ [⟨false, key⟩])).1[i]? =
        if i = subscribes past then some ⟨event.isStopEvent, key⟩ else h.subscribers[i]?) ∧
      (∀ j, heard j (deliver event [subscribes past] (h.subscribers ++ [⟨false, key⟩])).2 =
        if j = subscribes past then [event] else []) ∧
      (deliver event [subscribes past] (h.subscribers ++ [⟨false, key⟩])).2.map Prod.snd
        = [event] := fun key event => by
    obtain ⟨hcalls, hlen, hdelivered⟩ := deliver_eq event (List.nodup_singleton (subscribes past))
      (l := h.subscribers ++ [⟨false, key⟩]) fun i hi => ⟨key, by
        rw [hget, if_pos (List.mem_singleton.mp hi)]⟩
    refine ⟨hlen.trans (hlength _), fun i => ?_, fun j => ?_, by rw [hcalls]; rfl⟩
    · rw [hdelivered, hget]
      by_cases hi : i = subscribes past
      · rw [if_pos (List.mem_singleton.mpr hi), if_pos hi, if_pos hi]
        rfl
      · rw [if_neg fun h => hi (List.mem_singleton.mp h), if_neg hi, if_neg hi]
    · rw [hcalls, heard_map event (List.nodup_singleton _)]
      simp only [List.mem_singleton]
  cases ho : opened past with
  | false =>
    simp only [Hub.step, greeting, hafter.length, heq, ho, Bool.false_eq_true, if_false]
    obtain ⟨hlen, hdelivered, hheard⟩ := hgreet none (late past)
    refine ⟨_, _, rfl, hafter.enrol hs' hlen hdelivered (fun h => ?_) (fun _ h => (by cases h)),
      hheard⟩
    rw [ho] at h
    cases h
  | true =>
    have hkey : ∀ key, some (UInt64.ofNat (subscribes past)) = some key →
        key = .ofNat (subscribes past) := fun _ h => (Option.some.inj h).symm
    simp only [Hub.step, greeting, hafter.length, heq, ho, if_true]
    cases welcome past with
    | none =>
      exact ⟨_, _, rfl, hafter.enrol hs' (hlength _) (hget _) (fun _ => rfl) hkey,
        fun j => (ite_self _).symm, rfl⟩
    | some x =>
      obtain ⟨hlen, hdelivered, hheard⟩ := hgreet (some (.ofNat (subscribes past))) (.next x)
      exact ⟨_, _, rfl, hafter.enrol hs' hlen hdelivered (fun _ => rfl) hkey, hheard⟩

theorem Hub.After.unsubscribe (order : Enumeration Nat) (hn : subscribes past ≤ UInt64.size) (i : Nat) :
    ∃ h', h.step K order (.unsubscribe i) = .ok (h', []) ∧ h'.After Inv (past ++ [.unsubscribe i]) := by
  have hsubscribes : subscribes (past ++ [.unsubscribe i]) = subscribes past := subscribes_concat past _
  have hopened : opened (past ++ [.unsubscribe i]) = opened past := by
    rw [opened_concat, Bool.and_true]
  have hkeep : ∀ {s'}, Inv (past ++ [.unsubscribe i]) s' →
      Hub.After Inv (past ++ [.unsubscribe i]) { h with subject := s' } := fun hs' =>
    ⟨hs', by rw [hsubscribes]; exact hafter.length,
      by rw [hopened, hsubscribes]; exact hafter.running, hafter.keys⟩
  cases hkey : h.subscribers[i]?.bind Subscriber.disposeKey with
  | none =>
    simp only [Hub.step, hkey]
    refine ⟨h, rfl, hkeep (hK.skip hafter.subject fun ho => ?_)⟩
    -- in an open subject every observer has its key
    rcases Nat.lt_or_ge i (subscribes past) with hi | hi
    · rw [hafter.running ho i hi] at hkey
      cases hkey
    · exact hi
  | some key =>
    obtain ⟨o, ho, _⟩ := Option.bind_eq_some_iff.mp hkey
    have hi : i < subscribes past := by
      rw [← hafter.length]
      exact (List.getElem?_eq_some_iff.mp ho).1
    obtain ⟨s', heq, hs'⟩ := hK.unsubscribe hafter.subject (Nat.lt_of_lt_of_le hi hn)
    obtain rfl := hafter.keys i key hkey
    simp only [Hub.step, hkey, heq]
    exact ⟨_, rfl, hkeep hs'⟩

theorem Hub.After.dispose :
    Hub.After Inv (past ++ [.dispose]) { h with subject := K.dispose h.subject } where
  subject := hK.dispose hafter.subject
  length := hafter.length.trans (subscribes_concat past .dispose).symm
  running := by
    rw [opened_concat, Bool.and_false]
    exact fun h => absurd h Bool.false_ne_true
  keys := hafter.keys

theorem Hub.After.step (order : Enumeration Nat) (act : Act E)
    (hn : subscribes (past ++ [act]) ≤ UInt64.size) :
    ∃ h' calls, h.step K order act = .ok (h', calls) ∧ h'.After Inv (past ++ [act]) ∧
      (∀ j < subscribes past, heard j calls = hears past j act) ∧
      (act = .subscribe → heard (subscribes past) calls = greeting welcome late past) ∧
      ∀ j, subscribes (past ++ [act]) ≤ j → heard j calls = [] := by
  rw [subscribes_concat] at hn ⊢
  cases act with
  | subscribe =>
    obtain ⟨h', calls, hstep, hafter', hheard, _⟩ := hafter.subscribe hK order hn
    refine ⟨h', calls, hstep, hafter', fun j hj => ?_, fun _ => ?_, fun j hj => ?_⟩
    · rw [hheard, if_neg (Nat.ne_of_lt hj)]
      rfl
    · rw [hheard, if_pos rfl]
    · rw [hheard, if_neg (Nat.ne_of_gt hj)]
  | unsubscribe i =>
    obtain ⟨h', hstep, hafter'⟩ := hafter.unsubscribe hK order hn i
    exact ⟨h', [], hstep, hafter', fun _ _ => rfl, fun h => (by cases h), fun _ _ => rfl⟩
  | on event =>
    obtain ⟨h', calls, hstep, hafter', hheard, _⟩ := hafter.on hK order event
    refine ⟨h', calls, hstep, hafter', fun j _ => hheard j, fun h => (by cases h), fun j hj => ?_⟩
    rw [hheard, if_neg fun hat => Nat.not_lt.mpr hj (lt_of_attends hat)]
  | dispose =>
    exact ⟨_, [], rfl, hafter.dispose hK, fun _ _ => rfl, fun h => (by cases h), fun _ _ => rfl⟩

theorem Hub.After.run (order : Enumeration Nat) {acts : List (Act E)}
    (hn : subscribes past + subscribes acts ≤ UInt64.size) :
    ∃ h' calls, h.run K order acts = .ok (h', calls) ∧
      (∀ j < subscribes past, heard j calls = if attends past j then follow j acts else []) ∧
      ∀ a b, acts = a ++ .subscribe :: b →
        heard (subscribes (past ++ a)) calls = greeting welcome late (past ++ a) ++
          if opened (past ++ a) then follow (subscribes (past ++ a)) b else [] := by
  induction acts generalizing past h with
  | nil =>
    refine ⟨h, [], rfl, fun j _ => (ite_self _).symm, fun a b hacts => ?_⟩
    cases a <;> cases hacts
  | cons act acts ih =>
    have hcons : subscribes (past ++ [act]) + subscribes acts
        = subscribes past + subscribes (act :: acts) := by
      rw [← subscribes_append, ← subscribes_append, List.append_assoc, List.singleton_append]
    obtain ⟨t, now, hstep, hafter', hold, hnew, hnone⟩ := hafter.step hK order act (by omega)
    obtain ⟨h', later, hrun, hrest, hsubscribed⟩ := ih hafter' (by omega)
    refine ⟨h', now ++ later, ?_, fun j hj => ?_, fun a b hacts => ?_⟩
    · show (h.step K order act >>= fun x => _) = _
      rw [hstep]
      show (t.run K order acts >>= fun x => _) = _
      rw [hrun]
      rfl
    · have hlt : j < subscribes (past ++ [act]) := by
        rw [subscribes_concat]
        omega
      rw [heard_append, hold j hj, hrest j hlt, follow_cons hj]
    · cases a with
      | nil =>
        obtain ⟨rfl, rfl⟩ := List.cons_eq_cons.mp hacts
        have hlt : subscribes past < subscribes (past ++ [.subscribe]) := by
          rw [subscribes_subscribe]
          omega
        rw [List.append_nil, heard_append, hnew rfl, hrest _ hlt]
        congr 1
        -- the new observer attends if the subject is open
        have hiff : attends (past ++ [.subscribe]) (subscribes past) ↔ opened past = true := by
          unfold attends
          rw [opened_concat, audience_concat, Bool.and_true, ← audience_next]
          exact and_iff_left (List.mem_append_right _ (List.mem_singleton_self _))
        simp only [hiff]
      | cons x a =>
        obtain ⟨rfl, htail⟩ := List.cons_eq_cons.mp hacts
        have hassoc : past ++ act :: a = past ++ [act] ++ a := by simp
        rw [hassoc, heard_append, hnone _ (by rw [subscribes_append _ a]; omega),
          hsubscribed a b htail]
        rfl

end

/-- **What an observer hears.**  As long as there are keys, no history makes the subject trap; an observer
that subscribes after the history `a` is greeted, and follows the rest `b` if the subject was
open. -/
theorem heard_run {K : SubjectType S E} {Inv : List (Act E) → S → Prop}
    {welcome : List (Act E) → Option E} {late : List (Act E) → Event E}
    (hK : K.Serves Inv welcome late) {s : S} (hs : Inv [] s) (order : Enumeration Nat)
    {acts : List (Act E)} (hn : subscribes acts ≤ UInt64.size) :
    ∃ h calls, Hub.run K order ⟨s, []⟩ acts = .ok (h, calls) ∧
      ∀ a b, acts = a ++ .subscribe :: b → heard (subscribes a) calls =
        greeting welcome late a ++ if opened a then follow (subscribes a) b else [] := by
  have hafter : Hub.After Inv [] ⟨s, []⟩ :=
    ⟨hs, rfl, fun _ i hi => absurd hi (Nat.not_lt_zero i), fun i key hkey => (by cases hkey)⟩
  obtain ⟨h, calls, hrun, _, hheard⟩ := @Hub.After.run S E K Inv welcome late hK [] _ hafter order acts
    (by
      show 0 + _ ≤ _
      omega)
  exact ⟨h, calls, hrun, hheard⟩

end VoteOnOffice.Rx
