import VoteOnOffice.Records.Reachable
import VoteOnOffice.Rx.Subject
import VoteOnOffice.Screens.Navigation

/-!
# A `Variable` bound to a subject

A screen has a `Variable`, subscribes to it, and binds it to a `PublishSubject` of its view model, each
time that it appears; the view model emits on the subject.  What the subscribers read is the value
that the `Variable` has when their closure is called.

* `Wire`               the subject with its bindings, the `Variable` with its subscribers;
* `Variable.set`, `Wire.bound`
                       the setter, and the handler of `bind(to:)`;
* `Wire.step`, `run`   the signals of `Relay`, on a wire;
* `Wire.Refines`       the wire has the subscribers, the bindings and the value of a relay;
* `wire_notified`      **a wire notifies its subscribers just as the relay does.**
-/

namespace VoteOnOffice.Rx
open Relay

structure Variable (E : Type) where
  value : E
  subject : Hub (BehaviorSubject E)

/-- the subject of the view model, and the screen's `Variable` -/
structure Wire (E : Type) where
  source : Hub (PublishSubject E)
  target : Variable E

variable {E : Type}

def Variable.new (value : E) : Variable E := ⟨value, ⟨{ element := value }, []⟩⟩

def Wire.new (value : E) : Wire E := ⟨⟨{}, []⟩, .new value⟩

section
variable (order : Enumeration Nat)

/-- the setter of `value`, and what the subscribers read -/
def Variable.set (x : Variable E) (newValue : E) : Except Fatal (Variable E × List E) := do
  let (subject, calls) ← x.subject.step BehaviorSubject.type order (.on (.next newValue))
  return (⟨newValue, subject⟩, calls.map fun _ => newValue)

/-- the handler of `bind(to:)`; an error traps, as it does in a debug build -/
def Wire.bound (w : Wire E) : Event E → Except Fatal (Wire E × List E)
  | .next element => do
    let (target, notified) ← w.target.set order element
    return ({ w with target := target }, notified)
  | .error _ => .error (.fatalError "Binding error to variable")
  | .completed => .ok (w, [])

def Wire.bindings : Wire E → List (Nat × Event E) → Except Fatal (Wire E × List E)
  | w, [] => .ok (w, [])
  | w, call :: calls => do
    let (w, notified) ← w.bound order call.2
    let (w, rest) ← w.bindings calls
    return (w, notified ++ rest)

def Wire.step (w : Wire E) : Signal E → Except Fatal (Wire E × List E)
  | .attach => do
    let (subject, calls) ← w.target.subject.step BehaviorSubject.type order .subscribe
    let (source, late) ← w.source.step PublishSubject.type order .subscribe
    let (w', rest) ← Wire.bindings order ⟨source, { w.target with subject := subject }⟩ late
    return (w', (calls.map fun _ => w.target.value) ++ rest)
  | .emit a => do
    let (source, calls) ← w.source.step PublishSubject.type order (.on (.next a))
    Wire.bindings order { w with source := source } calls

def Wire.run : Wire E → List (Signal E) → Except Fatal (Wire E × List E)
  | w, [] => .ok (w, [])
  | w, e :: es => do
    let (w, notified) ← w.step order e
    let (w, rest) ← w.run es
    return (w, notified ++ rest)

end

/-- what the subscribers of a relay are notified of -/
def notifications (r : Relay E) : List (Signal E) → List E
  | [] => []
  | e :: es => (r.step e).2 ++ notifications (r.step e).1 es

/-! ## a subject that nobody stops or leaves -/

/-- nothing but subscriptions and elements -/
def Act.calm : Act E → Bool
  | .subscribe => true
  | .on (.next _) => true
  | _ => false

section
variable {past : List (Act E)}

theorem calm_concat {act : Act E} (h : past.all Act.calm = true) (ha : act.calm = true) :
    (past ++ [act]).all Act.calm = true := by
  rw [List.all_append, h, List.all_cons, ha]
  rfl

theorem opened_of_calm (h : past.all Act.calm = true) :
    opened past = true ∧ (audience past).live.length = subscribes past := by
  induction past using List.reverseRecOn with
  | nil => exact ⟨rfl, rfl⟩
  | append_singleton past act ih =>
    rw [List.all_append, Bool.and_eq_true] at h
    obtain ⟨hopened, hlength⟩ := ih h.1
    rw [opened_concat, audience_concat, subscribes_concat, hopened]
    have hact : act.calm = true := by simpa using h.2
    cases act with
    | subscribe => exact ⟨rfl, by rw [Registry.live_add, List.length_append, hlength]; rfl⟩
    | on event =>
      cases event with
      | next x => exact ⟨rfl, hlength⟩
      | _ => cases hact
    | _ => cases hact

end

/-- `n` observers have subscribed to a subject that nobody stops or leaves -/
structure Hub.Calm {S : Type} (Inv : List (Act E) → S → Prop) (past : List (Act E)) (n : Nat)
    (h : Hub S) : Prop where
  calm : past.all Act.calm = true
  count : subscribes past = n
  after : h.After Inv past

section
variable {S : Type} {K : SubjectType S E} {Inv : List (Act E) → S → Prop}
  {welcome : List (Act E) → Option E} {late : List (Act E) → Event E}
  (hK : K.Serves Inv welcome late) {past : List (Act E)} {n : Nat} {h : Hub S}
  (hcalm : h.Calm Inv past n)
include hK hcalm

theorem Hub.Calm.subscribe (order : Enumeration Nat) (hn : n < UInt64.size) :
    ∃ h' calls, h.step K order .subscribe = .ok (h', calls) ∧
      h'.Calm Inv (past ++ [.subscribe]) (n + 1) ∧
      calls.map Prod.snd = ((welcome past).map .next).toList := by
  obtain ⟨h', calls, hstep, hafter, _, hcalls⟩ :=
    hcalm.after.subscribe hK order (hcalm.count.symm ▸ hn)
  refine ⟨h', calls, hstep, ⟨calm_concat hcalm.calm rfl, ?_, hafter⟩, hcalls.trans ?_⟩
  · rw [subscribes_subscribe, hcalm.count]
  · exact if_pos (opened_of_calm hcalm.calm).1

theorem Hub.Calm.next (order : Enumeration Nat) (x : E) :
    ∃ h' calls, h.step K order (.on (.next x)) = .ok (h', calls) ∧
      h'.Calm Inv (past ++ [.on (.next x)]) n ∧
      calls.map Prod.snd = List.replicate n (.next x) := by
  obtain ⟨h', calls, hstep, hafter, _, hcalls⟩ := hcalm.after.on hK order (.next x)
  obtain ⟨hopened, hlength⟩ := opened_of_calm hcalm.calm
  refine ⟨h', calls, hstep, ⟨calm_concat hcalm.calm rfl, ?_, hafter⟩, hcalls.trans ?_⟩
  · exact (subscribes_concat past (.on (.next x))).trans hcalm.count
  · rw [if_pos hopened, hlength, hcalm.count]

end

/-! ## the wire and the relay -/

structure Wire.Refines (initial : E) (w : Wire E) (r : Relay E) : Prop where
  value : w.target.value = r.value
  source : ∃ past, w.source.Calm PublishSubject.Inv past r.bindings
  target : ∃ past, w.target.subject.Calm (BehaviorSubject.Inv initial) past r.subscribers

theorem Wire.refines_new (initial : E) : (Wire.new initial).Refines initial ⟨initial, 0, 0⟩ := by
  refine ⟨rfl, ⟨[], rfl, rfl, ?_, rfl, ?_, ?_⟩, ⟨[], rfl, rfl, ?_, rfl, ?_, ?_⟩⟩
  · exact ⟨rfl, rfl, fun h => (by cases h), fun _ => rfl, attended_nil⟩
  · exact fun _ i hi => absurd hi (Nat.not_lt_zero i)
  · exact fun i key hkey => (by cases hkey)
  · exact ⟨rfl, fun _ => rfl, fun _ => rfl, attended_nil⟩
  · exact fun _ i hi => absurd hi (Nat.not_lt_zero i)
  · exact fun i key hkey => (by cases hkey)

theorem map_const_of_events {x : E} {n : Nat} {event : Event E} {calls : List (Nat × Event E)}
    (h : calls.map Prod.snd = List.replicate n event) :
    (calls.map fun _ => x) = List.replicate n x := by
  have hlength := congrArg List.length h
  rw [List.length_map, List.length_replicate] at hlength
  rw [List.map_const', hlength]

section
variable {initial : E} {w : Wire E} {r : Relay E} (h : w.Refines initial r)
  (order : Enumeration Nat)
include h

theorem Wire.Refines.bound (a : E) :
    ∃ w', w.bound order (.next a) = .ok (w', (r.set a).2) ∧ w'.Refines initial (r.set a).1 := by
  obtain ⟨past, hcalm⟩ := h.target
  obtain ⟨subject, calls, hstep, hcalm', hcalls⟩ := hcalm.next (BehaviorSubject.serves initial) order a
  refine ⟨⟨w.source, ⟨a, subject⟩⟩, ?_, rfl, h.source, _, hcalm'⟩
  show w.target.set order a >>= _ = _
  unfold Variable.set
  rw [hstep]
  show Except.ok (_, calls.map fun _ => a) = _
  rw [map_const_of_events hcalls]
  rfl

theorem Wire.Refines.bindings {a : E} {n : Nat} {calls : List (Nat × Event E)}
    (hcalls : calls.map Prod.snd = List.replicate n (.next a)) :
    ∃ w', w.bindings order calls = .ok (w', (setTimes a n r).2) ∧
      w'.Refines initial (setTimes a n r).1 := by
  induction calls generalizing w r n with
  | nil =>
    cases n with
    | zero => exact ⟨w, rfl, h⟩
    | succ n => cases hcalls
  | cons call calls ih =>
    cases n with
    | zero => cases hcalls
    | succ n =>
      obtain ⟨hcall, hrest⟩ := List.cons_eq_cons.mp hcalls
      obtain ⟨t, ht, hrefines⟩ := h.bound order a
      obtain ⟨w', hw', hrefines'⟩ := ih hrefines hrest
      refine ⟨w', ?_, hrefines'⟩
      show (w.bound order call.2 >>= fun x => _) = _
      rw [hcall, ht]
      show (t.bindings order calls >>= fun x => _) = _
      rw [hw']
      rfl

theorem Wire.Refines.step {e : Signal E}
    (hn : r.subscribers + attachments [e] ≤ UInt64.size ∧ r.bindings + attachments [e] ≤ UInt64.size) :
    ∃ w', w.step order e = .ok (w', (r.step e).2) ∧ w'.Refines initial (r.step e).1 := by
  obtain ⟨past, htarget⟩ := h.target
  obtain ⟨past', hsource⟩ := h.source
  cases e with
  | attach =>
    obtain ⟨subject, calls, hsubscribe, htarget', hcalls⟩ :=
      htarget.subscribe (BehaviorSubject.serves initial) order hn.1
    obtain ⟨source, late, hbind, hsource', hlate⟩ :=
      hsource.subscribe PublishSubject.serves order hn.2
    -- the `Variable` calls its new subscriber, the subject nobody
    obtain rfl : late = [] := List.map_eq_nil_iff.mp hlate
    refine ⟨⟨source, ⟨w.target.value, subject⟩⟩, ?_, h.value, ⟨_, hsource'⟩, ⟨_, htarget'⟩⟩
    have hread : (calls.map fun _ => w.target.value) = [r.value] := by
      rw [h.value]
      exact map_const_of_events (n := 1) hcalls
    unfold Wire.step
    rw [hsubscribe, hbind]
    show Except.ok (_, (calls.map fun _ => w.target.value) ++ []) = _
    rw [hread]
    rfl
  | emit a =>
    obtain ⟨source, calls, hstep, hsource', hcalls⟩ := hsource.next PublishSubject.serves order a
    have hrefines : Wire.Refines initial { w with source := source } r :=
      ⟨h.value, ⟨_, hsource'⟩, h.target⟩
    obtain ⟨w', hw', hrefines'⟩ := hrefines.bindings order hcalls
    refine ⟨w', ?_, hrefines'⟩
    show (w.source.step PublishSubject.type order (.on (.next a)) >>= fun x => _) = _
    rw [hstep]
    exact hw'

end

theorem step_counts (r : Relay E) (e : Signal E) :
    (r.step e).1.subscribers = r.subscribers + attachments [e] ∧
      (r.step e).1.bindings = r.bindings + attachments [e] := by
  cases e with
  | attach => exact ⟨rfl, rfl⟩
  | emit a =>
    have hsame : ∀ n, (setTimes a n r).1.subscribers = r.subscribers ∧
        (setTimes a n r).1.bindings = r.bindings := by
      intro n
      cases n with
      | zero => exact ⟨rfl, rfl⟩
      | succ n =>
        rw [setTimes_succ_fst]
        exact ⟨rfl, rfl⟩
    exact hsame r.bindings

theorem after_counts (r : Relay E) (es : List (Signal E)) :
    (r.after es).subscribers = r.subscribers + attachments es ∧
      (r.after es).bindings = r.bindings + attachments es := by
  induction es generalizing r with
  | nil => exact ⟨rfl, rfl⟩
  | cons e es ih =>
    obtain ⟨hsubscribers, hbindings⟩ := step_counts r e
    obtain ⟨hsubscribers', hbindings'⟩ := ih (r.step e).1
    have hcons : attachments (e :: es) = attachments [e] + attachments es :=
      attachments_append [e] es
    rw [hsubscribers, Nat.add_assoc, ← hcons] at hsubscribers'
    rw [hbindings, Nat.add_assoc, ← hcons] at hbindings'
    exact ⟨hsubscribers', hbindings'⟩

theorem Wire.Refines.run {initial : E} {w : Wire E} {r : Relay E} (h : w.Refines initial r)
    (order : Enumeration Nat) {es : List (Signal E)}
    (hn : r.subscribers + attachments es ≤ UInt64.size ∧ r.bindings + attachments es ≤ UInt64.size) :
    ∃ w', w.run order es = .ok (w', notifications r es) ∧ w'.Refines initial (r.after es) := by
  induction es generalizing w r with
  | nil => exact ⟨w, rfl, h⟩
  | cons e es ih =>
    have hcons : attachments (e :: es) = attachments [e] + attachments es :=
      attachments_append [e] es
    rw [hcons] at hn
    obtain ⟨t, ht, hrefines⟩ := h.step order (e := e) (by omega)
    obtain ⟨hsubscribers, hbindings⟩ := step_counts r e
    obtain ⟨w', hw', hrefines'⟩ := ih hrefines (by omega)
    refine ⟨w', ?_, hrefines'⟩
    show (w.step order e >>= fun x => _) = _
    rw [ht]
    show (t.run order es >>= fun x => _) = _
    rw [hw']
    rfl

/-- **A wire notifies its subscribers just as the relay does**, in whatever order the dictionaries
enumerate the observers: it never traps, an emission is read as often as there are pairs of a
binding and a subscriber, and what is read last is the value of the relay. -/
theorem wire_notified (initial : E) (order : Enumeration Nat) {es : List (Signal E)}
    (hn : attachments es ≤ UInt64.size) :
    ∃ w, (Wire.new initial).run order es = .ok (w, notifications ⟨initial, 0, 0⟩ es) ∧
      w.target.value = ((Relay.mk initial 0 0).after es).value ∧
      ∀ a, ∃ w', w.step order (.emit a) =
        .ok (w', List.replicate (attachments es * attachments es) a) := by
  obtain ⟨w, hw, hrefines⟩ := (Wire.refines_new initial).run order
    (show 0 + attachments es ≤ UInt64.size ∧ 0 + attachments es ≤ UInt64.size by omega)
  refine ⟨w, hw, hrefines.value, fun a => ?_⟩
  obtain ⟨hsubscribers, hbindings⟩ := after_counts (Relay.mk initial 0 0) es
  rw [Nat.zero_add] at hsubscribers hbindings
  obtain ⟨w', hw', _⟩ := hrefines.step order (e := .emit a) (by
    rw [hsubscribers, hbindings]
    exact ⟨hn, hn⟩)
  refine ⟨w', hw'.trans ?_⟩
  show Except.ok (w', (((Relay.mk initial 0 0).after es).onNext a).2) = _
  rw [onNext_notified, hsubscribers, hbindings]

/-! ## the wires of the screens -/

/-- **The reloads of a vote screen are those of its wire**: `selectRow` of the view model, bound to the
screen's `selectRow`, whose subscribers reload. -/
theorem reloads_wired {s : System} {view : Nat} {v : VoteView} (hv : s.views[view]? = some v)
    (order : Enumeration Nat) {es : List (Signal Int)} (hes : attachments es = v.subscriptions)
    (hn : v.subscriptions ≤ UInt64.size) (row : Int) :
    ∃ w w' shown notified, (Wire.new (-1)).run order es = .ok (w, shown) ∧
      w.step order (.emit row) = .ok (w', notified) ∧
      s.reloads view = notified.map fun _ => v.reload view := by
  obtain ⟨w, hw, hrefines⟩ := (Wire.refines_new (-1)).run order
    (show 0 + attachments es ≤ UInt64.size ∧ 0 + attachments es ≤ UInt64.size by omega)
  obtain ⟨hsubscribers, hbindings⟩ := after_counts (Relay.mk (-1) 0 0) es
  rw [Nat.zero_add, hes] at hsubscribers hbindings
  obtain ⟨w', hw', _⟩ := hrefines.step order (e := .emit row) (by
    rw [hsubscribers, hbindings]
    exact ⟨hn, hn⟩)
  refine ⟨w, w', _, _, hw, hw', ?_⟩
  show s.reloads view = (((Relay.mk (-1) 0 0).after es).onNext row).2.map _
  unfold System.reloads
  rw [hv, onNext_notified, hsubscribers, hbindings, List.map_replicate]

theorem performed_eq (v : Screen) (es : List (Signal Bool)) :
    (v.after es).performed = ((notifications ⟨false, 0, 0⟩ es).filter id).map fun _ => v.segue := by
  suffices h : ∀ n : Navigation, (es.foldl v.step n).performed =
      n.performed ++ ((notifications n.login es).filter id).map fun _ => v.segue from
    (h {}).trans (List.nil_append _)
  induction es with
  | nil => exact fun n => (List.append_nil _).symm
  | cons e es ih =>
    intro n
    show (es.foldl v.step (v.step n e)).performed = _
    rw [ih, v.step_eq]
    show (n.performed ++ _) ++ _ = n.performed ++ (((n.login.step e).2 ++
      notifications (n.login.step e).1 es).filter id).map _
    rw [List.filter_append, List.map_append, List.append_assoc]
    rfl

/-- **The segues of a screen are those of its wire**: the subscribers perform one whenever they read
`true`. -/
theorem segues_wired (v : Screen) (order : Enumeration Nat) {es : List (Signal Bool)}
    (hn : attachments es ≤ UInt64.size) :
    ∃ w notified, (Wire.new false).run order es = .ok (w, notified) ∧
      (v.after es).performed = (notified.filter id).map (fun _ => v.segue) ∧
      (v.after es).login.value = w.target.value := by
  obtain ⟨w, hw, hrefines⟩ := (Wire.refines_new false).run order
    (show 0 + attachments es ≤ UInt64.size ∧ 0 + attachments es ≤ UInt64.size by omega)
  refine ⟨w, _, hw, performed_eq v es, ?_⟩
  rw [v.after_login, hrefines.value]

def twice : List (Signal Nat) := [.attach, .emit 3, .attach]

theorem wire_notified_twice : ∃ w w', (Wire.new 0).run .inserted twice = .ok (w, [0, 3, 3]) ∧
    w.target.value = 3 ∧ w.step .inserted (.emit 4) = .ok (w', [4, 4, 4, 4]) := by
  obtain ⟨w, hw, hvalue, hemit⟩ := @wire_notified Nat 0 .inserted twice (by decide)
  obtain ⟨w', hw'⟩ := hemit 4
  exact ⟨w, w', hw, hvalue, hw'⟩

theorem reloads_wired_tapped : ∃ v w w' shown notified,
    (System.after tapped).views[0]? = some v ∧
    (Wire.new (-1)).run .inserted [.attach] = .ok (w, shown) ∧
    w.step .inserted (.emit 1) = .ok (w', notified) ∧
    (System.after tapped).reloads 0 = notified.map fun _ => v.reload 0 := by
  obtain ⟨w, w', shown, notified, h⟩ := @reloads_wired (System.after tapped) 0 _ rfl .inserted
    [.attach] rfl (by decide) 1
  exact ⟨_, w, w', shown, notified, rfl, h⟩

theorem segues_wired_signOut : ∃ w notified,
    (Wire.new false).run .inserted [.attach, .emit true] = .ok (w, notified) ∧
    (Screen.mainView.after [.attach, .emit true]).performed
      = (notified.filter id).map (fun _ => Screen.mainView.segue) ∧
    w.target.value = true := by
  obtain ⟨w, notified, hw, hperformed, hvalue⟩ :=
    @segues_wired .mainView .inserted [.attach, .emit true] (by decide)
  exact ⟨w, notified, hw, hperformed, hvalue.symm⟩

end VoteOnOffice.Rx
