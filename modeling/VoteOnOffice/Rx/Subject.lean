import VoteOnOffice.Rx.Hub

/-!
# `PublishSubject` and `BehaviorSubject`

The two differ in what they do when they stop: the one empties its bag, the other keeps it and looks
at its `stoppedEvent` first.  They differ in what a late observer is sent after `dispose`, too: the
one still takes a stop event then, the other does not.

* `PublishSubject`, `BehaviorSubject`
                       the code;
* `latest`             the last element emitted;
* `publish_heard`, `behavior_heard`
                       **every observer hears the elements that are emitted from its subscription to its
                       end, and at most one stop event, which is the last it hears.**
-/

namespace VoteOnOffice.Rx

variable {E : Type}

/-! ## `PublishSubject` -/

structure PublishSubject (E : Type) where
  isDisposed : Bool := false
  observers : Bag Nat := {}
  stopped : Bool := false
  stoppedEvent : Option (Event E) := none

def PublishSubject.synchronizedOn (s : PublishSubject E) (event : Event E) :
    PublishSubject E × Bag Nat :=
  match event with
  | .next _ => if s.isDisposed || s.stopped then (s, {}) else (s, s.observers)
  | _ =>
    match s.stoppedEvent with
    | none =>
      ({ s with stoppedEvent := some event, stopped := true, observers := s.observers.removeAll },
        s.observers)
    | some _ => (s, {})

def PublishSubject.synchronizedSubscribe (s : PublishSubject E) (observer : Nat) :
    PublishSubject E × Option (Event E) × Option BagKey :=
  match s.stoppedEvent with
  | some stoppedEvent => (s, some stoppedEvent, none)
  | none =>
    if s.isDisposed then (s, some (.error .disposed), none)
    else
      let (observers, key) := s.observers.insert observer
      ({ s with observers := observers }, none, some key)

def PublishSubject.synchronizedUnsubscribe (s : PublishSubject E) (disposeKey : BagKey) :
    Except Fatal (PublishSubject E) := do
  let (observers, _) ← s.observers.removeKey disposeKey
  return { s with observers := observers }

def PublishSubject.dispose (s : PublishSubject E) : PublishSubject E :=
  { s with isDisposed := true, observers := s.observers.removeAll, stoppedEvent := none }

def PublishSubject.type : SubjectType (PublishSubject E) E :=
  ⟨synchronizedOn, synchronizedSubscribe, synchronizedUnsubscribe, dispose⟩

/-! ## `BehaviorSubject` -/

structure BehaviorSubject (E : Type) where
  isDisposed : Bool := false
  element : E
  observers : Bag Nat := {}
  stoppedEvent : Option (Event E) := none

def BehaviorSubject.synchronizedOn (s : BehaviorSubject E) (event : Event E) :
    BehaviorSubject E × Bag Nat :=
  if s.stoppedEvent.isSome || s.isDisposed then (s, {})
  else
    match event with
    | .next element => ({ s with element := element }, s.observers)
    | _ => ({ s with stoppedEvent := some event }, s.observers)

def BehaviorSubject.synchronizedSubscribe (s : BehaviorSubject E) (observer : Nat) :
    BehaviorSubject E × Option (Event E) × Option BagKey :=
  if s.isDisposed then (s, some (.error .disposed), none)
  else
    match s.stoppedEvent with
    | some stoppedEvent => (s, some stoppedEvent, none)
    | none =>
      let (observers, key) := s.observers.insert observer
      ({ s with observers := observers }, some (.next s.element), some key)

def BehaviorSubject.synchronizedUnsubscribe (s : BehaviorSubject E) (disposeKey : BagKey) :
    Except Fatal (BehaviorSubject E) :=
  if s.isDisposed then .ok s
  else do
    let (observers, _) ← s.observers.removeKey disposeKey
    return { s with observers := observers }

def BehaviorSubject.dispose (s : BehaviorSubject E) : BehaviorSubject E :=
  { s with isDisposed := true, observers := s.observers.removeAll, stoppedEvent := none }

/-- the current value, or the error that the subject ended with -/
def BehaviorSubject.value (s : BehaviorSubject E) : Except RxError E :=
  if s.isDisposed then .error .disposed
  else
    match s.stoppedEvent with
    | some (.error error) => .error error
    | _ => .ok s.element

def BehaviorSubject.type : SubjectType (BehaviorSubject E) E :=
  ⟨synchronizedOn, synchronizedSubscribe, synchronizedUnsubscribe, dispose⟩

/-! ## the bag -/

/-- the observers of an open subject are the audience; one that is not open has none, unless it has
`kept` them -/
def Attended (kept : Bool) (past : List (Act E)) (observers : Bag Nat) : Prop :=
  ∃ r, observers.Refines r ∧ (opened past = true → r = audience past) ∧
    (opened past = false → kept = false → r.live = [])

section
variable {kept : Bool} {past : List (Act E)} {observers : Bag Nat}

theorem attended_nil : Attended kept ([] : List (Act E)) {} :=
  ⟨.empty, refines_empty, fun _ => rfl, fun h => (by cases h)⟩

variable (h : Attended kept past observers)
include h

theorem Attended.refines (ho : opened past = true) : observers.Refines (audience past) := by
  obtain ⟨r, hr, haudience, _⟩ := h
  rw [← haudience ho]
  exact hr

theorem Attended.keep {act : Act E} (ho : opened (past ++ [act]) = opened past)
    (ha : opened past = true → audience (past ++ [act]) = audience past) :
    Attended kept (past ++ [act]) observers := by
  obtain ⟨r, hr, haudience, hnone⟩ := h
  refine ⟨r, hr, fun hopen => ?_, fun hclosed => ?_⟩
  · rw [ho] at hopen
    rw [ha hopen]
    exact haudience hopen
  · rw [ho] at hclosed
    exact hnone hclosed

theorem Attended.closed {act : Act E} (hkept : kept = true)
    (hclosed : opened (past ++ [act]) = false) : Attended kept (past ++ [act]) observers := by
  obtain ⟨r, hr, _⟩ := h
  refine ⟨r, hr, fun hopen => ?_, fun _ hk => ?_⟩
  · rw [hclosed] at hopen
    cases hopen
  · rw [hkept] at hk
    cases hk

theorem Attended.removeAll {act : Act E} (hclosed : opened (past ++ [act]) = false) :
    Attended kept (past ++ [act]) observers.removeAll := by
  obtain ⟨r, hr, _⟩ := h
  refine ⟨r.clear, hr.removeAll, fun hopen => ?_, fun _ _ => rfl⟩
  rw [hclosed] at hopen
  cases hopen

theorem Attended.insert (ho : opened past = true) (hn : subscribes past < UInt64.size) :
    (observers.insert (subscribes past)).2 = .ofNat (subscribes past) ∧
      Attended kept (past ++ [.subscribe]) (observers.insert (subscribes past)).1 := by
  obtain ⟨hkey, hrefines⟩ := (h.refines ho).insert (by rw [audience_next]; exact hn) (subscribes past)
  rw [audience_next] at hkey
  refine ⟨UInt64.toNat_inj.mp (hkey.trans (ofNat_toNat_of_le hn).symm), _, hrefines, fun _ => ?_, fun hclosed => ?_⟩
  · rw [audience_concat, audience_next]
  · rw [opened_concat, ho] at hclosed
    cases hclosed

theorem Attended.removeKey {i : Nat} (hi : i < UInt64.size) :
    ∃ observers' o, observers.removeKey (.ofNat i) = .ok (observers', o) ∧
      Attended kept (past ++ [.unsubscribe i]) observers' := by
  obtain ⟨r, hr, haudience, hnone⟩ := h
  obtain ⟨observers', hremove, hrefines⟩ := hr.removeKey (.ofNat i)
  rw [ofNat_toNat_of_le hi] at hrefines
  refine ⟨observers', _, hremove, r.drop i, hrefines, fun hopen => ?_, fun hclosed hk => ?_⟩
  · rw [opened_concat, Bool.and_true] at hopen
    rw [haudience hopen, audience_concat]
  · rw [opened_concat, Bool.and_true] at hclosed
    rw [Registry.live_drop, hnone hclosed hk]
    rfl

theorem Attended.skip {i : Nat} (hi : opened past = true → subscribes past ≤ i) :
    Attended kept (past ++ [.unsubscribe i]) observers := by
  refine h.keep (by rw [opened_concat, Bool.and_true]) fun ho => ?_
  rw [audience_concat]
  refine Registry.drop_eq_self fun x hx => ?_
  have hlt := (audience past).below _ hx
  rw [audience_next] at hlt
  exact Nat.not_lt.mpr (hi ho) hlt

theorem Attended.nobody (hclosed : opened past = false) (hkept : kept = false)
    (order : Enumeration Nat) : observers.dispatch order = [] := by
  obtain ⟨r, hr, _, hnone⟩ := h
  have hperm := hr.dispatch order
  rw [hnone hclosed hkept] at hperm
  exact hperm.eq_nil

end

/-! ## what the two do -/

section
variable {past : List (Act E)}

theorem opened_eq_false : opened past = false ↔
    disposed past = true ∨ (firstStop past).isSome = true := by
  unfold opened
  cases disposed past <;> cases firstStop past <;> simp

theorem opened_eq_true : opened past = true ↔ disposed past = false ∧ firstStop past = none := by
  unfold opened
  cases disposed past <;> cases firstStop past <;> simp

end

structure PublishSubject.Inv (past : List (Act E)) (s : PublishSubject E) : Prop where
  isDisposed : s.isDisposed = disposed past
  stoppedEvent : s.stoppedEvent = firstStop past
  stopped : (firstStop past).isSome = true → s.stopped = true
  running : opened past = true → s.stopped = false
  attended : Attended false past s.observers

/-- the stop event, unless the subject has been disposed since and has not taken another -/
def PublishSubject.late (past : List (Act E)) : Event E := (firstStop past).getD (.error .disposed)

theorem PublishSubject.subscribe_open {s : PublishSubject E} (hstop : s.stoppedEvent = none)
    (hdisposed : s.isDisposed = false) (observer : Nat) :
    s.synchronizedSubscribe observer = ({ s with observers := (s.observers.insert observer).1 },
      none, some (s.observers.insert observer).2) := by
  obtain ⟨_, _, _, _⟩ := s
  cases hstop
  cases hdisposed
  rfl

theorem PublishSubject.subscribe_closed {s : PublishSubject E}
    (h : s.isDisposed = true ∨ s.stoppedEvent.isSome = true) (observer : Nat) :
    s.synchronizedSubscribe observer = (s, some (s.stoppedEvent.getD (.error .disposed)), none) := by
  unfold PublishSubject.synchronizedSubscribe
  cases hstop : s.stoppedEvent with
  | some event => rfl
  | none =>
    rw [hstop] at h
    exact if_pos (h.resolve_right Bool.false_ne_true)

section
variable {past : List (Act E)} {s : PublishSubject E} (h : PublishSubject.Inv past s)
include h

theorem PublishSubject.Inv.guard : (s.isDisposed || s.stopped) = !opened past := by
  rw [h.isDisposed]
  cases ho : opened past with
  | true =>
    rw [(opened_eq_true.mp ho).1, h.running ho]
    rfl
  | false =>
    rcases opened_eq_false.mp ho with hd | hs
    · rw [hd]
      rfl
    · rw [h.stopped hs, Bool.or_true]
      rfl

theorem PublishSubject.Inv.next (x : E) :
    PublishSubject.Inv (past ++ [.on (.next x)]) s ∧
      s.synchronizedOn (.next x) = (s, if opened past then s.observers else {}) := by
  have hopened : opened (past ++ [.on (.next x)]) = opened past :=
    (opened_on past _).trans (Bool.and_true _)
  have hfirst : firstStop (past ++ [.on (.next x)]) = firstStop past := firstStop_on past _
  refine ⟨⟨?_, by rw [hfirst]; exact h.stoppedEvent, by rw [hfirst]; exact h.stopped,
    by rw [hopened]; exact h.running, h.attended.keep hopened fun _ => audience_concat past _⟩, ?_⟩
  · rw [disposed_on]
    exact h.isDisposed
  · show (if (s.isDisposed || s.stopped) = true then _ else _) = _
    rw [h.guard]
    cases opened past <;> rfl

theorem PublishSubject.Inv.stop {event : Event E} (hevent : event.isStopEvent = true) :
    PublishSubject.Inv (past ++ [.on event]) (s.synchronizedOn event).1 ∧
      (s.synchronizedOn event).2 = if (firstStop past).isSome then {} else s.observers := by
  have hclosed : opened (past ++ [.on event]) = false := by
    rw [opened_on, hevent]
    exact Bool.and_false _
  have hfirst : firstStop (past ++ [.on event]) = (firstStop past).or (some event) := by
    rw [firstStop_on]
    exact if_pos hevent
  have heq : s.synchronizedOn event = match s.stoppedEvent with
      | none => ({ s with
          stoppedEvent := some event, stopped := true, observers := s.observers.removeAll },
            s.observers)
      | some _ => (s, {}) := by
    cases event with
    | next x => cases hevent
    | _ => rfl
  have hnot : opened (past ++ [.on event]) = true → s.stopped = false := fun ho => by
    rw [hclosed] at ho
    cases ho
  rw [heq, h.stoppedEvent]
  cases hf : firstStop past with
  | none =>
    refine ⟨⟨?_, ?_, fun _ => rfl, fun ho => ?_, h.attended.removeAll hclosed⟩, rfl⟩
    · rw [disposed_on]
      exact h.isDisposed
    · rw [hfirst, hf]
      rfl
    · rw [hclosed] at ho
      cases ho
  | some first =>
    have ho : opened past = false := opened_eq_false.mpr (.inr (by rw [hf]; rfl))
    refine ⟨⟨?_, ?_, fun _ => h.stopped (by rw [hf]; rfl), hnot, ?_⟩, rfl⟩
    · rw [disposed_on]
      exact h.isDisposed
    · rw [hfirst, hf, h.stoppedEvent, hf]
      rfl
    · exact h.attended.keep (hclosed.trans ho.symm) fun hopen =>
        absurd (ho.symm.trans hopen) Bool.false_ne_true

theorem PublishSubject.Inv.attend {act : Act E}
    (hact : act = .subscribe ∨ ∃ i, act = .unsubscribe i) {observers : Bag Nat}
    (hattended : Attended false (past ++ [act]) observers) :
    PublishSubject.Inv (past ++ [act]) { s with observers := observers } := by
  obtain ⟨hdisposed, hfirst, hopened⟩ := subject_quiet past hact
  exact ⟨by rw [hdisposed]; exact h.isDisposed, by rw [hfirst]; exact h.stoppedEvent,
    by rw [hfirst]; exact h.stopped, by rw [hopened]; exact h.running, hattended⟩

end

theorem PublishSubject.serves :
    (PublishSubject.type (E := E)).Serves PublishSubject.Inv (fun _ => none) late where
  on := by
    intro past s h event
    cases hevent : event.isStopEvent with
    | false =>
      cases event with
      | next x =>
        obtain ⟨hinv, heq⟩ := h.next x
        show PublishSubject.Inv _ (s.synchronizedOn (.next x)).1 ∧ (_ → Bag.Refines
          (s.synchronizedOn (.next x)).2 _) ∧ (_ → ∀ order, Bag.dispatch order
          (s.synchronizedOn (.next x)).2 = [])
        rw [heq]
        refine ⟨hinv, fun ho => ?_, fun ho order => ?_⟩
        · rw [if_pos ho]
          exact h.attended.refines ho
        · rw [if_neg (by rw [ho]; decide)]
          rfl
      | _ => cases hevent
    | true =>
      obtain ⟨hinv, heq⟩ := h.stop hevent
      refine ⟨hinv, fun ho => ?_, fun ho order => ?_⟩
      · show Bag.Refines (s.synchronizedOn event).2 _
        rw [heq, (opened_eq_true.mp ho).2]
        exact h.attended.refines ho
      · show Bag.dispatch order (s.synchronizedOn event).2 = []
        rw [heq]
        cases firstStop past with
        | none => exact h.attended.nobody ho rfl order
        | some first => rfl
  subscribe := by
    intro past s h hn
    cases ho : opened past with
    | true =>
      obtain ⟨hdisposed, hfirst⟩ := opened_eq_true.mp ho
      obtain ⟨hkey, hattended⟩ := h.attended.insert ho hn
      refine ⟨_, h.attend (.inl rfl) hattended, ?_⟩
      rw [if_pos rfl, ← hkey]
      exact subscribe_open (h.stoppedEvent.trans hfirst) (h.isDisposed.trans hdisposed) _
    | false =>
      have hattended : Attended false (past ++ [.subscribe]) s.observers :=
        h.attended.keep (subject_quiet past (.inl rfl)).2.2 fun hopen =>
          absurd (ho.symm.trans hopen) Bool.false_ne_true
      refine ⟨s, h.attend (.inl rfl) hattended, ?_⟩
      rw [if_neg Bool.false_ne_true, late, ← h.stoppedEvent]
      refine subscribe_closed ?_ _
      rw [h.isDisposed, h.stoppedEvent]
      exact opened_eq_false.mp ho
  unsubscribe := by
    intro past s h i hi
    obtain ⟨observers, o, heq, hattended⟩ := h.attended.removeKey hi
    refine ⟨_, ?_, h.attend (.inr ⟨i, rfl⟩) hattended⟩
    show s.observers.removeKey (.ofNat i) >>= _ = _
    rw [heq]
    rfl
  skip := fun h _ hi => h.attend (.inr ⟨_, rfl⟩) (h.attended.skip hi)
  dispose := by
    intro past s h
    have hclosed : opened (past ++ [.dispose]) = false :=
      (opened_concat past .dispose).trans (Bool.and_false _)
    refine ⟨(disposed_concat past .dispose).symm ▸ (Bool.or_true _).symm,
      (firstStop_concat past .dispose).symm, fun hs => ?_, fun ho => ?_, h.attended.removeAll hclosed⟩
    · rw [firstStop_concat] at hs
      cases hs
    · rw [hclosed] at ho
      cases ho

/-! ## `BehaviorSubject`, run -/

/-- the last element, or the one that the subject started with -/
def latest (value : E) (past : List (Act E)) : E := past.foldl (fun x act =>
  match act with
  | .on (.next element) => element
  | _ => x) value

theorem latest_concat (value : E) (past : List (Act E)) (act : Act E) :
    latest value (past ++ [act]) = match act with
      | .on (.next element) => element
      | _ => latest value past := List.foldl_concat ..

structure BehaviorSubject.Inv (value : E) (past : List (Act E)) (s : BehaviorSubject E) : Prop where
  isDisposed : s.isDisposed = disposed past
  stoppedEvent : disposed past = false → s.stoppedEvent = firstStop past
  element : opened past = true → s.element = latest value past
  attended : Attended true past s.observers

/-- a subject that has been disposed is asked for nothing else -/
def BehaviorSubject.late (past : List (Act E)) : Event E :=
  if disposed past then .error .disposed else (firstStop past).getD (.error .disposed)

theorem BehaviorSubject.subscribe_open {s : BehaviorSubject E} (hstop : s.stoppedEvent = none)
    (hdisposed : s.isDisposed = false) (observer : Nat) :
    s.synchronizedSubscribe observer = ({ s with observers := (s.observers.insert observer).1 },
      some (.next s.element), some (s.observers.insert observer).2) := by
  obtain ⟨_, _, _, _⟩ := s
  cases hstop
  cases hdisposed
  rfl

theorem BehaviorSubject.subscribe_closed {s : BehaviorSubject E}
    (h : s.isDisposed = true ∨ s.stoppedEvent.isSome = true) (observer : Nat) :
    s.synchronizedSubscribe observer = (s, some (if s.isDisposed then .error .disposed
      else s.stoppedEvent.getD (.error .disposed)), none) := by
  unfold BehaviorSubject.synchronizedSubscribe
  cases hdisposed : s.isDisposed with
  | true => rfl
  | false =>
    rw [hdisposed] at h
    obtain ⟨event, hevent⟩ := Option.isSome_iff_exists.mp (h.resolve_left Bool.false_ne_true)
    rw [hevent]
    rfl

section
variable {value : E} {past : List (Act E)} {s : BehaviorSubject E}
  (h : BehaviorSubject.Inv value past s)
include h

theorem BehaviorSubject.Inv.guard : (s.stoppedEvent.isSome || s.isDisposed) = !opened past := by
  rw [h.isDisposed]
  unfold opened
  cases hd : disposed past with
  | true =>
    rw [Bool.or_true]
    rfl
  | false =>
    rw [h.stoppedEvent hd]
    cases firstStop past <;> rfl

theorem BehaviorSubject.Inv.drop (ho : opened past = false) (event : Event E) :
    s.synchronizedOn event = (s, {}) ∧ BehaviorSubject.Inv value (past ++ [.on event]) s := by
  have hopened : opened (past ++ [.on event]) = false := by
    rw [opened_on, ho]
    rfl
  refine ⟨?_, ?_, fun hd => ?_, fun hopen => ?_, h.attended.closed rfl hopened⟩
  · unfold BehaviorSubject.synchronizedOn
    rw [h.guard, ho]
    rfl
  · rw [disposed_on]
    exact h.isDisposed
  · rw [disposed_on] at hd
    have hsome : (firstStop past).isSome = true :=
      (opened_eq_false.mp ho).resolve_left (by rw [hd]; exact Bool.false_ne_true)
    obtain ⟨first, hfirst⟩ := Option.isSome_iff_exists.mp hsome
    rw [h.stoppedEvent hd, firstStop_on, hfirst]
    exact (ite_self _).symm
  · rw [hopened] at hopen
    cases hopen

theorem BehaviorSubject.Inv.take (ho : opened past = true) (event : Event E) :
    (s.synchronizedOn event).2 = s.observers ∧
      BehaviorSubject.Inv value (past ++ [.on event]) (s.synchronizedOn event).1 := by
  obtain ⟨hdisposed, hfirst⟩ := opened_eq_true.mp ho
  have hguard : (s.stoppedEvent.isSome || s.isDisposed) = false := by
    rw [h.guard, ho]
    rfl
  have hclosed : event.isStopEvent = true → opened (past ++ [.on event]) = false := fun hevent => by
    rw [opened_on, hevent]
    exact Bool.and_false _
  have hstop : event.isStopEvent = true →
      BehaviorSubject.Inv value (past ++ [.on event]) { s with stoppedEvent := some event } :=
    fun hevent => by
      refine ⟨?_, fun _ => ?_, fun hopen => ?_, h.attended.closed rfl (hclosed hevent)⟩
      · rw [disposed_on]
        exact h.isDisposed
      · rw [firstStop_on, hevent, hfirst]
        rfl
      · rw [hclosed hevent] at hopen
        cases hopen
  unfold BehaviorSubject.synchronizedOn
  rw [hguard]
  cases event with
  | next x =>
    have hopened : opened (past ++ [.on (.next x)]) = opened past :=
      (opened_on past _).trans (Bool.and_true _)
    refine ⟨rfl, ?_, fun _ => ?_, fun _ => (latest_concat value past (.on (.next x))).symm,
      h.attended.keep hopened fun _ => audience_concat past _⟩
    · rw [disposed_on]
      exact h.isDisposed
    · rw [firstStop_on]
      exact h.stoppedEvent hdisposed
  | error e => exact ⟨rfl, hstop rfl⟩
  | completed => exact ⟨rfl, hstop rfl⟩

theorem BehaviorSubject.Inv.attend {act : Act E}
    (hact : act = .subscribe ∨ ∃ i, act = .unsubscribe i) {observers : Bag Nat}
    (hattended : Attended true (past ++ [act]) observers) :
    BehaviorSubject.Inv value (past ++ [act]) { s with observers := observers } := by
  obtain ⟨hdisposed, hfirst, hopened⟩ := subject_quiet past hact
  refine ⟨by rw [hdisposed]; exact h.isDisposed, by rw [hdisposed, hfirst]; exact h.stoppedEvent, ?_,
    hattended⟩
  rw [hopened, latest_concat]
  rcases hact with rfl | ⟨i, rfl⟩ <;> exact h.element

end

theorem BehaviorSubject.serves (value : E) : (BehaviorSubject.type (E := E)).Serves
    (BehaviorSubject.Inv value) (fun past => some (latest value past)) late where
  on := by
    intro past s h event
    cases ho : opened past with
    | false =>
      obtain ⟨heq, hinv⟩ := h.drop ho event
      show BehaviorSubject.Inv _ _ (s.synchronizedOn event).1 ∧ (_ → Bag.Refines
        (s.synchronizedOn event).2 _) ∧ (_ → ∀ order, Bag.dispatch order
        (s.synchronizedOn event).2 = [])
      rw [heq]
      exact ⟨hinv, fun hopen => absurd hopen Bool.false_ne_true, fun _ _ => rfl⟩
    | true =>
      obtain ⟨heq, hinv⟩ := h.take ho event
      refine ⟨hinv, fun _ => ?_, fun hclosed => absurd hclosed.symm Bool.false_ne_true⟩
      show Bag.Refines (s.synchronizedOn event).2 _
      rw [heq]
      exact h.attended.refines ho
  subscribe := by
    intro past s h hn
    cases ho : opened past with
    | true =>
      obtain ⟨hdisposed, hfirst⟩ := opened_eq_true.mp ho
      obtain ⟨hkey, hattended⟩ := h.attended.insert ho hn
      refine ⟨_, h.attend (.inl rfl) hattended, ?_⟩
      rw [if_pos rfl, ← hkey, ← h.element ho]
      exact subscribe_open ((h.stoppedEvent hdisposed).trans hfirst) (h.isDisposed.trans hdisposed) _
    | false =>
      have hattended : Attended true (past ++ [.subscribe]) s.observers :=
        h.attended.keep (subject_quiet past (.inl rfl)).2.2 fun hopen =>
          absurd (ho.symm.trans hopen) Bool.false_ne_true
      refine ⟨s, h.attend (.inl rfl) hattended, ?_⟩
      have hguard : (s.isDisposed || s.stoppedEvent.isSome) = true := by
        rw [Bool.or_comm, h.guard, ho]
        rfl
      rw [if_neg Bool.false_ne_true, late, ← h.isDisposed]
      refine (subscribe_closed (Bool.or_eq_true_iff.mp hguard) _).trans ?_
      cases hd : s.isDisposed with
      | true => rfl
      | false => rw [h.stoppedEvent (h.isDisposed.symm.trans hd)]
  unsubscribe := by
    intro past s h i hi
    cases hd : s.isDisposed with
    | true =>
      have hclosed : opened past = false := opened_eq_false.mpr (.inl (h.isDisposed.symm.trans hd))
      refine ⟨s, if_pos hd, h.attend (.inr ⟨i, rfl⟩) (h.attended.keep
        (subject_quiet past (.inr ⟨i, rfl⟩)).2.2 fun hopen => ?_)⟩
      exact absurd (hclosed.symm.trans hopen) Bool.false_ne_true
    | false =>
      obtain ⟨observers, o, heq, hattended⟩ := h.attended.removeKey hi
      refine ⟨_, ?_, h.attend (.inr ⟨i, rfl⟩) hattended⟩
      show (if s.isDisposed = true then _ else s.observers.removeKey (.ofNat i) >>= _) = _
      rw [hd, heq]
      rfl
  skip := fun h _ hi => h.attend (.inr ⟨_, rfl⟩) (h.attended.skip hi)
  dispose := by
    intro past s h
    have hclosed : opened (past ++ [.dispose]) = false :=
      (opened_concat past .dispose).trans (Bool.and_false _)
    have hdisposed : disposed (past ++ [.dispose]) = true :=
      (disposed_concat past .dispose).trans (Bool.or_true _)
    refine ⟨hdisposed.symm, fun hd => ?_, fun ho => ?_, h.attended.removeAll hclosed⟩
    · rw [hdisposed] at hd
      cases hd
    · rw [hclosed] at ho
      cases ho

/-! ## what observers hear -/

/-- **The observers of a `PublishSubject`.**  One that subscribes after `a` hears what follows, or, if the
subject is over, one event. -/
theorem publish_heard (order : Enumeration Nat) {acts : List (Act E)} (hn : subscribes acts ≤ UInt64.size) :
    ∃ h calls, Hub.run PublishSubject.type order ⟨{}, []⟩ acts = .ok (h, calls) ∧
      ∀ a b, acts = a ++ .subscribe :: b → heard (subscribes a) calls =
        (if opened a then follow (subscribes a) b else [PublishSubject.late a]) ∧
        Grammatical (heard (subscribes a) calls) := by
  have hinit : PublishSubject.Inv ([] : List (Act E)) {} :=
    ⟨rfl, rfl, fun h => (by cases h), fun _ => rfl, attended_nil⟩
  obtain ⟨h, calls, hrun, hheard⟩ := heard_run PublishSubject.serves hinit order hn
  refine ⟨h, calls, hrun, fun a b hacts => ?_⟩
  have heq : heard (subscribes a) calls =
      if opened a then follow (subscribes a) b else [PublishSubject.late a] := by
    rw [hheard a b hacts]
    unfold greeting
    cases opened a <;> rfl
  refine ⟨heq, ?_⟩
  rw [heq]
  cases opened a with
  | true => exact follow_grammatical _ b
  | false => exact grammatical_singleton _

/-- **The observers of a `BehaviorSubject`.**  They hear its element first. -/
theorem behavior_heard (value : E) (order : Enumeration Nat) {acts : List (Act E)}
    (hn : subscribes acts ≤ UInt64.size) :
    ∃ h calls, Hub.run BehaviorSubject.type order ⟨{ element := value }, []⟩ acts = .ok (h, calls) ∧
      ∀ a b, acts = a ++ .subscribe :: b → heard (subscribes a) calls =
        (if opened a then .next (latest value a) :: follow (subscribes a) b
          else [BehaviorSubject.late a]) ∧
        Grammatical (heard (subscribes a) calls) := by
  have hinit : BehaviorSubject.Inv value ([] : List (Act E)) { element := value } :=
    ⟨rfl, fun _ => rfl, fun _ => rfl, attended_nil⟩
  obtain ⟨h, calls, hrun, hheard⟩ := heard_run (BehaviorSubject.serves value) hinit order hn
  refine ⟨h, calls, hrun, fun a b hacts => ?_⟩
  have heq : heard (subscribes a) calls = if opened a
      then .next (latest value a) :: follow (subscribes a) b else [BehaviorSubject.late a] := by
    rw [hheard a b hacts]
    unfold greeting
    cases opened a <;> rfl
  refine ⟨heq, ?_⟩
  rw [heq]
  cases opened a with
  | true => exact (follow_grammatical _ b).next _
  | false => exact grammatical_singleton _

/-- the first observer leaves after the first element, the second stays, the third comes too late -/
def threeObservers : List (Act Nat) :=
  [.subscribe, .on (.next 1), .subscribe, .unsubscribe 0, .on (.next 2), .on .completed,
    .on (.next 3), .subscribe]

theorem publish_heard_three : ∃ h calls,
    Hub.run PublishSubject.type .inserted ⟨{}, []⟩ threeObservers = .ok (h, calls) ∧
    heard 1 calls = [.next 2, .completed] ∧ heard 2 calls = [.completed] := by
  obtain ⟨h, calls, hrun, hheard⟩ := @publish_heard Nat .inserted threeObservers (by decide)
  exact ⟨h, calls, hrun, (hheard (threeObservers.take 2) (threeObservers.drop 3) rfl).1,
    (hheard (threeObservers.take 7) [] rfl).1⟩

theorem behavior_heard_three : ∃ h calls,
    Hub.run BehaviorSubject.type .inserted ⟨{ element := 0 }, []⟩ threeObservers = .ok (h, calls) ∧
    heard 0 calls = [.next 0, .next 1] ∧ heard 1 calls = [.next 1, .next 2, .completed] := by
  obtain ⟨h, calls, hrun, hheard⟩ := @behavior_heard Nat 0 .inserted threeObservers (by decide)
  exact ⟨h, calls, hrun, (hheard [] (threeObservers.drop 1) rfl).1,
    (hheard (threeObservers.take 2) (threeObservers.drop 3) rfl).1⟩

/-- only the `PublishSubject` still takes a stop event when it has been disposed -/
example : PublishSubject.late ([.dispose, .on .completed] : List (Act Nat)) = .completed ∧
    BehaviorSubject.late ([.dispose, .on .completed] : List (Act Nat)) = .error .disposed := by
  decide

end VoteOnOffice.Rx
