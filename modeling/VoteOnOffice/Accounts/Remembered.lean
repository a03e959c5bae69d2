import VoteOnOffice.App.Session

/-!
# The remembered login: when the one written last is the one that is read

`writeData` adds an object without updating and `readData` takes the first one, so what was written
first stays.

* `Session.Touches`     the step writes a login, or a sign-out deletes them;
* `Remembers s k o`     the closure of the answer `k` writes `o` without an exception, and until the
                        next step that touches the store `o` is read back and submitted by
                        `oldDataLoading`;
* `remembered_iff`      **this is so iff nothing is stored when the closure runs**.
-/

namespace VoteOnOffice

def Session.Touches (s : Session) (l : SignLabel) : Prop :=
  (∃ ok, l = .signOut ok) ∨ ∃ o, s.writes l = some o

def Remembers (count : String → Nat) (s : Session) (k : Nat) (o : RememberData) : Prop :=
  ∃ t, s.step count (.deliver k) = some t ∧ ∀ ls u,
    Machine.exec (Session.step count) t ls = some u →
    Machine.Along (Session.step count) (fun s l => ¬ s.Touches l) t ls →
      readData u.realm = some o ∧ ∃ v, u.step count .oldDataLoading = some v ∧
        v.net = u.net ++ [.request (.signIn o.login o.password false)]

section
variable {count : String → Nat} {s u : Session} {l : SignLabel} {c : Completion} {error : Bool}
  {o : RememberData}

theorem realm_of_not_touches (hl : ¬ s.Touches l) (h : s.step count l = some u) :
    u.realm = s.realm := by
  have hw : s.writes l = none := by
    rw [Option.eq_none_iff_forall_ne_some]
    exact fun o ho => hl (.inr ⟨o, ho⟩)
  rw [Session.step_realm h]
  cases l with
  | signOut ok => exact absurd (.inl ⟨ok, rfl⟩) hl
  | _ =>
    show s.realm ++ (s.writes _).toList = _
    rw [hw]
    exact List.append_nil _

theorem isLong_of_writes (hc : c.isLong count) (ho : c.writes error = some o) :
    isLong count o.login o.password = true := by
  obtain ⟨rfl, rfl | ⟨rfl, _⟩⟩ := writes_eq_some.mp ho
  · exact hc
  · exact hc

theorem run_guarded {accounts : List String} {db : Database} {ls : List SignLabel}
    (hrun : Machine.exec (Session.step count) (.fresh accounts db) ls = some s) :
    Guarded count s :=
  Machine.exec_invariant _ (A := fun _ => True) (fun _ _ _ hs _ h => Session.step_guarded hs h)
    (fun _ _ => trivial) hrun fun _ h => absurd h List.not_mem_nil

theorem oldDataLoading_submits (ho : readData s.realm = some o)
    (hlong : isLong count o.login o.password = true) :
    ∃ v, s.step count .oldDataLoading = some v ∧
      v.net = s.net ++ [.request (.signIn o.login o.password false)] := by
  refine ⟨{ s with net := s.net ++ [.request (.signIn o.login o.password false)] }, ?_, rfl⟩
  simp only [Session.step, SignInViewModel.oldDataLoading, ho, SignInViewModel.loginInSistem, hlong,
    if_true]
  rfl

/-- **The login written last is remembered iff nothing is stored when it is written.** -/
theorem remembered_iff {accounts : List String} {db : Database} {ls : List SignLabel}
    (hrun : Machine.exec (Session.step count) (.fresh accounts db) ls = some s) {k : Nat}
    (hk : s.net[k]? = some (.answer c error)) (ho : c.writes error = some o) :
    Remembers count s k o ↔ s.realm = [] := by
  have hlong : isLong count o.login o.password = true :=
    isLong_of_writes (run_guarded hrun _ (List.mem_of_getElem? hk)) ho
  constructor
  · rintro ⟨t, ht, hall⟩
    obtain ⟨hread, _⟩ := hall [] t rfl (Machine.along_nil _ _ t)
    obtain ⟨c', error', hk', hcompletes, rfl⟩ := Session.deliver_eq_some.mp ht
    cases hk.symm.trans hk'
    have hfresh := hcompletes.writes o ho
    cases hrealm : s.realm with
    | nil => rfl
    | cons first rest =>
      -- the first login is read, and it is not the new one
      rw [hrealm] at hread hfresh
      cases hread
      exact absurd List.mem_cons_self hfresh
  · intro hrealm
    have hcompletes : c.Completes error s.realm :=
      ⟨addressed_of_writes ho, fun o' _ => by rw [hrealm]; exact List.not_mem_nil⟩
    have hstep : s.step count (.deliver k) = some _ :=
      Session.deliver_eq_some.mpr ⟨c, error, hk, hcompletes, rfl⟩
    refine ⟨_, hstep, fun ls u hu halong => ?_⟩
    have hu' : u.realm = [o] := by
      refine Machine.exec_along _ (P := fun u : Session => u.realm = [o])
        (fun _ _ _ hs hl h => (realm_of_not_touches hl h).trans hs) halong hu ?_
      show s.realm ++ (c.writes error).toList = [o]
      rw [hrealm, ho]
      rfl
    have hread : readData u.realm = some o := by
      rw [hu']
      rfl
    exact ⟨hread, oldDataLoading_submits hread hlong⟩

end

/-! ## a login that is stored already -/

/-- `alice` and `bobby` have accounts; strings are counted as they come -/
def Session.reached (ls : List SignLabel) : Session :=
  (Machine.exec (Session.step String.length) (.fresh ["alice@x.y", "bobby@x.y"] .empty) ls).getD
    (.fresh [] .empty)

theorem run_reached (ls : List SignLabel) (h : (Machine.exec (Session.step String.length)
    (.fresh ["alice@x.y", "bobby@x.y"] .empty) ls).isSome = true) :
    Machine.exec (Session.step String.length) (.fresh ["alice@x.y", "bobby@x.y"] .empty) ls
      = some (.reached ls) := by
  obtain ⟨s, hs⟩ := Option.isSome_iff_exists.mp h
  unfold Session.reached
  rw [hs]
  rfl

def aliceIn : List SignLabel := [.signIn "alice@x.y" "secret1" true, .serve 0 true, .deliver 0]

/-- `alice` signs in once more with another password, or `bobby` signs in -/
def aliceAgain : List SignLabel := aliceIn ++ [.signIn "alice@x.y" "secret2" true, .serve 0 true]
def bobbyNext : List SignLabel := aliceIn ++ [.signIn "bobby@x.y" "secret2" true, .serve 0 true]

theorem remembered_first : Remembers String.length (.reached (aliceIn.take 2)) 0
    ⟨"alice@x.y", "secret1"⟩ ↔ (Session.reached (aliceIn.take 2)).realm = [] :=
  @remembered_iff String.length _ (.signIn "alice@x.y" "secret1" true) false _ _ _ (aliceIn.take 2)
    (run_reached _ (by decide)) 0 (by decide) rfl

/-- **The same e-mail again: the closure raises an exception.  Another account: the first login is
read back.** -/
theorem not_remembered :
    (Machine.exec (Session.step String.length) (.fresh ["alice@x.y", "bobby@x.y"] .empty) aliceAgain
        = some (.reached aliceAgain) ∧
      (Session.reached aliceAgain).net
        = [.answer (.signIn "alice@x.y" "secret2" true) false] ∧
      (Session.reached aliceAgain).deliver 0 = none ∧
      ¬ Remembers String.length (.reached aliceAgain) 0 ⟨"alice@x.y", "secret2"⟩) ∧
    (Machine.exec (Session.step String.length) (.fresh ["alice@x.y", "bobby@x.y"] .empty) bobbyNext
        = some (.reached bobbyNext) ∧
      (Session.reached bobbyNext).net
        = [.answer (.signIn "bobby@x.y" "secret2" true) false] ∧
      ((Session.reached bobbyNext).deliver 0).map (fun t => readData t.realm)
        = some (some ⟨"alice@x.y", "secret1"⟩) ∧
      ¬ Remembers String.length (.reached bobbyNext) 0 ⟨"bobby@x.y", "secret2"⟩) := by
  refine ⟨⟨run_reached _ (by decide), by decide, rfl, ?_⟩,
    run_reached _ (by decide), by decide, rfl, ?_⟩
  · rintro ⟨t, ht, _⟩
    cases ht
  · rintro ⟨t, ht, hall⟩
    cases ht
    have hread := (hall [] _ rfl (Machine.along_nil _ _ _)).1
    revert hread
    decide

end VoteOnOffice
