import VoteOnOffice.App.SignModel
import VoteOnOffice.Lib.Machine

/-!
# The session: accounts, the local store, and sign-ins and sign-ups in flight

* `serve k ok`         the cloud grants the request number `k`, or refuses it.  It can grant a sign-in
                       only to an account and `createUser` only where there is none;
* `deliver k`          the closure of the answer number `k` runs; `none` if it raises an exception;
* `signIn`, `signUp`   the buttons, which are enabled again at once;
* `oldDataLoading`     the automatic sign-in;
* `signOut ok`         `MainViewModel.signOut`, where `firebaseAuth.signOut()` throws unless `ok`;
* `restart`            the app starts anew: nothing that was in flight is heard of again.

`Stepped` says all that a step can do; `step_realm`, `step_net` and `step_accounts` say it of the local
store, of what is in flight and of the accounts.
-/

namespace VoteOnOffice

inductive SignTask where
  | request (c : Completion)
  /-- an answer whose closure has not run yet -/
  | answer (c : Completion) (error : Bool)
  deriving DecidableEq, Repr

structure Session where
  /-- the e-mails that have an account -/
  accounts : List String
  db : Database
  realm : Realm := []
  net : List SignTask := []
  /-- what the two `loginIsBool` have emitted -/
  loginIsBool : List (Form × Bool) := []
  signOutBool : List Bool := []

inductive SignLabel where
  | signIn (email password : String) (switchRemember : Bool)
  | signUp (email password : String) (switchRemember : Bool)
  | oldDataLoading
  | serve (k : Nat) (ok : Bool)
  | deliver (k : Nat)
  | signOut (ok : Bool)
  | restart

/-- an effect, unless it raises an exception -/
def Session.perform (s : Session) : SignEffect → Option Session
  | .request c => if c.addressed then some { s with net := s.net ++ [.request c] } else none
  | .loginIsBool form b => some { s with loginIsBool := s.loginIsBool ++ [(form, b)] }
  | .writeData email password =>
    (writeData email password s.realm).map fun realm => { s with realm := realm }

def Session.performAll (s : Session) : List SignEffect → Option Session
  | [] => some s
  | e :: es => (s.perform e).bind fun t => t.performAll es

/-- what has been done when an effect raises an exception -/
def Session.performUntil (s : Session) : List SignEffect → Session
  | [] => s
  | e :: es => (s.perform e).elim s fun t => t.performUntil es

/-- the cloud does what is asked, if it can -/
def Session.grant (s : Session) : Completion → Option Session
  | .signIn email _ _ => if email ∈ s.accounts then some s else none
  | .createUser email _ _ =>
    if email ∈ s.accounts then none else some { s with accounts := email :: s.accounts }
  | .setData email => some { s with db := s.db.setUser email }

def Session.serve (s : Session) (k : Nat) (ok : Bool) : Option Session :=
  match s.net[k]? with
  | some (.request c) =>
    if ok then (s.grant c).map fun t => { t with net := t.net.set k (.answer c false) }
    else some { s with net := s.net.set k (.answer c true) }
  | _ => none

def Session.deliver (s : Session) (k : Nat) : Option Session :=
  match s.net[k]? with
  | some (.answer c error) =>
    Session.performAll { s with net := s.net.eraseIdx k } (c.run error)
  | _ => none

/-- `signOut` of `MainViewModel` -/
def Session.signOut (s : Session) (ok : Bool) : Session :=
  { s with realm := deleteRealmData s.realm, signOutBool := s.signOutBool ++ [ok] }

def Session.step (count : String → Nat) (s : Session) : SignLabel → Option Session
  | .signIn email password switchRemember =>
    s.performAll (SignInViewModel.loginInSistem count email password switchRemember)
  | .signUp email password switchRemember =>
    s.performAll (SignUpViewModel.loginInSistem count email password switchRemember)
  | .oldDataLoading => s.performAll (SignInViewModel.oldDataLoading count s.realm)
  | .serve k ok => s.serve k ok
  | .deliver k => s.deliver k
  | .signOut ok => some (s.signOut ok)
  | .restart => some { s with net := [] }

/-- the app has been installed, where there are these accounts and documents -/
def Session.fresh (accounts : List String) (db : Database) : Session :=
  { accounts := accounts, db := db }

/-! ## what a step can do -/

section
variable {s u : Session}

theorem Session.performAll_nil : s.performAll [] = some u ↔ u = s := by
  rw [eq_comm (a := u)]
  exact Option.some_inj

theorem Session.performAll_remember {email password : String} {switchRemember : Bool} :
    s.performAll (remember email password switchRemember) = some u ↔
      (switchRemember = true → email ∉ s.realm.map RememberData.login) ∧
      u = { s with
        realm := s.realm ++ if switchRemember then [⟨email, password⟩] else [] } := by
  cases switchRemember with
  | false =>
    refine Session.performAll_nil.trans ?_
    simp
  | true =>
    show ((writeData email password s.realm).map _).bind some = some u ↔ _
    rw [Option.bind_fun_some, Option.map_eq_some_iff]
    simp only [writeData_eq_some, forall_const, if_true]
    constructor
    · rintro ⟨_, ⟨h, rfl⟩, rfl⟩
      exact ⟨h, rfl⟩
    · rintro ⟨h, rfl⟩
      exact ⟨_, ⟨h, rfl⟩, rfl⟩

/-- **What a closure does:** it asks for a document, it emits, and it adds to the store; it raises an
exception exactly when the document has no path or what it adds is there. -/
theorem Session.run_eq_some {c : Completion} {error : Bool} : s.performAll (c.run error) = some u ↔
    c.Completes error s.realm ∧ u = { s with
      net := s.net ++ (c.requests error).map .request
      loginIsBool := s.loginIsBool ++ c.emits error
      realm := s.realm ++ (c.writes error).toList } := by
  -- a closure that only reports
  have hreport : ∀ form b, s.performAll [.loginIsBool form b] = some u ↔
      u = { s with loginIsBool := s.loginIsBool ++ [(form, b)] } :=
    fun _ _ => Session.performAll_nil
  cases c with
  | signIn email password switchRemember =>
    cases error with
    | true =>
      refine (hreport .signIn false).trans ?_
      simp [completes_iff, Completion.writes, Completion.requests, Completion.emits]
    | false =>
      refine Session.performAll_remember.trans ?_
      cases switchRemember <;>
        simp [completes_iff, Completion.writes, Completion.requests, Completion.emits]
  | createUser email password switchRemember =>
    cases error with
    | true =>
      refine (hreport .signUp false).trans ?_
      simp [completes_iff, Completion.writes, Completion.requests, Completion.emits]
    | false =>
      cases hpath : documentWithPath email with
      | none =>
        -- `document(email)` raises the exception
        have hraises : s.perform (.request (.setData email)) = none := by
          simp [Session.perform, Completion.addressed, hpath]
        show (s.perform (.request (.setData email))).bind _ = some u ↔ _
        rw [hraises]
        simp [completes_iff, Completion.requests, Completion.addressed, hpath]
      | some path =>
        have hasks : s.perform (.request (.setData email)) =
            some { s with net := s.net ++ [.request (.setData email)] } := by
          simp [Session.perform, Completion.addressed, hpath]
        show (s.perform (.request (.setData email))).bind _ = some u ↔ _
        rw [hasks, Option.bind_some]
        refine Session.performAll_remember.trans ?_
        cases switchRemember <;> simp [completes_iff, Completion.writes, Completion.requests,
          Completion.emits, Completion.addressed, hpath]
  | setData email =>
    cases error with
    | true =>
      refine (hreport .signUp false).trans ?_
      simp [completes_iff, Completion.writes, Completion.requests, Completion.emits]
    | false =>
      refine (hreport .signUp true).trans ?_
      simp [completes_iff, Completion.writes, Completion.requests, Completion.emits]

/-- **What a closure has done when it raises an exception:** all but what raises it. -/
theorem Session.performUntil_run {c : Completion} {error : Bool} (h : ¬c.Completes error s.realm) :
    s.performUntil (c.run error) = { s with
      net := s.net ++ ((c.requests error).filter Completion.addressed).map .request
      loginIsBool := s.loginIsBool ++ c.emits error } := by
  rw [completes_iff] at h
  cases error with
  | true => cases c <;> simp [Completion.requests, Completion.writes] at h
  | false =>
    cases c with
    | signIn email password switchRemember =>
      cases switchRemember with
      | false => simp [Completion.requests, Completion.writes] at h
      | true =>
        have hstored : writeData email password s.realm = none := by
          simpa [Completion.requests, Completion.writes, writeData, Realm.add] using h
        simp [Completion.run, remember, Session.performUntil, Session.perform, hstored,
          Completion.requests, Completion.emits]
    | createUser email password switchRemember =>
      cases hpath : documentWithPath email with
      | none =>
        simp [Completion.run, Session.performUntil, Session.perform, Completion.requests,
          Completion.addressed, hpath, Completion.emits]
      | some path =>
        cases switchRemember with
        | false =>
          simp [Completion.requests, Completion.writes, Completion.addressed, hpath] at h
        | true =>
          have hstored : writeData email password s.realm = none := by
            simpa [Completion.requests, Completion.writes, Completion.addressed, hpath, writeData,
              Realm.add] using h
          simp [Completion.run, remember, Session.performUntil, Session.perform, hstored,
            Completion.requests, Completion.addressed, hpath, Completion.emits]
    | setData email => simp [Completion.requests, Completion.writes] at h

theorem Session.deliver_eq_some {k : Nat} : s.deliver k = some u ↔ ∃ c error,
    s.net[k]? = some (.answer c error) ∧ c.Completes error s.realm ∧ u = { s with
      net := s.net.eraseIdx k ++ (c.requests error).map .request
      loginIsBool := s.loginIsBool ++ c.emits error
      realm := s.realm ++ (c.writes error).toList } := by
  unfold Session.deliver
  cases hk : s.net[k]? with
  | none => simp
  | some task =>
    cases task with
    | request c => simp
    | answer c error =>
      simp only [Session.run_eq_some, Option.some.injEq, SignTask.answer.injEq]
      constructor
      · rintro ⟨h, rfl⟩
        exact ⟨c, error, ⟨rfl, rfl⟩, h, rfl⟩
      · rintro ⟨_, _, ⟨rfl, rfl⟩, h, rfl⟩
        exact ⟨h, rfl⟩

/-! granting: a sign-in needs an account, and `createUser` needs that there is none -/

theorem Session.grant_signIn {t : Session} {email password : String} {switchRemember : Bool} :
    s.grant (.signIn email password switchRemember) = some t ↔ email ∈ s.accounts ∧ t = s := by
  by_cases he : email ∈ s.accounts
  · simp [Session.grant, he, eq_comm]
  · simp [Session.grant, he]

theorem Session.grant_createUser {t : Session} {email password : String} {switchRemember : Bool} :
    s.grant (.createUser email password switchRemember) = some t ↔
      email ∉ s.accounts ∧ t = { s with accounts := email :: s.accounts } := by
  by_cases he : email ∈ s.accounts
  · simp [Session.grant, he]
  · simp [Session.grant, he, eq_comm]

theorem Session.grant_keeps {t : Session} {c : Completion} (h : s.grant c = some t) :
    t.realm = s.realm ∧ t.net = s.net ∧ t.loginIsBool = s.loginIsBool ∧
      t.signOutBool = s.signOutBool := by
  cases c with
  | signIn email password switchRemember =>
    obtain ⟨_, rfl⟩ := Session.grant_signIn.mp h
    exact ⟨rfl, rfl, rfl, rfl⟩
  | createUser email password switchRemember =>
    obtain ⟨_, rfl⟩ := Session.grant_createUser.mp h
    exact ⟨rfl, rfl, rfl, rfl⟩
  | setData email =>
    cases h
    exact ⟨rfl, rfl, rfl, rfl⟩

theorem Session.serve_eq_some {k : Nat} {ok : Bool} : s.serve k ok = some u ↔ ∃ c t,
    s.net[k]? = some (.request c) ∧ (if ok then s.grant c = some t else t = s) ∧
    u = { t with net := s.net.set k (.answer c (!ok)) } := by
  unfold Session.serve
  cases hk : s.net[k]? with
  | none => simp
  | some task =>
    cases task with
    | answer c error => simp
    | request c =>
      cases ok with
      | false => simp [eq_comm]
      | true =>
        simp only [if_true, Option.map_eq_some_iff, Option.some.injEq, SignTask.request.injEq,
          exists_and_left, exists_eq_left', Bool.not_true]
        constructor
        · rintro ⟨t, h, rfl⟩
          exact ⟨t, h, by rw [(Session.grant_keeps h).2.1]⟩
        · rintro ⟨t, h, rfl⟩
          exact ⟨t, h, by rw [(Session.grant_keeps h).2.1]⟩

theorem Session.performAll_guard {c : Completion} {form : Form} {b : Bool}
    (hc : c.addressed = true)
    (h : s.performAll (if b then [.request c] else [.loginIsBool form false]) = some u) :
    (b = true ∧ u = { s with net := s.net ++ [.request c] }) ∨
    (b = false ∧ u = { s with loginIsBool := s.loginIsBool ++ [(form, false)] }) := by
  cases b with
  | true =>
    have h : (s.perform (.request c)).bind some = some u := h
    simp only [Session.perform, hc, if_true, Option.bind_some] at h
    cases h
    exact .inl ⟨rfl, rfl⟩
  | false => cases h; exact .inr ⟨rfl, rfl⟩

variable (count : String → Nat)

/-- a button or the automatic sign-in asks something of the cloud -/
inductive Session.Asks (s : Session) : SignLabel → Completion → Prop where
  | signIn {email password : String} {switchRemember : Bool}
      (hlong : isLong count email password = true) :
      Asks s (.signIn email password switchRemember) (.signIn email password switchRemember)
  | signUp {email password : String} {switchRemember : Bool}
      (hlong : isLong count email password = true) :
      Asks s (.signUp email password switchRemember) (.createUser email password switchRemember)
  | oldDataLoading {o : RememberData} (hread : readData s.realm = some o)
      (hlong : isLong count o.login o.password = true) :
      Asks s .oldDataLoading (.signIn o.login o.password false)

/-- a button or the automatic sign-in reports failure at once -/
inductive Session.Reports : SignLabel → Form → Prop where
  | signIn {email password : String} {switchRemember : Bool}
      (hshort : isLong count email password = false) :
      Reports (.signIn email password switchRemember) .signIn
  | signUp {email password : String} {switchRemember : Bool}
      (hshort : isLong count email password = false) :
      Reports (.signUp email password switchRemember) .signUp
  | oldDataLoading : Reports .oldDataLoading .signIn

inductive Session.Stepped (s : Session) : SignLabel → Session → Prop where
  | asks {l : SignLabel} {c : Completion} (h : s.Asks count l c) :
      Stepped s l { s with net := s.net ++ [.request c] }
  | reports {l : SignLabel} {form : Form} (h : Session.Reports count l form) :
      Stepped s l { s with loginIsBool := s.loginIsBool ++ [(form, false)] }
  | serve {k : Nat} {ok : Bool} {c : Completion} {t : Session}
      (hk : s.net[k]? = some (.request c)) (hgrant : if ok then s.grant c = some t else t = s) :
      Stepped s (.serve k ok) { t with net := s.net.set k (.answer c (!ok)) }
  | deliver {k : Nat} {c : Completion} {error : Bool} (hk : s.net[k]? = some (.answer c error))
      (hcompletes : c.Completes error s.realm) : Stepped s (.deliver k) { s with
        net := s.net.eraseIdx k ++ (c.requests error).map .request
        loginIsBool := s.loginIsBool ++ c.emits error
        realm := s.realm ++ (c.writes error).toList }
  | signOut {ok : Bool} : Stepped s (.signOut ok) (s.signOut ok)
  | restart : Stepped s .restart { s with net := [] }

variable {count} {l : SignLabel}

theorem Session.step_stepped (h : s.step count l = some u) : s.Stepped count l u := by
  cases l with
  | signIn email password switchRemember =>
    rcases Session.performAll_guard rfl h with ⟨hlong, rfl⟩ | ⟨hshort, rfl⟩
    · exact .asks (.signIn hlong)
    · exact .reports (.signIn hshort)
  | signUp email password switchRemember =>
    rcases Session.performAll_guard rfl h with ⟨hlong, rfl⟩ | ⟨hshort, rfl⟩
    · exact .asks (.signUp hlong)
    · exact .reports (.signUp hshort)
  | oldDataLoading =>
    cases ho : readData s.realm with
    | none =>
      simp only [Session.step, SignInViewModel.oldDataLoading, ho] at h
      cases h
      exact .reports .oldDataLoading
    | some o =>
      simp only [Session.step, SignInViewModel.oldDataLoading, ho] at h
      rcases Session.performAll_guard rfl h with ⟨hlong, rfl⟩ | ⟨_, rfl⟩
      · exact .asks (.oldDataLoading ho hlong)
      · exact .reports .oldDataLoading
  | serve k ok =>
    obtain ⟨c, t, hk, hgrant, rfl⟩ := Session.serve_eq_some.mp h
    exact .serve hk hgrant
  | deliver k =>
    obtain ⟨c, error, hk, hcompletes, rfl⟩ := Session.deliver_eq_some.mp h
    exact .deliver hk hcompletes
  | signOut ok => cases h; exact .signOut
  | restart => cases h; exact .restart

end

/-! ## the store, and what is in flight -/

def Session.writes (s : Session) : SignLabel → Option RememberData
  | .deliver k =>
    match s.net[k]? with
    | some (.answer c error) => c.writes error
    | _ => none
  | _ => none

def Session.nextRealm (s : Session) : SignLabel → Realm
  | .signOut _ => []
  | l => s.realm ++ (s.writes l).toList

section
variable {count : String → Nat} {s u : Session} {l : SignLabel}

/-- **What a step does to the store.** -/
theorem Session.step_realm (h : s.step count l = some u) : u.realm = s.nextRealm l := by
  have hsame : s.writes l = none → s.realm = s.realm ++ (s.writes l).toList := by
    intro hw
    rw [hw]
    exact (List.append_nil _).symm
  cases Session.step_stepped h with
  | asks hasks => cases hasks <;> exact hsame rfl
  | reports hreports => cases hreports <;> exact hsame rfl
  | @serve k ok c t hk hgrant =>
    refine Eq.trans ?_ (hsame rfl)
    cases ok with
    | false => rw [show t = s from hgrant]
    | true => exact (Session.grant_keeps hgrant).1
  | @deliver k c error hk _ =>
    show _ = s.realm ++ (s.writes (.deliver k)).toList
    simp only [Session.writes, hk]
  | signOut => rfl
  | restart => exact hsame rfl

inductive Session.Puts (count : String → Nat) (s : Session) : SignLabel → SignTask → Prop where
  | asks {l : SignLabel} {c : Completion} (h : s.Asks count l c) : Puts count s l (.request c)
  | serve {k : Nat} {ok : Bool} {c : Completion} (hc : .request c ∈ s.net)
      (hgrant : ok = true → ∃ t, s.grant c = some t) : Puts count s (.serve k ok) (.answer c (!ok))
  | deliver {k : Nat} {email : String} : Puts count s (.deliver k) (.request (.setData email))

/-- **What is in flight after a step:** what was there, and what the step puts there. -/
theorem Session.step_net (h : s.step count l = some u) :
    ∀ task ∈ u.net, task ∈ s.net ∨ s.Puts count l task := by
  intro task ht
  cases Session.step_stepped h with
  | asks hasks =>
    refine (List.mem_append.mp ht).imp_right fun ht => ?_
    rw [List.mem_singleton.mp ht]
    exact .asks hasks
  | reports _ => exact .inl ht
  | @serve k ok c t hk hgrant =>
    refine (List.mem_or_eq_of_mem_set ht).imp_right fun ht => ?_
    rw [ht]
    refine .serve (List.mem_of_getElem? hk) fun hok => ⟨t, ?_⟩
    rwa [if_pos hok] at hgrant
  | @deliver k c error hk _ =>
    refine (List.mem_append.mp ht).imp List.mem_of_mem_eraseIdx fun ht => ?_
    obtain ⟨c', hc', rfl⟩ := List.mem_map.mp ht
    cases c with
    | createUser email password switchRemember =>
      cases error with
      | true => cases hc'
      | false => rw [List.mem_singleton.mp hc']; exact .deliver
    | signIn email password switchRemember => cases hc'
    | setData email => cases hc'
  | signOut => exact .inl ht
  | restart => cases ht

/-- **What a step does to the accounts:** none, or the one that a sign-up has asked for. -/
theorem Session.step_accounts (h : s.step count l = some u) : u.accounts = s.accounts ∨
    ∃ email password switchRemember,
      .request (.createUser email password switchRemember) ∈ s.net ∧
        u.accounts = email :: s.accounts := by
  cases Session.step_stepped h with
  | @serve k ok c t hk hgrant =>
    cases ok with
    | false =>
      obtain rfl : t = s := hgrant
      exact .inl rfl
    | true =>
      cases c with
      | signIn email password switchRemember =>
        obtain ⟨_, rfl⟩ := Session.grant_signIn.mp hgrant
        exact .inl rfl
      | createUser email password switchRemember =>
        obtain ⟨_, rfl⟩ := Session.grant_createUser.mp hgrant
        exact .inr ⟨_, _, _, List.mem_of_getElem? hk, rfl⟩
      | setData email => cases hgrant; exact .inl rfl
  | _ => exact .inl rfl

def SignTask.completion : SignTask → Completion
  | .request c => c
  | .answer c _ => c

def Guarded (count : String → Nat) (s : Session) : Prop :=
  ∀ task ∈ s.net, task.completion.isLong count

theorem Session.step_guarded (hs : Guarded count s) (h : s.step count l = some u) :
    Guarded count u := by
  intro task ht
  rcases Session.step_net h task ht with ht | hputs
  · exact hs task ht
  · cases hputs with
    | asks h =>
      cases h with
      | signIn hlong => exact hlong
      | signUp hlong => exact hlong
      | oldDataLoading _ hlong => exact hlong
    | serve hc _ => exact hs (.request _) hc
    | deliver => trivial

end

end VoteOnOffice
