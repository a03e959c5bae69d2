import VoteOnOffice.Accounts.Remembered

/-!
# What the session reports and stores is backed by the cloud

* `SignTask.backed s`   an answer in flight that was granted has its account, and its document;
* `Backed count s`      the invariant: accounts, documents, stored logins and what is in flight;
* `Session.step_backed` every step keeps it;
* `stored_backed`       **what the automatic sign-in reads passes the guard and has an account;**
* `success_backed`      **success is reported only to an account, and after a sign-up only when the
                        document is there.**
-/

namespace VoteOnOffice

/-- the document at `document(email)` is there, if that is in `Users` -/
def Session.hasDocument (s : Session) (email : String) : Prop :=
  ∀ id, userDocument email = some id → (s.db.users.lookup id).isSome = true

def SignTask.backed (s : Session) : SignTask → Prop
  | .request (.setData email) => email ∈ s.accounts
  | .answer (.setData email) error =>
    email ∈ s.accounts ∧ (error = false → s.hasDocument email)
  | .answer (.signIn email _ _) false => email ∈ s.accounts
  | .answer (.createUser email _ _) false => email ∈ s.accounts
  | _ => True

structure Backed (count : String → Nat) (s : Session) : Prop where
  guarded : Guarded count s
  logins : (s.realm.map RememberData.login).Nodup
  stored : ∀ o ∈ s.realm, isLong count o.login o.password = true ∧ o.login ∈ s.accounts
  net : ∀ task ∈ s.net, task.backed s

def Completion.email : Completion → String
  | .signIn email _ _ => email
  | .createUser email _ _ => email
  | .setData email => email

section
variable {count : String → Nat} {s u : Session} {l : SignLabel}

theorem SignTask.backed_mono (haccounts : ∀ email ∈ s.accounts, email ∈ u.accounts)
    (hdocuments : ∀ email, s.hasDocument email → u.hasDocument email)
    {task : SignTask} (h : task.backed s) : task.backed u := by
  cases task with
  | request c =>
    cases c with
    | setData email => exact haccounts email h
    | _ => exact trivial
  | answer c error =>
    cases c with
    | setData email => exact ⟨haccounts email h.1, fun he => hdocuments email (h.2 he)⟩
    | signIn email password switchRemember =>
      cases error with
      | false => exact haccounts email h
      | true => trivial
    | createUser email password switchRemember =>
      cases error with
      | false => exact haccounts email h
      | true => trivial

theorem SignTask.backed_email {c : Completion} (h : (SignTask.answer c false).backed s) :
    c.email ∈ s.accounts := by
  cases c with
  | setData email => exact h.1
  | _ => exact h

theorem login_of_writes {c : Completion} {error : Bool} {o : RememberData}
    (h : c.writes error = some o) : error = false ∧ o.login = c.email := by
  obtain ⟨rfl, rfl | ⟨rfl, _⟩⟩ := writes_eq_some.mp h
  · exact ⟨rfl, rfl⟩
  · exact ⟨rfl, rfl⟩

theorem hasDocument_setUser (s : Session) (email : String) {e : String}
    (h : e = email ∨ s.hasDocument e) :
    Session.hasDocument { s with db := s.db.setUser email } e := by
  intro id hid
  show ((s.db.setUser email).users.lookup id).isSome = true
  rw [Database.setUser_users]
  by_cases he : userDocument email = some id
  · rw [if_pos he]
    rfl
  · rw [if_neg he]
    rcases h with rfl | h
    · exact absurd hid he
    · exact h id hid

theorem Session.grant_backed {c : Completion} {t : Session} (hc : (SignTask.request c).backed s)
    (hgrant : s.grant c = some t) : (∀ email ∈ s.accounts, email ∈ t.accounts) ∧
      (∀ email, s.hasDocument email → t.hasDocument email) ∧ (SignTask.answer c false).backed t := by
  cases c with
  | signIn email password switchRemember =>
    obtain ⟨he, rfl⟩ := Session.grant_signIn.mp hgrant
    exact ⟨fun _ he => he, fun _ hd => hd, he⟩
  | createUser email password switchRemember =>
    obtain ⟨_, rfl⟩ := Session.grant_createUser.mp hgrant
    exact ⟨fun e he => List.mem_cons_of_mem _ he, fun _ hd => hd, List.mem_cons_self⟩
  | setData email =>
    cases hgrant
    exact ⟨fun _ he => he, fun _ hd => hasDocument_setUser s email (.inr hd), hc,
      fun _ => hasDocument_setUser s email (.inl rfl)⟩

/-- what a session has in flight stays backed where no account and no document goes -/
theorem Backed.flying (h : Backed count s)
    (haccounts : ∀ email ∈ s.accounts, email ∈ u.accounts)
    (hdocuments : ∀ email, s.hasDocument email → u.hasDocument email) :
    ∀ task ∈ s.net, task.backed u := fun task ht =>
  SignTask.backed_mono haccounts hdocuments (h.net task ht)

/-- **Every step keeps the session backed.** -/
theorem Session.step_backed (h : Backed count s) (hs : s.step count l = some u) :
    Backed count u := by
  have hguarded := Session.step_guarded h.guarded hs
  cases Session.step_stepped hs with
  | asks hasks =>
    refine ⟨hguarded, h.logins, h.stored, fun task ht => ?_⟩
    rcases List.mem_append.mp ht with ht | ht
    · exact h.flying (fun _ he => he) (fun _ hd => hd) task ht
    · rw [List.mem_singleton.mp ht]
      cases hasks <;> exact trivial
  | reports _ =>
    exact ⟨hguarded, h.logins, h.stored,
      h.flying (fun _ he => he) (fun _ hd => hd)⟩
  | @serve k ok c t hk hgrant =>
    have hc : (SignTask.request c).backed s := h.net _ (List.mem_of_getElem? hk)
    cases ok with
    | false =>
      obtain rfl : t = s := hgrant
      refine ⟨hguarded, h.logins, h.stored, fun task ht => ?_⟩
      rcases List.mem_or_eq_of_mem_set ht with ht | rfl
      · exact h.flying (fun _ he => he) (fun _ hd => hd) task ht
      · cases c with
        | setData email => exact ⟨hc, nofun⟩
        | _ => exact trivial
    | true =>
      obtain ⟨haccounts, hdocuments, hanswer⟩ := Session.grant_backed hc hgrant
      obtain ⟨hrealm, _⟩ := Session.grant_keeps hgrant
      refine ⟨hguarded, ?_, fun o ho => ?_, fun task ht => ?_⟩
      · show (t.realm.map _).Nodup
        rw [hrealm]
        exact h.logins
      · have ho : o ∈ t.realm := ho
        rw [hrealm] at ho
        exact ⟨(h.stored o ho).1, haccounts _ (h.stored o ho).2⟩
      · rcases List.mem_or_eq_of_mem_set ht with ht | rfl
        · exact h.flying (u := t) haccounts hdocuments task ht
        · exact hanswer
  | @deliver k c error hk hcompletes =>
    have hc : (SignTask.answer c error).backed s := h.net _ (List.mem_of_getElem? hk)
    refine ⟨hguarded, ?_, fun o ho => ?_, fun task ht => ?_⟩
    · show ((s.realm ++ (c.writes error).toList).map _).Nodup
      cases ho : c.writes error with
      | none => simpa using h.logins
      | some o =>
        rw [List.map_append]
        exact List.nodup_append'.mpr ⟨h.logins, List.nodup_singleton _,
          List.disjoint_singleton.mpr (hcompletes.writes o ho)⟩
    · rcases List.mem_append.mp ho with ho | ho
      · exact h.stored o ho
      · -- the login comes from a granted answer, whose request has passed the guard
        have ho := Option.mem_toList.mp ho
        obtain ⟨rfl, hlogin⟩ := login_of_writes ho
        refine ⟨isLong_of_writes (h.guarded _ (List.mem_of_getElem? hk)) ho, ?_⟩
        rw [hlogin]
        exact SignTask.backed_email hc
    · rcases List.mem_append.mp ht with ht | ht
      · exact h.flying (fun _ he => he) (fun _ hd => hd) task (List.mem_of_mem_eraseIdx ht)
      · obtain ⟨c', hc', rfl⟩ := List.mem_map.mp ht
        cases c with
        | createUser email password switchRemember =>
          cases error with
          | true => cases hc'
          | false => rw [List.mem_singleton.mp hc']; exact hc
        | _ => cases hc'
  | signOut =>
    exact ⟨hguarded, List.nodup_nil, fun o ho => absurd ho List.not_mem_nil,
      h.flying (fun _ he => he) (fun _ hd => hd)⟩
  | restart =>
    exact ⟨hguarded, h.logins, h.stored,
      fun task ht => absurd ht List.not_mem_nil⟩

variable {accounts : List String} {db : Database} {ls : List SignLabel}

theorem run_backed
    (hrun : Machine.exec (Session.step count) (.fresh accounts db) ls = some s) :
    Backed count s :=
  Machine.exec_invariant _ (A := fun _ => True) (fun _ _ _ hs _ h => Session.step_backed hs h)
    (fun _ _ => trivial) hrun ⟨fun _ h => absurd h List.not_mem_nil, List.nodup_nil,
      fun _ h => absurd h List.not_mem_nil, fun _ h => absurd h List.not_mem_nil⟩

/-- **What is remembered is usable**: logins are stored once each, all of them pass the guard and
have an account, and the automatic sign-in asks for the first of them, which the cloud can grant. -/
theorem stored_backed
    (hrun : Machine.exec (Session.step count) (.fresh accounts db) ls = some s) :
    (s.realm.map RememberData.login).Nodup ∧
    (∀ o ∈ s.realm, isLong count o.login o.password = true ∧ o.login ∈ s.accounts) ∧
    ∀ o, readData s.realm = some o → ∃ v, s.step count .oldDataLoading = some v ∧
      v.net = s.net ++ [.request (.signIn o.login o.password false)] ∧
      v.grant (.signIn o.login o.password false) = some v := by
  have hbacked := run_backed hrun
  refine ⟨hbacked.logins, hbacked.stored, fun o ho => ?_⟩
  obtain ⟨hlong, haccount⟩ := hbacked.stored o (List.mem_of_mem_head? ho)
  obtain ⟨v, hv, hnet⟩ := oldDataLoading_submits ho hlong
  refine ⟨v, hv, hnet, Session.grant_signIn.mpr ⟨?_, rfl⟩⟩
  rcases Session.step_accounts hv with haccounts | ⟨email, _, _, _, haccounts⟩
  · rw [haccounts]; exact haccount
  · rw [haccounts]; exact List.mem_cons_of_mem _ haccount

/-- **Success is reported to accounts only**, by a closure whose request was granted; after a sign-up
the document is there too, if the e-mail leads to one of `Users`. -/
theorem success_backed
    (hrun : Machine.exec (Session.step count) (.fresh accounts db) ls = some s)
    (hs : s.step count l = some u) {form : Form}
    (hemit : u.loginIsBool = s.loginIsBool ++ [(form, true)]) :
    ∃ k c, l = .deliver k ∧ s.net[k]? = some (.answer c false) ∧
      c.emits false = [(form, true)] ∧ c.email ∈ u.accounts ∧
      (form = .signUp → u.hasDocument c.email) := by
  have hbacked := run_backed hrun
  have hnone : ∀ {x : List (Form × Bool)}, x = x ++ [(form, true)] → False := fun h => by
    have := congrArg List.length h
    simp at this
  cases Session.step_stepped hs with
  | @deliver k c error hk hnew =>
    have hemit : c.emits error = [(form, true)] := List.append_cancel_left hemit
    have hc : (SignTask.answer c error).backed s := hbacked.net _ (List.mem_of_getElem? hk)
    cases error with
    | true =>
      cases c <;> simp [Completion.emits] at hemit
    | false =>
      refine ⟨k, c, rfl, hk, hemit, SignTask.backed_email hc, fun hform => ?_⟩
      cases c with
      | setData email => exact hc.2 rfl
      | signIn email password switchRemember => subst hform; cases hemit
      | createUser email password switchRemember => cases hemit
  | @reports l form' _ =>
    have := List.append_cancel_left hemit
    cases this
  | @serve k ok c t hk hgrant =>
    have hsame : t.loginIsBool = s.loginIsBool := by
      cases ok with
      | false => rw [show t = s from hgrant]
      | true => exact (Session.grant_keeps hgrant).2.2.1
    have hemit : t.loginIsBool = s.loginIsBool ++ [(form, true)] := hemit
    rw [hsame] at hemit
    exact (hnone hemit).elim
  | _ => exact (hnone hemit).elim

end

def carolUp : List SignLabel :=
  [.signUp "carol@x.y" "secret1" true, .serve 0 true, .deliver 0, .serve 0 true]

theorem stored_backed_carol :
    ((Session.reached carolUp).realm.map RememberData.login).Nodup ∧
    ∀ o, readData (Session.reached carolUp).realm = some o →
      ∃ v, (Session.reached carolUp).step String.length .oldDataLoading = some v ∧
        v.net = (Session.reached carolUp).net ++ [.request (.signIn o.login o.password false)] ∧
        v.grant (.signIn o.login o.password false) = some v := by
  obtain ⟨h1, _, h2⟩ := @stored_backed String.length _ ["alice@x.y", "bobby@x.y"] .empty carolUp (run_reached carolUp (by decide))
  exact ⟨h1, h2⟩

theorem success_backed_carol : ∃ k c, SignLabel.deliver 0 = .deliver k ∧
    (Session.reached carolUp).net[k]? = some (.answer c false) ∧
    (Session.reached (carolUp ++ [.deliver 0])).hasDocument c.email := by
  obtain ⟨k, c, hl, hk, _, _, hdoc⟩ := @success_backed String.length _
    (.reached (carolUp ++ [.deliver 0])) (.deliver 0) ["alice@x.y", "bobby@x.y"] .empty carolUp (run_reached carolUp (by decide)) rfl .signUp rfl
  exact ⟨k, c, hl, hk, hdoc rfl⟩

end VoteOnOffice
