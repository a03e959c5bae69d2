import VoteOnOffice.App.Session

/-!
# A sign-up in three stores: when it leaves a half of itself behind

`loginInSistem` of `SignUpViewModel` makes an account, then requests the user's document and, without
waiting for it, writes the login to the store; nothing is taken back.

* `outcomes ls`        which requests the cloud grants in the run `ls`;
* `Database.finds`     `whereField("userEmail", isEqualTo: email)` finds a document;
* `CleanSignUp s u`    from `s` to `u` all has been done or nothing has, and it has been reported so;
* `SignUpAttempt`      the four ways that a sign-up can go, with what each leaves in the stores;
* `attempt_cases`      a sign-up on its own goes one of them;
* `signUp_clean_iff`   **a sign-up is clean iff the document is not refused to a new account, is a document
                       of `Users` and is not there already**.
-/

namespace VoteOnOffice

def SignLabel.answers : SignLabel → Prop
  | .serve _ _ => True
  | .deliver _ => True
  | _ => False

def SignLabel.outcome : SignLabel → Option Bool
  | .serve _ ok => some ok
  | _ => none

def outcomes (ls : List SignLabel) : List Bool := ls.filterMap SignLabel.outcome

def Database.finds (db : Database) (email : String) : Prop :=
  db.getDocuments (.usersWhere email) ≠ []

structure CleanSignUp (s u : Session) (email password : String) (switchRemember : Bool) : Prop where
  failed : u.loginIsBool = s.loginIsBool ++ [(.signUp, false)] →
    u.accounts = s.accounts ∧ u.db = s.db ∧ u.realm = s.realm
  succeeded : u.loginIsBool = s.loginIsBool ++ [(.signUp, true)] →
    (email ∉ s.accounts ∧ u.accounts = email :: s.accounts) ∧
    (∃ id, s.db.users.lookup id = none ∧ u.db = s.db.setData .users id (userData email)) ∧
    u.realm = s.realm ++ if switchRemember then [⟨email, password⟩] else []
  /-- who can sign in has a document -/
  covered : (∀ a ∈ s.accounts, s.db.finds a) → ∀ a ∈ u.accounts, u.db.finds a

/-- what a sign-up leaves in the three stores, and what it reports -/
structure Leaves (s u : Session) (accounts : List String) (db : Database) (realm : Realm)
    (reported : Bool) : Prop where
  accounts : u.accounts = accounts
  db : u.db = db
  realm : u.realm = realm
  loginIsBool : u.loginIsBool = s.loginIsBool ++ [(.signUp, reported)]

/-- the ways that a sign-up can go from `s`, by what the cloud grants -/
inductive SignUpAttempt (count : String → Nat) (s u : Session) (email password : String)
    (switchRemember : Bool) : List Bool → Prop where
  | short (hlong : isLong count email password = false)
      (h : Leaves s u s.accounts s.db s.realm false) :
      SignUpAttempt count s u email password switchRemember []
  | refused (hlong : isLong count email password = true)
      (h : Leaves s u s.accounts s.db s.realm false) :
      SignUpAttempt count s u email password switchRemember [false]
  | half (hlong : isLong count email password = true) (hnew : email ∉ s.accounts)
      (h : Leaves s u (email :: s.accounts) s.db
        (s.realm ++ if switchRemember then [⟨email, password⟩] else []) false) :
      SignUpAttempt count s u email password switchRemember [true, false]
  | whole (hlong : isLong count email password = true) (hnew : email ∉ s.accounts)
      (h : Leaves s u (email :: s.accounts) (s.db.setUser email)
        (s.realm ++ if switchRemember then [⟨email, password⟩] else []) true) :
      SignUpAttempt count s u email password switchRemember [true, true]

section
variable {count : String → Nat} {s u : Session} {ls : List SignLabel}

theorem exec_done (hnet : s.net = []) (hls : ∀ l ∈ ls, l.answers)
    (hrun : Machine.exec (Session.step count) s ls = some u) : ls = [] ∧ u = s := by
  cases ls with
  | nil =>
    cases hrun
    exact ⟨rfl, rfl⟩
  | cons l ls =>
    obtain ⟨t, ht, _⟩ := (Machine.exec_cons _).mp hrun
    cases l with
    | serve k ok =>
      obtain ⟨c, _, hk, _⟩ := Session.serve_eq_some.mp ht
      rw [hnet] at hk
      cases hk
    | deliver k =>
      obtain ⟨c, error, hk, _⟩ := Session.deliver_eq_some.mp ht
      rw [hnet] at hk
      cases hk
    | _ => exact (hls _ List.mem_cons_self).elim

theorem getElem?_singleton_eq {α : Type} {x y : α} {k : Nat} (h : [x][k]? = some y) :
    k = 0 ∧ x = y := by
  cases k with
  | zero => exact ⟨rfl, Option.some.inj h⟩
  | succ k => cases h

theorem exec_answer {c : Completion} {error : Bool} (hnet : s.net = [.answer c error])
    (hls : ∀ l ∈ ls, l.answers) (hrun : Machine.exec (Session.step count) s ls = some u)
    (hu : u.net = []) : ∃ rest t, ls = .deliver 0 :: rest ∧ s.deliver 0 = some t ∧
      Machine.exec (Session.step count) t rest = some u := by
  cases ls with
  | nil =>
    cases hrun
    rw [hnet] at hu
    cases hu
  | cons l rest =>
    obtain ⟨t, ht, hrest⟩ := (Machine.exec_cons _).mp hrun
    cases l with
    | serve k ok =>
      obtain ⟨c', _, hk, _⟩ := Session.serve_eq_some.mp ht
      rw [hnet] at hk
      cases (getElem?_singleton_eq hk).2
    | deliver k =>
      obtain ⟨c', error', hk, _⟩ := Session.deliver_eq_some.mp ht
      rw [hnet] at hk
      obtain ⟨rfl, _⟩ := getElem?_singleton_eq hk
      exact ⟨rest, t, rfl, ht, hrest⟩
    | _ => exact (hls _ List.mem_cons_self).elim

theorem exec_request {c : Completion} (hnet : s.net = [.request c]) (hls : ∀ l ∈ ls, l.answers)
    (hrun : Machine.exec (Session.step count) s ls = some u) (hu : u.net = []) :
    ∃ ok rest t v, ls = .serve 0 ok :: .deliver 0 :: rest ∧
      (if ok then s.grant c = some t else t = s) ∧
      Session.deliver { t with net := [.answer c (!ok)] } 0 = some v ∧
      Machine.exec (Session.step count) v rest = some u := by
  cases ls with
  | nil =>
    cases hrun
    rw [hnet] at hu
    cases hu
  | cons l rest =>
    obtain ⟨t, ht, hrest⟩ := (Machine.exec_cons _).mp hrun
    cases l with
    | serve k ok =>
      obtain ⟨c', t', hk, hgrant, rfl⟩ := Session.serve_eq_some.mp ht
      rw [hnet] at hk
      obtain ⟨rfl, hc⟩ := getElem?_singleton_eq hk
      cases hc
      rw [hnet] at hrest
      obtain ⟨rest', v, rfl, hv, hrest'⟩ :=
        exec_answer rfl (fun x hx => hls x (List.mem_cons_of_mem _ hx)) hrest hu
      exact ⟨ok, rest', t', v, rfl, hgrant, hv, hrest'⟩
    | deliver k =>
      obtain ⟨c', error', hk, _⟩ := Session.deliver_eq_some.mp ht
      rw [hnet] at hk
      cases (getElem?_singleton_eq hk).2
    | _ => exact (hls _ List.mem_cons_self).elim

theorem toList_writes {email password : String} {switchRemember : Bool} {realm : Realm}
    (h : (Completion.createUser email password switchRemember).Completes false realm) :
    (Completion.writes false (.createUser email password switchRemember)).toList
      = if switchRemember then [⟨email, password⟩] else [] := by
  obtain ⟨path, hpath⟩ := Option.isSome_iff_exists.mp (h.asks _ (List.mem_singleton_self _))
  cases switchRemember with
  | false => rfl
  | true => simp [Completion.writes, hpath]

/-- **A sign-up on its own.** -/
theorem attempt_cases {email password : String} {switchRemember : Bool} (hnet : s.net = [])
    (hls : ∀ l ∈ ls, l.answers) (hrun : Machine.exec (Session.step count) s
      (.signUp email password switchRemember :: ls) = some u) (hu : u.net = []) :
    SignUpAttempt count s u email password switchRemember (outcomes ls) := by
  obtain ⟨t, ht, hrest⟩ := (Machine.exec_cons _).mp hrun
  rcases Session.performAll_guard rfl ht with ⟨hlong, rfl⟩ | ⟨hlong, rfl⟩
  · -- `createUser` is asked
    obtain ⟨ok, rest, t, v, rfl, hgrant, hv, hrest⟩ :=
      exec_request (by rw [hnet]; rfl) hls hrest hu
    have hls' : ∀ l ∈ rest, l.answers := fun l hl =>
      hls l (List.mem_cons_of_mem _ (List.mem_cons_of_mem _ hl))
    obtain ⟨c, error, hk, hcompletes, rfl⟩ := Session.deliver_eq_some.mp hv
    cases hk
    cases ok with
    | false =>
      obtain rfl : t = _ := hgrant
      obtain ⟨rfl, rfl⟩ := exec_done rfl hls' hrest
      exact .refused hlong ⟨rfl, rfl, List.append_nil _, rfl⟩
    | true =>
      obtain ⟨hnew, rfl⟩ := Session.grant_createUser.mp hgrant
      -- and `setData`
      have hwrites := toList_writes hcompletes
      obtain ⟨ok, rest, t, v, rfl, hgrant, hv, hrest⟩ := exec_request rfl hls' hrest hu
      have hls'' : ∀ l ∈ rest, l.answers := fun l hl =>
        hls' l (List.mem_cons_of_mem _ (List.mem_cons_of_mem _ hl))
      obtain ⟨c, error, hk, _, rfl⟩ := Session.deliver_eq_some.mp hv
      cases hk
      cases ok with
      | false =>
        obtain rfl : t = _ := hgrant
        obtain ⟨rfl, rfl⟩ := exec_done rfl hls'' hrest
        refine .half hlong hnew ⟨rfl, rfl, ?_, ?_⟩
        · rw [← hwrites]
          exact List.append_nil _
        · exact congrArg (· ++ _) (List.append_nil _)
      | true =>
        cases hgrant
        obtain ⟨rfl, rfl⟩ := exec_done rfl hls'' hrest
        refine .whole hlong hnew ⟨rfl, rfl, ?_, ?_⟩
        · rw [← hwrites]
          exact List.append_nil _
        · exact congrArg (· ++ _) (List.append_nil _)
  · obtain ⟨rfl, rfl⟩ := exec_done (by exact hnet) hls hrest
    exact .short hlong ⟨rfl, rfl, rfl, rfl⟩

section
variable {email password : String} {switchRemember : Bool}

theorem Leaves.clean (h : Leaves s u s.accounts s.db s.realm false) :
    CleanSignUp s u email password switchRemember where
  failed := fun _ => ⟨h.accounts, h.db, h.realm⟩
  succeeded := by
    intro hs
    rw [h.loginIsBool, List.append_right_inj] at hs
    cases hs
  covered := by
    intro hs a ha
    rw [h.accounts] at ha
    rw [h.db]
    exact hs a ha

theorem Leaves.not_clean {realm : Realm} (h : Leaves s u (email :: s.accounts) s.db realm false) :
    ¬ CleanSignUp s u email password switchRemember := by
  intro hc
  have haccounts := (hc.failed h.loginIsBool).1
  rw [h.accounts] at haccounts
  exact List.cons_ne_self _ _ haccounts

theorem finds_setData {db : Database} {id : String} (hnone : db.users.lookup id = none) {a : String}
    (ha : db.finds a ∨ a = email) : (db.setData .users id (userData email)).finds a := by
  rcases ha with ha | rfl
  · obtain ⟨d, hd⟩ := List.exists_mem_of_ne_nil _ ha
    obtain ⟨⟨k, hk⟩, hselects⟩ := Database.mem_getDocuments.mp hd
    have hk : db.users.lookup k = some d := hk
    have hne : k ≠ id := by
      rintro rfl
      rw [hnone] at hk
      cases hk
    exact List.ne_nil_of_mem (Database.mem_getDocuments.mpr
      ⟨⟨k, (AList.lookup_insert_ne hne).trans hk⟩, hselects⟩)
  · exact List.ne_nil_of_mem (Database.mem_getDocuments.mpr
      ⟨⟨id, AList.lookup_insert _⟩, decide_eq_true rfl⟩)

theorem userDocument_of_added {db : Database} {id : String} (hnone : db.users.lookup id = none)
    (h : db.setUser email = db.setData .users id (userData email)) :
    userDocument email = some id := by
  have hafter : (db.setUser email).users.lookup id = some (userData email) := by
    rw [h]
    exact AList.lookup_insert _
  rw [Database.setUser_users] at hafter
  by_contra hne
  rw [if_neg hne, hnone] at hafter
  cases hafter

theorem Leaves.clean_iff (h : Leaves s u (email :: s.accounts) (s.db.setUser email)
    (s.realm ++ if switchRemember then [⟨email, password⟩] else []) true)
    (hnew : email ∉ s.accounts) : CleanSignUp s u email password switchRemember ↔
      ∃ id, userDocument email = some id ∧ s.db.users.lookup id = none := by
  constructor
  · intro hc
    obtain ⟨id, hnone, hdb⟩ := (hc.succeeded h.loginIsBool).2.1
    exact ⟨id, userDocument_of_added hnone (h.db.symm.trans hdb), hnone⟩
  · rintro ⟨id, hid, hnone⟩
    have hdb : u.db = s.db.setData .users id (userData email) := by
      rw [h.db]
      unfold Database.setUser
      rw [hid]
    refine ⟨fun hf => ?_, fun _ => ⟨⟨hnew, h.accounts⟩, ⟨id, hnone, hdb⟩, h.realm⟩, fun hs a ha => ?_⟩
    · rw [h.loginIsBool, List.append_right_inj] at hf
      cases hf
    · rw [h.accounts] at ha
      rw [hdb]
      exact finds_setData hnone ((List.mem_cons.mp ha).symm.imp_left (hs a))

/-- **A sign-up is clean iff the document is not refused to the account just made, is a document of
`Users`, and is not there already.** -/
theorem signUp_clean_iff (hnet : s.net = []) (hls : ∀ l ∈ ls, l.answers)
    (hrun : Machine.exec (Session.step count) s
      (.signUp email password switchRemember :: ls) = some u) (hu : u.net = []) :
    CleanSignUp s u email password switchRemember ↔ outcomes ls ≠ [true, false] ∧
      (outcomes ls = [true, true] →
        ∃ id, userDocument email = some id ∧ s.db.users.lookup id = none) := by
  have hcases := attempt_cases hnet hls hrun hu
  generalize outcomes ls = oks at hcases
  cases hcases with
  | short _ h => exact iff_of_true h.clean ⟨by decide, fun h => by cases h⟩
  | refused _ h => exact iff_of_true h.clean ⟨by decide, fun h => by cases h⟩
  | half _ _ h => exact iff_of_false h.not_clean fun hn => hn.1 rfl
  | whole _ hnew h =>
    rw [h.clean_iff hnew]
    exact ⟨fun hnone => ⟨by decide, fun _ => hnone⟩, fun hn => hn.2 rfl⟩

end

end

/-! ## a document that is refused -/

/-- `createUser` is granted, `setData` is not -/
def refusedDocument : List SignLabel := [.serve 0 true, .deliver 0, .serve 0 false, .deliver 0]

theorem answers_refusedDocument : ∀ l ∈ refusedDocument, l.answers := by
  intro l hl
  simp only [refusedDocument, List.mem_cons, List.not_mem_nil, or_false] at hl
  rcases hl with rfl | rfl | rfl | rfl <;> exact trivial

theorem signUp_clean_refused : ∃ u, Machine.exec (Session.step String.length) (.fresh [] .empty)
      (.signUp "alice@x.y" "secret1" true :: refusedDocument) = some u ∧
    (CleanSignUp (.fresh [] .empty) u "alice@x.y" "secret1" true ↔
      outcomes refusedDocument ≠ [true, false] ∧
        (outcomes refusedDocument = [true, true] → ∃ id, userDocument "alice@x.y" = some id ∧
          (Session.fresh [] .empty).db.users.lookup id = none)) := by
  refine ⟨_, rfl, ?_⟩
  exact @signUp_clean_iff String.length _ _ _ _ _ _ rfl answers_refusedDocument rfl rfl

/-- **Failure is reported; an account without a document and the login in the store are left.** -/
theorem account_left : ∃ u, Machine.exec (Session.step String.length) (.fresh [] .empty)
      (.signUp "alice@x.y" "secret1" true :: refusedDocument) = some u ∧ u.net = [] ∧
    u.loginIsBool = [(.signUp, false)] ∧ u.accounts = ["alice@x.y"] ∧
    u.db.users.lookup "alice@x.y" = none ∧ u.realm = [⟨"alice@x.y", "secret1"⟩] ∧
    ¬ CleanSignUp (.fresh [] .empty) u "alice@x.y" "secret1" true := by
  refine ⟨_, rfl, rfl, rfl, rfl, rfl, rfl, fun hc => ?_⟩
  cases (hc.failed rfl).1

end VoteOnOffice
