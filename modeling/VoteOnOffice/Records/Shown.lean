import VoteOnOffice.Records.Causes
import VoteOnOffice.Records.Lifetime

/-!
# The screens show what was stored

* `Does.arr`, `Does.status`, `Does.row`, `Does.readUsers`
                       the answer from which a step shows something, or reads the user for a row;
* `answered`           an answer has the documents that its query found at an earlier moment;
* `System.stepSeeing`  a step where reads are answered with what the client library sees, which need not
                       be what is stored: it applies writes of the device that are on their way;
* `SeesStored`         in this run it sees what is stored;
* `shown_stored`       **then no screen ever shows a counter, a role, a row or a mark that was not stored
                       at some moment of the run.**
-/

namespace VoteOnOffice

section
variable {s : System} {l : Label} {main : Nat}

/-! ## what a step shows -/

theorem System.Does.arr {view : Nat} {array : List Record} (h : s.Does l (.arr view array)) :
    ∃ emailString UUID r ds d, .reply r (.reloadViewData view emailString UUID) ∈ s.net ∧
      r.snapshot = some ds ∧ d ∈ ds ∧ d .voteVariants = some (.records array) := by
  cases h with
  | @closure k r cb es _ hnet hrun he =>
    cases run_emits hrun he with
    | @arr _ emailString UUID ds d _ hds hd ha =>
      exact ⟨emailString, UUID, r, ds, d, hnet, hds, hd, ha⟩

theorem System.Does.status {status : Bool} (h : s.Does l (.adminStatus main status)) :
    ∃ dtc r es, .reply r (.readUsers main dtc) ∈ s.net ∧
      readUsersClosure main dtc (s.itemsDtc main) r = .ok es ∧ .adminStatus main status ∈ es := by
  cases h with
  | @closure k r cb es _ hnet hrun he =>
    cases run_emits hrun he with
    | @status _ dtc _ => exact ⟨dtc, r, es, hnet, hrun, he⟩

theorem System.Does.row {items : List DataVoteCell} {dtc : DataVoteCell}
    (h : s.Does l (.items main items)) (hnew : dtc ∉ s.itemsDtc main) (hdtc : dtc ∈ items) :
    ∃ dtc₀ r es, .reply r (.readUsers main dtc₀) ∈ s.net ∧
      readUsersClosure main dtc₀ (s.itemsDtc main) r = .ok es ∧ .items main items ∈ es := by
  cases h with
  | @closure k r cb es _ hnet hrun he =>
    cases run_emits hrun he with
    | @row _ dtc₀ _ => exact ⟨dtc₀, r, es, hnet, hrun, he⟩
    | removed => exact absurd (List.mem_of_mem_eraseIdx hdtc) hnew
  | disappear => cases hdtc

theorem System.Does.readUsers {q : Query} {dtc : DataVoteCell}
    (h : s.Does l (.getDocuments q (.readUsers main dtc))) :
    ∃ emailString r ds d, .reply r (.readDataBase main emailString) ∈ s.net ∧
      r.snapshot = some ds ∧ d ∈ ds ∧ dtc = dataVoteInit d := by
  cases h with
  | @closure k r cb es _ hnet hrun he =>
    cases run_emits hrun he with
    | asks _ hk => cases hk
    | @vote _ emailString ds d hds hd => exact ⟨emailString, r, ds, d, hnet, hds, hd, rfl⟩

theorem readUsersClosure_single {dtc : DataVoteCell} {itemsDtc : List DataVoteCell} {d : Document}
    {es : List Effect} (h : readUsersClosure main dtc itemsDtc (.ok [d]) = .ok es) :
    ∃ status arrays, Value.asBool (d .userRole) = some status ∧
      d .userVotesList = some (.records arrays) ∧
      es = [.adminStatus main status, .items main (itemsDtc ++ [dtc.shown arrays])] := by
  have h : readUsersLoop main dtc itemsDtc [d] = .ok es := h
  obtain ⟨status, arrays, es', hstatus, harrays, hnil, rfl⟩ := readUsersLoop_cons.mp h
  cases hnil
  exact ⟨status, arrays, hstatus, harrays, rfl⟩

theorem shown_status {dtc : DataVoteCell} (h : dtc.status = false) (arrays : List Record) :
    (dtc.shown arrays).title = dtc.title ∧ (dtc.shown arrays).time = dtc.time ∧
      ((dtc.shown arrays).status = true ↔ entries dtc.UUID arrays ≠ []) := by
  unfold DataVoteCell.shown entries
  cases arrays.filter (isFor dtc.UUID) with
  | nil => exact ⟨rfl, rfl, by simp [h]⟩
  | cons r rest => exact ⟨rfl, rfl, by simp⟩

end

/-! ## whole runs -/

section
variable {ls : List Label} {s : System} (hrun : System.Run .initial ls s)
include hrun

theorem run_wellKeyed : s.db.WellKeyed := by
  obtain ⟨size, hsound⟩ := run_sound hrun
  exact hsound.docs.keyed

/-- **An answer has the documents that its query found at an earlier moment.** -/
theorem answered {r : Reply} {k : Callback} (h : .reply r k ∈ s.net) {ds : List Document}
    (hds : r.snapshot = some ds) : ∃ a b t q, ls = a ++ b ∧ System.Run .initial a t ∧
      System.Run t b s ∧ .read q k ∈ t.net ∧ k.query t.addresses = some q ∧ r = .ok ds ∧
      ds = t.db.getDocuments q := by
  rcases reply_asked hrun h with hnone | ⟨a, l, b, t, q, rfl, ht, hq, rfl⟩
  · rw [hnone] at hds
    cases hds
  · cases hds
    obtain ⟨t', ht', hs⟩ := (Machine.exec_append_eq_some System.step).mp hrun
    cases ht.symm.trans ht'
    exact ⟨a, l :: b, t, q, rfl, ht, hs, hq, ((traced_here ht).net _ hq).1, rfl, rfl⟩

theorem answered_user {r : Reply} {main : Nat} {dtc : DataVoteCell} {email : String}
    {items : List DataVoteCell} {es : List Effect} (h : .reply r (.readUsers main dtc) ∈ s.net)
    (hmain : s.addresses.mains[main]? = some email)
    (hes : readUsersClosure main dtc items r = .ok es) (hne : es ≠ []) :
    ∃ a b t q d, ls = a ++ b ∧ System.Run .initial a t ∧ .read q (.readUsers main dtc) ∈ t.net ∧
      t.db.users.lookup email = some d ∧ r = .ok [d] := by
  rcases Reply.withDocuments_eq_ok.mp hes with ⟨_, rfl⟩ | ⟨_, ds, hds, hloop⟩
  · exact absurd rfl hne
  obtain ⟨a, b, t, q, rfl, ht, hs, hread, hq, rfl, hfound⟩ := answered hrun h hds
  obtain ⟨email', hemail, rfl⟩ := Option.map_eq_some_iff.mp hq
  have hsame := (run_grows hs).mains main email' hemail
  rw [hmain, Option.some.injEq] at hsame
  subst hsame
  rw [(run_wellKeyed ht).find_user] at hfound
  cases hd : t.db.users.lookup email with
  | none =>
    rw [hd] at hfound
    subst hfound
    cases hloop
    exact absurd rfl hne
  | some d =>
    rw [hd] at hfound
    subst hfound
    exact ⟨a, b, t, _, d, rfl, ht, hread, hd, rfl⟩

theorem arr_stored {v : VoteView} (hv : v ∈ s.views) (hne : v.arr ≠ []) :
    ∃ a b t d, ls = a ++ b ∧ System.Run .initial a t ∧ t.db.votes.lookup v.UUID = some d ∧
      d .voteVariants = some (.records v.arr) := by
  obtain ⟨view, hview⟩ := List.mem_iff_getElem?.mp hv
  obtain ⟨a, l, b, x, rfl, hx, hdoes⟩ := arr_shown hrun hview hne
  obtain ⟨emailString, UUID, r, ds, d, hreply, hds, hd, harr⟩ := hdoes.arr
  obtain ⟨a', b', t, q, rfl, ht, hx', hread, hq, _, rfl⟩ := answered hx hreply hds
  cases hq
  -- the screen is still that of the vote
  have hcaught : t.addresses.views[view]? = some (emailString, UUID) :=
    ((traced_here ht).net _ hread).2
  obtain ⟨x', hxrun, hs⟩ := (Machine.exec_append_eq_some System.step).mp hrun
  cases hx.symm.trans hxrun
  have hsame := (run_grows hs).views _ _ ((run_grows hx').views _ _ hcaught)
  rw [address_view hview, Option.some.injEq, Prod.mk.injEq] at hsame
  obtain ⟨_, rfl⟩ := hsame
  rw [(run_wellKeyed ht).find_vote, Option.mem_toList] at hd
  exact ⟨a', b' ++ l :: b, t, d, by simp, ht, hd, harr⟩

theorem main_open {r : Reply} {main : Nat} {dtc : DataVoteCell} {b : List Label} {u : System}
    {m : MainView} (h : .reply r (.readUsers main dtc) ∈ s.net) (hb : System.Run s b u)
    (hm : u.mains[main]? = some m) : s.addresses.mains[main]? = some m.emailString := by
  obtain ⟨_, email, hemail, _⟩ := (traced_here hrun).net _ h
  have hsame := (run_grows hb).mains main email hemail
  rw [address_main hm, Option.some.injEq] at hsame
  rw [hsame]
  exact hemail

theorem admin_stored {m : MainView} (hm : m ∈ s.mains) (hadmin : m.adminStatus = true) :
    ∃ a b t d, ls = a ++ b ∧ System.Run .initial a t ∧
      t.db.users.lookup m.emailString = some d ∧ Value.asBool (d .userRole) = some true := by
  obtain ⟨main, hmain⟩ := List.mem_iff_getElem?.mp hm
  obtain ⟨a, l, b, x, rfl, hx, hdoes⟩ := admin_shown hrun hmain hadmin
  obtain ⟨x', hx', hs⟩ := (Machine.exec_append_eq_some System.step).mp hrun
  cases hx.symm.trans hx'
  obtain ⟨dtc, r, es, hreply, hes, hmem⟩ := hdoes.status
  obtain ⟨a', b', t, q, d, rfl, ht, _, hd, rfl⟩ :=
    answered_user hx hreply (main_open hx hreply hs hmain) hes (List.ne_nil_of_mem hmem)
  obtain ⟨status, arrays, hstatus, _, rfl⟩ := readUsersClosure_single hes
  simp only [List.mem_cons, Effect.adminStatus.injEq, true_and, reduceCtorEq, List.not_mem_nil,
    or_false] at hmem
  subst hmem
  exact ⟨a', b' ++ l :: b, t, d, by simp, ht, hd, hstatus⟩

theorem vote_init {V : String} {d : Document} (hd : s.db.votes.lookup V = some d) :
    ∃ title time, dataVoteInit d = { title := title, time := time, UUID := V } ∧
      Value.asString (d .voteTitle) = some title ∧ Value.asString (d .voteDate) = some time := by
  obtain ⟨d₀, hc, hsame⟩ := (traced_here hrun).votes V d hd
  obtain ⟨voteDate, description, title, variants, rfl⟩ := (origins ls ⟨s, hrun⟩).made hc
  have htitle : d .voteTitle = some (.scalar (.str title)) := hsame.fields _ (by decide)
  have hdate : d .voteDate = some (.scalar (.str voteDate)) := hsame.fields _ (by decide)
  have huuid : d .voteUUID = some (.scalar (.str V)) := hsame.fields _ (by decide)
  refine ⟨title, voteDate, ?_, by rw [htitle]; rfl, by rw [hdate]; rfl⟩
  unfold dataVoteInit
  rw [htitle, hdate, huuid]
  rfl

theorem row_stored {m : MainView} {dtc : DataVoteCell} (hm : m ∈ s.mains)
    (hdtc : dtc ∈ m.itemsDtc) :
    ∃ a b c t₁ t₂ d₁ d₂ arrays, ls = a ++ b ++ c ∧ System.Run .initial a t₁ ∧ System.Run t₁ b t₂ ∧
      t₁.db.votes.lookup dtc.UUID = some d₁ ∧ Value.asString (d₁ .voteTitle) = some dtc.title ∧
      Value.asString (d₁ .voteDate) = some dtc.time ∧
      t₂.db.users.lookup m.emailString = some d₂ ∧ d₂ .userVotesList = some (.records arrays) ∧
      (dtc.status = true ↔ entries dtc.UUID arrays ≠ []) := by
  obtain ⟨main, hmain⟩ := List.mem_iff_getElem?.mp hm
  obtain ⟨a, l, b, x, items, rfl, hx, hdoes, hitems, hnew⟩ := row_shown hrun hmain hdtc
  obtain ⟨x', hx', hs⟩ := (Machine.exec_append_eq_some System.step).mp hrun
  cases hx.symm.trans hx'
  obtain ⟨dtc₀, r, es, hreply, hes, hmem⟩ := hdoes.row hnew hitems
  obtain ⟨a₂, b₂, t₂, q, d₂, rfl, ht₂, hread, hd₂, rfl⟩ :=
    answered_user hx hreply (main_open hx hreply hs hmain) hes (List.ne_nil_of_mem hmem)
  obtain ⟨status, arrays, _, harrays, rfl⟩ := readUsersClosure_single hes
  simp only [List.mem_cons, reduceCtorEq, Effect.items.injEq, true_and, List.not_mem_nil, or_false,
    false_or] at hmem
  subst hmem
  obtain rfl : dtc = dtc₀.shown arrays :=
    List.mem_singleton.mp ((List.mem_append.mp hitems).resolve_left hnew)
  -- the vote was found before the user was asked for
  rcases read_asked ht₂ hread with ⟨_, _, _, h⟩ | ⟨a₁, l₁, b₁, y, rfl, hy, hasked⟩
  · cases h
  obtain ⟨emailString, r₁, ds, d₁, hreply₁, hds, hd₁, rfl⟩ := hasked.readUsers
  obtain ⟨a₀, b₀, t₁, q₁, rfl, ht₁, hty, _, hq₁, _, rfl⟩ := answered hy hreply₁ hds
  cases hq₁
  obtain ⟨⟨V, hV⟩, _⟩ := Database.mem_getDocuments.mp hd₁
  have hV : t₁.db.votes.lookup V = some d₁ := hV
  obtain ⟨title, time, hinit, htitle, htime⟩ := vote_init ht₁ hV
  obtain ⟨y', hy', hyt₂⟩ := (Machine.exec_append_eq_some System.step).mp ht₂
  cases hy.symm.trans hy'
  rw [hinit]
  obtain ⟨hshown, hshowntime, hstatus⟩ :=
    @shown_status { title := title, time := time, UUID := V } rfl arrays
  refine ⟨a₀, b₀ ++ l₁ :: b₁, b₂ ++ l :: b, t₁, t₂, d₁, d₂, arrays, by simp, ht₁,
    (Machine.exec_append_eq_some System.step).mpr ⟨y, hty, hyt₂⟩, ?_, ?_, ?_, hd₂, harrays, ?_⟩
  · rw [DataVoteCell.shown_UUID]
    exact hV
  · rw [hshown]
    exact htitle
  · rw [hshowntime]
    exact htime
  · rw [DataVoteCell.shown_UUID]
    exact hstatus

end

/-! ## what is seen -/

/-- the read number `k` is answered with documents of `sees s k` -/
def System.stepSeeing (sees : System → Nat → Database) (s : System) : Label → Option System
  | .serve k true =>
    match s.net[k]? with
    | some (.read _ _) =>
      (System.serve { s with db := sees s k } k true).map fun t => { t with db := s.db }
    | _ => s.serve k true
  | l => s.step l

/-- every read of the run is answered with what is stored at that moment -/
def SeesStored (sees : System → Nat → Database) (ls : List Label) : Prop :=
  ∀ a k b t q cb, ls = a ++ .serve k true :: b →
    Machine.exec (System.stepSeeing sees) .initial a = some t → t.net[k]? = some (.read q cb) →
    sees t k = t.db

section
variable {sees : System → Nat → Database} {ls : List Label} {s : System}

theorem stepSeeing_eq {l : Label} (h : ∀ k q cb, l = .serve k true →
    s.net[k]? = some (.read q cb) → sees s k = s.db) : s.stepSeeing sees l = s.step l := by
  cases l with
  | serve k ok =>
    cases ok with
    | false => rfl
    | true =>
      cases hk : s.net[k]? with
      | none => simp only [System.stepSeeing, hk]; rfl
      | some task =>
        cases task with
        | read q cb =>
          simp only [System.stepSeeing, hk, h k q cb rfl hk, System.serve, System.step, if_true,
            Option.map_some]
        | _ => simp only [System.stepSeeing, hk]; rfl
  | _ => rfl

theorem run_seeing (hrun : Machine.exec (System.stepSeeing sees) .initial ls = some s)
    (hstored : SeesStored sees ls) : System.Run .initial ls s := by
  induction ls using List.reverseRecOn generalizing s with
  | nil => exact hrun
  | append_singleton ls l ih =>
    obtain ⟨t, ht, hs⟩ := (Machine.exec_concat _).mp hrun
    refine (Machine.exec_concat System.step).mpr ⟨t, ih ht fun a k b u q cb hls => ?_, ?_⟩
    · exact hstored a k (b ++ [l]) u q cb (by rw [hls]; simp)
    · rw [← stepSeeing_eq fun k q cb hl => hstored ls k [] t q cb (by rw [hl]) ht]
      exact hs

/-- **The screens show what was stored**, at some moment of the run: a vote screen its counters, a main
screen the role behind its button, and each row's title, date and mark. -/
theorem shown_stored (hrun : Machine.exec (System.stepSeeing sees) .initial ls = some s)
    (hstored : SeesStored sees ls) :
    (∀ v ∈ s.views, v.arr ≠ [] → ∃ a b t d, ls = a ++ b ∧ System.Run .initial a t ∧
      t.db.votes.lookup v.UUID = some d ∧ d .voteVariants = some (.records v.arr)) ∧
    ∀ m ∈ s.mains,
      (m.adminStatus = true → ∃ a b t d, ls = a ++ b ∧ System.Run .initial a t ∧
        t.db.users.lookup m.emailString = some d ∧ Value.asBool (d .userRole) = some true) ∧
      ∀ dtc ∈ m.items, ∃ a b c t₁ t₂ d₁ d₂ arrays, ls = a ++ b ++ c ∧
        System.Run .initial a t₁ ∧ System.Run t₁ b t₂ ∧
        t₁.db.votes.lookup dtc.UUID = some d₁ ∧ Value.asString (d₁ .voteTitle) = some dtc.title ∧
        Value.asString (d₁ .voteDate) = some dtc.time ∧
        t₂.db.users.lookup m.emailString = some d₂ ∧ d₂ .userVotesList = some (.records arrays) ∧
        (dtc.status = true ↔ entries dtc.UUID arrays ≠ []) := by
  have hrun := run_seeing hrun hstored
  refine ⟨fun v hv => arr_stored hrun hv, fun m hm => ⟨admin_stored hrun hm, fun dtc hdtc => ?_⟩⟩
  rw [((traced_here hrun).mains m hm).items] at hdtc
  exact row_stored hrun hm hdtc

end

/-- no write is on its way when a read of `listing` is answered -/
theorem shown_stored_listing :
    (∃ a b t d, listing = a ++ b ∧ System.Run .initial a t ∧ t.db.users.lookup "a" = some d ∧
      Value.asBool (d .userRole) = some true) ∧
    ∃ a b t d, listing = a ++ b ∧ System.Run .initial a t ∧ t.db.votes.lookup "v" = some d ∧
      Value.asString (d .voteTitle) = some "t" := by
  obtain ⟨hadmin, hrows⟩ := (@shown_stored (fun s _ => s.db) listing (.after listing) rfl
    fun _ _ _ _ _ _ _ _ _ => rfl).2 _ (List.mem_of_getElem? (i := 0) rfl)
  obtain ⟨a, b, c, t₁, _, d₁, _, _, hls, ht, _, hd, htitle, _⟩ :=
    hrows _ (List.mem_of_getElem? (i := 0) rfl)
  exact ⟨hadmin rfl, a, b ++ c, t₁, d₁, by rw [hls, List.append_assoc], ht, hd, htitle⟩

end VoteOnOffice
