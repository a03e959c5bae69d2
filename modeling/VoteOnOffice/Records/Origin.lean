import VoteOnOffice.Records.Shape

/-!
# Where data comes from

`Origins` is what the users of a run have done, as far as it can show up later: the documents they
composed, the rows they tapped, the roles they were given and the votes they deleted.  Against it:

* `Origins.Vote`, `Origins.User`
                       a stored document: a vote is the composed one but for its counters, and a
                       user's list has ballots that this user has tapped;
* `Origins.Row`        a row of a main screen;
* `Origins.Caught`, `Origins.InFlight`, `Origins.Shown`
                       what a closure has captured, what is in flight, and what a closure does;
* `shown_of_run`          **a closure that captured and is called with such data does only such things.**

`Addresses` has the e-mail and the vote of every open screen; a screen keeps them for good.
-/

namespace VoteOnOffice

structure Origins where
  /-- the vote was added with this document -/
  composed : String → Document → Prop
  /-- this user tapped this row on a screen of this vote -/
  tapped : String → String → Int → Prop
  /-- the role of this user was set to `true` -/
  granted : String → Prop
  /-- this user deleted a row of this vote -/
  deleted : String → String → Prop
  unique : ∀ {V d d'}, composed V d → composed V d' → d = d'
  made : ∀ {V d}, composed V d → ∃ voteDate description title variants,
    d = voteData voteDate description title V variants

/-! ## addresses -/

structure Addresses where
  views : List (String × String)
  mains : List String

def System.addresses (s : System) : Addresses where
  views := s.views.map fun v => (v.emailString, v.UUID)
  mains := s.mains.map MainView.emailString

structure Addresses.Grows (a b : Addresses) : Prop where
  views : ∀ (i : Nat) x, a.views[i]? = some x → b.views[i]? = some x
  mains : ∀ (i : Nat) x, a.mains[i]? = some x → b.mains[i]? = some x

def Callback.query (a : Addresses) (k : Callback) : Option Query :=
  k.queryOf (fun view => (a.views[view]?).map Prod.fst) fun main => a.mains[main]?

theorem Callback.query_mono {a b : Addresses} (h : a.Grows b) {k : Callback} {q : Query}
    (hq : k.query a = some q) : k.query b = some q := by
  cases k with
  | reloadUsers view UUID =>
    obtain ⟨email, hemail, rfl⟩ := Option.map_eq_some_iff.mp hq
    obtain ⟨x, hx, rfl⟩ := Option.map_eq_some_iff.mp hemail
    exact congrArg (fun x => (x.map Prod.fst).map Query.usersWhere) (h.views view x hx)
  | readUsers main dtc =>
    obtain ⟨x, hx, rfl⟩ := Option.map_eq_some_iff.mp hq
    exact Option.map_eq_some_iff.mpr ⟨x, h.mains main x hx, rfl⟩
  | _ => exact hq

/-! ## documents -/

/-- the arrays agree in all but the counters, which are numbers -/
structure SameVariants (array₀ array : List Record) : Prop where
  fields : ∀ (i : Nat) (f : Field), f ≠ .variantVoteStatus →
    array[i]?.map (fun r => r f) = array₀[i]?.map (fun r => r f)
  counts : ∀ i < array.length, ∃ n, statusAt array i = some n

theorem SameVariants.length {array₀ array : List Record} (h : SameVariants array₀ array) :
    array.length = array₀.length := by
  have hnone : ∀ i, array.length ≤ i ↔ array₀.length ≤ i := fun i => by
    have hi := h.fields i .variantName (by decide)
    rw [← List.getElem?_eq_none_iff, ← List.getElem?_eq_none_iff,
      ← Option.map_eq_none_iff (f := fun r : Record => r .variantName), hi,
      Option.map_eq_none_iff]
  exact Nat.le_antisymm ((hnone _).mpr (Nat.le_refl _)) ((hnone _).mp (Nat.le_refl _))

theorem SameVariants.count {array₀ array array' : List Record} (h : SameVariants array₀ array)
    {p : Path} {index : Int} (hc : p.count index array = .ok array') :
    SameVariants array₀ array' :=
  ⟨fun i f hf => (field_count hc hf i).trans (h.fields i f hf), counts_count h.counts hc⟩

theorem sameVariants_new {items items' : List Int} {cellForRow : Int → Option String}
    {array : List Record} (h : variantsArray items cellForRow = .ok (items', array)) :
    SameVariants array array := by
  refine ⟨fun _ _ _ => rfl, fun i hi => ?_⟩
  obtain ⟨id, text, hr⟩ := variantsArray_variants h array[i] (List.getElem_mem hi)
  refine ⟨0, ?_⟩
  unfold statusAt
  rw [List.getElem?_eq_getElem hi, hr]
  rfl

/-- the documents agree in all but the counters of the variants -/
structure SameVote (d₀ d : Document) : Prop where
  fields : ∀ f, f ≠ .voteVariants → d f = d₀ f
  variants : ∃ array₀ array, d₀ .voteVariants = some (.records array₀) ∧
    d .voteVariants = some (.records array) ∧ SameVariants array₀ array

section
variable (o : Origins)

def Origins.Vote (V : String) (d : Document) : Prop := ∃ d₀, o.composed V d₀ ∧ SameVote d₀ d

def Origins.Variants (V : String) (array : List Record) : Prop :=
  ∃ d₀ array₀, o.composed V d₀ ∧ d₀ .voteVariants = some (.records array₀) ∧
    SameVariants array₀ array

def Origins.Text (V : String) (f : Field) (x : String) : Prop :=
  ∃ d₀, o.composed V d₀ ∧ Value.asString (d₀ f) = some x

def Origins.Ballots (email : String) (l : List Record) : Prop :=
  ∀ r ∈ l, ∃ V row, r = ballot V row ∧ o.tapped email V row

structure Origins.User (email : String) (d : Document) : Prop where
  key : Value.asString (d .userEmail) = some email
  role : Value.asBool (d .userRole) = some true → o.granted email
  list : ∃ l, d .userVotesList = some (.records l) ∧ o.Ballots email l

structure Origins.Row (email : String) (dtc : DataVoteCell) : Prop where
  title : o.Text dtc.UUID .voteTitle dtc.title
  time : o.Text dtc.UUID .voteDate dtc.time
  status : dtc.status = true → ∃ row, o.tapped email dtc.UUID row

structure Origins.Found (q : Query) (d : Document) : Prop where
  stored : match q.collection with
    | .users => ∃ email, o.User email d
    | .votes => ∃ V, o.Vote V d
  selected : q.selects d = true

def Origins.Written (c : CollectionId) (document : String) (f : Field) (v : Value) : Prop :=
  match c with
  | .users => f = .userVotesList ∧ ∃ l, v = .records l ∧ o.Ballots document l
  | .votes => f = .voteVariants ∧ ∃ array, v = .records array ∧ o.Variants document array

def Origins.Put (c : CollectionId) (document : String) (d : Document) : Prop :=
  match c with
  | .users => o.User document d
  | .votes => o.Vote document d

/-! ## what is in flight -/

variable (a : Addresses)

structure Origins.Tapped (t : Tap) : Prop where
  view : a.views[t.view]? = some (t.emailString, t.UUID)
  tapped : o.tapped t.emailString t.UUID t.index

def Origins.Caught : Callback → Prop
  | .tabOnCell t => o.Tapped a t
  | .voteFirst t => o.Tapped a t
  | .voteSecond t arrays _ => o.Tapped a t ∧ o.Ballots t.emailString arrays
  | .reloadViewData view emailString UUID => a.views[view]? = some (emailString, UUID)
  | .reloadUsers view UUID => ∃ email, a.views[view]? = some (email, UUID)
  | .readDataBase main emailString => a.mains[main]? = some emailString
  | .readUsers main dtc => ∃ email, a.mains[main]? = some email ∧ o.Row email dtc
  | .itemsDelete _ _ _ => True

/-- the documents of an answer answer the query of the request -/
def Origins.Answers (k : Callback) (r : Reply) : Prop :=
  ∀ ds, r.snapshot = some ds → ∃ q, k.query a = some q ∧ ∀ d ∈ ds, o.Found q d

def Origins.InFlight : Task → Prop
  | .read q k => k.query a = some q ∧ o.Caught a k
  | .update _ _ c document f v => o.Written c document f v
  | .set c document d => o.Put c document d
  | .delete document k => k.isDelete = true ∧ ∃ email, o.deleted email document
  | .reply r k => o.Answers a k r ∧ o.Caught a k

def Origins.Shown : Effect → Prop
  | .getDocuments q k => k.query a = some q ∧ o.Caught a k
  | .updateData _ _ c document f v => o.Written c document f v
  | .selectRow view row => ∀ email V, a.views[view]? = some (email, V) → o.tapped email V row
  | .titleString view x => ∀ email V, a.views[view]? = some (email, V) → o.Text V .voteTitle x
  | .descriptionString view x =>
    ∀ email V, a.views[view]? = some (email, V) → o.Text V .voteDescription x
  | .arr view variants => ∀ email V, a.views[view]? = some (email, V) → o.Variants V variants
  | .adminStatus main status =>
    ∀ email, a.mains[main]? = some email → status = true → o.granted email
  | .items main l => ∀ email, a.mains[main]? = some email → ∀ dtc ∈ l, o.Row email dtc

end

section
variable {o : Origins} {a : Addresses}

/-! ## documents, read -/

theorem Origins.Vote.key {V : String} {d : Document} (h : o.Vote V d) :
    Value.asString (d .voteUUID) = some V := by
  obtain ⟨d₀, hc, hsame⟩ := h
  obtain ⟨_, _, _, _, rfl⟩ := o.made hc
  rw [hsame.fields .voteUUID (by decide)]
  rfl

theorem Origins.Vote.text {V : String} {d : Document} (h : o.Vote V d) {f : Field} {x : String}
    (hf : f ≠ .voteVariants) (hx : Value.asString (d f) = some x) : o.Text V f x := by
  obtain ⟨d₀, hc, hsame⟩ := h
  exact ⟨d₀, hc, by rw [← hsame.fields f hf]; exact hx⟩

theorem Origins.Vote.array {V : String} {d : Document} (h : o.Vote V d) {array : List Record}
    (ha : d .voteVariants = some (.records array)) : o.Variants V array := by
  obtain ⟨d₀, hc, hsame⟩ := h
  obtain ⟨array₀, array', h₀, h', hvariants⟩ := hsame.variants
  rw [ha] at h'
  cases h'
  exact ⟨d₀, array₀, hc, h₀, hvariants⟩

theorem Origins.Variants.count {V : String} {array array' : List Record} (h : o.Variants V array)
    {p : Path} {index : Int} (hc : p.count index array = .ok array') : o.Variants V array' := by
  obtain ⟨d₀, array₀, hd, h₀, hvariants⟩ := h
  exact ⟨d₀, array₀, hd, h₀, hvariants.count hc⟩

theorem Origins.Vote.update {V : String} {d : Document} (h : o.Vote V d) {array : List Record}
    (ha : o.Variants V array) :
    o.Vote V (Function.update d .voteVariants (some (.records array))) := by
  obtain ⟨d₀, hc, hsame⟩ := h
  obtain ⟨d₁, array₀, hc', h₀, hvariants⟩ := ha
  obtain rfl := o.unique hc hc'
  refine ⟨d₀, hc, fun f hf => ?_, array₀, array, h₀, Function.update_self .., hvariants⟩
  rw [Function.update_of_ne hf]
  exact hsame.fields f hf

theorem Origins.User.update {email : String} {d : Document} (h : o.User email d) {l : List Record}
    (hl : o.Ballots email l) :
    o.User email (Function.update d .userVotesList (some (.records l))) where
  key := by rw [Function.update_of_ne (by decide)]; exact h.key
  role := by rw [Function.update_of_ne (by decide)]; exact h.role
  list := ⟨l, Function.update_self .., hl⟩

theorem Origins.User.setRole {email : String} {d : Document} (h : o.User email d) {role : Bool}
    (hr : role = true → o.granted email) :
    o.User email (Function.update d .userRole (some (.scalar (.bool role)))) where
  key := by rw [Function.update_of_ne (by decide)]; exact h.key
  role := by
    rw [Function.update_self]
    intro hrole
    exact hr (Option.some.inj hrole)
  list := by rw [Function.update_of_ne (by decide)]; exact h.list

theorem Origins.User.ballots {email : String} {d : Document} (h : o.User email d)
    {l : List Record} (hl : d .userVotesList = some (.records l)) : o.Ballots email l := by
  obtain ⟨l', h', hb⟩ := h.list
  rw [hl] at h'
  cases h'
  exact hb

theorem Origins.Ballots.cast {email V : String} {row : Int} {l : List Record}
    (h : o.Ballots email l) (ht : o.tapped email V row) :
    o.Ballots email (VoteOnOffice.cast V row l) := by
  intro r hr
  rcases List.mem_append.mp hr with hr | hr
  · exact h r (List.mem_filter.mp hr).1
  · exact ⟨V, row, List.mem_singleton.mp hr, ht⟩

theorem Origins.Ballots.row {email V : String} {l : List Record} (h : o.Ballots email l)
    {r : Record} (hr : r ∈ entries V l) :
    ∃ row, r = ballot V row ∧ o.tapped email V row := by
  obtain ⟨hmem, hfor⟩ := List.mem_filter.mp hr
  obtain ⟨W, row, rfl, ht⟩ := h r hmem
  rw [isFor_ballot, decide_eq_true_eq] at hfor
  subst hfor
  exact ⟨row, rfl, ht⟩

theorem Origins.Found.user {email : String} {d : Document} (h : o.Found (.usersWhere email) d) :
    o.User email d := by
  obtain ⟨email', h'⟩ := h.stored
  have hkey : Value.asString (d .userEmail) = some email := of_decide_eq_true h.selected
  rw [h'.key, Option.some.injEq] at hkey
  subst hkey
  exact h'

theorem Origins.Found.vote {V : String} {d : Document} (h : o.Found (.votesWhere V) d) :
    o.Vote V d := by
  obtain ⟨W, h'⟩ := h.stored
  have hkey : Value.asString (d .voteUUID) = some V := of_decide_eq_true h.selected
  rw [h'.key, Option.some.injEq] at hkey
  subst hkey
  exact h'

/-! ## rows of the main screen -/

theorem row_dataVoteInit {V : String} {d : Document} (h : o.Vote V d) (email : String) :
    o.Row email (dataVoteInit d) := by
  obtain ⟨d₀, hc, hsame⟩ := h
  obtain ⟨voteDate, description, title, variants, rfl⟩ := o.made hc
  have htitle : d .voteTitle = some (.scalar (.str title)) := hsame.fields _ (by decide)
  have hdate : d .voteDate = some (.scalar (.str voteDate)) := hsame.fields _ (by decide)
  have huuid : d .voteUUID = some (.scalar (.str V)) := hsame.fields _ (by decide)
  have hinit : dataVoteInit d = { title := title, time := voteDate, UUID := V } := by
    unfold dataVoteInit
    rw [htitle, hdate, huuid]
    rfl
  rw [hinit]
  exact ⟨⟨_, hc, rfl⟩, ⟨_, hc, rfl⟩, fun hfalse => by cases hfalse⟩

theorem Origins.Row.shown {email : String} {dtc : DataVoteCell} (h : o.Row email dtc)
    {l : List Record} (hl : o.Ballots email l) : o.Row email (dtc.shown l) := by
  unfold DataVoteCell.shown
  cases he : l.filter (isFor dtc.UUID) with
  | nil => exact h
  | cons r rest =>
    refine ⟨h.title, h.time, fun _ => ?_⟩
    obtain ⟨row, _, ht⟩ := hl.row (V := dtc.UUID) (r := r) (by
      unfold entries
      rw [he]
      exact List.mem_cons_self)
    exact ⟨row, ht⟩

/-! ## growing addresses -/

theorem Origins.Tapped.mono {b : Addresses} (h : a.Grows b) {t : Tap} (ht : o.Tapped a t) :
    o.Tapped b t := ⟨h.views _ _ ht.view, ht.tapped⟩

theorem Origins.Caught.mono {b : Addresses} (h : a.Grows b) {k : Callback} (hk : o.Caught a k) :
    o.Caught b k := by
  cases k with
  | tabOnCell t => exact Origins.Tapped.mono h hk
  | voteFirst t => exact Origins.Tapped.mono h hk
  | voteSecond t arrays extraIndex => exact ⟨Origins.Tapped.mono h hk.1, hk.2⟩
  | reloadViewData view emailString UUID => exact h.views _ _ hk
  | reloadUsers view UUID =>
    obtain ⟨email, hv⟩ := hk
    exact ⟨email, h.views _ _ hv⟩
  | readDataBase main emailString => exact h.mains _ _ hk
  | readUsers main dtc =>
    obtain ⟨email, hm, hrow⟩ := hk
    exact ⟨email, h.mains _ _ hm, hrow⟩
  | itemsDelete main index UUID => trivial

theorem Origins.InFlight.mono {b : Addresses} (h : a.Grows b) {task : Task}
    (ht : o.InFlight a task) : o.InFlight b task := by
  cases task with
  | read q k => exact ⟨Callback.query_mono h ht.1, Origins.Caught.mono h ht.2⟩
  | reply r k =>
    refine ⟨fun ds hds => ?_, Origins.Caught.mono h ht.2⟩
    obtain ⟨q, hq, hall⟩ := ht.1 ds hds
    exact ⟨q, Callback.query_mono h hq, hall⟩
  | _ => exact ht

/-! ## closures -/

theorem Origins.Answers.found {k : Callback} {r : Reply} (h : o.Answers a k r) {q : Query}
    (hq : k.query a = some q) {ds : List Document} (hds : r.snapshot = some ds) {d : Document}
    (hd : d ∈ ds) : o.Found q d := by
  obtain ⟨q', hq', hall⟩ := h ds hds
  rw [hq, Option.some.injEq] at hq'
  subst hq'
  exact hall d hd

theorem callback_shown {t : Tap} {p : Path} {arrays : List Record} (ht : o.Tapped a t)
    (hl : o.Ballots t.emailString arrays) :
    (p.callback t arrays).query a = some (.votesWhere t.UUID) ∧ o.Caught a (p.callback t arrays) := by
  cases p with
  | first => exact ⟨rfl, ht⟩
  | second extraIndex => exact ⟨rfl, ht, hl⟩

theorem tabOnCell_shown {t : Tap} {r : Reply} {es : List Effect} (ht : o.Tapped a t)
    (hr : o.Answers a (.tabOnCell t) r) (hrun : tabOnCellClosure t r = .ok es) :
    ∀ e ∈ es, o.Shown a e := by
  intro e he
  rw [tabOnCellClosure_eq] at hrun
  obtain ⟨ds, hds, d, hd, es', hround, he⟩ := withDocuments_forDocuments_mem hrun he
  obtain ⟨arrays, p, hl, hp, rfl⟩ := tabOnCellRound_eq_ok.mp hround
  have hballots : o.Ballots t.emailString arrays := (hr.found rfl hds hd).user.ballots hl
  cases p with
  | first =>
    simp only [Path.call, voteFirst, append_eq_cast (pathOf_eq_first.mp hp), List.mem_cons,
      List.not_mem_nil, or_false] at he
    rcases he with rfl | rfl
    · exact ⟨rfl, _, rfl, hballots.cast ht.tapped⟩
    · exact callback_shown (p := .first) ht hballots
  | second extraIndex =>
    obtain rfl := List.mem_singleton.mp he
    exact callback_shown (p := .second extraIndex) ht hballots

theorem vote_shown {t : Tap} {p : Path} {arrays : List Record} {r : Reply} {es : List Effect}
    (ht : o.Tapped a t) (hl : ∀ row, p = .second row → o.Ballots t.emailString arrays)
    (hr : ∀ ds, r.snapshot = some ds → ∀ d ∈ ds, o.Vote t.UUID d)
    (hrun : voteClosure p t arrays r = .ok es) : ∀ e ∈ es, o.Shown a e := by
  intro e he
  rcases Reply.withDocuments_eq_ok.mp hrun with ⟨_, rfl⟩ | ⟨_, ds, hds, h⟩
  · cases he
  obtain ⟨writes, hwrites, h⟩ := bind_eq_ok.mp h
  cases h
  rcases List.mem_append.mp he with he | he
  · obtain ⟨d, hd, es', hround, he⟩ := forDocuments_mem hwrites he
    obtain ⟨array, array', harray, hcount, rfl⟩ := voteRound_eq_ok.mp hround
    have hvotes : o.Written .votes t.UUID .voteVariants (.records array') :=
      ⟨rfl, array', rfl, ((hr ds hds d hd).array harray).count hcount⟩
    cases p with
    | first =>
      obtain rfl := List.mem_singleton.mp he
      exact hvotes
    | second row =>
      simp only [Path.writes, List.mem_cons, List.not_mem_nil, or_false] at he
      rcases he with rfl | rfl
      · exact hvotes
      · exact ⟨rfl, _, rfl, (hl row rfl).cast ht.tapped⟩
  · obtain rfl := List.mem_singleton.mp he
    intro email V hV
    rw [ht.view] at hV
    cases hV
    exact ht.tapped

theorem reloadViewData_shown {view : Nat} {emailString UUID : String} {r : Reply}
    {es : List Effect} (hv : a.views[view]? = some (emailString, UUID))
    (hr : o.Answers a (.reloadViewData view emailString UUID) r)
    (hrun : reloadViewDataClosure view emailString UUID r = .ok es) : ∀ e ∈ es, o.Shown a e := by
  intro e he
  obtain ⟨ds, hds, d, hd, es', h, he⟩ := withDocuments_forDocuments_mem hrun he
  have hvote : o.Vote UUID d := (hr.found rfl hds hd).vote
  obtain ⟨title, htitle, h⟩ := bind_eq_ok.mp h
  obtain ⟨description, hdescription, h⟩ := bind_eq_ok.mp h
  obtain ⟨variants, hvariants, h⟩ := bind_eq_ok.mp h
  cases h
  simp only [List.mem_cons, List.not_mem_nil, or_false] at he
  rcases he with rfl | rfl | rfl | rfl
  · refine ⟨?_, emailString, hv⟩
    show ((a.views[view]?).map _).map _ = _
    rw [hv]
    rfl
  · intro email V hV
    rw [hv] at hV
    cases hV
    exact hvote.text (by decide) (unwrap_eq_ok.mp htitle)
  · intro email V hV
    rw [hv] at hV
    cases hV
    exact hvote.text (by decide) (unwrap_eq_ok.mp hdescription)
  · intro email V hV
    rw [hv] at hV
    cases hV
    exact hvote.array (Value.asRecords_eq_some.mp (guardLet_eq_ok.mp hvariants))

theorem reloadUsers_shown {view : Nat} {email UUID : String} {r : Reply} {es : List Effect}
    (hv : a.views[view]? = some (email, UUID)) (hr : o.Answers a (.reloadUsers view UUID) r)
    (hrun : reloadUsersClosure view UUID r = .ok es) : ∀ e ∈ es, o.Shown a e := by
  intro e he
  obtain ⟨ds, hds, d, hd, es', h, he⟩ := withDocuments_forDocuments_mem hrun he
  obtain ⟨arrays, ha, h⟩ := bind_eq_ok.mp h
  have hq : (Callback.reloadUsers view UUID).query a = some (.usersWhere email) := by
    show ((a.views[view]?).map _).map _ = _
    rw [hv]
    rfl
  have hballots : o.Ballots email arrays :=
    (hr.found hq hds hd).user.ballots (Value.asRecords_eq_some.mp (guardLet_eq_ok.mp ha))
  cases heven : arrays.filter (isFor UUID) with
  | nil =>
    rw [heven] at h
    cases h
    cases he
  | cons x l =>
    rw [heven] at h
    obtain ⟨row, hrow, h⟩ := bind_eq_ok.mp h
    cases h
    obtain rfl := List.mem_singleton.mp he
    -- the highlighted row is the one of the first entry, which is a ballot
    obtain ⟨row', rfl, htapped⟩ := hballots.row (V := UUID) (r := x) (by
      unfold entries
      rw [heven]
      exact List.mem_cons_self)
    obtain rfl : row' = row := Option.some.inj (guardLet_eq_ok.mp hrow)
    intro email' V hV
    rw [hv] at hV
    cases hV
    exact htapped

theorem readUsersLoop_shown {main : Nat} {email : String} (hm : a.mains[main]? = some email)
    {dtc : DataVoteCell} {itemsDtc : List DataVoteCell} {ds : List Document} {es : List Effect}
    (hdtc : o.Row email dtc) (hitems : ∀ row ∈ itemsDtc, o.Row email row)
    (hds : ∀ d ∈ ds, o.User email d) (hrun : readUsersLoop main dtc itemsDtc ds = .ok es) :
    ∀ e ∈ es, o.Shown a e := by
  induction ds generalizing dtc itemsDtc es with
  | nil =>
    cases hrun
    exact fun e he => absurd he List.not_mem_nil
  | cons d ds ih =>
    obtain ⟨status, arrays, es', hstatus, harrays, hrest, rfl⟩ := readUsersLoop_cons.mp hrun
    have huser := hds d List.mem_cons_self
    have hrow := hdtc.shown (huser.ballots harrays)
    have hitems' : ∀ row ∈ itemsDtc ++ [dtc.shown arrays], o.Row email row := by
      intro row h
      rcases List.mem_append.mp h with h | h
      · exact hitems row h
      · rw [List.mem_singleton.mp h]
        exact hrow
    intro e he
    simp only [List.mem_cons] at he
    rcases he with rfl | rfl | he
    · intro email' h' hs
      rw [hm] at h'
      cases h'
      exact huser.role (by rw [hstatus, hs])
    · intro email' h'
      rw [hm] at h'
      cases h'
      exact hitems'
    · exact ih hrow hitems' (fun d' hd' => hds d' (List.mem_cons_of_mem _ hd')) hrest e he

/-- **What a closure does comes from where its data comes from.** -/
theorem shown_of_run {k : Callback} {r : Reply} {itemsDtc : Nat → List DataVoteCell}
    {es : List Effect} (hk : o.Caught a k) (hr : o.Answers a k r)
    (hitems : ∀ (main : Nat) email, a.mains[main]? = some email →
      ∀ dtc ∈ itemsDtc main, o.Row email dtc)
    (hrun : k.run itemsDtc r = .ok es) : ∀ e ∈ es, o.Shown a e := by
  cases k with
  | tabOnCell t => exact tabOnCell_shown hk hr hrun
  | voteFirst t =>
    exact @vote_shown o a t .first [] r es hk (fun row h => by cases h)
      (fun ds hds d hd => (hr.found rfl hds hd).vote) hrun
  | voteSecond t arrays extraIndex =>
    exact vote_shown (p := .second extraIndex) hk.1 (fun _ _ => hk.2)
      (fun ds hds d hd => (hr.found rfl hds hd).vote) hrun
  | reloadViewData view emailString UUID => exact reloadViewData_shown hk hr hrun
  | reloadUsers view UUID =>
    obtain ⟨email, hv⟩ := hk
    exact reloadUsers_shown hv hr hrun
  | readDataBase main emailString =>
    intro e he
    obtain ⟨ds, hds, d, hd, rfl⟩ := readDataBaseClosure_mem hrun he
    obtain ⟨V, hvote⟩ := (hr.found rfl hds hd).stored
    refine ⟨?_, emailString, hk, row_dataVoteInit hvote emailString⟩
    show (a.mains[main]?).map _ = _
    rw [hk]
    rfl
  | readUsers main dtc =>
    obtain ⟨email, hm, hrow⟩ := hk
    have hq : (Callback.readUsers main dtc).query a = some (.usersWhere email) := by
      show (a.mains[main]?).map _ = _
      rw [hm]
      rfl
    rcases Reply.withDocuments_eq_ok.mp hrun with ⟨_, rfl⟩ | ⟨_, ds, hds, h⟩
    · exact fun e he => absurd he List.not_mem_nil
    · exact readUsersLoop_shown hm hrow (hitems main email hm)
        (fun d hd => (hr.found hq hds hd).user) h
  | itemsDelete main index UUID =>
    rcases itemsDeleteClosure_eq_ok.mp hrun with ⟨_, rfl⟩ | ⟨_, _, rfl⟩
    · exact fun e he => absurd he List.not_mem_nil
    · intro e he
      obtain rfl := List.mem_singleton.mp he
      intro email hm dtc hdtc
      exact hitems main email hm dtc (List.mem_of_mem_eraseIdx hdtc)

end

end VoteOnOffice
