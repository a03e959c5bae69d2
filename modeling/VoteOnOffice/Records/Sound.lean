import VoteOnOffice.Records.Shape

/-!
# Every reachable state is sound

* `InFlightOk`         what every request and every answer in flight holds;
* `Sound size s`       the invariant: documents, requests, answers and screens have the shape;
* `step_sound`         every step keeps it, if `size` is right for the votes that are added;
* `exists_size`        every run has such a `size`, because `UUID()` never repeats itself;
* `run_sound`          **so every reachable state is sound.**
-/

namespace VoteOnOffice

section
variable (size : String → Nat)

def SetOk (c : CollectionId) (document : String) (d : Document) : Prop :=
  match c with
  | .users => UserOk size d ∧ Value.asString (d .userEmail) = some document
  | .votes => VoteOk size document d ∧ Value.asString (d .voteUUID) = some document

def InFlightOk (screens : List String) : Task → Prop
  | .read q k => k.asks q ∧ CallbackOk size screens k
  | .update _ _ c document f v => UpdateOk size c document f v
  | .set c document d => SetOk size c document d
  | .delete _ k => k.isDelete = true
  | .reply r k => AnswerOk size k r ∧ CallbackOk size screens k

def System.screens (s : System) : List String := s.views.map VoteView.UUID

structure Sound (s : System) : Prop where
  docs : DocsOk size s.db
  net : ∀ task ∈ s.net, InFlightOk size s.screens task
  views : ∀ v ∈ s.views, v.arr = [] ∨ v.arr.length = size v.UUID

/-- `size` is right for the vote that the label adds -/
def SizeOk : Label → Prop
  | .addNewVote _ _ _ uuid items cellForRow => ∀ items' variants,
    variantsArray items cellForRow = .ok (items', variants) → variants.length = size uuid
  | _ => True

end

section
variable {size : String → Nat}

/-! ## documents -/

theorem DocsOk.finds {db : Database} (h : DocsOk size db) {q : Query} {k : Callback}
    (hq : k.asks q) {d : Document} (hd : d ∈ db.getDocuments q) : k.Finds size d := by
  obtain ⟨⟨id, hid⟩, hsel⟩ := Database.mem_getDocuments.mp hd
  have huser : (∃ email, q = .usersWhere email) → UserOk size d := by
    rintro ⟨email, rfl⟩
    exact h.users id d hid
  have hvote : ∀ UUID, q = .votesWhere UUID → VoteOk size UUID d := by
    rintro UUID rfl
    have hkey : Value.asString (d .voteUUID) = some UUID := of_decide_eq_true hsel
    have hid' : Value.asString (d .voteUUID) = some id := h.keyed.1 id d hid
    rw [hkey, Option.some.injEq] at hid'
    rw [hid']
    exact h.votes id d hid
  obtain ⟨email, hq⟩ := hq
  cases k with
  | tabOnCell t => cases hq; exact huser ⟨_, rfl⟩
  | voteFirst t => cases hq; exact hvote _ rfl
  | voteSecond t arrays extraIndex => cases hq; exact hvote _ rfl
  | reloadViewData view email UUID => cases hq; exact hvote _ rfl
  | reloadUsers view UUID => cases hq; exact huser ⟨_, rfl⟩
  | readDataBase main email => exact trivial
  | readUsers main dtc => cases hq; exact huser ⟨_, rfl⟩
  | itemsDelete main index UUID => cases hq

theorem VoteOk.update {V : String} {d : Document} (h : VoteOk size V d) {array : List Record}
    (ha : VariantsOk size V array) :
    VoteOk size V (Function.update d .voteVariants (some (.records array))) where
  title := by rw [Function.update_of_ne (by decide)]; exact h.title
  description := by rw [Function.update_of_ne (by decide)]; exact h.description
  variants := ⟨array, Function.update_self .., ha⟩

theorem UserOk.update {d : Document} (h : UserOk size d) {l : List Record} (hl : ListOk size l) :
    UserOk size (Function.update d .userVotesList (some (.records l))) where
  role := by rw [Function.update_of_ne (by decide)]; exact h.role
  list := ⟨l, Function.update_self .., hl⟩

theorem UserOk.setRole {d : Document} (h : UserOk size d) (role : Bool) :
    UserOk size (Function.update d .userRole (some (.scalar (.bool role)))) where
  role := ⟨role, by rw [Function.update_self]; rfl⟩
  list := by rw [Function.update_of_ne (by decide)]; exact h.list

theorem DocsOk.setVote {db : Database} (h : DocsOk size db) {V : String} {d : Document}
    (hd : VoteOk size V d) (hkey : Value.asString (d .voteUUID) = some V) :
    DocsOk size (db.setData .votes V d) where
  keyed := h.keyed.setVote hkey
  votes := by
    intro W e he
    have he : (db.votes.insert V d).lookup W = some e := he
    by_cases hW : W = V
    · subst hW
      rw [AList.lookup_insert, Option.some.injEq] at he
      rw [← he]; exact hd
    · rw [AList.lookup_insert_ne hW] at he
      exact h.votes W e he
  users := h.users

theorem DocsOk.setUser {db : Database} (h : DocsOk size db) {email : String} {d : Document}
    (hd : UserOk size d) (hkey : Value.asString (d .userEmail) = some email) :
    DocsOk size (db.setData .users email d) where
  keyed := h.keyed.setUser hkey
  votes := h.votes
  users := by
    intro u e he
    have he : (db.users.insert email d).lookup u = some e := he
    by_cases hu : u = email
    · subst hu
      rw [AList.lookup_insert, Option.some.injEq] at he
      rw [← he]; exact hd
    · rw [AList.lookup_insert_ne hu] at he
      exact h.users u e he

theorem DocsOk.set {db : Database} (h : DocsOk size db) {c : CollectionId} {document : String}
    {d : Document} (hd : SetOk size c document d) : DocsOk size (db.setData c document d) := by
  cases c with
  | votes => exact h.setVote hd.1 hd.2
  | users => exact h.setUser hd.1 hd.2

theorem DocsOk.update {db db' : Database} (h : DocsOk size db) {c : CollectionId}
    {document : String} {f : Field} {v : Value} (hu : UpdateOk size c document f v)
    (hdb : db.updateData c document f v = some db') : DocsOk size db' := by
  obtain ⟨d, hd, rfl⟩ := updateData_eq_some.mp hdb
  cases c with
  | votes =>
    obtain ⟨rfl, array, rfl, ha⟩ := hu
    refine h.setVote ((h.votes document d hd).update ha) ?_
    rw [Function.update_of_ne (by decide)]
    exact h.keyed.1 document d hd
  | users =>
    obtain ⟨rfl, l, rfl, hl⟩ := hu
    refine h.setUser ((h.users document d hd).update hl) ?_
    rw [Function.update_of_ne (by decide)]
    exact h.keyed.2 document d hd

theorem DocsOk.delete {db : Database} (h : DocsOk size db) (V : String) :
    DocsOk size (db.delete .votes V) where
  keyed := ⟨h.keyed.1.erase V, h.keyed.2⟩
  votes := by
    intro W d hd
    have hd : (db.votes.erase V).lookup W = some d := hd
    by_cases hW : W = V
    · subst hW
      rw [AList.lookup_erase] at hd
      cases hd
    · rw [AList.lookup_erase_ne hW] at hd
      exact h.votes W d hd
  users := h.users

theorem docsOk_empty : DocsOk size .empty where
  keyed := wellKeyed_empty
  votes := fun V d h => by cases h
  users := fun e d h => by cases h

theorem userOk_userData (email : String) : UserOk size (userData email) :=
  ⟨⟨false, rfl⟩, [], rfl, listOk_nil⟩

theorem voteOk_voteData {voteDate description title uuid : String} {items items' : List Int}
    {cellForRow : Int → Option String} {variants : List Record}
    (h : variantsArray items cellForRow = .ok (items', variants))
    (hsize : variants.length = size uuid) :
    VoteOk size uuid (voteData voteDate description title uuid variants) := by
  have hnew : ∀ i (hi : i < variants.length), ∃ id text, variants[i] = variant id text :=
    fun i hi => variantsArray_variants h variants[i] (List.getElem_mem hi)
  refine ⟨⟨title, rfl⟩, ⟨description, rfl⟩, variants, rfl, hsize, fun i hi => ?_, fun i hi => ?_⟩
  · obtain ⟨id, text, hr⟩ := hnew i hi
    refine ⟨0, ?_⟩
    unfold statusAt
    rw [List.getElem?_eq_getElem hi, hr]; rfl
  · obtain ⟨id, text, hr⟩ := hnew i hi
    refine ⟨text, ?_⟩
    rw [List.getElem?_eq_getElem hi, hr]; rfl

/-! ## effects -/

theorem map_modify_of_comp {α β : Type} (g : α → β) (f : α → α) (hg : ∀ a, g (f a) = g a)
    (l : List α) (i : Nat) : (l.modify i f).map g = l.map g := by
  apply List.ext_getElem?
  intro j
  rw [List.getElem?_map, List.getElem?_map, List.getElem?_modify]
  by_cases h : i = j
  · cases l[j]? <;> simp [h, hg]
  · cases l[j]? <;> simp [h]

theorem mem_modify {α : Type} {l : List α} {i : Nat} {f : α → α} {x : α} (h : x ∈ l.modify i f) :
    x ∈ l ∨ ∃ a, l[i]? = some a ∧ x = f a := by
  obtain ⟨j, hj⟩ := List.mem_iff_getElem?.mp h
  rw [List.getElem?_modify] at hj
  by_cases hij : i = j
  · subst hij
    right
    cases hl : l[i]? with
    | none => simp [hl] at hj
    | some a =>
      rw [hl] at hj
      exact ⟨a, rfl, by simpa [eq_comm] using hj⟩
  · left
    cases hl : l[j]? with
    | none => simp [hl] at hj
    | some a =>
      obtain rfl : a = x := by simpa [hl, hij] using hj
      exact List.mem_of_getElem? hl

theorem map_views_perform {α : Type} (g : VoteView → α)
    (hrow : ∀ v x, g { v with selectRow := x } = g v)
    (htitle : ∀ v x, g { v with titleLabel := x } = g v)
    (hdescription : ∀ v x, g { v with descriptionLabel := x } = g v)
    (harr : ∀ v x, g { v with arr := x } = g v) (s : System) (e : Effect) :
    (s.perform e).views.map g = s.views.map g := by
  cases e with
  | selectRow view x =>
    exact map_modify_of_comp g (fun v => { v with selectRow := x }) (fun v => hrow v x) _ view
  | titleString view x =>
    exact map_modify_of_comp g (fun v => { v with titleLabel := x }) (fun v => htitle v x) _ view
  | descriptionString view x =>
    exact map_modify_of_comp g (fun v => { v with descriptionLabel := x })
      (fun v => hdescription v x) _ view
  | arr view x =>
    exact map_modify_of_comp g (fun v => { v with arr := x }) (fun v => harr v x) _ view
  | _ => rfl

theorem screens_perform (s : System) (e : Effect) : (s.perform e).screens = s.screens :=
  map_views_perform VoteView.UUID (fun _ _ => rfl) (fun _ _ => rfl) (fun _ _ => rfl)
    (fun _ _ => rfl) s e

theorem reload_ok {s : System} {view : Nat} {v : VoteView} (hv : s.views[view]? = some v) :
    InFlightOk size s.screens (v.reload view) := by
  refine ⟨⟨"", rfl⟩, ?_⟩
  show (s.views.map VoteView.UUID)[view]? = some v.UUID
  rw [List.getElem?_map, hv]; rfl

theorem newTasks_ok {s : System} {e : Effect} (he : EffectOk size s.screens e) :
    ∀ task ∈ s.newTasks e, InFlightOk size s.screens task := by
  intro task ht
  cases e with
  | getDocuments q k =>
    obtain rfl := List.mem_singleton.mp ht
    exact he
  | updateData t p c document f v =>
    obtain rfl := List.mem_singleton.mp ht
    exact he
  | selectRow view row =>
    have ht : task ∈ s.reloads view := ht
    unfold System.reloads at ht
    cases hv : s.views[view]? with
    | none => rw [hv] at ht; cases ht
    | some v =>
      rw [hv] at ht
      rw [List.eq_of_mem_replicate ht]
      exact reload_ok hv
  | _ => cases ht

theorem Sound.perform {s : System} (h : Sound size s) {e : Effect}
    (he : EffectOk size s.screens e) : Sound size (s.perform e) where
  docs := h.docs
  net := by
    intro task ht
    rw [screens_perform]
    rcases List.mem_append.mp ht with ht | ht
    · exact h.net task ht
    · exact newTasks_ok he task ht
  views := by
    intro v hv
    cases e with
    | arr view variants =>
      rcases mem_modify hv with hv | ⟨w, hw, rfl⟩
      · exact h.views v hv
      · right
        refine he w.UUID ?_
        show (s.views.map VoteView.UUID)[view]? = some w.UUID
        rw [List.getElem?_map, hw]; rfl
    | selectRow view row =>
      rcases mem_modify hv with hv | ⟨w, hw, rfl⟩
      · exact h.views v hv
      · exact h.views w (List.mem_of_getElem? hw)
    | titleString view x =>
      rcases mem_modify hv with hv | ⟨w, hw, rfl⟩
      · exact h.views v hv
      · exact h.views w (List.mem_of_getElem? hw)
    | descriptionString view x =>
      rcases mem_modify hv with hv | ⟨w, hw, rfl⟩
      · exact h.views v hv
      · exact h.views w (List.mem_of_getElem? hw)
    | _ => exact h.views v hv

theorem Sound.performAll {s : System} (h : Sound size s) {es : List Effect}
    (hes : ∀ e ∈ es, EffectOk size s.screens e) : Sound size (s.performAll es) := by
  induction es generalizing s with
  | nil => exact h
  | cons e es ih =>
    refine ih (s := s.perform e) (h.perform (hes e List.mem_cons_self)) fun e' he' => ?_
    rw [screens_perform]
    exact hes e' (List.mem_cons_of_mem _ he')

/-! ## steps -/

theorem Sound.keep {s u : System} (h : Sound size s) (hdocs : DocsOk size u.db)
    (hviews : u.views = s.views) (hnet : ∀ task ∈ u.net, InFlightOk size s.screens task) :
    Sound size u where
  docs := hdocs
  net := by
    unfold System.screens
    rw [hviews]
    exact hnet
  views := by rw [hviews]; exact h.views

theorem Sound.serve {s u : System} (h : Sound size s) {task : Task} {ok : Bool}
    (hs : Served s task ok u) : Sound size u := by
  have hall : ∀ {l₁ l₂ : List Task} {x : Task}, s.net = l₁ ++ x :: l₂ →
      InFlightOk size s.screens x ∧ ∀ y ∈ l₁ ++ l₂, InFlightOk size s.screens y := by
    intro l₁ l₂ x hnet
    refine ⟨h.net x (by rw [hnet]; simp), fun y hy => h.net y ?_⟩
    rw [hnet]
    exact mem_middle.mpr (.inr hy)
  have hput : ∀ {l₁ l₂ : List Task} {x y : Task}, s.net = l₁ ++ x :: l₂ →
      InFlightOk size s.screens y → ∀ z ∈ l₁ ++ y :: l₂, InFlightOk size s.screens z := by
    intro l₁ l₂ x y hnet hy z hz
    simp only [List.mem_append, List.mem_cons] at hz
    rcases hz with hz | rfl | hz
    · exact (hall hnet).2 z (List.mem_append_left _ hz)
    · exact hy
    · exact (hall hnet).2 z (List.mem_append_right _ hz)
  cases hs with
  | read hnet =>
    obtain ⟨hq, hk⟩ := (hall hnet).1
    exact h.keep h.docs rfl (hput hnet ⟨.inr (.inr ⟨_, rfl, fun d hd => h.docs.finds hq hd⟩), hk⟩)
  | readFails hnet => exact h.keep h.docs rfl (hput hnet ⟨.inl rfl, (hall hnet).1.2⟩)
  | update hnet hdb =>
    exact h.keep (h.docs.update (hall hnet).1 hdb) rfl (hall hnet).2
  | updateFails hnet _ => exact h.keep h.docs rfl (hall hnet).2
  | set hnet => exact h.keep (h.docs.set (hall hnet).1) rfl (hall hnet).2
  | setFails hnet => exact h.keep h.docs rfl (hall hnet).2
  | @delete _ _ document k hnet =>
    have hk : k.isDelete = true := (hall hnet).1
    refine h.keep (h.docs.delete document) rfl (hput hnet ⟨.inr (.inl ⟨hk, rfl⟩), ?_⟩)
    cases k <;> first | exact trivial | cases hk
  | @deleteFails _ _ document k hnet =>
    have hk : k.isDelete = true := (hall hnet).1
    refine h.keep h.docs rfl (hput hnet ⟨.inl rfl, ?_⟩)
    cases k <;> first | exact trivial | cases hk

theorem Sound.deliver {s u : System} (h : Sound size s) {k : Nat} (hs : s.deliver k = some u) :
    Sound size u := by
  obtain ⟨l₁, l₂, r, cb, es, hnet, hrun, rfl⟩ := deliver_delivered hs
  have hrest : Sound size { s with net := l₁ ++ l₂ } := by
    refine h.keep h.docs rfl fun y hy => h.net y ?_
    rw [hnet]
    exact mem_middle.mpr (.inr hy)
  refine hrest.performAll fun e he => ?_
  have htask : InFlightOk size s.screens (.reply r cb) := h.net _ (by rw [hnet]; simp)
  cases hdel : cb.isDelete with
  | false =>
    obtain ⟨es', hrun', hes⟩ := run_safe htask.2 htask.1 hdel s.itemsDtc
    rw [hrun] at hrun'
    cases hrun'
    exact hes e he
  | true =>
    cases cb with
    | itemsDelete main index UUID =>
      obtain ⟨_, rfl⟩ := itemsDeleteClosure_mem hrun he
      exact trivial
    | _ => cases hdel

theorem Sound.join {s : System} (h : Sound size s) {task : Task}
    (ht : InFlightOk size s.screens task) :
    ∀ x ∈ s.net ++ [task], InFlightOk size s.screens x := by
  intro x hx
  rcases List.mem_append.mp hx with hx | hx
  · exact h.net x hx
  · rw [List.mem_singleton.mp hx]; exact ht

/-- **Every step keeps the shape of all documents, requests, answers and screens.** -/
theorem step_sound {s u : System} {l : Label} (h : Sound size s) (hl : SizeOk size l)
    (hs : s.step l = some u) : Sound size u := by
  cases l with
  | serve k ok =>
    obtain ⟨task, _, hserved⟩ := serve_served hs
    exact h.serve hserved
  | deliver k => exact h.deliver hs
  | openVote email UUID =>
    cases hs
    refine ⟨h.docs, fun task ht => ?_, fun v hv => ?_⟩
    · have hmono : ∀ view V, s.screens[view]? = some V →
          (s.screens ++ [UUID])[view]? = some V := fun view V hV => by
        rw [List.getElem?_append_left (List.getElem?_eq_some_iff.mp hV).1]; exact hV
      have hscreens : System.screens { s with views := s.views ++ [{ emailString := email, UUID := UUID }] }
          = s.screens ++ [UUID] := by simp [System.screens]
      rw [hscreens]
      have htask := h.net task ht
      cases task with
      | read q k => exact ⟨htask.1, by cases k <;> first | exact htask.2 | exact hmono _ _ htask.2⟩
      | reply r k => exact ⟨htask.1, by cases k <;> first | exact htask.2 | exact hmono _ _ htask.2⟩
      | _ => exact htask
    · rcases List.mem_append.mp hv with hv | hv
      · exact h.views v hv
      · rw [List.mem_singleton.mp hv]; exact .inl rfl
  | voteWillAppear view =>
    obtain ⟨v, hv, rfl⟩ := step_voteWillAppear hs
    have hscreens : (s.views.set view { v with subscriptions := v.subscriptions + 1 }).map
        VoteView.UUID = s.screens := by
      have hlt : view < s.views.length := (List.getElem?_eq_some_iff.mp hv).1
      have hview : s.screens[view]? = some v.UUID := by
        unfold System.screens
        rw [List.getElem?_map, hv]; rfl
      obtain ⟨hlt', hget⟩ := List.getElem?_eq_some_iff.mp hview
      rw [List.map_set]
      show s.screens.set view v.UUID = s.screens
      rw [← hget, List.set_getElem_self]
    refine ⟨h.docs, fun task ht => ?_, fun w hw => ?_⟩
    · unfold System.screens
      rw [hscreens]
      rcases List.mem_append.mp ht with ht | ht
      · exact h.net task ht
      · simp only [List.mem_cons, List.not_mem_nil, or_false, or_self] at ht
        rw [ht]
        exact reload_ok hv
    · rcases List.mem_or_eq_of_mem_set hw with hw | rfl
      · exact h.views w hw
      · exact h.views v (List.mem_of_getElem? hv)
  | tap view row =>
    obtain ⟨v, hv, hrow, rfl⟩ := step_tap hs
    have hsame : Sound size { s with taps := s.taps + 1 } := h.keep h.docs rfl h.net
    refine hsame.perform ⟨⟨"", rfl⟩, ?_⟩
    -- the row is shown, so it is a row of the vote
    rcases h.views v (List.mem_of_getElem? hv) with harr | harr
    · rw [harr] at hrow; cases hrow
    · exact ⟨Int.natCast_nonneg row, by rw [harr] at hrow; exact Int.ofNat_lt.mpr hrow⟩
  | openMain email =>
    cases hs
    exact h.keep h.docs rfl h.net
  | mainWillAppear main =>
    obtain ⟨m, _, _, rfl⟩ := step_mainWillAppear hs
    have hsame : Sound size { s with mains := s.mains.set main { m with appeared := true } } :=
      h.keep h.docs rfl h.net
    exact hsame.perform ⟨⟨"", rfl⟩, trivial⟩
  | mainWillDisappear main =>
    obtain ⟨m, _, _, rfl⟩ := step_mainWillDisappear hs
    have hsame : Sound size { s with mains := s.mains.set main { m with appeared := false } } :=
      h.keep h.docs rfl h.net
    exact hsame.perform (e := itemsDeleteAll main) trivial
  | deleteRow main row =>
    obtain ⟨m, dtc, _, _, _, rfl⟩ := step_deleteRow hs
    exact h.keep h.docs rfl (h.join rfl)
  | signUp email =>
    obtain ⟨_, rfl | rfl⟩ := step_signUp hs
    · exact h.keep h.docs rfl h.net
    · exact h.keep h.docs rfl (h.join ⟨userOk_userData email, rfl⟩)
  | addNewVote title description voteDate uuid items cellForRow =>
    obtain ⟨_, items', variants, hv, rfl⟩ := step_addNewVote hs
    exact h.keep h.docs rfl (h.join ⟨voteOk_voteData hv (hl _ _ hv), rfl⟩)
  | setUserRole email role =>
    obtain ⟨db, hdb, rfl⟩ := step_setUserRole hs
    obtain ⟨d, hd, rfl⟩ := updateData_eq_some.mp hdb
    refine h.keep (h.docs.setUser ((h.docs.users email d hd).setRole role) ?_) rfl h.net
    rw [Function.update_of_ne (by decide)]
    exact h.docs.keyed.2 email d hd

theorem sound_initial : Sound size .initial :=
  ⟨docsOk_empty, fun _ h => absurd h List.not_mem_nil, fun _ h => absurd h List.not_mem_nil⟩

end

/-! ## runs -/

/-- the UUID that a label takes from `UUID()` -/
def Label.uuid : Label → List String
  | .addNewVote _ _ _ uuid _ _ => [uuid]
  | _ => []

/-- `UUID()` returns something new, and nothing else changes what it has returned -/
theorem step_uuids {s u : System} {l : Label} (h : s.step l = some u) :
    u.uuids = l.uuid ++ s.uuids ∧ ∀ V ∈ l.uuid, V ∉ s.uuids := by
  have hsame : l.uuid = [] → u.uuids = s.uuids →
      u.uuids = l.uuid ++ s.uuids ∧ ∀ V ∈ l.uuid, V ∉ s.uuids := by
    intro hl hu
    rw [hl, hu]
    exact ⟨rfl, fun V hV => absurd hV List.not_mem_nil⟩
  cases l with
  | addNewVote title description voteDate uuid items cellForRow =>
    obtain ⟨hnew, _, _, _, rfl⟩ := step_addNewVote h
    exact ⟨rfl, fun V hV => List.mem_singleton.mp hV ▸ hnew⟩
  | serve k ok =>
    obtain ⟨task, _, hserved⟩ := serve_served h
    exact hsame rfl (by cases hserved <;> rfl)
  | deliver k =>
    obtain ⟨l₁, l₂, r, cb, es, _, _, rfl⟩ := deliver_delivered h
    exact hsame rfl (performAll_keeps System.uuids (fun _ _ => rfl) _ es)
  | openVote email UUID => cases h; exact hsame rfl rfl
  | openMain email => cases h; exact hsame rfl rfl
  | voteWillAppear view => obtain ⟨v, _, rfl⟩ := step_voteWillAppear h; exact hsame rfl rfl
  | tap view row => obtain ⟨v, _, _, rfl⟩ := step_tap h; exact hsame rfl rfl
  | mainWillAppear main => obtain ⟨m, _, _, rfl⟩ := step_mainWillAppear h; exact hsame rfl rfl
  | mainWillDisappear main => obtain ⟨m, _, _, rfl⟩ := step_mainWillDisappear h; exact hsame rfl rfl
  | deleteRow main row => obtain ⟨m, dtc, _, _, _, rfl⟩ := step_deleteRow h; exact hsame rfl rfl
  | signUp email => obtain ⟨_, rfl | rfl⟩ := step_signUp h <;> exact hsame rfl rfl
  | setUserRole email role => obtain ⟨db, _, rfl⟩ := step_setUserRole h; exact hsame rfl rfl

theorem exists_size {s u : System} {ls : List Label} (hrun : System.Run s ls u)
    (size₀ : String → Nat) :
    ∃ size : String → Nat, (∀ V ∈ s.uuids, size V = size₀ V) ∧ ∀ l ∈ ls, SizeOk size l := by
  induction ls generalizing s size₀ with
  | nil => exact ⟨size₀, fun _ _ => rfl, fun l hl => absurd hl List.not_mem_nil⟩
  | cons l ls ih =>
    obtain ⟨t, ht, hrest⟩ := (Machine.exec_cons System.step).mp hrun
    obtain ⟨huuids, hnew⟩ := step_uuids ht
    have hsub : ∀ V ∈ s.uuids, V ∈ t.uuids := fun V hV => by
      rw [huuids]; exact List.mem_append_right _ hV
    have hother : (∀ size, SizeOk size l) →
        ∃ size : String → Nat, (∀ V ∈ s.uuids, size V = size₀ V) ∧ ∀ x ∈ l :: ls, SizeOk size x := by
      intro hl
      obtain ⟨size, h1, h2⟩ := ih hrest size₀
      refine ⟨size, fun V hV => h1 V (hsub V hV), fun x hx => ?_⟩
      rcases List.mem_cons.mp hx with rfl | hx
      · exact hl size
      · exact h2 x hx
    cases l with
    | addNewVote title description voteDate uuid items cellForRow =>
      obtain ⟨_, items', variants, hv, _⟩ := step_addNewVote ht
      obtain ⟨size, h1, h2⟩ := ih hrest (Function.update size₀ uuid variants.length)
      refine ⟨size, fun V hV => ?_, fun x hx => ?_⟩
      · rw [h1 V (hsub V hV), Function.update_of_ne]
        rintro rfl
        exact hnew V (List.mem_singleton_self V) hV
      · rcases List.mem_cons.mp hx with rfl | hx
        · intro items'' variants' hv'
          rw [hv] at hv'
          cases hv'
          rw [h1 uuid (by rw [huuids]; exact List.mem_cons_self), Function.update_self]
        · exact h2 x hx
    | _ => exact hother fun _ => trivial

/-- **Every reachable state is sound.** -/
theorem run_sound {s : System} {ls : List Label} (hrun : System.Run .initial ls s) :
    ∃ size : String → Nat, Sound size s := by
  obtain ⟨size, _, hsize⟩ := exists_size hrun fun _ => 0
  exact ⟨size, Machine.exec_invariant System.step (A := SizeOk size)
    (fun _ _ _ h hl hs => step_sound h hl hs) hsize hrun sound_initial⟩

end VoteOnOffice
