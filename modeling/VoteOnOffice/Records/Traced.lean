import VoteOnOffice.Records.Origin
import VoteOnOffice.Records.Sound

/-!
# Every reachable state comes from what users have done

* `Traced o s`         the invariant: documents, requests, answers and screens come from `o`;
* `Origins.Allows`     what `o` must have for a label;
* `step_traced`        **every step keeps the invariant, if `o` allows its label.**
-/

namespace VoteOnOffice

section
variable (o : Origins)

structure Origins.OnView (v : VoteView) : Prop where
  row : v.selectRow = -1 ∨ o.tapped v.emailString v.UUID v.selectRow
  arr : v.arr = [] ∨ o.Variants v.UUID v.arr
  title : v.titleLabel = "" ∨ o.Text v.UUID .voteTitle v.titleLabel
  description : v.descriptionLabel = "" ∨ o.Text v.UUID .voteDescription v.descriptionLabel

structure Origins.OnMain (m : MainView) : Prop where
  rows : ∀ dtc ∈ m.itemsDtc, o.Row m.emailString dtc
  items : m.items = m.itemsDtc
  admin : m.adminStatus = true → o.granted m.emailString

structure Traced (s : System) : Prop where
  votes : ∀ V d, s.db.votes.lookup V = some d → o.Vote V d
  users : ∀ email d, s.db.users.lookup email = some d → o.User email d
  net : ∀ task ∈ s.net, o.InFlight s.addresses task
  views : ∀ v ∈ s.views, o.OnView v
  mains : ∀ m ∈ s.mains, o.OnMain m

/-- `o` has what the label is about -/
def Origins.Allows (s : System) : Label → Prop
  | .tap view row => ∀ v, s.views[view]? = some v → row < v.arr.length →
    o.tapped v.emailString v.UUID row
  | .addNewVote title description voteDate uuid items cellForRow => ∀ items' variants,
    variantsArray items cellForRow = .ok (items', variants) →
      o.composed uuid (voteData voteDate description title uuid variants)
  | .setUserRole email role => role = true → o.granted email
  | .deleteRow main row => ∀ m dtc, s.mains[main]? = some m → m.itemsDtc[row]? = some dtc →
    m.adminStatus = true → o.deleted m.emailString dtc.UUID
  | _ => True

end

section
variable {o : Origins}

/-! ## addresses -/

theorem address_view {s : System} {view : Nat} {v : VoteView} (h : s.views[view]? = some v) :
    s.addresses.views[view]? = some (v.emailString, v.UUID) := by
  show (s.views.map fun v => (v.emailString, v.UUID))[view]? = _
  rw [List.getElem?_map, h]
  rfl

theorem address_main {s : System} {main : Nat} {m : MainView} (h : s.mains[main]? = some m) :
    s.addresses.mains[main]? = some m.emailString := by
  show (s.mains.map MainView.emailString)[main]? = _
  rw [List.getElem?_map, h]
  rfl

theorem main_of_address {s : System} {main : Nat} {email : String}
    (h : s.addresses.mains[main]? = some email) :
    ∃ m, s.mains[main]? = some m ∧ m.emailString = email := by
  have h : (s.mains.map MainView.emailString)[main]? = some email := h
  rw [List.getElem?_map, Option.map_eq_some_iff] at h
  exact h

theorem addresses_perform (s : System) (e : Effect) : (s.perform e).addresses = s.addresses := by
  have hviews := map_views_perform (fun v => (v.emailString, v.UUID)) (fun _ _ => rfl)
    (fun _ _ => rfl) (fun _ _ => rfl) (fun _ _ => rfl) s e
  have hmains : (s.perform e).mains.map MainView.emailString
      = s.mains.map MainView.emailString := by
    cases e with
    | adminStatus main status =>
      exact map_modify_of_comp MainView.emailString
        (fun m => { m with adminStatus := status }) (fun _ => rfl) _ main
    | items main l =>
      exact map_modify_of_comp MainView.emailString
        (fun m => { m with itemsDtc := l, items := l }) (fun _ => rfl) _ main
    | _ => rfl
  exact congrArg₂ Addresses.mk hviews hmains

theorem map_set_same {α β : Type} (g : α → β) {l : List α} {i : Nat} {x y : α}
    (hx : l[i]? = some x) (hy : g y = g x) : (l.set i y).map g = l.map g := by
  obtain ⟨hi, rfl⟩ := List.getElem?_eq_some_iff.mp hx
  rw [List.map_set, hy, ← List.getElem_map (f := g) (h := by simpa using hi),
    List.set_getElem_self]

/-! ## effects -/

theorem reload_inFlight {s : System} {view : Nat} {v : VoteView} (h : s.views[view]? = some v) :
    o.InFlight s.addresses (v.reload view) := ⟨rfl, address_view h⟩

theorem newTasks_inFlight {s : System} {e : Effect} (he : o.Shown s.addresses e) :
    ∀ task ∈ s.newTasks e, o.InFlight s.addresses task := by
  intro task ht
  cases e with
  | getDocuments q k =>
    obtain rfl := List.mem_singleton.mp ht
    exact he
  | updateData t p c document f v =>
    obtain rfl := List.mem_singleton.mp ht
    exact he
  | selectRow view row =>
    have ht : task ∈ s.reloads view := ht
    unfold System.reloads at ht
    cases hv : s.views[view]? with
    | none => rw [hv] at ht; cases ht
    | some v =>
      rw [hv] at ht
      rw [List.eq_of_mem_replicate ht]
      exact reload_inFlight hv
  | _ => cases ht

theorem Traced.onViews {s : System} (h : Traced o s) {e : Effect} (he : o.Shown s.addresses e) :
    ∀ v ∈ e.onViews s.views, o.OnView v := by
  intro v hv
  cases e with
  | selectRow view row =>
    rcases mem_modify hv with hv | ⟨w, hw, rfl⟩
    · exact h.views v hv
    · have hold := h.views w (List.mem_of_getElem? hw)
      exact ⟨.inr (he w.emailString w.UUID (address_view hw)), hold.arr, hold.title, hold.description⟩
  | titleString view x =>
    rcases mem_modify hv with hv | ⟨w, hw, rfl⟩
    · exact h.views v hv
    · have hold := h.views w (List.mem_of_getElem? hw)
      exact ⟨hold.row, hold.arr, .inr (he w.emailString w.UUID (address_view hw)), hold.description⟩
  | descriptionString view x =>
    rcases mem_modify hv with hv | ⟨w, hw, rfl⟩
    · exact h.views v hv
    · have hold := h.views w (List.mem_of_getElem? hw)
      exact ⟨hold.row, hold.arr, hold.title, .inr (he w.emailString w.UUID (address_view hw))⟩
  | arr view variants =>
    rcases mem_modify hv with hv | ⟨w, hw, rfl⟩
    · exact h.views v hv
    · have hold := h.views w (List.mem_of_getElem? hw)
      exact ⟨hold.row, .inr (he w.emailString w.UUID (address_view hw)), hold.title, hold.description⟩
  | _ => exact h.views v hv

theorem Traced.onMains {s : System} (h : Traced o s) {e : Effect} (he : o.Shown s.addresses e) :
    ∀ m ∈ e.onMains s.mains, o.OnMain m := by
  intro m hm
  cases e with
  | adminStatus main status =>
    rcases mem_modify hm with hm | ⟨w, hw, rfl⟩
    · exact h.mains m hm
    · have hold := h.mains w (List.mem_of_getElem? hw)
      exact ⟨hold.rows, hold.items, he w.emailString (address_main hw)⟩
  | items main l =>
    rcases mem_modify hm with hm | ⟨w, hw, rfl⟩
    · exact h.mains m hm
    · have hold := h.mains w (List.mem_of_getElem? hw)
      exact ⟨he w.emailString (address_main hw), rfl, hold.admin⟩
  | _ => exact h.mains m hm

theorem Traced.perform {s : System} (h : Traced o s) {e : Effect} (he : o.Shown s.addresses e) :
    Traced o (s.perform e) where
  votes := h.votes
  users := h.users
  net := by
    intro task ht
    rw [addresses_perform]
    rcases List.mem_append.mp ht with ht | ht
    · exact h.net task ht
    · exact newTasks_inFlight he task ht
  views := h.onViews he
  mains := h.onMains he

theorem Traced.performAll {s : System} (h : Traced o s) {es : List Effect}
    (hes : ∀ e ∈ es, o.Shown s.addresses e) : Traced o (s.performAll es) := by
  induction es generalizing s with
  | nil => exact h
  | cons e es ih =>
    refine ih (s := s.perform e) (h.perform (hes e List.mem_cons_self)) fun e' he' => ?_
    rw [addresses_perform]
    exact hes e' (List.mem_cons_of_mem _ he')

/-! ## the server -/

theorem Traced.found {s : System} (h : Traced o s) {q : Query} {d : Document}
    (hd : d ∈ s.db.getDocuments q) : o.Found q d := by
  obtain ⟨⟨id, hid⟩, hsel⟩ := Database.mem_getDocuments.mp hd
  obtain ⟨c, w⟩ := q
  cases c with
  | votes => exact ⟨⟨id, h.votes id d hid⟩, hsel⟩
  | users => exact ⟨⟨id, h.users id d hid⟩, hsel⟩

theorem Traced.put {s : System} (h : Traced o s) {c : CollectionId} {document : String}
    {d : Document} (hd : o.Put c document d) : Traced o { s with db := s.db.setData c document d } := by
  cases c with
  | votes =>
    refine ⟨fun V e he => ?_, h.users, h.net, h.views, h.mains⟩
    have he : (s.db.votes.insert document d).lookup V = some e := he
    by_cases hV : V = document
    · subst hV
      rw [AList.lookup_insert, Option.some.injEq] at he
      rw [← he]; exact hd
    · rw [AList.lookup_insert_ne hV] at he
      exact h.votes V e he
  | users =>
    refine ⟨h.votes, fun email e he => ?_, h.net, h.views, h.mains⟩
    have he : (s.db.users.insert document d).lookup email = some e := he
    by_cases hu : email = document
    · subst hu
      rw [AList.lookup_insert, Option.some.injEq] at he
      rw [← he]; exact hd
    · rw [AList.lookup_insert_ne hu] at he
      exact h.users email e he

theorem Traced.write {s : System} (h : Traced o s) {c : CollectionId} {document : String}
    {f : Field} {v : Value} {db : Database} (hw : o.Written c document f v)
    (hdb : s.db.updateData c document f v = some db) : Traced o { s with db := db } := by
  obtain ⟨d, hd, rfl⟩ := updateData_eq_some.mp hdb
  refine h.put ?_
  cases c with
  | votes =>
    obtain ⟨rfl, array, rfl, ha⟩ := hw
    exact (h.votes document d hd).update ha
  | users =>
    obtain ⟨rfl, l, rfl, hl⟩ := hw
    exact (h.users document d hd).update hl

theorem Traced.erase {s : System} (h : Traced o s) (V : String) :
    Traced o { s with db := s.db.delete .votes V } := by
  refine ⟨fun W d hd => ?_, h.users, h.net, h.views, h.mains⟩
  have hd : (s.db.votes.erase V).lookup W = some d := hd
  by_cases hW : W = V
  · subst hW
    rw [AList.lookup_erase] at hd
    cases hd
  · rw [AList.lookup_erase_ne hW] at hd
    exact h.votes W d hd

theorem Traced.fly {s u : System} (h : Traced o s) (hdb : u.db = s.db) (hviews : u.views = s.views)
    (hmains : u.mains = s.mains) (hnet : ∀ task ∈ u.net, o.InFlight s.addresses task) :
    Traced o u where
  votes := by rw [hdb]; exact h.votes
  users := by rw [hdb]; exact h.users
  net := by
    unfold System.addresses
    rw [hviews, hmains]
    exact hnet
  views := by rw [hviews]; exact h.views
  mains := by rw [hmains]; exact h.mains

theorem Traced.serve {s u : System} (h : Traced o s) {task : Task} {ok : Bool}
    (hs : Served s task ok u) : Traced o u := by
  have hrest : ∀ {l₁ l₂ : List Task} {x : Task}, s.net = l₁ ++ x :: l₂ →
      o.InFlight s.addresses x ∧ ∀ y ∈ l₁ ++ l₂, o.InFlight s.addresses y := by
    intro l₁ l₂ x hnet
    refine ⟨h.net x (by rw [hnet]; simp), fun y hy => h.net y ?_⟩
    rw [hnet]
    exact mem_middle.mpr (.inr hy)
  have hput : ∀ {l₁ l₂ : List Task} {x y : Task}, s.net = l₁ ++ x :: l₂ →
      o.InFlight s.addresses y → ∀ z ∈ l₁ ++ y :: l₂, o.InFlight s.addresses z := by
    intro l₁ l₂ x y hnet hy z hz
    rcases mem_middle.mp hz with rfl | hz
    · exact hy
    · exact (hrest hnet).2 z hz
  have hnone : ∀ {k : Callback}, k.isDelete = true → o.Caught s.addresses k := by
    intro k hk
    cases k <;> first | exact trivial | cases hk
  cases hs with
  | @read _ _ q k hnet =>
    obtain ⟨hq, hk⟩ := (hrest hnet).1
    refine h.fly rfl rfl rfl (hput hnet ⟨fun ds hds => ⟨q, hq, fun d hd => ?_⟩, hk⟩)
    cases hds
    exact h.found hd
  | readFails hnet =>
    exact h.fly rfl rfl rfl (hput hnet ⟨fun ds hds => (by cases hds), (hrest hnet).1.2⟩)
  | update hnet hdb =>
    exact (h.write (hrest hnet).1 hdb).fly rfl rfl rfl (hrest hnet).2
  | updateFails hnet _ => exact h.fly rfl rfl rfl (hrest hnet).2
  | set hnet => exact (h.put (hrest hnet).1).fly rfl rfl rfl (hrest hnet).2
  | setFails hnet => exact h.fly rfl rfl rfl (hrest hnet).2
  | delete hnet =>
    exact (h.erase _).fly rfl rfl rfl
      (hput hnet ⟨fun ds hds => (by cases hds), hnone (hrest hnet).1.1⟩)
  | deleteFails hnet =>
    exact h.fly rfl rfl rfl (hput hnet ⟨fun ds hds => (by cases hds), hnone (hrest hnet).1.1⟩)

theorem Traced.deliver {s u : System} (h : Traced o s) {k : Nat} (hs : s.deliver k = some u) :
    Traced o u := by
  obtain ⟨l₁, l₂, r, cb, es, hnet, hrun, rfl⟩ := deliver_delivered hs
  have hcut : Traced o { s with net := l₁ ++ l₂ } := by
    refine h.fly rfl rfl rfl fun y hy => h.net y ?_
    rw [hnet]
    exact mem_middle.mpr (.inr hy)
  obtain ⟨hr, hk⟩ : o.InFlight s.addresses (.reply r cb) := h.net _ (by rw [hnet]; simp)
  refine hcut.performAll (shown_of_run hk hr (fun main email hm dtc hdtc => ?_) hrun)
  obtain ⟨m, hget, rfl⟩ := main_of_address hm
  have hdtc : dtc ∈ ((s.mains[main]?).map MainView.itemsDtc).getD [] := hdtc
  rw [hget] at hdtc
  exact (h.mains m (List.mem_of_getElem? hget)).rows dtc hdtc

/-! ## steps -/

theorem Traced.grow {s u : System} (h : Traced o s) (hdb : u.db = s.db)
    (ha : s.addresses.Grows u.addresses) (hnet : ∀ task ∈ u.net, task ∈ s.net)
    (hviews : ∀ v ∈ u.views, o.OnView v) (hmains : ∀ m ∈ u.mains, o.OnMain m) : Traced o u where
  votes := by rw [hdb]; exact h.votes
  users := by rw [hdb]; exact h.users
  net := fun task ht => (h.net task (hnet task ht)).mono ha
  views := hviews
  mains := hmains

theorem Traced.join {s : System} (h : Traced o s) {tasks : List Task}
    (ht : ∀ task ∈ tasks, o.InFlight s.addresses task) :
    ∀ x ∈ s.net ++ tasks, o.InFlight s.addresses x := by
  intro x hx
  rcases List.mem_append.mp hx with hx | hx
  · exact h.net x hx
  · exact ht x hx

theorem grows_append {a : Addresses} (x : List (String × String)) (y : List String) :
    a.Grows ⟨a.views ++ x, a.mains ++ y⟩ where
  views := fun i z hz => by
    rw [List.getElem?_append_left (List.getElem?_eq_some_iff.mp hz).1]
    exact hz
  mains := fun i z hz => by
    rw [List.getElem?_append_left (List.getElem?_eq_some_iff.mp hz).1]
    exact hz

theorem Traced.appear {s : System} (h : Traced o s) {main : Nat} {m : MainView}
    (hm : s.mains[main]? = some m) (b : Bool) :
    Traced o { s with mains := s.mains.set main { m with appeared := b } } ∧
      System.addresses { s with mains := s.mains.set main { m with appeared := b } }
        = s.addresses := by
  have hsame : System.addresses { s with mains := s.mains.set main { m with appeared := b } }
      = s.addresses :=
    congrArg (Addresses.mk _) (map_set_same MainView.emailString hm rfl)
  refine ⟨⟨h.votes, h.users, ?_, h.views, fun m' hm' => ?_⟩, hsame⟩
  · rw [hsame]
    exact h.net
  · rcases List.mem_or_eq_of_mem_set hm' with hm' | rfl
    · exact h.mains m' hm'
    · have hold := h.mains m (List.mem_of_getElem? hm)
      exact ⟨hold.rows, hold.items, hold.admin⟩

/-- **Every step leaves everything traced.** -/
theorem step_traced {s u : System} {l : Label} (h : Traced o s) (hl : o.Allows s l)
    (hs : s.step l = some u) : Traced o u := by
  cases l with
  | serve k ok =>
    obtain ⟨task, _, hserved⟩ := serve_served hs
    exact h.serve hserved
  | deliver k => exact h.deliver hs
  | openVote email UUID =>
    cases hs
    refine h.grow rfl ?_ (fun _ ht => ht) (fun v hv => ?_) h.mains
    · have happ := grows_append (a := s.addresses) [(email, UUID)] []
      unfold System.addresses at happ ⊢
      rw [List.append_nil] at happ
      rw [List.map_append]
      exact happ
    · rcases List.mem_append.mp hv with hv | hv
      · exact h.views v hv
      · rw [List.mem_singleton.mp hv]
        exact ⟨.inl rfl, .inl rfl, .inl rfl, .inl rfl⟩
  | voteWillAppear view =>
    obtain ⟨v, hv, rfl⟩ := step_voteWillAppear hs
    have hsame : (s.views.set view { v with subscriptions := v.subscriptions + 1 }).map
        (fun v => (v.emailString, v.UUID)) = s.addresses.views :=
      @map_set_same _ _ (fun v => (v.emailString, v.UUID)) _ _ v
        { v with subscriptions := v.subscriptions + 1 } hv rfl
    refine ⟨h.votes, h.users, fun task ht => ?_, fun w hw => ?_, h.mains⟩
    · unfold System.addresses
      rw [hsame]
      refine h.join (fun x hx => ?_) task ht
      simp only [List.mem_cons, List.not_mem_nil, or_false, or_self] at hx
      rw [hx]
      exact reload_inFlight hv
    · rcases List.mem_or_eq_of_mem_set hw with hw | rfl
      · exact h.views w hw
      · have hold := h.views v (List.mem_of_getElem? hv)
        exact ⟨hold.row, hold.arr, hold.title, hold.description⟩
  | tap view row =>
    obtain ⟨v, hv, hrow, rfl⟩ := step_tap hs
    have hsame : Traced o { s with taps := s.taps + 1 } := h.fly rfl rfl rfl h.net
    exact hsame.perform ⟨rfl, address_view hv, hl v hv hrow⟩
  | openMain email =>
    cases hs
    refine h.grow rfl ?_ (fun _ ht => ht) h.views fun m hm => ?_
    · have happ := grows_append (a := s.addresses) [] [email]
      unfold System.addresses at happ ⊢
      rw [List.append_nil] at happ
      rw [List.map_append]
      exact happ
    · rcases List.mem_append.mp hm with hm | hm
      · exact h.mains m hm
      · rw [List.mem_singleton.mp hm]
        exact ⟨fun _ hd => absurd hd List.not_mem_nil, rfl, fun hfalse => by cases hfalse⟩
  | mainWillAppear main =>
    obtain ⟨m, hm, _, rfl⟩ := step_mainWillAppear hs
    obtain ⟨hsame, ha⟩ := h.appear hm true
    refine hsame.perform ⟨rfl, ?_⟩
    show System.addresses _ |>.mains[main]? = _
    rw [ha]
    exact address_main hm
  | mainWillDisappear main =>
    obtain ⟨m, hm, _, rfl⟩ := step_mainWillDisappear hs
    obtain ⟨hsame, _⟩ := h.appear hm false
    exact hsame.perform (e := itemsDeleteAll main) fun _ _ _ hd => absurd hd List.not_mem_nil
  | deleteRow main row =>
    obtain ⟨m, dtc, hm, hrow, hadmin, rfl⟩ := step_deleteRow hs
    refine h.fly rfl rfl rfl (h.join fun task ht => ?_)
    rw [List.mem_singleton.mp ht]
    exact ⟨rfl, m.emailString, hl m dtc hm hrow hadmin⟩
  | signUp email =>
    obtain ⟨_, rfl | rfl⟩ := step_signUp hs
    · exact h.fly rfl rfl rfl h.net
    · refine h.fly rfl rfl rfl (h.join fun task ht => ?_)
      rw [List.mem_singleton.mp ht]
      exact ⟨rfl, fun hfalse => (by cases hfalse), [], rfl, fun _ hr => absurd hr List.not_mem_nil⟩
  | addNewVote title description voteDate uuid items cellForRow =>
    obtain ⟨_, items', variants, hv, rfl⟩ := step_addNewVote hs
    refine h.fly rfl rfl rfl (h.join fun task ht => ?_)
    rw [List.mem_singleton.mp ht]
    exact ⟨_, hl _ _ hv, fun _ _ => rfl, variants, variants, rfl, rfl, sameVariants_new hv⟩
  | setUserRole email role =>
    obtain ⟨db, hdb, rfl⟩ := step_setUserRole hs
    obtain ⟨d, hd, rfl⟩ := updateData_eq_some.mp hdb
    exact h.put (c := .users) ((h.users email d hd).setRole hl)

theorem traced_initial : Traced o .initial where
  votes := fun V d h => by cases h
  users := fun e d h => by cases h
  net := fun _ h => absurd h List.not_mem_nil
  views := fun _ h => absurd h List.not_mem_nil
  mains := fun _ h => absurd h List.not_mem_nil

end

end VoteOnOffice
