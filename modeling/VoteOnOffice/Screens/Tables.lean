import VoteOnOffice.Records.History
import VoteOnOffice.Screens.AddVote
import VoteOnOffice.Screens.Cascade

/-!
# The tables: what the rows of the two screens show

* `VoteView.cellForRowAt`, `VoteView.pieChartUpdate`
                       a row of the vote screen, and its chart;
* `MainView.cellForRowAt`, `MainView.didSelectRowAt`
                       a row of the main screen, and the vote screen that it opens;
* `Scalar.asDouble`    the cast `as? Double`;
* `VoteView.Shows`     the table and the chart of a vote with given texts and counters;
* `vote_table`         **in every reachable state the table of a vote screen never traps and shows,
                       row by row, what was typed into the add screen**;
* `main_table`         **a row of the main screen shows the vote that it opens**, and no screen of
                       that vote has another title;
* `row_opens`          **opening a row of a stored vote shows that vote.**
-/

namespace VoteOnOffice

inductive UIColor where
  | blue | clear | green | red
  deriving DecidableEq, Repr

/-! ## the vote screen -/

structure VoteCell where
  title : String
  backgroundColor : UIColor
  tintColor : UIColor
  deriving DecidableEq, Repr

/-- a value of the chart is a whole number -/
structure PieChartDataEntry where
  value : Int
  label : String
  deriving DecidableEq, Repr

/-- A number is cast if it is one of the `Double`s: beyond its first 53 binary digits it has zeros. -/
def Scalar.asDouble : Option Scalar → Option Int
  | some (.int n) => if n.natAbs % 1 <<< (n.natAbs.log2 - 52) = 0 then some n else none
  | some (.bool b) => some b.toInt
  | _ => none

def VoteView.numberOfRows (v : VoteView) : Nat := v.arr.length

/-- the colour of a row, and of its text -/
def VoteView.rowColor (v : VoteView) (row : Int) : UIColor :=
  if row = v.selectRow then .blue else .clear

def VoteView.cellForRowAt (v : VoteView) (row : Int) : Except Fatal VoteCell := do
  let r ← subscript v.arr row
  let titleCell ← guardLet (Scalar.asString (r .variantName)) "Error title convert"
  return ⟨titleCell, v.rowColor row, v.rowColor row⟩

/-- the entries of the chart; a row whose counter is no `Double` has none -/
def VoteView.pieChartUpdate (v : VoteView) : List PieChartDataEntry :=
  (List.range v.arr.length).filterMap fun ind =>
    (v.arr[ind]?.bind fun r => Scalar.asDouble (r .variantVoteStatus)).map fun valueChartData =>
      ⟨valueChartData, "#" ++ toString (ind + 1)⟩

/-! ## the main screen -/

structure MyCell where
  titleCell : String
  timeCell : String
  statusCell : String
  statusColor : UIColor
  deriving DecidableEq, Repr

def MainView.numberOfRows (m : MainView) : Nat := m.items.length

def MainView.cellForRowAt (m : MainView) (row : Int) : Except Fatal MyCell := do
  let dtc ← subscript m.items row
  if dtc.status then return ⟨dtc.title, dtc.time, "V", .green⟩
  else return ⟨dtc.title, dtc.time, "X", .red⟩

/-- `selectRow` becomes the UUID of the row, and `prepare` hands it to the new vote screen, whose view
model takes the e-mail of the user of that moment -/
def MainView.didSelectRowAt (m : MainView) (currentUser : String) (row : Int) :
    Except Fatal Label := do
  let dtc ← subscript m.items row
  return .openVote currentUser dtc.UUID

/-! ## rows -/

theorem subscript_getElem? {α : Type} {array : List α} {i : Nat} {x : α} (h : array[i]? = some x) :
    subscript array (i : Int) = .ok x :=
  subscript_eq_ok.mpr ⟨Int.natCast_nonneg i, h⟩

theorem asDouble_int {n : Int} (h : n.natAbs.log2 < 53) : Scalar.asDouble (some (.int n)) = some n := by
  have hmod : n.natAbs % 1 <<< (n.natAbs.log2 - 52) = 0 := by
    rw [show n.natAbs.log2 - 52 = 0 by omega]
    exact Nat.mod_one _
  exact if_pos hmod

theorem VoteView.cellForRowAt_eq {v : VoteView} {i : Nat} {text : String}
    (h : v.arr[i]?.map (fun r => r .variantName) = some (some (.str text))) :
    v.cellForRowAt i = .ok ⟨text, v.rowColor i, v.rowColor i⟩ := by
  obtain ⟨r, hr, hname⟩ := Option.map_eq_some_iff.mp h
  unfold VoteView.cellForRowAt
  rw [subscript_getElem? hr]
  show (guardLet (Scalar.asString (r .variantName)) _ >>= _) = _
  rw [hname]
  rfl

theorem MainView.cellForRowAt_eq {m : MainView} {i : Nat} {dtc : DataVoteCell}
    (h : m.items[i]? = some dtc) :
    m.cellForRowAt i = .ok ⟨dtc.title, dtc.time, if dtc.status then "V" else "X",
      if dtc.status then .green else .red⟩ := by
  unfold MainView.cellForRowAt
  rw [subscript_getElem? h]
  show (if dtc.status = true then _ else _) = _
  cases dtc.status <;> rfl

/-- the table and the chart of a vote with these texts and counters -/
structure VoteView.Shows (v : VoteView) (n : Nat) (text : Nat → String) (count : Nat → Int) :
    Prop where
  rows : v.numberOfRows = n
  cells : ∀ i < n, v.cellForRowAt i = .ok ⟨text i, v.rowColor i, v.rowColor i⟩
  counts : ∀ i < n, statusAt v.arr i = some (count i)
  slices : (∀ i < n, (count i).natAbs.log2 < 53) →
    v.pieChartUpdate = (List.range n).map fun i => ⟨count i, "#" ++ toString (i + 1)⟩

theorem filterMap_range {β : Type} {n : Nat} {f : Nat → Option β} {g : Nat → β}
    (h : ∀ i < n, f i = some (g i)) : (List.range n).filterMap f = (List.range n).map g := by
  rw [← List.filterMap_eq_map]
  exact List.filterMap_congr fun i hi => h i (List.mem_range.mp hi)

theorem VoteView.shows {v : VoteView} {array₀ : List Record} (h : SameVariants array₀ v.arr)
    {text : Nat → String}
    (htext : ∀ i < array₀.length,
      array₀[i]?.map (fun r => r .variantName) = some (some (.str (text i)))) :
    ∃ count, v.Shows array₀.length text count := by
  have hrow : ∀ i, ∃ n : Int, i < array₀.length → statusAt v.arr i = some n := fun i => by
    by_cases hi : i < array₀.length
    · obtain ⟨n, hn⟩ := h.counts i (by rw [h.length]; exact hi)
      exact ⟨n, fun _ => hn⟩
    · exact ⟨0, fun hi' => absurd hi' hi⟩
  choose count hcount using hrow
  refine ⟨count, h.length, fun i hi => ?_, hcount, fun hsmall => ?_⟩
  · exact VoteView.cellForRowAt_eq ((h.fields i .variantName (by decide)).trans (htext i hi))
  · unfold VoteView.pieChartUpdate
    rw [h.length]
    refine filterMap_range fun i hi => ?_
    obtain ⟨r, hr, hn⟩ := Option.bind_eq_some_iff.mp (hcount i hi)
    have hint : r .variantVoteStatus = some (.int (count i)) := by
      cases hx : r .variantVoteStatus with
      | none => rw [hx] at hn; cases hn
      | some a =>
        rw [hx] at hn
        cases a with
        | int n => cases hn; rfl
        | _ => cases hn
    rw [hr, Option.bind_some, hint, asDouble_int (hsmall i hi)]
    rfl

/-! ## what was composed -/

/-- the label that composed a vote -/
theorem Composed.label {ls : List Label} {V : String} {d : Document} (h : Composed ls V d) :
    ∃ title description voteDate items cellForRow items' variants,
      .addNewVote title description voteDate V items cellForRow ∈ ls ∧
      variantsArray items cellForRow = .ok (items', variants) ∧
      d = voteData voteDate description title V variants := by
  obtain ⟨l, hl, hd⟩ := h
  cases l with
  | addNewVote title description voteDate uuid items cellForRow =>
    cases hv : variantsArray items cellForRow with
    | error e => simp only [Label.composes, hv] at hd; cases hd
    | ok x =>
      simp only [Label.composes, hv] at hd
      cases List.mem_singleton.mp hd
      exact ⟨title, description, voteDate, items, cellForRow, _, _, hl, hv, rfl⟩
  | _ => cases hd

/-- the texts of the add screen are the names of the variants, in their order -/
theorem variantsArray_names {items items' : List Int} {cellForRow : Int → Option String}
    {variants : List Record} (h : variantsArray items cellForRow = .ok (items', variants)) :
    variants.length = items.length ∧ ∃ text : Nat → String,
      (∀ i < items.length, cellForRow (i : Int) = some (text i)) ∧
      ∀ i < items.length,
        variants[i]?.map (fun r => r .variantName) = some (some (.str (text i))) := by
  have hvm : (AddVoteViewModel.mk items []).variantsArray cellForRow
      = .ok (⟨items', [] ++ [items']⟩, variants) := by
    rw [AddVoteViewModel.variantsArray_eq, h]
    rfl
  have htext : ∀ i < items.length, cellForRow (i : Int) = some ((cellForRow i).getD "") := by
    intro i hi
    obtain ⟨text, ht⟩ := variantsArray_cells hvm i hi
    rw [ht]
    rfl
  cases (@variantsArray_ok ⟨items, []⟩ cellForRow _ htext).symm.trans hvm
  refine ⟨by rw [List.length_map, List.length_range], _, htext, fun i hi => ?_⟩
  rw [List.getElem?_map, List.getElem?_range hi]
  rfl

/-! ## a new screen -/

def opening (view : Nat) (emailString UUID title description : String) (variants : List Record) :
    List Effect :=
  [.getDocuments (.usersWhere emailString) (.reloadUsers view UUID), .titleString view title,
    .descriptionString view description, .arr view variants]

theorem views_opening {s : System} {view : Nat} {v : VoteView} (hv : s.views[view]? = some v)
    (emailString UUID title description : String) (variants : List Record) :
    (s.performAll (opening view emailString UUID title description variants)).views[view]?
      = some { v with titleLabel := title, descriptionLabel := description, arr := variants } := by
  simp [System.performAll, opening, System.perform, Effect.onViews, hv]

def VoteView.loaded (emailString UUID : String) : VoteView :=
  { emailString := emailString, UUID := UUID }

theorem run_opened (s : System) (emailString UUID : String) :
    ∃ u, System.Run s [.openVote emailString UUID, .voteWillAppear s.views.length] u ∧
      u.db = s.db ∧ u.itemsDtc = s.itemsDtc ∧
      u.views[s.views.length]? = some { VoteView.loaded emailString UUID with subscriptions := 1 } ∧
      u.net[s.net.length]? = some
        (.read (.votesWhere UUID) (.reloadViewData s.views.length emailString UUID)) := by
  have hview : (s.views ++ [VoteView.loaded emailString UUID])[s.views.length]?
      = some (.loaded emailString UUID) := List.getElem?_concat_length
  have happear : System.step { s with views := s.views ++ [VoteView.loaded emailString UUID] }
      (.voteWillAppear s.views.length) = some { s with
        views := (s.views ++ [VoteView.loaded emailString UUID]).set s.views.length
          { VoteView.loaded emailString UUID with subscriptions := 1 }
        net := s.net ++ List.replicate 2
          (.read (.votesWhere UUID) (.reloadViewData s.views.length emailString UUID)) } :=
    congrArg (Option.map _) hview
  refine ⟨_, (Machine.exec_cons System.step).mpr ⟨_, rfl,
    (Machine.exec_cons System.step).mpr ⟨_, happear, rfl⟩⟩, rfl, rfl, ?_, ?_⟩
  · rw [List.getElem?_set_self (by simp)]
  · rw [List.getElem?_append_right (Nat.le_refl _), Nat.sub_self]
    rfl

theorem run_answered {s : System} {k : Nat} {q : Query} {cb : Callback} {es : List Effect}
    (hk : s.net[k]? = some (.read q cb))
    (hes : cb.run s.itemsDtc (.ok (s.db.getDocuments q)) = .ok es) :
    ∃ t, System.Run s [.serve k true, .deliver k] (System.performAll t es) ∧ t.views = s.views := by
  have hserve := serve_read hk
  have hreply := List.getElem?_set_self (a := .reply (.ok (s.db.getDocuments q)) cb)
    (List.getElem?_eq_some_iff.mp hk).1
  refine ⟨_, (Machine.exec_cons System.step).mpr ⟨_, hserve,
    (Machine.exec_cons System.step).mpr ⟨_, deliver_reply hreply hes, rfl⟩⟩, rfl⟩

section
variable {ls : List Label} {s : System} (hrun : System.Run .initial ls s)
include hrun

/-- **Every row that the table of a vote screen asks for is shown without a trap**: the rows are those
of the add screen that composed the vote, in their order, each with the text typed into it; the
chart has a slice with the counter for each. -/
theorem vote_table {v : VoteView} (hv : v ∈ s.views) : v.numberOfRows = 0 ∨
    ∃ title description voteDate items cellForRow text count,
      .addNewVote title description voteDate v.UUID items cellForRow ∈ ls ∧
      (∀ i < items.length, cellForRow (i : Int) = some (text i)) ∧
      v.Shows items.length text count := by
  rcases ((traced_here hrun).views v hv).arr with hempty | ⟨d₀, array₀, hc, h₀, hsame⟩
  · left
    show v.arr.length = 0
    rw [hempty]
    rfl
  · right
    obtain ⟨title, description, voteDate, items, cellForRow, items', variants, hl, hvar, rfl⟩ :=
      Composed.label hc
    cases h₀
    obtain ⟨hlen, text, htext, hnames⟩ := variantsArray_names hvar
    obtain ⟨count, hshows⟩ := @VoteView.shows v _ hsame text (by rw [hlen]; exact hnames)
    rw [hlen] at hshows
    exact ⟨title, description, voteDate, items, cellForRow, text, count, hl, htext, hshows⟩

/-- **Every row of a main screen shows a vote that was composed, and opens it**: no screen of that vote
shows another title, then or later. -/
theorem main_table {m : MainView} (hm : m ∈ s.mains) (currentUser : String) {row : Nat}
    (hrow : row < m.numberOfRows) :
    ∃ V title description voteDate items cellForRow status,
      .addNewVote title description voteDate V items cellForRow ∈ ls ∧
      m.cellForRowAt row = .ok ⟨title, voteDate, if status then "V" else "X",
        if status then .green else .red⟩ ∧
      (status = true → ∃ i, Tapped ls m.emailString V i) ∧
      m.didSelectRowAt currentUser row = .ok (.openVote currentUser V) ∧
      ∀ b u, System.Run s b u → ∀ v ∈ u.views, v.UUID = V →
        v.titleLabel = "" ∨ v.titleLabel = title := by
  have htraced := traced_here hrun
  have hmain := htraced.mains m hm
  have hget : m.items[row]? = some m.items[row] := List.getElem?_eq_getElem hrow
  generalize m.items[row] = dtc at hget
  have hmem := List.mem_of_getElem? hget
  rw [hmain.items] at hmem
  obtain ⟨⟨d₀, hc, htitle⟩, ⟨d₁, hc', htime⟩, hstatus⟩ := hmain.rows dtc hmem
  obtain rfl := (composed_unique hrun).1 _ _ _ hc hc'
  obtain ⟨title, description, voteDate, items, cellForRow, _, variants, hl, _, rfl⟩ :=
    Composed.label hc
  have htitle : title = dtc.title := Option.some.inj htitle
  have htime : voteDate = dtc.time := Option.some.inj htime
  refine ⟨dtc.UUID, title, description, voteDate, items, cellForRow, dtc.status, hl, ?_, hstatus,
    ?_, fun b u hb v hv hUUID => ?_⟩
  · rw [htitle, htime]
    exact MainView.cellForRowAt_eq hget
  · unfold MainView.didSelectRowAt
    rw [subscript_getElem? hget]
    rfl
  · have hlater : System.Run .initial (ls ++ b) u :=
      (Machine.exec_append_eq_some System.step).mpr ⟨s, hrun, hb⟩
    refine ((traced_here hlater).views v hv).title.imp_right ?_
    rintro ⟨d₂, hc'', htext⟩
    rw [hUUID] at hc''
    obtain rfl := (composed_unique hlater).1 _ _ _ hc.mono hc''
    exact (Option.some.inj htext).symm

/-- **Opening a row of a vote that is still stored shows that vote**: the screen that the row opens
has, once the answer to its first request is there, the title of the row and the description and
the variants of the document. -/
theorem row_opens {m : MainView} (hm : m ∈ s.mains) {currentUser : String} {row : Nat} {V : String}
    {d : Document} (hrow : m.didSelectRowAt currentUser row = .ok (.openVote currentUser V))
    (hd : s.db.votes.lookup V = some d) :
    ∃ u v cell, System.Run s [.openVote currentUser V, .voteWillAppear s.views.length,
        .serve s.net.length true, .deliver s.net.length] u ∧
      u.views[s.views.length]? = some v ∧ v.emailString = currentUser ∧ v.UUID = V ∧
      m.cellForRowAt row = .ok cell ∧ v.titleLabel = cell.titleCell ∧
      Value.asString (d .voteDescription) = some v.descriptionLabel ∧
      d .voteVariants = some (.records v.arr) := by
  have htraced := traced_here hrun
  obtain ⟨size, hsound⟩ := run_sound hrun
  have hfind := hsound.docs.keyed.find_vote V
  rw [hd] at hfind
  -- the row, and the document
  obtain ⟨dtc, hget, hV⟩ := bind_eq_ok.mp hrow
  cases hV
  have hmem := List.mem_of_getElem? (subscript_eq_ok.mp hget).2
  rw [(htraced.mains m hm).items] at hmem
  obtain ⟨d₀, hc, htitle⟩ := ((htraced.mains m hm).rows dtc hmem).title
  obtain ⟨d₁, hc', hsame⟩ := htraced.votes dtc.UUID d hd
  obtain rfl := (composed_unique hrun).1 _ _ _ hc hc'
  obtain ⟨_, description, _, _, _, _, _, _, _, rfl⟩ := Composed.label hc
  obtain ⟨_, array, _, harray, _⟩ := hsame.variants
  have htitle : Value.asString (d .voteTitle) = some dtc.title := by
    rw [hsame.fields .voteTitle (by decide)]
    exact htitle
  have hdescription : Value.asString (d .voteDescription) = some description := by
    rw [hsame.fields .voteDescription (by decide)]
    rfl
  -- the steps of the new screen
  obtain ⟨t, ht, hdb, hitems, hview, hnet⟩ := run_opened s currentUser dtc.UUID
  have hk : s.net.length < t.net.length := (List.getElem?_eq_some_iff.mp hnet).1
  have hclosure : Callback.run (t.itemsDtc) (.ok (t.db.getDocuments (.votesWhere dtc.UUID)))
      (.reloadViewData s.views.length currentUser dtc.UUID)
      = .ok (opening s.views.length currentUser dtc.UUID dtc.title description array) := by
    show reloadViewDataClosure _ _ _ _ = _
    unfold reloadViewDataClosure
    rw [hdb, hfind, Reply.withDocuments_ok, Option.toList_some, forDocuments_singleton, htitle, hdescription, harray]
    rfl
  obtain ⟨w, hw, hviews⟩ := run_answered hnet hclosure
  rw [← hviews] at hview
  refine ⟨_, _, _, (Machine.exec_append_eq_some System.step (a := [_, _])).mpr ⟨t, ht, hw⟩,
    views_opening hview _ _ _ _ _, rfl, rfl,
    MainView.cellForRowAt_eq (subscript_eq_ok.mp hget).2, rfl, hdescription, harray⟩

end

/-! ## runs -/

theorem vote_table_tapped : ∃ title description voteDate items cellForRow text count v,
    .addNewVote title description voteDate "v" items cellForRow ∈ tapped ∧
    (System.after tapped).views = [v] ∧ (∀ i < items.length, cellForRow (i : Int) = some (text i)) ∧
    v.Shows items.length text count := by
  obtain ⟨title, description, voteDate, items, cellForRow, text, count, hl, htext, hshows⟩ :=
    (vote_table (run_after tapped (by decide)) (List.mem_of_getElem? (i := 0) rfl)).resolve_left
      (by decide)
  exact ⟨title, description, voteDate, items, cellForRow, text, count, _, hl, rfl, htext, hshows⟩

/-- `a` signs up, a vote is added, and `a`'s main screen shows it -/
def listed : List Label :=
  [.signUp "a", .serve 0 true, .addNewVote "t" "d" "now" "v" [1] (fun _ => some "x"), .serve 0 true,
    .openMain "a", .mainWillAppear 0, .serve 0 true, .deliver 0, .serve 0 true, .deliver 0]

theorem main_table_listed : ∃ m V title description voteDate items cellForRow, ∃ status : Bool,
    (System.after listed).mains = [m] ∧
    .addNewVote title description voteDate V items cellForRow ∈ listed ∧
    m.cellForRowAt 0 = .ok ⟨title, voteDate, if status then "V" else "X",
      if status then .green else .red⟩ ∧
    m.didSelectRowAt "a" 0 = .ok (.openVote "a" V) := by
  obtain ⟨V, title, description, voteDate, items, cellForRow, status, hl, hcell, _, hopen, _⟩ :=
    @main_table listed _ (run_after listed (by decide)) _ (List.mem_of_getElem? (i := 0) rfl) "a" 0
      (by decide)
  exact ⟨_, V, title, description, voteDate, items, cellForRow, status, rfl, hl, hcell, hopen⟩

theorem row_opens_listed : ∃ u v, System.Run (.after listed)
      [.openVote "a" "v", .voteWillAppear 0, .serve 0 true, .deliver 0] u ∧
    u.views[0]? = some v ∧ v.titleLabel = "t" := by
  obtain ⟨u, v, cell, hu, hv, _, _, hcell, htitle, _⟩ :=
    @row_opens listed _ (run_after listed (by decide)) _ (List.mem_of_getElem? (i := 0) rfl) "a" 0
      "v" _ rfl rfl
  cases hcell
  exact ⟨u, v, hu, hv, htitle⟩

end VoteOnOffice
