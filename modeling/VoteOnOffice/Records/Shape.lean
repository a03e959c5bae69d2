import VoteOnOffice.App.System
import VoteOnOffice.Taps.Path

/-!
# The shape of documents, and why no closure traps on it

`size V` is the number of variants of the vote `V`; it never changes.

* `ListOk`             a user's list: one entry a vote at most, and every entry names a row of its
                       vote;
* `UserOk`, `VariantsOk`, `VoteOk`, `DocsOk`
                       what a `Users` document, an array of variants, a `Votes` document and the
                       whole database look like;
* `CallbackOk`, `AnswerOk`, `EffectOk`
                       the same for what a closure has captured, is called with, and does;
* `run_safe`           **a closure that captured and is called with such data does not trap**, and
                       all that it does keeps the shape.
-/

namespace VoteOnOffice

section
variable (size : String → Nat)

structure ListOk (l : List Record) : Prop where
  single : ∀ V, (entries V l).length ≤ 1
  inRange : ∀ r ∈ l, ∀ V, isFor V r = true →
    ∃ row : Int, Scalar.asInt (r .voteVariantID) = some row ∧ 0 ≤ row ∧ row < size V

structure UserOk (d : Document) : Prop where
  role : ∃ b, Value.asBool (d .userRole) = some b
  list : ∃ l, d .userVotesList = some (.records l) ∧ ListOk size l

structure VariantsOk (V : String) (array : List Record) : Prop where
  length : array.length = size V
  counts : ∀ i < array.length, ∃ n, statusAt array i = some n
  names : ∀ i < array.length, ∃ x,
    Scalar.asString (array[i]?.bind fun r => r .variantName) = some x

structure VoteOk (V : String) (d : Document) : Prop where
  title : ∃ x, Value.asString (d .voteTitle) = some x
  description : ∃ x, Value.asString (d .voteDescription) = some x
  variants : ∃ array, d .voteVariants = some (.records array) ∧ VariantsOk size V array

structure DocsOk (db : Database) : Prop where
  keyed : db.WellKeyed
  votes : ∀ V d, db.votes.lookup V = some d → VoteOk size V d
  users : ∀ e d, db.users.lookup e = some d → UserOk size d

def TapOk (t : Tap) : Prop := 0 ≤ t.index ∧ t.index < size t.UUID

/-- what a closure has captured; `screens` has the vote of every open vote screen -/
def CallbackOk (screens : List String) : Callback → Prop
  | .tabOnCell t => TapOk size t
  | .voteFirst t => TapOk size t
  | .voteSecond t arrays extraIndex =>
    TapOk size t ∧ ListOk size arrays ∧ 0 ≤ extraIndex ∧ extraIndex < size t.UUID
  | .reloadViewData view _ UUID => screens[view]? = some UUID
  | _ => True

/-- the query of the request that a closure is passed with, by the users of the vote screens and of the
main screens; `itemsDelete` does not query -/
def Callback.queryOf (view main : Nat → Option String) : Callback → Option Query
  | .tabOnCell t => some (.usersWhere t.emailString)
  | .voteFirst t => some (.votesWhere t.UUID)
  | .voteSecond t _ _ => some (.votesWhere t.UUID)
  | .reloadViewData _ _ UUID => some (.votesWhere UUID)
  | .reloadUsers i _ => (view i).map .usersWhere
  | .readDataBase _ _ => some .votes
  | .readUsers i _ => (main i).map .usersWhere
  | .itemsDelete _ _ _ => none

/-- whoever the screens are for -/
def Callback.asks (q : Query) (k : Callback) : Prop :=
  ∃ email, k.queryOf (fun _ => some email) (fun _ => some email) = some q

/-- what every document in the answer looks like -/
def Callback.Finds (d : Document) : Callback → Prop
  | .tabOnCell _ => UserOk size d
  | .voteFirst t => VoteOk size t.UUID d
  | .voteSecond t _ _ => VoteOk size t.UUID d
  | .reloadViewData _ _ UUID => VoteOk size UUID d
  | .reloadUsers _ _ => UserOk size d
  | .readDataBase _ _ => True
  | .readUsers _ _ => UserOk size d
  | .itemsDelete _ _ _ => False

/-- the closure of `itemsDelete` is the only one that expects no documents -/
def Callback.isDelete : Callback → Bool
  | .itemsDelete _ _ _ => true
  | _ => false

def AnswerOk (k : Callback) (r : Reply) : Prop :=
  r = .failed ∨ (k.isDelete = true ∧ r = .done) ∨ ∃ ds, r = .ok ds ∧ ∀ d ∈ ds, k.Finds size d

def UpdateOk (c : CollectionId) (document : String) (f : Field) (v : Value) : Prop :=
  match c with
  | .users => f = .userVotesList ∧ ∃ l, v = .records l ∧ ListOk size l
  | .votes => f = .voteVariants ∧ ∃ array, v = .records array ∧ VariantsOk size document array

def EffectOk (screens : List String) : Effect → Prop
  | .getDocuments q k => k.asks q ∧ CallbackOk size screens k
  | .updateData _ _ c document f v => UpdateOk size c document f v
  | .arr view variants => ∀ UUID, screens[view]? = some UUID → variants.length = size UUID
  | _ => True

end

section
variable {size : String → Nat}

/-! ## lists and arrays -/

theorem listOk_nil : ListOk size [] := ⟨fun _ => Nat.zero_le 1, fun _ h => absurd h List.not_mem_nil⟩

theorem ListOk.cast {l : List Record} (h : ListOk size l) {t : Tap} (ht : TapOk size t) :
    ListOk size (VoteOnOffice.cast t.UUID t.index l) where
  single := by
    intro V
    by_cases hV : V = t.UUID
    · rw [hV, entries_cast_self]
      exact Nat.le_refl 1
    · rw [entries_cast_ne hV]
      exact h.single V
  inRange := by
    intro r hr V hV
    rcases List.mem_append.mp hr with hr | hr
    · exact h.inRange r (List.mem_filter.mp hr).1 V hV
    · obtain rfl := List.mem_singleton.mp hr
      rw [isFor_ballot, decide_eq_true_eq] at hV
      exact ⟨t.index, rfl, ht.1, hV ▸ ht.2⟩

theorem ListOk.path {l : List Record} (h : ListOk size l) (UUID : String) :
    pathOf UUID l = .ok .first ∨
      ∃ row : Int, pathOf UUID l = .ok (.second row) ∧ 0 ≤ row ∧ row < size UUID := by
  cases he : entries UUID l with
  | nil => exact .inl (pathOf_eq_first.mpr he)
  | cons r rest =>
    right
    have hr : r ∈ entries UUID l := by rw [he]; exact List.mem_cons_self
    obtain ⟨hmem, hfor⟩ := List.mem_filter.mp hr
    obtain ⟨row, hrow, h0, hlt⟩ := h.inRange r hmem UUID hfor
    refine ⟨row, pathOf_eq_second.mpr ?_, h0, hlt⟩
    unfold rows
    rw [he, List.map_cons, List.head?_cons, hrow]

theorem VariantsOk.status {V : String} {array : List Record} (h : VariantsOk size V array) {i : Int}
    (h0 : 0 ≤ i) (hi : i < size V) : ∃ n, statusAt array i.toNat = some n :=
  h.counts i.toNat (by rw [h.length]; omega)

theorem VariantsOk.count_total {array : List Record} {t : Tap} {p : Path} (ht : TapOk size t)
    (h : VariantsOk size t.UUID array)
    (hp : p = .first ∨ ∃ row : Int, p = .second row ∧ 0 ≤ row ∧ row < size t.UUID) :
    ∃ array', p.count t.index array = .ok array' := by
  obtain ⟨n, hn⟩ := h.status ht.1 ht.2
  rcases hp with rfl | ⟨row, rfl, h0, hlt⟩
  · obtain ⟨array', hs⟩ := setStatus_of_statusAt ht.1 hn (n + 1)
    exact ⟨array', firstCount_eq_ok.mpr ⟨n, ht.1, hn, hs⟩⟩
  · obtain ⟨m, hm⟩ := h.status h0 hlt
    obtain ⟨array₁, h1⟩ := setStatus_of_statusAt h0 hm (m - 1)
    have hn' : ∃ n', statusAt array₁ t.index.toNat = some n' := by
      rw [statusAt_setStatus h1, hn]
      split <;> exact ⟨_, rfl⟩
    obtain ⟨n', hn'⟩ := hn'
    obtain ⟨array', h2⟩ := setStatus_of_statusAt ht.1 hn' m
    exact ⟨array', secondCount_eq_ok.mpr ⟨m, array₁, h0, hm, h1, h2⟩⟩

theorem counts_count {array array' : List Record} {p : Path} {index : Int}
    (h : ∀ i < array.length, ∃ n, statusAt array i = some n)
    (hc : p.count index array = .ok array') :
    ∀ i < array'.length, ∃ n, statusAt array' i = some n := by
  intro i hi
  obtain ⟨n, hn⟩ := h i (by rw [← length_count hc]; exact hi)
  cases p with
  | first =>
    rw [statusAt_firstCount hc, hn]
    split <;> exact ⟨_, rfl⟩
  | second extraIndex =>
    obtain ⟨m, _, _, hm, _⟩ := secondCount_eq_ok.mp hc
    rw [statusAt_secondCount hc, hn, hm]
    split
    · exact ⟨_, rfl⟩
    · split <;> exact ⟨_, rfl⟩

theorem VariantsOk.count {V : String} {array array' : List Record} {p : Path} {index : Int}
    (h : VariantsOk size V array) (hc : p.count index array = .ok array') :
    VariantsOk size V array' := by
  have hlen := length_count hc
  refine ⟨by rw [hlen, h.length], counts_count h.counts hc, fun i hi => ?_⟩
  have hf := field_count hc (f := .variantName) (by decide) i
  obtain ⟨x, hx⟩ := h.names i (by omega)
  refine ⟨x, ?_⟩
  rw [List.getElem?_eq_getElem hi, List.getElem?_eq_getElem (by omega : i < array.length)] at hf
  rw [List.getElem?_eq_getElem (by omega : i < array.length)] at hx
  rw [List.getElem?_eq_getElem hi]
  rw [Option.map_some, Option.map_some, Option.some.injEq] at hf
  rw [Option.bind_some] at hx ⊢
  rw [hf]; exact hx

/-! ## closures -/

variable {screens : List String}

theorem callbackOk_vote {t : Tap} {p : Path} {arrays : List Record} (ht : TapOk size t)
    (hl : ListOk size arrays)
    (hp : p = .first ∨ ∃ row : Int, p = .second row ∧ 0 ≤ row ∧ row < size t.UUID) :
    (p.callback t arrays).asks (.votesWhere t.UUID) ∧
      CallbackOk size screens (p.callback t arrays) := by
  rcases hp with rfl | ⟨row, rfl, h0, hlt⟩
  · exact ⟨⟨"", rfl⟩, ht⟩
  · exact ⟨⟨"", rfl⟩, ht, hl, h0, hlt⟩

theorem tabOnCellRound_safe {t : Tap} {d : Document} (ht : TapOk size t) (hd : UserOk size d) :
    ∃ es, tabOnCellRound t d = .ok es ∧ ∀ e ∈ es, EffectOk size screens e := by
  obtain ⟨l, hl, hok⟩ := hd.list
  rcases hok.path t.UUID with hp | ⟨row, hp, h0, hlt⟩
  · refine ⟨_, tabOnCellRound_eq_ok.mpr ⟨l, _, hl, hp, rfl⟩, fun e he => ?_⟩
    simp only [Path.call, voteFirst, append_eq_cast (pathOf_eq_first.mp hp), List.mem_cons,
      List.not_mem_nil, or_false] at he
    rcases he with rfl | rfl
    · exact ⟨rfl, _, rfl, hok.cast ht⟩
    · exact callbackOk_vote (p := .first) ht hok (.inl rfl)
  · refine ⟨_, tabOnCellRound_eq_ok.mpr ⟨l, _, hl, hp, rfl⟩, fun e he => ?_⟩
    obtain rfl := List.mem_singleton.mp he
    exact callbackOk_vote (p := .second row) ht hok (.inr ⟨row, rfl, h0, hlt⟩)

theorem voteRound_safe {t : Tap} {p : Path} {arrays : List Record} {d : Document}
    (ht : TapOk size t) (hd : VoteOk size t.UUID d)
    (hl : ∀ row, p = .second row → ListOk size arrays)
    (hp : p = .first ∨ ∃ row : Int, p = .second row ∧ 0 ≤ row ∧ row < size t.UUID) :
    ∃ es, voteRound p t arrays d = .ok es ∧ ∀ e ∈ es, EffectOk size screens e := by
  obtain ⟨array, harray, hok⟩ := hd.variants
  obtain ⟨array', hc⟩ := hok.count_total ht hp
  have hvotes : UpdateOk size .votes t.UUID .voteVariants (.records array') :=
    ⟨rfl, array', rfl, hok.count hc⟩
  refine ⟨_, voteRound_eq_ok.mpr ⟨array, array', harray, hc, rfl⟩, fun e he => ?_⟩
  cases p with
  | first =>
    obtain rfl := List.mem_singleton.mp he
    exact hvotes
  | second row =>
    simp only [Path.writes, List.mem_cons, List.not_mem_nil, or_false] at he
    rcases he with rfl | rfl
    · exact hvotes
    · exact ⟨rfl, _, rfl, (hl row rfl).cast ht⟩

theorem voteClosure_safe {t : Tap} {p : Path} {arrays : List Record} {ds : List Document}
    (ht : TapOk size t) (hds : ∀ d ∈ ds, VoteOk size t.UUID d)
    (hl : ∀ row, p = .second row → ListOk size arrays)
    (hp : p = .first ∨ ∃ row : Int, p = .second row ∧ 0 ≤ row ∧ row < size t.UUID) :
    ∃ es, voteClosure p t arrays (.ok ds) = .ok es ∧ ∀ e ∈ es, EffectOk size screens e := by
  obtain ⟨es, h, hes⟩ := forDocuments_safe (P := EffectOk size screens) fun d hd =>
    voteRound_safe ht (hds d hd) hl hp
  refine ⟨_, voteClosure_ok_eq_ok.mpr ⟨es, h, rfl⟩, fun e he => ?_⟩
  rcases List.mem_append.mp he with he | he
  · exact hes e he
  · obtain rfl := List.mem_singleton.mp he
    exact trivial

theorem reloadViewDataClosure_safe {view : Nat} {email UUID : String} {ds : List Document}
    (hview : screens[view]? = some UUID) (hds : ∀ d ∈ ds, VoteOk size UUID d) :
    ∃ es, reloadViewDataClosure view email UUID (.ok ds) = .ok es ∧
      ∀ e ∈ es, EffectOk size screens e := by
  refine forDocuments_safe fun d hd => ?_
  obtain ⟨x, hx⟩ := (hds d hd).title
  obtain ⟨y, hy⟩ := (hds d hd).description
  obtain ⟨array, harray, hok⟩ := (hds d hd).variants
  refine ⟨[.getDocuments (.usersWhere email) (.reloadUsers view UUID), .titleString view x,
    .descriptionString view y, .arr view array], ?_, fun e he => ?_⟩
  · rw [hx, hy, harray]; rfl
  · simp only [List.mem_cons, List.not_mem_nil, or_false] at he
    rcases he with rfl | rfl | rfl | rfl
    · exact ⟨⟨email, rfl⟩, trivial⟩
    · exact trivial
    · exact trivial
    · intro V hV
      rw [hview, Option.some.injEq] at hV
      rw [← hV]; exact hok.length

theorem reloadUsersClosure_safe {view : Nat} {UUID : String} {ds : List Document}
    (hds : ∀ d ∈ ds, UserOk size d) :
    ∃ es, reloadUsersClosure view UUID (.ok ds) = .ok es ∧ ∀ e ∈ es, EffectOk size screens e := by
  refine forDocuments_safe fun d hd => ?_
  obtain ⟨l, hl, hok⟩ := (hds d hd).list
  cases he : l.filter (isFor UUID) with
  | nil =>
    refine ⟨[], ?_, fun e he => absurd he List.not_mem_nil⟩
    rw [hl]
    simp only [Value.asRecords_records, guardLet_some]
    show (if (l.filter (isFor UUID)).isEmpty = true then _ else _) = _
    rw [he]; rfl
  | cons r rest =>
    have hr : r ∈ l.filter (isFor UUID) := by rw [he]; exact List.mem_cons_self
    obtain ⟨hmem, hfor⟩ := List.mem_filter.mp hr
    obtain ⟨row, hrow, _, _⟩ := hok.inRange r hmem UUID hfor
    refine ⟨[.selectRow view row], ?_, fun e he => ?_⟩
    · rw [hl]
      simp only [Value.asRecords_records, guardLet_some]
      show (if (l.filter (isFor UUID)).isEmpty = true then _ else _) = _
      rw [he]
      show (guardLet (Scalar.asInt (r .voteVariantID)) _ >>= _) = _
      rw [hrow]; rfl
    · obtain rfl := List.mem_singleton.mp he
      exact trivial

theorem readUsersLoop_safe {main : Nat} {dtc : DataVoteCell} {itemsDtc : List DataVoteCell}
    {ds : List Document} (hds : ∀ d ∈ ds, UserOk size d) :
    ∃ es, readUsersLoop main dtc itemsDtc ds = .ok es ∧ ∀ e ∈ es, EffectOk size screens e := by
  induction ds generalizing dtc itemsDtc with
  | nil => exact ⟨[], rfl, fun e he => absurd he List.not_mem_nil⟩
  | cons d ds ih =>
    obtain ⟨b, hb⟩ := (hds d List.mem_cons_self).role
    obtain ⟨l, hl, _⟩ := (hds d List.mem_cons_self).list
    obtain ⟨es, h, hes⟩ := @ih (dtc.shown l) (itemsDtc ++ [dtc.shown l])
      fun d' hd' => hds d' (List.mem_cons_of_mem _ hd')
    refine ⟨_, readUsersLoop_cons.mpr ⟨b, l, es, hb, hl, h, rfl⟩, fun e he => ?_⟩
    simp only [List.mem_cons] at he
    rcases he with rfl | rfl | he
    · exact trivial
    · exact trivial
    · exact hes e he

/-- **Closures of taps, reloads and refreshes do not trap, and keep the shape.** -/
theorem run_safe {k : Callback} {r : Reply} (hk : CallbackOk size screens k) (hr : AnswerOk size k r)
    (hdel : k.isDelete = false) (itemsDtc : Nat → List DataVoteCell) :
    ∃ es, k.run itemsDtc r = .ok es ∧ ∀ e ∈ es, EffectOk size screens e := by
  rcases hr with rfl | ⟨h, _⟩ | ⟨ds, rfl, hds⟩
  · refine ⟨[], ?_, fun e he => absurd he List.not_mem_nil⟩
    cases k <;> rfl
  · rw [h] at hdel; cases hdel
  · cases k with
    | tabOnCell t =>
      show ∃ es, tabOnCellClosure t (.ok ds) = .ok es ∧ _
      rw [tabOnCellClosure_eq, Reply.withDocuments_ok]
      exact forDocuments_safe fun d hd => tabOnCellRound_safe hk (hds d hd)
    | voteFirst t =>
      exact @voteClosure_safe _ _ t .first [] _ hk hds (fun _ _ => listOk_nil) (.inl rfl)
    | voteSecond t arrays extraIndex =>
      exact voteClosure_safe (p := .second extraIndex) hk.1 hds (fun _ _ => hk.2.1)
        (.inr ⟨extraIndex, rfl, hk.2.2⟩)
    | reloadViewData view email UUID => exact reloadViewDataClosure_safe hk hds
    | reloadUsers view UUID => exact reloadUsersClosure_safe hds
    | readDataBase main email =>
      refine forDocuments_safe fun d hd => ⟨_, rfl, fun e he => ?_⟩
      obtain rfl := List.mem_singleton.mp he
      exact ⟨⟨email, rfl⟩, trivial⟩
    | readUsers main dtc => exact readUsersLoop_safe hds
    | itemsDelete main index UUID => cases hdel

end

end VoteOnOffice
