import VoteOnOffice.Screens.Rows

/-!
# Deleting rows of the main list

`itemsDelete(index)` asks for the document of row `index` to be deleted; the closure it leaves has
captured the index, and removes the row that is there when it runs.

* `RemovesRow r k`     the success of the `k`-th delete takes the row of its document off the list;
* `StillThere r k`     the row at the captured index is the row of the document;
* `removesRow_iff`     the two are the same as long as no two rows have one UUID;
* `deletesRight_iff`   **and no step of a run makes two rows with one UUID, so all successes of a run
                       remove the right row iff all of them find it at the index they captured**;
* `HighestFirst`       no success comes while a delete of a higher row is in flight, which is enough.
-/

namespace VoteOnOffice

/-- the success of the `k`-th delete takes the row of its document off the list, if it is there -/
def RemovesRow (main : Nat) (r : Rows) (k : Nat) : Prop :=
  ∀ index D, r.pending[k]? = some (index, D) → r.step main (.completed k false) =
    some { itemsDtc := r.itemsDtc.filter fun dtc => dtc.UUID ≠ D, pending := r.pending.eraseIdx k }

/-- the row at the captured index is the row of the document -/
def StillThere (r : Rows) (k : Nat) : Prop :=
  ∀ index D, r.pending[k]? = some (index, D) →
    ∃ dtc, subscript r.itemsDtc index = .ok dtc ∧ dtc.UUID = D

/-- every success of the run takes the row of its document off the list -/
def DeletesRight (main : Nat) (itemsDtc : List DataVoteCell) (es : List Event) : Prop :=
  Machine.Along (Rows.step main) (fun r e => ∀ k, e = .completed k false → RemovesRow main r k)
    ⟨itemsDtc, []⟩ es

/-- every success of the run finds the row of its document at the index that it captured -/
def InPlace (main : Nat) (itemsDtc : List DataVoteCell) (es : List Event) : Prop :=
  Machine.Along (Rows.step main) (fun r e => ∀ k, e = .completed k false → StillThere r k)
    ⟨itemsDtc, []⟩ es

/-- rows come with UUIDs that are not in the list -/
def AppendsFresh (main : Nat) (itemsDtc : List DataVoteCell) (es : List Event) : Prop :=
  Machine.Along (Rows.step main)
    (fun r e => ∀ dtc, e = .appended dtc → dtc.UUID ∉ r.itemsDtc.map DataVoteCell.UUID)
    ⟨itemsDtc, []⟩ es

/-- a success comes while every other delete in flight has captured a lower index, and the list is
emptied while none is in flight -/
def Rows.Orderly (r : Rows) : Event → Prop
  | .completed k false => ∀ p, r.pending[k]? = some p → ∀ q ∈ r.pending.eraseIdx k, q.1 < p.1
  | .itemsDeleteAll => r.pending = []
  | _ => True

def HighestFirst (main : Nat) (itemsDtc : List DataVoteCell) (es : List Event) : Prop :=
  Machine.Along (Rows.step main) Rows.Orderly ⟨itemsDtc, []⟩ es

/-! ## removing a row -/

section
variable {α K : Type} [DecidableEq K] (key : α → K)

theorem eraseIdx_eq_filter {l : List α} (h : (l.map key).Nodup) {i : Nat} {a : α}
    (ha : l[i]? = some a) : l.eraseIdx i = l.filter fun b => key b ≠ key a := by
  induction l generalizing i with
  | nil => cases ha
  | cons b l ih =>
    rw [List.map_cons, List.nodup_cons] at h
    obtain ⟨hb, hl⟩ := h
    cases i with
    | zero =>
      cases ha
      rw [List.eraseIdx_cons_zero, List.filter_cons_of_neg (by simp), List.filter_eq_self.mpr]
      intro c hc
      have hne : key c ≠ key a := fun e => hb (e ▸ List.mem_map_of_mem hc)
      simpa using hne
    | succ i =>
      have ha : l[i]? = some a := ha
      have hne : key b ≠ key a := fun e => hb (e ▸ List.mem_map_of_mem (List.mem_of_getElem? ha))
      rw [List.eraseIdx_cons_succ, List.filter_cons_of_pos (by simpa using hne), ih hl ha]

theorem key_of_eraseIdx {l : List α} (h : (l.map key).Nodup) {i : Nat} {a : α} {k : K}
    (ha : l[i]? = some a) (hk : l.eraseIdx i = l.filter fun b => key b ≠ k) : key a = k := by
  by_contra hne
  have hmem : a ∈ l.filter fun b => key b ≠ k :=
    List.mem_filter.mpr ⟨List.mem_of_getElem? ha, by simpa using hne⟩
  rw [← hk, eraseIdx_eq_filter key h ha] at hmem
  have := (List.mem_filter.mp hmem).2
  simp at this

end

section
variable {main : Nat}

theorem step_completed {r : Rows} {k : Nat} {index : Int} {D : String} {dtc : DataVoteCell}
    (hk : r.pending[k]? = some (index, D)) (hdtc : subscript r.itemsDtc index = .ok dtc) :
    r.step main (.completed k false) = some
      { itemsDtc := r.itemsDtc.eraseIdx index.toNat, pending := r.pending.eraseIdx k } := by
  simp only [Rows.step, hk, itemsDeleteClosure, hdtc]
  rfl

theorem step_completed_failed {r : Rows} {k : Nat} {p : Int × String}
    (hk : r.pending[k]? = some p) :
    r.step main (.completed k true) = some { r with pending := r.pending.eraseIdx k } := by
  simp only [Rows.step, hk]
  rfl

theorem step_completed_trap {r : Rows} {k : Nat} {index : Int} {D : String} {e : Fatal}
    (hk : r.pending[k]? = some (index, D)) (he : subscript r.itemsDtc index = .error e) :
    r.step main (.completed k false) = none := by
  simp only [Rows.step, hk, itemsDeleteClosure, he]
  rfl

theorem removesRow_iff {r : Rows} (h : (r.itemsDtc.map DataVoteCell.UUID).Nodup) (k : Nat) :
    RemovesRow main r k ↔ StillThere r k := by
  refine forall_congr' fun index => forall_congr' fun D => forall_congr' fun hk => ?_
  cases hdtc : subscript r.itemsDtc index with
  | error e =>
    rw [step_completed_trap hk hdtc]
    simp
  | ok dtc =>
    obtain ⟨_, hget⟩ := subscript_eq_ok.mp hdtc
    rw [step_completed hk hdtc]
    constructor
    · intro hs
      refine ⟨dtc, rfl, key_of_eraseIdx DataVoteCell.UUID h hget ?_⟩
      exact congrArg Rows.itemsDtc (Option.some.inj hs)
    · rintro ⟨_, hdtc', rfl⟩
      cases hdtc'
      rw [eraseIdx_eq_filter DataVoteCell.UUID h hget]

theorem step_nodup {r u : Rows} {e : Event} (h : (r.itemsDtc.map DataVoteCell.UUID).Nodup)
    (he : ∀ dtc, e = .appended dtc → dtc.UUID ∉ r.itemsDtc.map DataVoteCell.UUID)
    (hs : r.step main e = some u) : (u.itemsDtc.map DataVoteCell.UUID).Nodup := by
  cases e with
  | itemsDelete index =>
    cases hdtc : subscript r.itemsDtc index with
    | error _ => simp [Rows.step, hdtc] at hs
    | ok dtc =>
      simp only [Rows.step, hdtc, Option.some.injEq] at hs
      rw [← hs]; exact h
  | completed k error =>
    cases hk : r.pending[k]? with
    | none => simp [Rows.step, hk] at hs
    | some x =>
      obtain ⟨index, D⟩ := x
      cases error with
      | true =>
        rw [step_completed_failed hk] at hs
        cases hs
        exact h
      | false =>
        cases hdtc : subscript r.itemsDtc index with
        | error e => rw [step_completed_trap hk hdtc] at hs; cases hs
        | ok dtc =>
          rw [step_completed hk hdtc] at hs
          cases hs
          exact h.sublist ((List.eraseIdx_sublist _ _).map _)
  | appended dtc =>
    cases hs
    show ((r.itemsDtc ++ [dtc]).map DataVoteCell.UUID).Nodup
    rw [List.map_append, List.map_singleton, List.nodup_append_comm, List.singleton_append,
      List.nodup_cons]
    exact ⟨he dtc rfl, h⟩
  | itemsDeleteAll => cases hs; exact List.nodup_nil

/-- every delete that is not completed still finds the row of its document -/
def AllThere (r : Rows) : Prop :=
  ∀ p ∈ r.pending, ∃ dtc, subscript r.itemsDtc p.1 = .ok dtc ∧ dtc.UUID = p.2

theorem step_allThere {r u : Rows} {e : Event} (h : AllThere r) (he : r.Orderly e)
    (hs : r.step main e = some u) : AllThere u := by
  cases e with
  | itemsDelete index =>
    cases hdtc : subscript r.itemsDtc index with
    | error _ => simp [Rows.step, hdtc] at hs
    | ok dtc =>
      simp only [Rows.step, hdtc, Option.some.injEq] at hs
      rw [← hs]
      intro p hp
      rcases List.mem_append.mp hp with hp | hp
      · exact h p hp
      · rw [List.mem_singleton.mp hp]
        exact ⟨dtc, hdtc, rfl⟩
  | completed k error =>
    cases hk : r.pending[k]? with
    | none => simp [Rows.step, hk] at hs
    | some x =>
      cases error with
      | true =>
        rw [step_completed_failed hk] at hs
        cases hs
        exact fun p hp => h p (List.mem_of_mem_eraseIdx hp)
      | false =>
        obtain ⟨dtc, hdtc, _⟩ := h x (List.mem_of_getElem? hk)
        rw [step_completed hk hdtc] at hs
        cases hs
        intro p hp
        obtain ⟨dtc', hdtc', hD⟩ := h p (List.mem_of_mem_eraseIdx hp)
        obtain ⟨hnonneg, hget⟩ := subscript_eq_ok.mp hdtc'
        have hlt : p.1 < x.1 := he x hk p hp
        refine ⟨dtc', subscript_eq_ok.mpr ⟨hnonneg, ?_⟩, hD⟩
        rw [List.getElem?_eraseIdx_of_lt (by omega)]
        exact hget
  | appended dtc =>
    cases hs
    intro p hp
    obtain ⟨dtc', hdtc', hD⟩ := h p hp
    obtain ⟨hnonneg, hget⟩ := subscript_eq_ok.mp hdtc'
    refine ⟨dtc', subscript_eq_ok.mpr ⟨hnonneg, ?_⟩, hD⟩
    rw [List.getElem?_append_left (List.getElem?_eq_some_iff.mp hget).1]
    exact hget
  | itemsDeleteAll =>
    cases hs
    have hnone : r.pending = [] := he
    intro p hp
    rw [hnone] at hp
    cases hp

/-- **Every success of a run takes exactly the row of its document off the list iff every success
finds that row at the index that its closure has captured**; so it is if the highest index always
goes first. -/
theorem deletesRight_iff {itemsDtc : List DataVoteCell} {es : List Event}
    (hnodup : (itemsDtc.map DataVoteCell.UUID).Nodup) (hfresh : AppendsFresh main itemsDtc es) :
    (DeletesRight main itemsDtc es ↔ InPlace main itemsDtc es) ∧
    (HighestFirst main itemsDtc es → InPlace main itemsDtc es) := by
  constructor
  · exact Machine.along_congr (P := fun r => (r.itemsDtc.map DataVoteCell.UUID).Nodup)
      (Rows.step main) (fun _ _ _ h he hs => step_nodup h he hs)
      (fun _ _ h _ => forall_congr' fun k => imp_congr_right fun _ => removesRow_iff h k)
      hnodup hfresh
  · intro h
    refine Machine.along_of_invariant (P := AllThere) (Rows.step main)
      (fun _ _ _ h he hs => step_allThere h he hs) (fun r _ h _ k _ index D hk => ?_)
      (fun p hp => absurd hp List.not_mem_nil) h
    exact h _ (List.mem_of_getElem? hk)

end

/-! ## two deletes in flight -/

def threeRows : List DataVoteCell := [{ UUID := "a" }, { UUID := "b" }, { UUID := "c" }]

def lowerFirst : List Event :=
  [.itemsDelete 0, .itemsDelete 1, .completed 1 false, .appended { UUID := "d" }, .completed 0 false]

def upperFirst : List Event :=
  [.itemsDelete 0, .itemsDelete 1, .completed 0 false, .completed 0 false]

theorem deletesRight_lowerFirst : DeletesRight 0 threeRows lowerFirst := by
  have hfresh : AppendsFresh 0 threeRows lowerFirst := by
    refine (Machine.along_cons _).mpr ⟨(by rintro _ ⟨⟩), fun r hr => ?_⟩
    cases hr
    refine (Machine.along_cons _).mpr ⟨(by rintro _ ⟨⟩), fun r hr => ?_⟩
    cases hr
    refine (Machine.along_cons _).mpr ⟨(by rintro _ ⟨⟩), fun r hr => ?_⟩
    cases hr
    refine (Machine.along_cons _).mpr ⟨(by rintro _ ⟨⟩; decide), fun r hr => ?_⟩
    cases hr
    refine (Machine.along_cons _).mpr ⟨(by rintro _ ⟨⟩), fun r hr => ?_⟩
    exact Machine.along_nil _ _ r
  have hfirst : HighestFirst 0 threeRows lowerFirst := by
    refine (Machine.along_cons _).mpr ⟨trivial, fun r hr => ?_⟩
    cases hr
    refine (Machine.along_cons _).mpr ⟨trivial, fun r hr => ?_⟩
    cases hr
    refine (Machine.along_cons _).mpr ⟨(by rintro _ ⟨⟩; decide), fun r hr => ?_⟩
    cases hr
    refine (Machine.along_cons _).mpr ⟨trivial, fun r hr => ?_⟩
    cases hr
    refine (Machine.along_cons _).mpr ⟨(by rintro _ ⟨⟩; decide), fun r hr => ?_⟩
    exact Machine.along_nil _ _ r
  obtain ⟨hiff, hplace⟩ := deletesRight_iff (by decide) hfresh
  exact hiff.mpr (hplace hfirst)

/-- **The second success takes the row of another vote off the list**; with two rows only, its index
is past the end. -/
theorem wrong_row :
    (threeRows.map DataVoteCell.UUID).Nodup ∧ AppendsFresh 0 threeRows upperFirst ∧
    ¬ DeletesRight 0 threeRows upperFirst ∧
    Machine.exec (Rows.step 0) ⟨threeRows.take 2, []⟩ upperFirst = none := by
  refine ⟨by decide, fun a e b r hsplit _ dtc he => ?_, fun h => ?_, rfl⟩
  · have hmem : e ∈ upperFirst := by rw [hsplit]; simp
    rw [he] at hmem
    simp [upperFirst] at hmem
  · have hlast := h [.itemsDelete 0, .itemsDelete 1, .completed 0 false] (.completed 0 false) [] _
      rfl rfl 0 rfl 1 "b" rfl
    have hlist := congrArg (fun o => o.map fun r => r.itemsDtc.map DataVoteCell.UUID) hlast
    revert hlist
    decide

end VoteOnOffice
