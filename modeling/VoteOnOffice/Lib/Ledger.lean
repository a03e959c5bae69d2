import VoteOnOffice.Lib.Machine

/-!
# Ledgers: what a run has made, what is kept of it and what it has lost

* `total step lost s ls`
                       the sum of what the steps of the run lose;
* `exec_balance`       where every step balances, so does every run;
* `total_pos_iff`      something is lost in a run iff one of its steps loses something.
-/

namespace Machine

variable {S L : Type} (step : S → L → Option S)

def total (lost : S → L → Nat) : S → List L → Nat
  | _, [] => 0
  | s, l :: ls => lost s l + (step s l).elim 0 fun t => total lost t ls

theorem total_cons {lost : S → L → Nat} {s t : S} {l : L} (h : step s l = some t) (ls : List L) :
    total step lost s (l :: ls) = lost s l + total step lost t ls := by
  show lost s l + (step s l).elim 0 _ = _
  rw [h, Option.elim_some]

/-- **Ledger rule.** -/
theorem exec_balance {P : S → Prop} (made kept : S → Nat) {lost : S → L → Nat}
    (hstep : ∀ s l t, P s → step s l = some t →
      P t ∧ made t + kept s = made s + kept t + lost s l) {s u : S} {ls : List L}
    (h : exec step s ls = some u) (hs : P s) :
    P u ∧ made u + kept s = made s + kept u + total step lost s ls := by
  induction ls generalizing s with
  | nil =>
    cases h
    exact ⟨hs, rfl⟩
  | cons l ls ih =>
    obtain ⟨t, ht, hu⟩ := (exec_cons step).mp h
    obtain ⟨hPt, hbalance⟩ := hstep s l t hs ht
    obtain ⟨hPu, hrest⟩ := ih hu hPt
    refine ⟨hPu, ?_⟩
    rw [total_cons step ht]
    omega

theorem total_pos_iff (lost : S → L → Nat) {s u : S} {ls : List L} (h : exec step s ls = some u) :
    0 < total step lost s ls ↔
      ∃ a l b t, ls = a ++ l :: b ∧ exec step s a = some t ∧ 0 < lost t l := by
  induction ls generalizing s with
  | nil =>
    constructor
    · intro h
      cases h
    · rintro ⟨a, l, b, t, hls, _⟩
      simp at hls
  | cons l ls ih =>
    obtain ⟨t, ht, hu⟩ := (exec_cons step).mp h
    rw [total_cons step ht, Nat.add_pos_iff_pos_or_pos, ih hu]
    constructor
    · rintro (hl | ⟨a, m, b, v, rfl, hv, hm⟩)
      · exact ⟨[], l, ls, s, rfl, rfl, hl⟩
      · exact ⟨l :: a, m, b, v, rfl, (exec_cons step).mpr ⟨t, ht, hv⟩, hm⟩
    · rintro ⟨a, m, b, v, hls, hv, hm⟩
      cases a with
      | nil =>
        cases hv
        obtain ⟨rfl, _⟩ := List.cons_eq_cons.mp hls
        exact .inl hm
      | cons x a =>
        obtain ⟨rfl, hrest⟩ := List.cons_eq_cons.mp hls
        obtain ⟨t', ht', hv⟩ := (exec_cons step).mp hv
        cases ht.symm.trans ht'
        exact .inr ⟨a, m, b, v, hrest, hv, hm⟩

end Machine
