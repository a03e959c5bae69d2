import VoteOnOffice.Lib.Machine

/-!
# Causes: what holds after a run and did not hold before it was brought about by a step

* `exec_cause`         the first-cause rule: the step that brings a property about, found in the run;
* `exec_prefixes`      induction over the states of a run, where the hypothesis is there for every
                       earlier one.
-/

namespace Machine

variable {S L : Type} (step : S → L → Option S)

/-- **First-cause rule.** -/
theorem exec_cause {P : S → Prop} {C : S → L → Prop}
    (hstep : ∀ s l t, step s l = some t → P t → P s ∨ C s l) {s u : S} {ls : List L}
    (h : exec step s ls = some u) (hu : P u) :
    P s ∨ ∃ a l b t, ls = a ++ l :: b ∧ exec step s a = some t ∧ C t l := by
  induction ls generalizing s with
  | nil =>
    cases h
    exact .inl hu
  | cons l ls ih =>
    obtain ⟨t, ht, hrest⟩ := (exec_cons step).mp h
    rcases ih hrest with hP | ⟨a, m, b, x, rfl, hx, hC⟩
    · rcases hstep s l t ht hP with hP | hC
      · exact .inl hP
      · exact .inr ⟨[], l, ls, s, rfl, rfl, hC⟩
    · exact .inr ⟨l :: a, m, b, x, rfl, (exec_cons step).mpr ⟨t, ht, hx⟩, hC⟩

/-- **Induction over the prefixes of a run.** -/
theorem exec_prefixes {P : List L → S → Prop} {s : S}
    (h : ∀ ls u, exec step s ls = some u →
      (∀ a b t, ls = a ++ b → b ≠ [] → exec step s a = some t → P a t) → P ls u) {u : S}
    {ls : List L} (hu : exec step s ls = some u) : P ls u := by
  induction hn : ls.length using Nat.strong_induction_on generalizing ls u with
  | _ n ih =>
    refine h ls u hu fun a b t hls hb ht => ih a.length ?_ ht rfl
    have hlength := List.length_pos_iff.mpr hb
    rw [← hn, hls, List.length_append]
    omega

end Machine
