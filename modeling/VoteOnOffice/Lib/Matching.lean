import VoteOnOffice.Lib.Machine

/-!
# Matching runs: a simulation that remembers its labels

Where every step of a machine is matched by a run of another one, so is every run; here the two runs
are kept together, cut into the pieces that match.

* `Matched`            a run, and one that matches it piece by piece: `R` holds wherever a piece ends,
                       and `C` says which labels may stand for which;
* `Matched.extend`     matching goes on where every step can be matched;
* `Matched.split`      **every label of the one run stands in the piece for a label of the other.**
-/

namespace Machine

variable {S L S' L' : Type}

inductive Matched (step : S → L → Option S) (step' : S' → L' → Option S') (R : S → S' → Prop)
    (C : S → L → List L' → Prop) (s : S) (x : S') : List L → S → List L' → S' → Prop where
  | nil (hR : R s x) : Matched step step' R C s x [] s [] x
  | concat {ls : List L} {t u : S} {l : L} {ls' ms : List L'} {y z : S'}
      (h : Matched step step' R C s x ls t ls' y) (hl : step t l = some u)
      (hms : exec step' y ms = some z) (hC : C t l ms) (hR : R u z) :
      Matched step step' R C s x (ls ++ [l]) u (ls' ++ ms) z

section
variable {step : S → L → Option S} {step' : S' → L' → Option S'} {R : S → S' → Prop}
  {C : S → L → List L' → Prop} {s t u : S} {x y z : S'} {ls a b : List L} {ls' a' b' : List L'}

theorem Matched.rel (h : Matched step step' R C s x ls t ls' y) : R t y := by
  cases h with
  | nil hR => exact hR
  | concat _ _ _ _ hR => exact hR

theorem Matched.exec (h : Matched step step' R C s x ls t ls' y) :
    exec step s ls = some t ∧ exec step' x ls' = some y := by
  induction h with
  | nil _ => exact ⟨rfl, rfl⟩
  | concat _ hl hms _ _ ih =>
    exact ⟨(exec_concat step).mpr ⟨_, ih.1, hl⟩, (exec_append_eq_some step').mpr ⟨_, ih.2, hms⟩⟩

/-- **Where every step can be matched, a matched run can be continued.** -/
theorem Matched.extend
    (hstep : ∀ s l t x, R s x → step s l = some t →
      ∃ ms y, Machine.exec step' x ms = some y ∧ R t y ∧ C s l ms)
    (h : Matched step step' R C s x ls t ls' y) (hb : Machine.exec step t b = some u) :
    ∃ ms z, Matched step step' R C s x (ls ++ b) u (ls' ++ ms) z := by
  induction b generalizing ls t ls' y with
  | nil =>
    cases hb
    refine ⟨[], y, ?_⟩
    rw [List.append_nil, List.append_nil]
    exact h
  | cons l b ih =>
    obtain ⟨v, hv, hu⟩ := (exec_cons step).mp hb
    obtain ⟨ms, w, hms, hR, hC⟩ := hstep t l v y h.rel hv
    obtain ⟨ms', z, hz⟩ := ih (h.concat hv hms hC hR) hu
    refine ⟨ms ++ ms', z, ?_⟩
    rw [List.append_assoc, List.append_assoc] at hz
    exact hz

/-- **Every label of the matching run stands in a piece for a label of the run.** -/
theorem Matched.split {m : L'} (h : Matched step step' R C s x ls u ls' z)
    (hls : ls' = a' ++ m :: b') : ∃ a l b t a₀ c d y, ls = a ++ l :: b ∧
      Matched step step' R C s x a t a₀ y ∧ a' = a₀ ++ c ∧ C t l (c ++ m :: d) := by
  induction h generalizing b' with
  | nil _ => simp at hls
  | @concat ls t u l ls' ms y z h hl hms hC hR ih =>
    -- the label is in the last piece, or in one before
    rcases List.append_eq_append_iff.mp hls with ⟨c, rfl, rfl⟩ | ⟨c, rfl, hc⟩
    · exact ⟨ls, l, [], t, ls', c, b', y, rfl, h, rfl, hC⟩
    · cases c with
      | nil =>
        obtain rfl : m :: b' = ms := hc
        refine ⟨ls, l, [], t, a' ++ [], [], b', y, rfl, h, ?_, hC⟩
        rw [List.append_nil, List.append_nil]
      | cons m' c =>
        obtain ⟨rfl, rfl⟩ := List.cons_eq_cons.mp hc
        obtain ⟨a, l', b, v, a₀, c', d, w, rfl, hrest⟩ := ih rfl
        exact ⟨a, l', b ++ [l], v, a₀, c', d, w, by simp, hrest⟩

end

end Machine
