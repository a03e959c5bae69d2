import VoteOnOffice.App.System

/-!
# Screens that only read

While nobody writes, what is in flight are requests and answers to them, and an answer has failed or
holds what the database still holds.

* `Answers db q r`     `r` is such an answer to the query `q`;
* `Exchange db R x`    `x` is a request that `R` allows, or an answer to one;
* `exchange_serve`, `exchange_deliver`
                       what a delivery does when nothing else is in flight.
-/

namespace VoteOnOffice

def Answers (db : Database) (q : Query) (r : Reply) : Prop :=
  r = .failed ∨ r = .ok (db.getDocuments q)

/-- a request that `R` allows, or an answer to one -/
def Exchange (db : Database) (R : Query → Callback → Prop) (task : Task) : Prop :=
  ∃ q k, R q k ∧ (task = .read q k ∨ ∃ r, Answers db q r ∧ task = .reply r k)

theorem db_performAll (s : System) (es : List Effect) : (s.performAll es).db = s.db :=
  performAll_keeps System.db (fun _ _ => rfl) s es

section
variable {R : Query → Callback → Prop} {db : Database}

theorem exchange_answer {l₁ l₂ : List Task} {q : Query} {k : Callback} {r : Reply}
    (h : ∀ x ∈ l₁ ++ .read q k :: l₂, Exchange db R x) (hR : R q k) (hr : Answers db q r) :
    ∀ x ∈ l₁ ++ .reply r k :: l₂, Exchange db R x := by
  intro x hx
  rcases mem_middle.mp hx with rfl | hx
  · exact ⟨q, k, hR, .inr ⟨r, hr, rfl⟩⟩
  · exact h x (mem_middle.mpr (.inr hx))

variable {s u : System}

theorem exchange_serve (h : ∀ x ∈ s.net, Exchange s.db R x) {k : Nat} {ok : Bool}
    (hs : s.serve k ok = some u) : ∃ l₁ l₂ q cb r, s.net = l₁ ++ .read q cb :: l₂ ∧
      u.net = l₁ ++ .reply r cb :: l₂ ∧ R q cb ∧ Answers s.db q r ∧
      u.db = s.db ∧ u.views = s.views ∧ u.mains = s.mains := by
  obtain ⟨task, hk, hserved⟩ := serve_served hs
  obtain ⟨q, cb, hR, rfl | ⟨r, _, rfl⟩⟩ := h task (List.mem_of_getElem? hk)
  · cases hserved with
    | read hnet => exact ⟨_, _, q, cb, _, hnet, rfl, hR, .inr rfl, rfl, rfl, rfl⟩
    | readFails hnet => exact ⟨_, _, q, cb, _, hnet, rfl, hR, .inl rfl, rfl, rfl, rfl⟩
  · cases hserved

theorem exchange_deliver (h : ∀ x ∈ s.net, Exchange s.db R x) {k : Nat}
    (hs : s.deliver k = some u) : ∃ l₁ l₂ q cb r es, s.net = l₁ ++ .reply r cb :: l₂ ∧
      s.net[k]? = some (.reply r cb) ∧ s.net.eraseIdx k = l₁ ++ l₂ ∧ R q cb ∧ Answers s.db q r ∧
      cb.run s.itemsDtc r = .ok es ∧ u = System.performAll { s with net := l₁ ++ l₂ } es := by
  unfold System.deliver at hs
  cases hk : s.net[k]? with
  | none => rw [hk] at hs; cases hs
  | some task =>
    obtain ⟨l₁, l₂, hnet, _, herase⟩ := split_net hk
    obtain ⟨q, cb, hR, rfl | ⟨r, hr, rfl⟩⟩ := h task (List.mem_of_getElem? hk)
    · rw [hk] at hs; cases hs
    · cases hrun : cb.run s.itemsDtc r with
      | error e => simp only [hk, hrun] at hs; cases hs
      | ok es =>
        simp only [hk, hrun, herase] at hs
        cases hs
        exact ⟨l₁, l₂, q, cb, r, es, hnet, rfl, herase, hR, hr, hrun, rfl⟩

end

end VoteOnOffice
