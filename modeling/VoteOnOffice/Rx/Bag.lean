import Mathlib.Data.List.AList
import VoteOnOffice.Cloud.Document
import VoteOnOffice.Lib.Machine
import VoteOnOffice.Lib.Registry

/-!
# `Bag`: the observers of a subject

The first element has a slot of its own, the next ones are in an array of at most
`arrayDictionaryMaxSize` pairs, the others in a dictionary.  A slot that has become free takes the
next element, so the elements are not visited in the order of their keys.

* `Bag`, `insert`, `count`, `removeAll`, `removeKey`, `forEach`, `dispatch`
                       the code;
* `Enumeration T`      the order in which dictionaries enumerate their values: any;
* `Bag.Refines`        the bag has the elements of a registry, under keys that are its tickets;
* `BagOp`, `Bag.step`  histories of a bag; one that traps is not a step;
* `bag_run`            **while keys are not handed out twice a bag never traps, and visits the elements
                       that were inserted and not removed, each once.**
-/

namespace VoteOnOffice.Rx

def arrayDictionaryMaxSize : Nat := 30

/-- its `rawValue` -/
abbrev BagKey := UInt64

structure Bag (T : Type) where
  nextKey : BagKey := 0
  key0 : Option BagKey := none
  value0 : Option T := none
  pairs : List (BagKey × T) := []
  dictionary : Option (AList fun _ : BagKey => T) := none
  onlyFastPath : Bool := true

structure Enumeration (T : Type) where
  values : (AList fun _ : BagKey => T) → List T
  perm : ∀ dictionary, (values dictionary).Perm (dictionary.entries.map Sigma.snd)

variable {T : Type}

def Enumeration.inserted : Enumeration T := ⟨fun d => d.entries.map Sigma.snd, fun _ => .refl _⟩

def Bag.insert (b : Bag T) (element : T) : Bag T × BagKey :=
  let key := b.nextKey
  let b := { b with nextKey := b.nextKey + 1 }
  match b.key0 with
  | none => ({ b with key0 := some key, value0 := some element }, key)
  | some _ =>
    let b := { b with onlyFastPath := false }
    match b.dictionary with
    | some dictionary => ({ b with dictionary := some (dictionary.insert key element) }, key)
    | none =>
      if b.pairs.length < arrayDictionaryMaxSize then
        ({ b with pairs := b.pairs ++ [(key, element)] }, key)
      else ({ b with dictionary := some (.singleton key element) }, key)

def Bag.count (b : Bag T) : Nat :=
  (if b.value0.isSome then 1 else 0) + b.pairs.length +
    ((b.dictionary.map fun dictionary => dictionary.entries.length).getD 0)

def Bag.removeAll (b : Bag T) : Bag T :=
  { b with key0 := none, value0 := none, pairs := [], dictionary := b.dictionary.map fun _ => ∅ }

/-- the loop of `removeKey`: the first pair with the key, and the other pairs -/
def removePair (key : BagKey) : List (BagKey × T) → Option (T × List (BagKey × T))
  | [] => none
  | e :: pairs =>
    if e.1 = key then some (e.2, pairs)
    else (removePair key pairs).map fun x => (x.1, e :: x.2)

def Bag.removeKey (b : Bag T) (key : BagKey) : Except Fatal (Bag T × Option T) :=
  if b.key0 = some key then do
    let value ← unwrap b.value0
    return ({ b with key0 := none, value0 := none }, some value)
  else
    match b.dictionary.bind fun dictionary => dictionary.lookup key with
    | some existingObject =>
      .ok ({ b with dictionary := b.dictionary.map fun dictionary => dictionary.erase key },
        some existingObject)
    | none =>
      match removePair key b.pairs with
      | some (value, pairs) => .ok ({ b with pairs := pairs }, some value)
      | none => .ok (b, none)

/-- the elements that `action` is called with -/
def Bag.forEach (order : Enumeration T) (b : Bag T) : List T :=
  if b.onlyFastPath then b.value0.toList
  else b.value0.toList ++ b.pairs.map Prod.snd ++
    match b.dictionary with
    | some dictionary => if 0 < dictionary.entries.length then order.values dictionary else []
    | none => []

/-- the observers that the event is sent to -/
def Bag.dispatch (order : Enumeration T) (b : Bag T) : List T :=
  if b.onlyFastPath then b.value0.toList
  else b.value0.toList ++ b.pairs.map Prod.snd ++
    match b.dictionary with
    | some dictionary => order.values dictionary
    | none => []

/-! ## the elements of a bag -/

def Bag.slot (b : Bag T) : List (BagKey × T) := (b.key0.bind fun key => b.value0.map (key, ·)).toList

def listOfDictionary (dictionary : Option (AList fun _ : BagKey => T)) : List (BagKey × T) :=
  (dictionary.map fun dictionary => dictionary.entries.map fun e => (e.1, e.2)).getD []

def Bag.entries (b : Bag T) : List (BagKey × T) :=
  b.slot ++ b.pairs ++ listOfDictionary b.dictionary

/-- the key as a ticket -/
def ticket (e : BagKey × T) : Nat × T := (e.1.toNat, e.2)

theorem Bag.map_slot {b : Bag T} (h : b.key0.isSome = b.value0.isSome) :
    b.slot.map Prod.snd = b.value0.toList := by
  rcases b with ⟨_, _ | key0, _ | value0, _, _, _⟩
  · rfl
  · cases h
  · cases h
  · rfl

structure Bag.Refines (b : Bag T) (r : Registry T) : Prop where
  next : b.nextKey = .ofNat r.next
  bound : r.next ≤ UInt64.size
  slot : b.key0.isSome = b.value0.isSome
  fast : b.onlyFastPath = true → b.pairs = [] ∧ b.dictionary = none
  entries : (b.entries.map ticket).Perm r.live

theorem refines_empty : Bag.Refines ({} : Bag T) .empty :=
  ⟨rfl, Nat.zero_le _, rfl, fun _ => ⟨rfl, rfl⟩, .nil⟩

theorem ofNat_toNat_of_le {n : Nat} (h : n < UInt64.size) : (UInt64.ofNat n).toNat = n :=
  UInt64.toNat_ofNat_of_lt' h

section
variable {b : Bag T} {r : Registry T} (h : b.Refines r)
include h

theorem Bag.Refines.mem {key : BagKey} {x : T} :
    (key, x) ∈ b.entries ↔ (key.toNat, x) ∈ r.live := by
  rw [← h.entries.mem_iff, List.mem_map]
  constructor
  · exact fun hx => ⟨_, hx, rfl⟩
  · rintro ⟨⟨key', x'⟩, hx, he⟩
    obtain ⟨hkey, rfl⟩ := Prod.mk.inj he
    obtain rfl := UInt64.toNat_inj.mp hkey
    exact hx

theorem Bag.Refines.fresh (hn : r.next < UInt64.size) (x : T) : (b.nextKey, x) ∉ b.entries := by
  intro hx
  have hlt := r.below _ (h.mem.mp hx)
  rw [h.next, ofNat_toNat_of_le hn] at hlt
  exact absurd hlt (Nat.lt_irrefl _)

theorem Bag.Refines.add (hn : r.next < UInt64.size) {element : T} {b' : Bag T}
    (hnext : b'.nextKey = b.nextKey + 1) (hslot : b'.key0.isSome = b'.value0.isSome)
    (hfast : b'.onlyFastPath = true → b'.pairs = [] ∧ b'.dictionary = none)
    (hentries : b'.entries.Perm ((b.nextKey, element) :: b.entries)) : b'.Refines (r.add element) where
  next := by
    rw [hnext, h.next, Registry.next_add, UInt64.ofNat_add]
    rfl
  bound := hn
  slot := hslot
  fast := hfast
  entries := by
    have hkey : ticket (b.nextKey, element) = (r.next, element) := by
      unfold ticket
      rw [h.next, ofNat_toNat_of_le hn]
    calc (b'.entries.map ticket).Perm (((b.nextKey, element) :: b.entries).map ticket) :=
          hentries.map ticket
      _ = (r.next, element) :: b.entries.map ticket := by rw [List.map_cons, hkey]
      List.Perm _ ((r.next, element) :: r.live) := h.entries.cons _
      List.Perm _ (r.live ++ [(r.next, element)]) := (List.perm_append_singleton _ _).symm

theorem Bag.Refines.remove {key : BagKey} {x : T} {b' : Bag T}
    (hentries : b.entries.Perm ((key, x) :: b'.entries)) (hnext : b'.nextKey = b.nextKey)
    (hslot : b'.key0.isSome = b'.value0.isSome)
    (hfast : b'.onlyFastPath = true → b'.pairs = [] ∧ b'.dictionary = none) :
    r.find key.toNat = some x ∧ b'.Refines (r.drop key.toNat) := by
  have hperm : ((key.toNat, x) :: b'.entries.map ticket).Perm r.live :=
    (hentries.map ticket).symm.trans h.entries
  obtain ⟨hfind, hdrop⟩ := Registry.drop_perm hperm
  exact ⟨hfind, hnext.trans h.next, h.bound, hslot, hfast, hdrop⟩

end

/-! ## the operations -/

theorem Bag.entries_insert {b : Bag T} (hslot : b.key0.isSome = b.value0.isSome)
    (hnew : ∀ x, (b.nextKey, x) ∉ b.entries) (element : T) :
    (b.insert element).1.entries.Perm ((b.nextKey, element) :: b.entries) := by
  rcases b with ⟨nextKey, _ | key0, _ | value0, pairs, _ | dictionary, onlyFastPath⟩
  -- a free slot
  · exact .refl _
  · exact .refl _
  · cases hslot
  · cases hslot
  · cases hslot
  · cases hslot
  · show Bag.entries (Prod.fst (if pairs.length < arrayDictionaryMaxSize then _ else _)) |>.Perm _
    by_cases hsize : pairs.length < arrayDictionaryMaxSize
    · rw [if_pos hsize]
      show ((key0, value0) :: (pairs ++ [(nextKey, element)] ++ [])).Perm
        ((nextKey, element) :: (key0, value0) :: (pairs ++ []))
      rw [List.append_nil, List.append_nil]
      exact ((List.perm_append_singleton _ _).cons _).trans (.swap ..)
    · rw [if_neg hsize]
      show ((key0, value0) :: (pairs ++ [(nextKey, element)])).Perm
        ((nextKey, element) :: (key0, value0) :: (pairs ++ []))
      rw [List.append_nil]
      exact ((List.perm_append_singleton _ _).cons _).trans (.swap ..)
  · have hnotMem : nextKey ∉ dictionary := by
      intro hin
      obtain ⟨x, hx⟩ := Option.isSome_iff_exists.mp (AList.lookup_isSome.mpr hin)
      exact hnew x (List.mem_append_right _
        (List.mem_map.mpr ⟨⟨nextKey, x⟩, AList.mem_lookup_iff.mp hx, rfl⟩))
    show ((key0, value0) :: pairs ++
      (dictionary.insert nextKey element).entries.map fun e => (e.1, e.2)).Perm _
    rw [AList.entries_insert_of_notMem hnotMem]
    exact List.perm_middle

theorem Bag.insert_spec (b : Bag T) (element : T) :
    (b.insert element).2 = b.nextKey ∧ (b.insert element).1.nextKey = b.nextKey + 1 ∧
      (b.key0.isSome = b.value0.isSome →
        (b.insert element).1.key0.isSome = (b.insert element).1.value0.isSome) ∧
      ((b.insert element).1.onlyFastPath = true → (b.insert element).1.pairs = b.pairs ∧
        (b.insert element).1.dictionary = b.dictionary ∧ b.onlyFastPath = true) := by
  rcases b with ⟨nextKey, _ | key0, value0, pairs, _ | dictionary, onlyFastPath⟩
  · exact ⟨rfl, rfl, fun _ => rfl, fun h => ⟨rfl, rfl, h⟩⟩
  · exact ⟨rfl, rfl, fun _ => rfl, fun h => ⟨rfl, rfl, h⟩⟩
  · unfold Bag.insert
    by_cases hsize : pairs.length < arrayDictionaryMaxSize
    · simp only [if_pos hsize]
      exact ⟨trivial, trivial, id, fun h => (by cases h)⟩
    · simp only [if_neg hsize]
      exact ⟨trivial, trivial, id, fun h => (by cases h)⟩
  · exact ⟨rfl, rfl, id, fun h => (by cases h)⟩

theorem removePair_eq_some {key : BagKey} {value : T} {pairs pairs' : List (BagKey × T)}
    (h : removePair key pairs = some (value, pairs')) : pairs.Perm ((key, value) :: pairs') := by
  induction pairs generalizing pairs' with
  | nil => cases h
  | cons e pairs ih =>
    unfold removePair at h
    by_cases he : e.1 = key
    · rw [if_pos he] at h
      cases h
      rw [← he]
    · rw [if_neg he, Option.map_eq_some_iff] at h
      obtain ⟨⟨value', rest⟩, hrest, hx⟩ := h
      cases hx
      exact ((ih hrest).cons e).trans (.swap ..)

theorem removePair_eq_none {key : BagKey} {pairs : List (BagKey × T)}
    (h : removePair key pairs = none) (value : T) : (key, value) ∉ pairs := by
  induction pairs with
  | nil => exact List.not_mem_nil
  | cons e pairs ih =>
    unfold removePair at h
    by_cases he : e.1 = key
    · rw [if_pos he] at h
      cases h
    · rw [if_neg he, Option.map_eq_none_iff] at h
      rw [List.mem_cons, not_or]
      exact ⟨fun hx => he (congrArg Prod.fst hx).symm, ih h⟩

theorem entries_erase {dictionary : AList fun _ : BagKey => T} {key : BagKey} {value : T}
    (h : dictionary.lookup key = some value) :
    dictionary.entries.Perm (⟨key, value⟩ :: (dictionary.erase key).entries) := by
  have hmem : key ∈ dictionary.entries.keys := AList.lookup_isSome.mp (by rw [h]; rfl)
  obtain ⟨value', l₁, l₂, _, hentries, herase⟩ := List.exists_of_kerase hmem
  have hvalue : (⟨key, value'⟩ : Sigma fun _ : BagKey => T) ∈ dictionary.entries := by
    rw [hentries]
    exact List.mem_append_right _ List.mem_cons_self
  have hlookup : dictionary.lookup key = some value' := AList.mem_lookup_iff.mpr hvalue
  rw [h] at hlookup
  cases hlookup
  show dictionary.entries.Perm (_ :: dictionary.entries.kerase key)
  rw [herase, hentries]
  exact List.perm_middle

theorem Bag.notMem_entries {b : Bag T} {key : BagKey} (hkey0 : b.key0 ≠ some key)
    (hdictionary : (b.dictionary.bind fun dictionary => dictionary.lookup key) = none)
    (hpairs : removePair key b.pairs = none) (x : T) : (key, x) ∉ b.entries := by
  intro hx
  rcases List.mem_append.mp hx with hx | hx
  · rcases List.mem_append.mp hx with hx | hx
    · obtain ⟨key0, hkey, hx⟩ := Option.bind_eq_some_iff.mp (Option.mem_toList.mp hx)
      obtain ⟨_, _, he⟩ := Option.map_eq_some_iff.mp hx
      exact hkey0 ((Prod.mk.inj he).1 ▸ hkey)
    · exact removePair_eq_none hpairs x hx
  · unfold listOfDictionary at hx
    cases hd : b.dictionary with
    | none =>
      rw [hd] at hx
      cases hx
    | some dictionary =>
      rw [hd] at hx hdictionary
      obtain ⟨⟨key', x'⟩, hmem, he⟩ := List.mem_map.mp hx
      obtain ⟨rfl, rfl⟩ := Prod.mk.inj he
      rw [Option.bind_some, AList.mem_lookup_iff.mpr hmem] at hdictionary
      cases hdictionary

section
variable {b : Bag T} {r : Registry T} (h : b.Refines r)
include h

theorem Bag.Refines.insert (hn : r.next < UInt64.size) (element : T) :
    (b.insert element).2.toNat = r.next ∧ (b.insert element).1.Refines (r.add element) := by
  obtain ⟨hkey, hnext, hslot, hfast⟩ := b.insert_spec element
  refine ⟨by rw [hkey, h.next, ofNat_toNat_of_le hn], h.add hn hnext (hslot h.slot) (fun hf => ?_)
    (Bag.entries_insert h.slot (h.fresh hn) element)⟩
  obtain ⟨hpairs, hdictionary, hf⟩ := hfast hf
  rw [hpairs, hdictionary]
  exact h.fast hf

theorem Bag.Refines.removeAll : b.removeAll.Refines r.clear where
  next := h.next
  bound := h.bound
  slot := rfl
  fast := fun hf => ⟨rfl, by
    show b.dictionary.map _ = none
    rw [(h.fast hf).2]
    rfl⟩
  entries := by
    have hnone : b.removeAll.entries = [] := by
      unfold Bag.removeAll Bag.entries listOfDictionary
      cases b.dictionary <;> rfl
    rw [hnone]
    exact .nil

theorem Bag.Refines.removeKey (key : BagKey) :
    ∃ b', b.removeKey key = .ok (b', r.find key.toNat) ∧ b'.Refines (r.drop key.toNat) := by
  unfold Bag.removeKey
  by_cases hk : b.key0 = some key
  · obtain ⟨value, hvalue⟩ := Option.isSome_iff_exists.mp (by rw [← h.slot, hk]; rfl)
    have hentries : b.entries.Perm ((key, value) ::
        Bag.entries { b with key0 := none, value0 := none }) := by
      unfold Bag.entries Bag.slot
      rw [hk, hvalue]
      exact .refl _
    obtain ⟨hfind, hrefines⟩ := h.remove hentries rfl rfl h.fast
    rw [if_pos hk, hvalue, hfind]
    exact ⟨_, rfl, hrefines⟩
  · rw [if_neg hk]
    cases hd : b.dictionary.bind fun dictionary => dictionary.lookup key with
    | some value =>
      obtain ⟨dictionary, hdictionary, hlookup⟩ := Option.bind_eq_some_iff.mp hd
      have hentries : b.entries.Perm ((key, value) :: Bag.entries
          { b with dictionary := b.dictionary.map fun dictionary => dictionary.erase key }) := by
        unfold Bag.entries listOfDictionary
        rw [hdictionary]
        exact (((entries_erase hlookup).map _).append_left _).trans List.perm_middle
      obtain ⟨hfind, hrefines⟩ := h.remove hentries rfl h.slot (fun hf => by
        have hnone := (h.fast hf).2
        rw [hdictionary] at hnone
        cases hnone)
      rw [hfind]
      exact ⟨_, rfl, hrefines⟩
    | none =>
      cases hp : removePair key b.pairs with
      | some x =>
        obtain ⟨value, pairs⟩ := x
        have hentries : b.entries.Perm ((key, value) :: Bag.entries { b with pairs := pairs }) := by
          unfold Bag.entries
          refine (((removePair_eq_some hp).append_left _).append_right _).trans ?_
          rw [List.append_assoc, List.append_assoc]
          exact List.perm_middle
        obtain ⟨hfind, hrefines⟩ := h.remove hentries rfl h.slot (fun hf => by
          have hnone := (h.fast hf).1
          rw [hnone] at hp
          cases hp)
        rw [hfind]
        exact ⟨_, rfl, hrefines⟩
      | none =>
        have hnot : ∀ x, (key.toNat, x) ∉ r.live := fun x hx =>
          Bag.notMem_entries hk hd hp x (h.mem.mpr hx)
        rw [Registry.find_eq_none.mpr hnot]
        rw [Registry.drop_eq_self hnot]
        exact ⟨b, rfl, h⟩

theorem Bag.Refines.elements (order : Enumeration T) :
    (b.value0.toList ++ b.pairs.map Prod.snd ++ match b.dictionary with
      | some dictionary => order.values dictionary
      | none => []).Perm (r.live.map Prod.snd) := by
  have hsnd : b.entries.map Prod.snd = (b.entries.map ticket).map Prod.snd := by
    rw [List.map_map]
    rfl
  refine List.Perm.trans ?_ (hsnd ▸ h.entries.map Prod.snd)
  unfold Bag.entries listOfDictionary
  rw [List.map_append, List.map_append, Bag.map_slot h.slot]
  refine List.Perm.append_left _ ?_
  cases b.dictionary with
  | none => exact .nil
  | some dictionary =>
    refine (order.perm dictionary).trans ?_
    show List.Perm _ ((dictionary.entries.map _).map _)
    rw [List.map_map]
    exact .refl _

theorem Bag.Refines.dispatch (order : Enumeration T) :
    (b.dispatch order).Perm (r.live.map Prod.snd) := by
  refine List.Perm.trans ?_ (h.elements order)
  unfold Bag.dispatch
  by_cases hf : b.onlyFastPath = true
  · rw [if_pos hf, (h.fast hf).1, (h.fast hf).2, List.map_nil, List.append_nil, List.append_nil]
  · rw [if_neg hf]

theorem Bag.Refines.count : b.count = r.live.length := by
  have hlength := h.entries.length_eq
  have hslot := congrArg List.length (Bag.map_slot h.slot)
  rw [List.length_map] at hlength hslot
  rw [← hlength]
  unfold Bag.count Bag.entries listOfDictionary
  rw [List.length_append, List.length_append, hslot]
  congr 1
  · cases b.value0 <;> rfl
  · cases b.dictionary with
    | none => rfl
    | some dictionary => exact (List.length_map _).symm

end

/-- the second loop over the bag visits what the first does -/
theorem Bag.forEach_eq_dispatch (order : Enumeration T) (b : Bag T) :
    b.forEach order = b.dispatch order := by
  unfold Bag.forEach Bag.dispatch
  cases b.dictionary with
  | none => rfl
  | some dictionary =>
    by_cases hd : 0 < dictionary.entries.length
    · simp only [if_pos hd]
    · have hnil : dictionary.entries = [] := List.eq_nil_of_length_eq_zero (by omega)
      have hvalues : order.values dictionary = [] := by
        have hperm := order.perm dictionary
        rw [hnil] at hperm
        exact hperm.eq_nil
      simp only [if_neg hd, hvalues]

/-! ## histories -/

inductive BagOp (T : Type) where
  | insert (element : T)
  | removeKey (key : BagKey)
  | removeAll

def Bag.step (b : Bag T) : BagOp T → Option (Bag T)
  | .insert element => some (b.insert element).1
  | .removeKey key => ((b.removeKey key).map Prod.fst).toOption
  | .removeAll => some b.removeAll

def BagOp.ticket : BagOp T → Registry.Op T
  | .insert element => .add element
  | .removeKey key => .drop key.toNat
  | .removeAll => .clear

theorem Bag.Refines.step {b : Bag T} {r : Registry T} (h : b.Refines r) {op : BagOp T}
    (hn : r.next < UInt64.size ∨ ∀ x, op ≠ .insert x) :
    ∃ b', b.step op = some b' ∧ b'.Refines (r.step op.ticket) := by
  cases op with
  | insert element => exact ⟨_, rfl, (h.insert (hn.resolve_right fun hne => hne element rfl) element).2⟩
  | removeKey key =>
    obtain ⟨b', hb', hrefines⟩ := h.removeKey key
    refine ⟨b', ?_, hrefines⟩
    show ((b.removeKey key).map Prod.fst).toOption = some b'
    rw [hb']
    rfl
  | removeAll => exact ⟨_, rfl, h.removeAll⟩

/-- a bag goes along with the registry as long as there are keys -/
theorem Bag.Refines.run {b : Bag T} {r : Registry T} (h : b.Refines r) {ops : List (BagOp T)}
    (hn : r.next + Registry.adds (ops.map BagOp.ticket) ≤ UInt64.size) :
    ∃ b', Machine.exec Bag.step b ops = some b' ∧ b'.Refines (r.after (ops.map BagOp.ticket)) := by
  induction ops generalizing b r with
  | nil => exact ⟨b, rfl, h⟩
  | cons op ops ih =>
    have hkeys : (r.next < UInt64.size ∨ ∀ x, op ≠ .insert x) ∧
        (r.step op.ticket).next + Registry.adds (ops.map BagOp.ticket) ≤ UInt64.size := by
      cases op with
      | insert element =>
        have hn : r.next + (Registry.adds (ops.map BagOp.ticket) + 1) ≤ UInt64.size := hn
        refine ⟨.inl (by omega), ?_⟩
        show r.next + 1 + _ ≤ _
        omega
      | _ => exact ⟨.inr fun x hx => (by cases hx), hn⟩
    obtain ⟨t, ht, hrefines⟩ := h.step hkeys.1
    exact Machine.exists_exec_cons _ ht (ih hrefines hkeys.2)

/-- **A bag that has not handed out `UInt64.size` keys never traps.**  Whatever was inserted and removed, it
visits what was inserted and not removed after, each element once, in the order of its places and
of its dictionary; `count` is their number, a removal finds the element of that key, and a new
element gets a key that no other has had. -/
theorem bag_run (ops : List (BagOp T)) (hn : Registry.adds (ops.map BagOp.ticket) ≤ UInt64.size) :
    ∃ b, Machine.exec Bag.step {} ops = some b ∧
      (∀ order, (b.dispatch order).Perm
        ((Registry.alive 0 (ops.map BagOp.ticket)).map Prod.snd)) ∧
      b.count = (Registry.alive 0 (ops.map BagOp.ticket)).length ∧
      (∀ key x, (∃ b', b.removeKey key = .ok (b', some x)) ↔
        (key.toNat, x) ∈ Registry.alive 0 (ops.map BagOp.ticket)) ∧
      (∀ key, ∃ b' o, b.removeKey key = .ok (b', o)) ∧
      (Registry.adds (ops.map BagOp.ticket) < UInt64.size → ∀ x,
        (b.insert x).2.toNat = Registry.adds (ops.map BagOp.ticket)) := by
  obtain ⟨b, hb, hrefines⟩ := @Bag.Refines.run T _ _ refines_empty ops (by
    rw [Registry.next_empty, Nat.zero_add]
    exact hn)
  have hlive := Registry.live_after_empty (ops.map BagOp.ticket)
  have hnext := Registry.next_after (.empty : Registry T) (ops.map BagOp.ticket)
  rw [Registry.next_empty, Nat.zero_add] at hnext
  refine ⟨b, hb, fun order => ?_, ?_, fun key x => ?_, fun key => ?_, fun hn x => ?_⟩
  · rw [← hlive]
    exact hrefines.dispatch order
  · rw [← hlive]
    exact hrefines.count
  · obtain ⟨b', hb', _⟩ := hrefines.removeKey key
    rw [← hlive, ← Registry.find_eq_some, hb']
    constructor
    · rintro ⟨_, he⟩
      exact (Prod.mk.inj (Except.ok.inj he)).2
    · intro hfind
      rw [hfind]
      exact ⟨b', rfl⟩
  · obtain ⟨b', hb', _⟩ := hrefines.removeKey key
    exact ⟨b', _, hb'⟩
  · rw [← hnext] at hn ⊢
    exact (hrefines.insert hn x).1

/-- three are inserted, the first is removed, and a fourth takes its slot -/
def threeAndOne : List (BagOp Nat) := [.insert 10, .insert 11, .insert 12, .removeKey 0, .insert 13]

/-- **The fourth is visited before the second.** -/
theorem bag_run_threeAndOne : ∃ b, Machine.exec Bag.step {} threeAndOne = some b ∧
    (∀ order, (b.dispatch order).Perm [11, 12, 13]) ∧ ∀ order, b.dispatch order = [13, 11, 12] := by
  obtain ⟨b, hb, hdispatch, _⟩ := bag_run threeAndOne (by decide)
  refine ⟨b, hb, hdispatch, fun order => ?_⟩
  cases hb
  rfl

end VoteOnOffice.Rx
