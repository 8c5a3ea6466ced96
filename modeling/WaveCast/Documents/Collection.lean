import Mathlib.Data.Finmap
import Mathlib.Data.Finset.Sort
import Mathlib.Data.List.Sort

/-!
# Collections of documents

The part of a document database that keyed stores rest on. A `Collection`
holds documents under their `_id`, and carries with it that no two documents
agree on the field with a unique index. The operations are atomic. Where a
server is free to choose the order in which it visits documents, the order is
an argument, and any enumeration of the ids may occur (`scan`).

A replacement keeps the `_id` of the document it replaces: `replaceOne` rejects
one with another `_id`.
-/

namespace Documents

variable {V K U : Type}

/-- The field `_id` of a document, and the field that has a unique index. -/
structure Schema (V K U : Type) where
  id : V → K
  unique : V → U

/-- A collection has no other unique index. -/
def Schema.ofID (id : V → K) : Schema V K K := ⟨id, id⟩

inductive WriteError where
  | duplicateKey
  /-- A replacement has an `_id` that differs from that of the document. -/
  | immutableID
  deriving DecidableEq, Repr

structure Collection [DecidableEq K] (S : Schema V K U) where
  docs : Finmap fun _ : K => V
  keyed : ∀ k v, docs.lookup k = some v → S.id v = k
  unique : ∀ v v', docs.lookup (S.id v) = some v → docs.lookup (S.id v') = some v' →
    S.unique v = S.unique v' → S.id v = S.id v'

namespace Collection

variable [DecidableEq K] {S : Schema V K U}

def empty (S : Schema V K U) : Collection S where
  docs := ∅
  keyed := by simp
  unique := by simp

/-- The document is stored. -/
def Holds (c : Collection S) (doc : V) : Prop := c.docs.lookup (S.id doc) = some doc

theorem holds_of_lookup {c : Collection S} {k : K} {v : V} (h : c.docs.lookup k = some v) :
    c.Holds v := by
  have hk := c.keyed k v h
  subst hk
  exact h

/-- A document with another `_id` has the same value in the unique index. -/
def Clashes (c : Collection S) (doc : V) : Prop :=
  ∃ k ∈ c.docs.keys, ∃ v ∈ c.docs.lookup k, S.id v ≠ S.id doc ∧ S.unique v = S.unique doc

instance [DecidableEq U] (c : Collection S) (doc : V) : Decidable (c.Clashes doc) :=
  inferInstanceAs (Decidable (∃ k ∈ c.docs.keys, ∃ v ∈ c.docs.lookup k, _ ∧ _))

theorem clashes_iff {c : Collection S} {doc : V} :
    c.Clashes doc ↔ ∃ v, c.Holds v ∧ S.id v ≠ S.id doc ∧ S.unique v = S.unique doc := by
  constructor
  · rintro ⟨k, -, v, hv, h⟩
    exact ⟨v, holds_of_lookup hv, h⟩
  · rintro ⟨v, hv, h⟩
    exact ⟨S.id v, Finmap.mem_keys.mpr (Finmap.mem_of_lookup_eq_some hv), v, hv, h⟩

/-- Without a unique index beside `_id`, nothing clashes. -/
theorem not_clashes_ofID {id : V → K} (c : Collection (Schema.ofID id)) (doc : V) :
    ¬ c.Clashes doc := by
  rw [clashes_iff]
  rintro ⟨v, -, hne, heq⟩
  exact hne heq

/-! ## Writing -/

/-- Store the document under its `_id`. -/
def put (c : Collection S) (doc : V) (h : ¬ c.Clashes doc) : Collection S where
  docs := c.docs.insert (S.id doc) doc
  keyed := by
    intro k v hv
    by_cases hk : k = S.id doc
    · subst hk
      rw [Finmap.lookup_insert] at hv
      cases hv
      rfl
    · rw [Finmap.lookup_insert_of_ne _ hk] at hv
      exact c.keyed k v hv
  unique := by
    have other : ∀ v, c.Holds v → S.unique v = S.unique doc → S.id v = S.id doc := by
      intro v hv hu
      by_contra hne
      exact h (clashes_iff.mpr ⟨v, hv, hne, hu⟩)
    intro v v' hv hv' hu
    by_cases hk : S.id v = S.id doc <;> by_cases hk' : S.id v' = S.id doc
    · rw [hk, hk']
    · rw [hk, Finmap.lookup_insert] at hv
      rw [Finmap.lookup_insert_of_ne _ hk'] at hv'
      cases hv
      exact (other v' hv' hu.symm).symm
    · rw [hk', Finmap.lookup_insert] at hv'
      rw [Finmap.lookup_insert_of_ne _ hk] at hv
      cases hv'
      exact other v hv hu
    · rw [Finmap.lookup_insert_of_ne _ hk] at hv
      rw [Finmap.lookup_insert_of_ne _ hk'] at hv'
      exact c.unique v v' hv hv' hu

@[simp] theorem put_docs (c : Collection S) (doc : V) (h : ¬ c.Clashes doc) :
    (c.put doc h).docs = c.docs.insert (S.id doc) doc := rfl

theorem holds_put {c : Collection S} {doc v : V} {hno : ¬ c.Clashes doc}
    (hv : (c.put doc hno).Holds v) : v = doc ∨ c.Holds v := by
  rw [Holds, put_docs] at hv
  by_cases hid : S.id v = S.id doc
  · rw [hid, Finmap.lookup_insert] at hv
    exact .inl (Option.some.inj hv).symm
  · rw [Finmap.lookup_insert_of_ne _ hid] at hv
    exact .inr hv

theorem put_holds {c : Collection S} {doc : V} (hno : ¬ c.Clashes doc) :
    (c.put doc hno).Holds doc := Finmap.lookup_insert c.docs

theorem put_keeps {c : Collection S} {doc v : V} (hno : ¬ c.Clashes doc) (hv : c.Holds v)
    (hid : S.id v ≠ S.id doc) : (c.put doc hno).Holds v :=
  (Finmap.lookup_insert_of_ne c.docs hid).trans hv

/-- `InsertOne` -/
def insertOne [DecidableEq U] (c : Collection S) (doc : V) : Except WriteError (Collection S) :=
  if S.id doc ∈ c.docs then .error .duplicateKey
  else if h : c.Clashes doc then .error .duplicateKey
  else .ok (c.put doc h)

theorem insertOne_put [DecidableEq U] {c : Collection S} {doc : V}
    (habsent : c.docs.lookup (S.id doc) = none) (hno : ¬ c.Clashes doc) :
    c.insertOne doc = .ok (c.put doc hno) := by
  rw [Finmap.lookup_eq_none] at habsent
  simp [insertOne, habsent, hno]

theorem insertOne_clash [DecidableEq U] {c : Collection S} {doc : V} (h : c.Clashes doc) :
    c.insertOne doc = .error .duplicateKey := by
  simp [insertOne, h]

theorem holds_insertOne [DecidableEq U] {c c' : Collection S} {doc v : V}
    (h : c.insertOne doc = .ok c') (hv : c'.Holds v) : v = doc ∨ c.Holds v := by
  rw [insertOne] at h
  split at h
  · cases h
  · split at h
    · cases h
    · cases h
      exact holds_put hv

theorem insertOne_keeps [DecidableEq U] {c c' : Collection S} {doc v : V}
    (h : c.insertOne doc = .ok c') (hv : c.Holds v) : c'.Holds v := by
  rw [insertOne] at h
  split at h
  · cases h
  · rename_i habsent
    split at h
    · cases h
    · cases h
      refine put_keeps _ hv fun hid => habsent ?_
      rw [← hid]
      exact Finmap.mem_of_lookup_eq_some hv

/-- What one write puts in place of a document: it keeps the indexed fields. -/
structure Update (S : Schema V K U) where
  run : V → V
  keepsID : ∀ v, S.id (run v) = S.id v
  keepsUnique : ∀ v, S.unique (run v) = S.unique v

theorem not_clashes_update (u : Update S) {c : Collection S} {v : V} (hv : c.Holds v) :
    ¬ c.Clashes (u.run v) := by
  rw [clashes_iff]
  rintro ⟨v', hv', hne, hu⟩
  rw [u.keepsID] at hne
  rw [u.keepsUnique] at hu
  exact hne (c.unique v' v hv' hv hu)

/-- Update a stored document. -/
def modify (c : Collection S) (u : Update S) (v : V) (hv : c.Holds v) : Collection S :=
  c.put (u.run v) (not_clashes_update u hv)

@[simp] theorem modify_docs (c : Collection S) (u : Update S) (v : V) (hv : c.Holds v) :
    (c.modify u v hv).docs = c.docs.insert (S.id v) (u.run v) := by
  rw [modify, put_docs, u.keepsID]

/-- `UpdateByID` -/
def updateByID (c : Collection S) (k : K) (u : Update S) : Collection S :=
  match h : c.docs.lookup k with
  | some v => c.modify u v (holds_of_lookup h)
  | none => c

theorem updateByID_docs (c : Collection S) (k : K) (u : Update S) :
    (c.updateByID k u).docs =
      match c.docs.lookup k with
      | some v => c.docs.insert k (u.run v)
      | none => c.docs := by
  unfold updateByID
  split
  · rename_i v h
    rw [modify_docs, c.keyed k v h, h]
  · rename_i h
    rw [h]

theorem holds_updateByID {c : Collection S} {k : K} {u : Update S} {v : V}
    (hv : (c.updateByID k u).Holds v) :
    c.Holds v ∨ ∃ old, c.Holds old ∧ S.id old = k ∧ v = u.run old := by
  rw [updateByID] at hv
  split at hv
  · rename_i old hold
    rcases holds_put hv with rfl | hv
    · exact .inr ⟨old, holds_of_lookup hold, c.keyed k old hold, rfl⟩
    · exact .inl hv
  · exact .inl hv

/-- An update loses no document. -/
theorem updateByID_keeps {c : Collection S} {v : V} (k : K) (u : Update S) (hv : c.Holds v) :
    (c.updateByID k u).Holds (if S.id v = k then u.run v else v) := by
  rw [updateByID]
  split
  · rename_i old hold
    split
    · rename_i hid
      rw [Holds, hid, hold] at hv
      cases hv
      exact put_holds _
    · rename_i hid
      refine put_keeps _ hv ?_
      rw [u.keepsID, c.keyed k old hold]
      exact hid
  · rename_i hnone
    rw [if_neg]
    · exact hv
    · rintro rfl
      cases hv.symm.trans hnone

/-! ## Reading -/

/-- The documents in the order in which the server visits their ids. -/
def scan (c : Collection S) (order : List K) : Option (List V) :=
  if order.Nodup ∧ order.toFinset = c.docs.keys then some (order.filterMap c.docs.lookup) else none

theorem mem_scan {c : Collection S} {order : List K} {vs : List V} (h : c.scan order = some vs)
    (v : V) : v ∈ vs ↔ c.Holds v := by
  unfold scan at h
  split at h
  · rename_i ho
    cases h
    rw [List.mem_filterMap]
    constructor
    · rintro ⟨k, -, hk⟩
      exact holds_of_lookup hk
    · intro hv
      refine ⟨S.id v, ?_, hv⟩
      rw [← List.mem_toFinset, ho.2]
      exact Finmap.mem_keys.mpr (Finmap.mem_of_lookup_eq_some hv)
  · cases h

/-- `FindOne` -/
def findOne (c : Collection S) (filter : V → Bool) (order : List K) : Option (Option V) :=
  (c.scan order).map (·.find? filter)

/-- `Find` -/
def find (c : Collection S) (filter : V → Bool) (order : List K) : Option (List V) :=
  (c.scan order).map (·.filter filter)

theorem findOne_eq_some {c : Collection S} {filter : V → Bool} {order : List K} {v : V}
    (h : c.findOne filter order = some (some v)) : c.Holds v ∧ filter v = true := by
  obtain ⟨vs, hvs, hf⟩ := Option.map_eq_some_iff.mp h
  exact ⟨(mem_scan hvs v).mp (List.mem_of_find?_eq_some hf), List.find?_some hf⟩

theorem findOne_eq_none {c : Collection S} {filter : V → Bool} {order : List K}
    (h : c.findOne filter order = some none) {v : V} (hv : c.Holds v) : filter v = false := by
  obtain ⟨vs, hvs, hf⟩ := Option.map_eq_some_iff.mp h
  simpa using List.find?_eq_none.mp hf v ((mem_scan hvs v).mpr hv)

/-- Finding by `_id` is looking the document up. -/
theorem findOne_id {c : Collection S} {k : K} {order : List K} {found : Option V}
    (h : c.findOne (fun v => S.id v = k) order = some found) : found = c.docs.lookup k := by
  cases found with
  | some v =>
    obtain ⟨hv, hk⟩ := findOne_eq_some h
    rw [← of_decide_eq_true hk]
    exact hv.symm
  | none =>
    cases hl : c.docs.lookup k with
    | none => rfl
    | some v =>
      have hno := findOne_eq_none h (holds_of_lookup hl)
      simp [c.keyed k v hl] at hno

/-- `ReplaceOne` with upsert. -/
def replaceOne [DecidableEq U] (c : Collection S) (filter : V → Bool) (order : List K) (doc : V) :
    Option (Except WriteError (Collection S)) :=
  (c.findOne filter order).map fun
    | none => c.insertOne doc
    | some old =>
      if S.id old ≠ S.id doc then .error .immutableID
      else if h : c.Clashes doc then .error .duplicateKey
      else .ok (c.put doc h)

theorem replaceOne_none [DecidableEq U] {c : Collection S} {filter : V → Bool} {order : List K}
    (h : c.findOne filter order = some none) (doc : V) :
    c.replaceOne filter order doc = some (c.insertOne doc) := by
  rw [replaceOne, h, Option.map_some]

/-- Replacing cannot change the `_id`. -/
theorem replaceOne_immutable [DecidableEq U] {c : Collection S} {filter : V → Bool}
    {order : List K} {old doc : V} (h : c.findOne filter order = some (some old))
    (hne : S.id old ≠ S.id doc) : c.replaceOne filter order doc = some (.error .immutableID) := by
  simp [replaceOne, h, hne]

/-- A replacement stores the document, in place of one that matches. -/
theorem replaceOne_put [DecidableEq U] {c c' : Collection S} {filter : V → Bool} {order : List K}
    {doc : V} (h : c.replaceOne filter order doc = some (.ok c')) :
    ∃ hno, c' = c.put doc hno ∧ ∀ v, c.Holds v → S.id v = S.id doc → filter v = true := by
  obtain ⟨found, hfound, h⟩ := Option.map_eq_some_iff.mp h
  cases found with
  | none =>
    simp only [insertOne] at h
    split at h
    · cases h
    · rename_i habsent
      split at h
      · cases h
      · rename_i hno
        cases h
        refine ⟨hno, rfl, fun v hv hid => absurd ?_ habsent⟩
        rw [← hid]
        exact Finmap.mem_of_lookup_eq_some hv
  | some old =>
    obtain ⟨hold, hfilter⟩ := findOne_eq_some hfound
    simp only [ne_eq, ite_not] at h
    split at h
    · rename_i hsame
      split at h
      · cases h
      · rename_i hno
        cases h
        refine ⟨hno, rfl, fun v hv hid => ?_⟩
        rw [Holds, hid, ← hsame, hold] at hv
        cases hv
        exact hfilter
    · cases h

/-- Replacing by `_id` stores the document. -/
theorem replaceOne_id [DecidableEq U] {c : Collection S} {order : List K} {doc : V}
    (hno : ¬ c.Clashes doc) {r : Except WriteError (Collection S)}
    (h : c.replaceOne (fun v => S.id v = S.id doc) order doc = some r) :
    r = .ok (c.put doc hno) := by
  obtain ⟨found, hf, hr⟩ := Option.map_eq_some_iff.mp h
  have hfound := findOne_id hf
  cases found with
  | some old =>
    have hid := c.keyed _ _ hfound.symm
    simpa [hid, hno] using hr.symm
  | none => exact hr.symm.trans (insertOne_put hfound.symm hno)

/-- `FindOneAndUpdate`: the first of the matching documents by `le` is updated
and returned. -/
def findOneAndUpdate (c : Collection S) (filter : V → Bool) (le : V → V → Prop) [DecidableRel le]
    (order : List K) (u : Update S) : Option (Option V × Collection S) :=
  (c.find filter order).map fun vs =>
    match (vs.insertionSort le).head? with
    | none => (none, c)
    | some v => (some (u.run v), c.updateByID (S.id v) u)

/-- What it can do: nothing matches, or it updates one document that matches. -/
theorem findOneAndUpdate_cases {c c' : Collection S} {filter : V → Bool} {le : V → V → Prop}
    [DecidableRel le] {order : List K} {u : Update S} {found : Option V}
    (h : c.findOneAndUpdate filter le order u = some (found, c')) :
    (found = none ∧ c' = c ∧ ∀ v, c.Holds v → filter v = false) ∨
      ∃ v, c.Holds v ∧ filter v = true ∧ found = some (u.run v) ∧ c' = c.updateByID (S.id v) u := by
  obtain ⟨vs, hvs, hr⟩ := Option.map_eq_some_iff.mp h
  obtain ⟨all, hall, rfl⟩ := Option.map_eq_some_iff.mp hvs
  have hmem : ∀ v, v ∈ (all.filter filter).insertionSort le ↔ c.Holds v ∧ filter v = true := by
    intro v
    rw [List.mem_insertionSort, List.mem_filter, mem_scan hall]
  split at hr
  · rename_i hnil
    cases hr
    refine .inl ⟨rfl, rfl, fun v hv => ?_⟩
    by_contra hf
    have hin := (hmem v).mpr ⟨hv, by simpa using hf⟩
    simp [List.head?_eq_none_iff.mp hnil] at hin
  · rename_i v hv
    cases hr
    obtain ⟨hheld, hf⟩ := (hmem v).mp (List.mem_of_head? hv)
    exact .inr ⟨v, hheld, hf, rfl, rfl⟩

end Collection

end Documents
