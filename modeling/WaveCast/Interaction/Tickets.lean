import WaveCast.Interaction.Pool

/-!
# Keys that are used once

A thread draws a key and then uses it, with no use in between (`Redeems`). If
no key is drawn twice, no key is used twice, not even by different threads
(`FreshDraws.redeemed`); the keys that are used can then be drawn upon by the
next stage in the same way. The keys of a history without repetition form a
list without duplicates (`FreshDraws.nodup`).
-/

namespace Interaction

variable {S : Signature} {C E K : Type}

/-- A part of the history of a thread comes from a part of the trace. -/
theorem threadHistory_split {i : ℕ} {t : List (Entry S C E)} {a b : List (Exchange S)}
    {x : Exchange S} (h : threadHistory i t = a ++ x :: b) :
    ∃ newer e older, t = newer ++ e :: older ∧ e.thread = i ∧ e.exchange = x ∧
      threadHistory i newer = a ∧ threadHistory i older = b := by
  induction t generalizing a with
  | nil => simp at h
  | cons e t ih =>
    rw [threadHistory_cons] at h
    by_cases hi : e.thread = i
    · rw [if_pos hi] at h
      cases a with
      | nil =>
        obtain ⟨hx, hb⟩ := List.cons.inj h
        exact ⟨[], e, t, rfl, hi, hx, rfl, hb⟩
      | cons y a =>
        obtain ⟨hy, ha⟩ := List.cons.inj h
        obtain ⟨newer, f, older, rfl, hf, hx, hn, ho⟩ := ih ha
        refine ⟨e :: newer, f, older, rfl, hf, hx, ?_, ho⟩
        rw [threadHistory_cons, if_pos hi, hn, hy]
    · rw [if_neg hi] at h
      obtain ⟨newer, f, older, rfl, hf, hx, hn, ho⟩ := ih h
      refine ⟨e :: newer, f, older, rfl, hf, hx, ?_, ho⟩
      rw [threadHistory_cons, if_neg hi, hn]

section Redeems

variable (draws uses : Exchange S → Option K)

/-- The history ends with the draw of the key and calls that use none. -/
def Redeems (h : List (Exchange S)) (k : K) : Prop :=
  ∃ a x b, h = a ++ x :: b ∧ draws x = some k ∧ uses x = none ∧ ∀ y ∈ a, uses y = none

/-- Every use of a key redeems a draw of its thread. -/
def AllRedeem : List (Entry S C E) → Prop :=
  Always fun older e => ∀ k, uses e.exchange = some k →
    Redeems draws uses (threadHistory e.thread older) k

variable {draws uses}

/-- A key that a thread is about to redeem has not been used by anyone. -/
theorem Redeems.unused {t : List (Entry S C E)}
    (hfresh : FreshDraws (fun e => draws e.exchange) t) (hall : AllRedeem draws uses t) {i : ℕ}
    {k : K} (h : Redeems draws uses (threadHistory i t) k) :
    ∀ e ∈ t, uses e.exchange ≠ some k := by
  intro e he hk
  -- the draw before the use is the one the thread redeems
  obtain ⟨a, x, b, hsplit, hx, hxno, hano⟩ := h
  obtain ⟨n, d, o, ht, hthread, rfl, hn, -⟩ := threadHistory_split hsplit
  have hbefore : ∀ {newer older}, t = newer ++ e :: older →
      ∃ d' ∈ older, d'.thread = e.thread ∧ draws d'.exchange = some k := by
    rintro newer older rfl
    obtain ⟨a', x', b', hsplit', hx', -⟩ := hall.at k hk
    obtain ⟨n', d', o', rfl, hthread', rfl, -⟩ := threadHistory_split hsplit'
    exact ⟨d', by simp, hthread', hx'⟩
  obtain ⟨newer, older, hsplit'⟩ := List.append_of_mem he
  obtain ⟨d', hd', hthread', hdraw'⟩ := hbefore hsplit'
  obtain rfl : d = d' := hfresh.unique (by simp [ht]) (by simp [hsplit', hd']) hx hdraw'
  -- so one thread makes the use too, and no use lies on either side of the draw
  rw [ht] at he
  rcases List.mem_append.mp he with hmem | hmem
  · have hmem : e.exchange ∈ a :=
      hn ▸ mem_threadHistory.mpr ⟨e, hmem, hthread'.symm.trans hthread, rfl⟩
    rw [hano _ hmem] at hk
    cases hk
  · rcases List.mem_cons.mp hmem with rfl | hmem
    · rw [hxno] at hk
      cases hk
    · obtain ⟨n', o', rfl⟩ := List.append_of_mem hmem
      have hold : t = (n ++ d :: n') ++ e :: o' := by simp [ht]
      obtain ⟨d', hd', -, hdraw'⟩ := hbefore hold
      rw [ht] at hfresh
      exact hfresh.at k hx d' (by simp [hd']) hdraw'

/-- A key drawn once is used once. -/
theorem FreshDraws.redeemed {t : List (Entry S C E)}
    (hfresh : FreshDraws (fun e => draws e.exchange) t) (h : AllRedeem draws uses t) :
    FreshDraws (fun e => uses e.exchange) t := by
  rw [FreshDraws, always_iff]
  rintro newer e older rfl k hk e' he'
  exact (h.at k hk).unused (Always.of_append hfresh).2 h.of_append.2 e' he'

end Redeems

theorem FreshDraws.nodup {ε : Type} {draws : ε → Option K} {t : List ε} (h : FreshDraws draws t) :
    (t.filterMap draws).Nodup := by
  induction t with
  | nil => simp
  | cons e older ih =>
    cases hk : draws e with
    | none => simpa [hk] using ih h.2
    | some k =>
      rw [List.filterMap_cons_some hk, List.nodup_cons]
      refine ⟨fun hmem => ?_, ih h.2⟩
      obtain ⟨e', he', hk'⟩ := List.mem_filterMap.mp hmem
      exact h.1 k hk e' he' hk'

end Interaction
