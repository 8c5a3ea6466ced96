import Mathlib

/-!
# Successions of intervals

Half-open intervals, some of them without an end, stand in lines: behind an
interval may stand one that starts no earlier than it stops. The fewest lines
that hold all intervals are as many as the most intervals that are open at one
time (`isGreatest_iff_isLeast`).
-/

namespace Intervals

/-- Finitely many intervals, each from its start up to its stop, if it has one. -/
structure Family (ι T : Type*) [LinearOrder T] where
  members : Finset ι
  start : ι → T
  stop : ι → WithTop T
  proper : ∀ i ∈ members, (start i : WithTop T) < stop i

namespace Family

variable {ι T : Type*} [LinearOrder T]

/-- The intervals that are open at `t`. -/
def openAt (F : Family ι T) (t : T) : Finset ι := {i ∈ F.members | F.start i ≤ t ∧ t < F.stop i}

/-- `next` puts intervals behind others, each behind one at most. -/
structure IsSuccession (F : Family ι T) (next : ι → Option ι) : Prop where
  mem : ∀ i j, next i = some j → i ∈ F.members ∧ j ∈ F.members
  after : ∀ i j, next i = some j → F.stop i ≤ F.start j
  own : ∀ i i' j, next i = some j → next i' = some j → i = i'

/-- The last interval of each line. -/
def lasts (F : Family ι T) (next : ι → Option ι) : Finset ι := {i ∈ F.members | next i = none}

/-- The intervals that never stop. -/
def endless (F : Family ι T) : Finset ι := {i ∈ F.members | F.stop i = ⊤}

variable {F : Family ι T} {next : ι → Option ι} {i j : ι} {t now : T} {n : ℕ}

theorem mem_openAt : i ∈ F.openAt t ↔ i ∈ F.members ∧ F.start i ≤ t ∧ t < F.stop i :=
  Finset.mem_filter

theorem mem_lasts : i ∈ F.lasts next ↔ i ∈ F.members ∧ next i = none := Finset.mem_filter

theorem mem_endless : i ∈ F.endless ↔ i ∈ F.members ∧ F.stop i = ⊤ := Finset.mem_filter

/-- An interval that never stops is the last of its line. -/
theorem IsSuccession.endless_subset_lasts (h : F.IsSuccession next) :
    F.endless ⊆ F.lasts next := by
  intro i hi
  obtain ⟨hmem, htop⟩ := mem_endless.mp hi
  refine mem_lasts.mpr ⟨hmem, ?_⟩
  cases hj : next i with
  | none => rfl
  | some j => exact absurd (h.after i j hj) (by simp [htop])

/-- **No line has two intervals that are open at one time.** -/
theorem IsSuccession.openAt_le_lasts (h : F.IsSuccession next) (t : T) :
    (F.openAt t).card ≤ (F.lasts next).card := by
  -- the intervals that stop later than `t` are open at `t` or start later
  have hlater : (F.openAt t).card + {i ∈ F.members | t < F.start i}.card =
      {i ∈ F.members | t < F.stop i}.card := by
    rw [← Finset.card_filter_add_card_filter_not (s := {i ∈ F.members | t < F.stop i})
      fun i => F.start i ≤ t]
    simp only [Finset.filter_filter, not_le]
    congr 2
    · refine Finset.filter_congr fun i _ => and_comm
    · refine Finset.filter_congr fun i hi => ⟨fun hlt => ⟨?_, hlt⟩, And.right⟩
      exact (WithTop.coe_lt_coe.mpr hlt).trans (F.proper i hi)
  -- behind each of them stands one that starts later
  have hnext : {i ∈ F.members | t < F.stop i ∧ ¬ next i = none}.card ≤
      {i ∈ F.members | t < F.start i}.card := by
    refine Finset.card_le_card_of_forall_subsingleton (fun i j => next i = some j) ?_ ?_
    · intro i hi
      obtain ⟨-, hstop, hsome⟩ := Finset.mem_filter.mp hi
      obtain ⟨j, hj⟩ := Option.ne_none_iff_exists'.mp hsome
      refine ⟨j, Finset.mem_filter.mpr ⟨(h.mem i j hj).2, ?_⟩, hj⟩
      exact WithTop.coe_lt_coe.mp (hstop.trans_le (h.after i j hj))
    · rintro j - i ⟨-, hi⟩ i' ⟨-, hi'⟩
      exact h.own i i' j hi hi'
  have hlasts : {i ∈ F.members | t < F.stop i ∧ next i = none}.card ≤ (F.lasts next).card :=
    Finset.card_le_card (Finset.monotone_filter_right _ fun i _ hi => hi.2)
  have hsplit := Finset.card_filter_add_card_filter_not (s := {i ∈ F.members | t < F.stop i})
    fun i => next i = none
  rw [Finset.filter_filter, Finset.filter_filter] at hsplit
  omega

/-- The most intervals are open at some time, by which all have started. -/
theorem exists_most (F : Family ι T) (hnow : ∀ i ∈ F.members, F.start i ≤ now) :
    ∃ t ≤ now, ∀ i ∈ F.members, (F.openAt (F.start i)).card ≤ (F.openAt t).card := by
  rcases F.members.eq_empty_or_nonempty with hempty | hnonempty
  · exact ⟨now, le_rfl, by simp [hempty]⟩
  · obtain ⟨i, hi, hmost⟩ :=
      Finset.exists_max_image F.members (fun i => (F.openAt (F.start i)).card) hnonempty
    exact ⟨F.start i, hnow i hi, hmost⟩

/-! ## Few lines -/

section Lines

variable [DecidableEq ι]

def erase (F : Family ι T) (i : ι) : Family ι T :=
  { F with
    members := F.members.erase i
    proper := fun j hj => F.proper j (Finset.mem_of_mem_erase hj) }

theorem openAt_erase_subset : (F.erase i).openAt t ⊆ F.openAt t :=
  Finset.filter_subset_filter _ (Finset.erase_subset i F.members)

theorem IsSuccession.next_erased (h : (F.erase i).IsSuccession next) (k : ι) :
    next k ≠ some i := fun hk => Finset.ne_of_mem_erase (h.mem k i hk).2 rfl

theorem IsSuccession.erased_next (h : (F.erase i).IsSuccession next) : next i = none := by
  cases hk : next i with
  | none => rfl
  | some k => exact absurd rfl (Finset.ne_of_mem_erase (h.mem i k hk).1)

/-- The interval that starts last is put behind one that has stopped. -/
theorem IsSuccession.behind (h : (F.erase i).IsSuccession next) (hi : i ∈ F.members)
    (hj : j ∈ (F.erase i).lasts next) (hstop : F.stop j ≤ F.start i) :
    F.IsSuccession (Function.update next j (some i)) := by
  obtain ⟨hmem, hnone⟩ := mem_lasts.mp hj
  refine ⟨fun k l hkl => ?_, fun k l hkl => ?_, fun k k' l hkl hkl' => ?_⟩
  · rw [Function.update_apply] at hkl
    split at hkl
    · cases hkl
      rename_i hk
      exact ⟨hk ▸ Finset.mem_of_mem_erase hmem, hi⟩
    · exact (h.mem k l hkl).imp Finset.mem_of_mem_erase Finset.mem_of_mem_erase
  · rw [Function.update_apply] at hkl
    split at hkl
    · cases hkl
      rename_i hk
      exact hk ▸ hstop
    · exact h.after k l hkl
  · rw [Function.update_apply] at hkl hkl'
    split at hkl <;> split at hkl'
    · rename_i hk hk'
      exact hk.trans hk'.symm
    · cases hkl
      exact absurd hkl' (h.next_erased k')
    · cases hkl'
      exact absurd hkl (h.next_erased k)
    · exact h.own k k' l hkl hkl'

/-- It becomes the last of its line, in the place of the other. -/
theorem IsSuccession.card_lasts_behind (h : (F.erase i).IsSuccession next) (hi : i ∈ F.members)
    (hj : j ∈ (F.erase i).lasts next) :
    (F.lasts (Function.update next j (some i))).card = ((F.erase i).lasts next).card := by
  have hne : j ≠ i := Finset.ne_of_mem_erase (mem_lasts.mp hj).1
  have hlasts : F.lasts (Function.update next j (some i)) =
      insert i (((F.erase i).lasts next).erase j) := by
    ext k
    rcases eq_or_ne k i with rfl | hki
    · simp [mem_lasts, hi, h.erased_next, hne.symm]
    · rcases eq_or_ne k j with rfl | hkj
      · simp [mem_lasts, hne]
      · simp [mem_lasts, hki, hkj, erase]
  have hfresh : i ∉ ((F.erase i).lasts next).erase j := fun hmem =>
    Finset.ne_of_mem_erase (mem_lasts.mp (Finset.mem_of_mem_erase hmem)).1 rfl
  rw [hlasts, Finset.card_insert_of_notMem hfresh, Finset.card_erase_add_one hj]

/-- Where all lines end in open intervals, the one that starts last is open with them. -/
theorem lasts_subset_openAt (hi : i ∈ F.members) (hlast : ∀ k ∈ F.members, F.start k ≤ F.start i)
    (hopen : ∀ j ∈ (F.erase i).lasts next, F.start i < F.stop j) :
    F.lasts next ⊆ F.openAt (F.start i) := by
  intro k hk
  obtain ⟨hmem, hnone⟩ := mem_lasts.mp hk
  refine mem_openAt.mpr ⟨hmem, hlast k hmem, ?_⟩
  rcases eq_or_ne k i with rfl | hki
  · exact F.proper k hmem
  · exact hopen k (mem_lasts.mpr ⟨Finset.mem_erase.mpr ⟨hki, hmem⟩, hnone⟩)

theorem IsSuccession.of_erase (h : (F.erase i).IsSuccession next) : F.IsSuccession next :=
  ⟨fun k l hkl => (h.mem k l hkl).imp Finset.mem_of_mem_erase Finset.mem_of_mem_erase,
    h.after, h.own⟩

/-- **Where no more than `n` intervals are ever open, `n` lines hold them all**:
they are put in line in the order of their starts. -/
theorem exists_succession (hopen : ∀ i ∈ F.members, (F.openAt (F.start i)).card ≤ n) :
    ∃ next, F.IsSuccession next ∧ (F.lasts next).card ≤ n := by
  induction hcard : F.members.card generalizing F with
  | zero =>
    refine ⟨fun _ => none, ⟨nofun, nofun, nofun⟩, ?_⟩
    rw [lasts, Finset.card_eq_zero.mp hcard]
    exact Nat.zero_le n
  | succ m ih =>
    have hnonempty : F.members.Nonempty := Finset.card_pos.mp (by omega)
    obtain ⟨i, hi, hlast⟩ := Finset.exists_max_image F.members F.start hnonempty
    have hfewer : (F.erase i).members.card = m := by
      rw [erase, Finset.card_erase_of_mem hi, hcard, Nat.add_sub_cancel]
    obtain ⟨next, hnext, hle⟩ := ih (F := F.erase i)
      (fun k hk => (Finset.card_le_card openAt_erase_subset).trans
        (hopen k (Finset.mem_of_mem_erase hk))) hfewer
    by_cases hstopped : ∃ j ∈ (F.erase i).lasts next, F.stop j ≤ F.start i
    · obtain ⟨j, hj, hstop⟩ := hstopped
      exact ⟨_, hnext.behind hi hj hstop, (hnext.card_lasts_behind hi hj).trans_le hle⟩
    · push Not at hstopped
      refine ⟨next, hnext.of_erase, ?_⟩
      exact (Finset.card_le_card (lasts_subset_openAt hi hlast hstopped)).trans (hopen i hi)

/-- **The most intervals at one time are as many as the fewest lines.** -/
theorem isGreatest_iff_isLeast (F : Family ι T) (hnow : ∀ i ∈ F.members, F.start i ≤ now) (n : ℕ) :
    IsGreatest {n | ∃ t ≤ now, n = (F.openAt t).card} n ↔
      IsLeast {n | ∃ next, F.IsSuccession next ∧ n = (F.lasts next).card} n := by
  obtain ⟨t, ht, hmost⟩ := F.exists_most hnow
  obtain ⟨next, hnext, hle⟩ := exists_succession hmost
  have hsame : (F.openAt t).card = (F.lasts next).card := (hnext.openAt_le_lasts t).antisymm hle
  have hgreatest : IsGreatest {n | ∃ t ≤ now, n = (F.openAt t).card} (F.openAt t).card := by
    refine ⟨⟨t, ht, rfl⟩, ?_⟩
    rintro _ ⟨t', -, rfl⟩
    exact (hnext.openAt_le_lasts t').trans hle
  have hleast : IsLeast {n | ∃ next, F.IsSuccession next ∧ n = (F.lasts next).card}
      (F.openAt t).card := by
    refine ⟨⟨next, hnext, hsame⟩, ?_⟩
    rintro _ ⟨next', hnext', rfl⟩
    exact hnext'.openAt_le_lasts t
  constructor
  · intro h
    rwa [h.unique hgreatest]
  · intro h
    rwa [h.unique hleast]

end Lines

end Family

end Intervals
