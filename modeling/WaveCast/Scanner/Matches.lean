import Mathlib.Data.List.Basic

/-!
# Matches along a text

`size` tells how long the match is that begins at the head of a text, zero where
none begins there. `matchAll` finds the leftmost matches one after another, none
overlapping the next; `Leftmost` says so without the scan, as a decomposition of
the text into gaps, in which no match begins, and matches.
-/

namespace Scanner

/-- Where a match begins, and what was matched. -/
structure Match (α : Type) where
  index : Nat
  text : List α

variable {α : Type}

/-- The matches of a text that begins at an index, from behind `skip` of its
elements on. -/
def matchesFrom (size : List α → Nat) : Nat → Nat → List α → List (Match α)
  | _, _, [] => []
  | index, skip + 1, _ :: rest => matchesFrom size (index + 1) skip rest
  | index, 0, a :: rest =>
    if size (a :: rest) = 0 then matchesFrom size (index + 1) 0 rest
    else ⟨index, (a :: rest).take (size (a :: rest))⟩ ::
      matchesFrom size (index + 1) (size (a :: rest) - 1) rest

def matchAll (size : List α → Nat) (text : List α) : List (Match α) :=
  matchesFrom size 0 0 text

/-- The text, which begins at the index, has these leftmost matches. -/
inductive Leftmost (size : List α → Nat) : Nat → List α → List (Match α) → Prop
  | none {index : Nat} {text : List α} (hnone : ∀ k < text.length, size (text.drop k) = 0) :
      Leftmost size index text []
  | next {index : Nat} (gap : List α) {raw rest : List α} {found : List (Match α)}
      (hgap : ∀ k < gap.length, size ((gap ++ raw ++ rest).drop k) = 0)
      (hraw : size (raw ++ rest) = raw.length) (hne : raw ≠ [])
      (h : Leftmost size (index + gap.length + raw.length) rest found) :
      Leftmost size index (gap ++ raw ++ rest) (⟨index + gap.length, raw⟩ :: found)

variable {size : List α → Nat}

theorem matchesFrom_skip (index skip : Nat) (text : List α) :
    matchesFrom size index skip text = matchesFrom size (index + skip) 0 (text.drop skip) := by
  induction text generalizing index skip with
  | nil => simp [matchesFrom]
  | cons a rest ih =>
    cases skip with
    | zero => rfl
    | succ skip =>
      rw [matchesFrom, ih, List.drop_succ_cons]
      congr 1
      omega

/-- No match begins at the head. -/
theorem Leftmost.cons {index : Nat} {a : α} {rest : List α} {found : List (Match α)}
    (hsize : size (a :: rest) = 0) (h : Leftmost size (index + 1) rest found) :
    Leftmost size index (a :: rest) found := by
  have hfirst : ∀ {n}, (∀ k < n, size (rest.drop k) = 0) →
      ∀ k < n + 1, size ((a :: rest).drop k) = 0 := by
    intro n hrest k hk
    cases k with
    | zero => exact hsize
    | succ k => exact hrest k (by omega)
  cases h with
  | none hnone => exact .none (hfirst hnone)
  | @next _ gap raw rest found hgap hraw hne h =>
    have hindex : index + 1 + gap.length = index + (a :: gap).length := by
      simp only [List.length_cons]
      omega
    rw [hindex] at h ⊢
    exact .next (a :: gap) (hfirst hgap) hraw hne h

/-- A match of that size begins at the head. -/
theorem Leftmost.take {index n : Nat} {text : List α} {found : List (Match α)}
    (hsize : size text = n) (hpos : n ≠ 0) (hle : n ≤ text.length)
    (h : Leftmost size (index + n) (text.drop n) found) :
    Leftmost size index text (⟨index, text.take n⟩ :: found) := by
  have hlen : (text.take n).length = n := by simp [hle]
  have hnext : Leftmost size index ([] ++ text.take n ++ text.drop n)
      (⟨index + ([] : List α).length, text.take n⟩ :: found) := by
    refine .next [] (by simp) ?_ ?_ (by simpa [hlen] using h)
    · rw [List.take_append_drop, hsize, hlen]
    · intro hnil
      rw [hnil] at hlen
      exact hpos hlen.symm
  simpa using hnext

/-- **What the scan finds** are the leftmost matches. -/
theorem matchAll_leftmost (hsize : ∀ text, size text ≤ text.length) (text : List α) :
    Leftmost size 0 text (matchAll size text) := by
  have hfrom : ∀ n (text : List α), text.length = n → ∀ index,
      Leftmost size index text (matchesFrom size index 0 text) := by
    intro n
    induction n using Nat.strongRecOn with
    | ind n ih =>
      intro text hn index
      cases text with
      | nil => exact .none (by simp)
      | cons a rest =>
        rw [matchesFrom]
        split
        · next hzero => exact .cons hzero (ih rest.length (by simp [← hn]) rest rfl _)
        · next hpos =>
          obtain ⟨m, hm⟩ := Nat.exists_eq_succ_of_ne_zero hpos
          have hrest : (rest.drop m).length < n := by
            rw [← hn, List.length_drop, List.length_cons]
            omega
          refine .take rfl hpos (hsize _) ?_
          rw [matchesFrom_skip, hm, Nat.succ_sub_one, List.drop_succ_cons, Nat.succ_eq_add_one,
            show index + 1 + m = index + (m + 1) by omega]
          exact ih _ hrest _ rfl _
  exact hfrom _ text rfl 0

end Scanner
