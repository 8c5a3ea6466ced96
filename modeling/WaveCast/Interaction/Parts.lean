import WaveCast.Interaction.History

/-!
# Values in parts

Clients of a keyed register that read a whole value, change the parts they own
and write the whole value back. `PartsCurrent` says that every part holds what
its owners wrote last. It does so at every point of a history iff no client
writes back a part that its owners have changed since it read the value
(`parts_current_iff`).
-/

namespace Interaction

variable {ε K V G : Type} [DecidableEq K] [DecidableEq G] {W : G → Type}

section Parts

variable (writes reads : ε → Option (K × V)) (client : ε → ℕ) (owned : ε → Option G)
  (part : (g : G) → V → W g) (init : K → V)

/-- The writes of those who own `g`. -/
def writesOf (g : G) (e : ε) : Option (K × V) := if owned e = some g then writes e else none

/-- The value under `k` after the history, which is `init k` before the first write. -/
def valueAt (k : K) (t : List ε) : V := (lastWrite writes k t).getD (init k)

/-- Every part holds what its owners wrote last. -/
def PartsCurrent (t : List ε) : Prop :=
  ∀ k g, part g (valueAt writes init k t) = part g (valueAt (writesOf writes owned g) init k t)

/-- A read returns the parts that are there. -/
def ReadsParts : List ε → Prop :=
  Always fun older e => ∀ k v, reads e = some (k, v) →
    ∀ g, part g v = part g (valueAt writes init k older)

/-- A write is based on a read by the same client and leaves alone the parts
that the client does not own. -/
def EditsOwned : List ε → Prop :=
  Always fun older e => ∀ k v, writes e = some (k, v) →
    (∃ mid v₀, WritesBack reads client older mid e k v₀) ∧
    ∀ mid v₀, WritesBack reads client older mid e k v₀ →
      ∀ g, owned e ≠ some g → part g v = part g v₀

/-- What the owners of a part wrote last since a client read it is what the
client read, whenever a client that does not own the part writes. -/
def NoStaleParts : List ε → Prop :=
  Always fun older e => ∀ k v mid v₀, writes e = some (k, v) →
    WritesBack reads client older mid e k v₀ → ∀ g, owned e ≠ some g →
      ∀ v', lastWrite (writesOf writes owned g) k mid = some v' → part g v' = part g v₀

variable {writes reads client owned part init}

theorem valueAt_self {k : K} {v : V} {e : ε} {older : List ε} (h : writes e = some (k, v)) :
    valueAt writes init k (e :: older) = v := by
  rw [valueAt, lastWrite_cons_self h, Option.getD_some]

theorem valueAt_other {k : K} {e : ε} {older : List ε} (h : ∀ v, writes e ≠ some (k, v)) :
    valueAt writes init k (e :: older) = valueAt writes init k older := by
  rw [valueAt, lastWrite_cons_other h, valueAt]

theorem valueAt_append (k : K) (newer older : List ε) :
    valueAt writes init k (newer ++ older) =
      (lastWrite writes k newer).getD (valueAt writes init k older) := by
  rw [valueAt, lastWrite_append, valueAt]
  cases lastWrite writes k newer <;> rfl

omit [DecidableEq K] in
theorem writesOf_ne {g : G} {k : K} {e : ε} (h : (∀ v, writes e ≠ some (k, v)) ∨ owned e ≠ some g)
    (v : V) : writesOf writes owned g e ≠ some (k, v) := by
  rw [writesOf]
  split
  · rename_i hg
    exact h.resolve_right (not_not.mpr hg) v
  · simp

/-- A key nobody has written has no owner's write either. -/
theorem lastWrite_writesOf_none {g : G} {k : K} {t : List ε} (h : lastWrite writes k t = none) :
    lastWrite (writesOf writes owned g) k t = none :=
  lastWrite_eq_none.mpr fun e he => writesOf_ne (.inl (lastWrite_eq_none.mp h e he))

/-- A part that its owners have not changed since a client read it is still as
the client read it. -/
theorem part_read_current {older mid : List ε} {e : ε} {k : K} {v₀ : V} {g : G}
    (hread : ReadsParts writes reads part init older)
    (hrw : ∀ e, (reads e).isSome → writes e = none)
    (hpast : ∀ newer rest, older = newer ++ rest → PartsCurrent writes owned part init rest)
    (hno : ∀ v', lastWrite (writesOf writes owned g) k mid = some v' → part g v' = part g v₀)
    (hwb : WritesBack reads client older mid e k v₀) :
    part g v₀ = part g (valueAt (writesOf writes owned g) init k older) := by
  obtain ⟨r, rest, rfl, -, hr⟩ := hwb
  have hnone : ∀ v, writesOf writes owned g r ≠ some (k, v) :=
    writesOf_ne (.inl (by simp [hrw r (by simp [hr])]))
  rw [valueAt_append, valueAt_other hnone]
  cases hlast : lastWrite (writesOf writes owned g) k mid with
  | some v' => exact (hno v' hlast).symm
  | none =>
    calc part g v₀ = part g (valueAt writes init k rest) := hread.at k v₀ hr g
      _ = part g (valueAt (writesOf writes owned g) init k rest) :=
        hpast (mid ++ [r]) rest (by simp) k g

/-- **Lost updates of parts**: clients that write back whole values keep every
part as its owners left it iff none of them writes back a stale part. -/
theorem parts_current_iff {t : List ε} (hread : ReadsParts writes reads part init t)
    (hedit : EditsOwned writes reads client owned part t)
    (hrw : ∀ e, (reads e).isSome → writes e = none) :
    (∀ newer older, t = newer ++ older → PartsCurrent writes owned part init older) ↔
      NoStaleParts writes reads client owned part t := by
  constructor
  · intro hcur
    rw [NoStaleParts, always_iff]
    rintro newer e older rfl k v mid v₀ hw hwb g hg v' hlast
    have hpart := hcur newer (e :: older) rfl k g
    have hkept := (hedit.at k v hw).2 mid v₀ hwb g hg
    obtain ⟨r, rest, rfl, -⟩ := hwb
    rw [valueAt_self hw, valueAt_other (writesOf_ne (.inr hg)), valueAt_append, hlast,
      Option.getD_some] at hpart
    rw [← hpart, hkept]
  · intro hno
    induction t with
    | nil =>
      intro newer older ht k g
      obtain ⟨-, rfl⟩ := List.append_eq_nil_iff.mp ht.symm
      rfl
    | cons e older ih =>
      have hpast := ih hread.2 hedit.2 hno.2
      intro newer older' ht
      cases newer with
      | cons e' newer => exact hpast newer older' (List.cons.inj ht).2
      | nil =>
        obtain rfl : e :: older = older' := ht
        intro k g
        by_cases hw : ∃ v, writes e = some (k, v)
        · obtain ⟨v, hw⟩ := hw
          rw [valueAt_self hw]
          by_cases hg : owned e = some g
          · rw [valueAt_self (v := v) (by rw [writesOf, if_pos hg, hw])]
          · -- the part comes from the read, and its owners left it alone since
            obtain ⟨⟨mid, v₀, hwb⟩, hkept⟩ := hedit.1 k v hw
            rw [valueAt_other (writesOf_ne (.inr hg)), hkept mid v₀ hwb g hg]
            exact part_read_current hread.2 hrw hpast (hno.1 k v mid v₀ hw hwb g hg) hwb
        · have hw' : ∀ v, writes e ≠ some (k, v) := fun v h => hw ⟨v, h⟩
          rw [valueAt_other hw', valueAt_other (writesOf_ne (.inl hw'))]
          exact hpast [] older rfl k g

end Parts

end Interaction
