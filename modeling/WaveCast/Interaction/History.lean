import Mathlib.Data.List.Basic
import Mathlib.Tactic.Common

/-!
# Histories

A history is a list of events, newest first. `Always P` says that every event
satisfies `P` of the events before it. `lastWrite` reads a keyed register back
from a history of writes; `wasStored_induction` is the invariant rule for what
it ever held. Clients that only create keys they drew (`FreshDraws`, `Founded`)
create each key once (`Creates.first`). In a register that `Evolves`, what no
step changes stays as it was created (`Evolves.keepsIdent`, `KeepsIdent.eq`).

The last part is about read-modify-write clients of such a register that have
no compare-and-set. `NoLateWrite` says that no client writes back a value it
read before the register entered a terminal set and after it did;
`terminal_stable_iff` shows that this is exactly when the terminal set is never
left.
-/

namespace Interaction

variable {ε K V : Type}

/-- Every event of the history satisfies `P` of the events before it. -/
def Always (P : List ε → ε → Prop) : List ε → Prop
  | [] => True
  | e :: older => P older e ∧ Always P older

section Always

variable {P Q : List ε → ε → Prop}

@[simp] theorem always_nil : Always P ([] : List ε) := trivial
@[simp] theorem always_cons (e : ε) (older : List ε) :
    Always P (e :: older) ↔ P older e ∧ Always P older := Iff.rfl

instance Always.decidable [∀ older e, Decidable (P older e)] (t : List ε) :
    Decidable (Always P t) :=
  match t with
  | [] => .isTrue trivial
  | e :: older =>
      have : Decidable (Always P older) := decidable older
      inferInstanceAs (Decidable (P older e ∧ Always P older))

theorem Always.of_append {newer older : List ε} (h : Always P (newer ++ older)) :
    Always P older := by
  induction newer with
  | nil => exact h
  | cons e newer ih => exact ih h.2

theorem Always.at {newer older : List ε} {e : ε} (h : Always P (newer ++ e :: older)) :
    P older e := h.of_append.1

theorem always_iff (t : List ε) :
    Always P t ↔ ∀ newer e older, t = newer ++ e :: older → P older e := by
  constructor
  · rintro h newer e older rfl
    exact h.at
  · intro h
    induction t with
    | nil => trivial
    | cons e older ih =>
      exact ⟨h [] e older rfl, ih fun newer e' older' ht => h (e :: newer) e' older' (by simp [ht])⟩

theorem always_append {newer older : List ε} :
    Always P (newer ++ older) ↔
      (∀ newer' e mid, newer = newer' ++ e :: mid → P (mid ++ older) e) ∧ Always P older := by
  constructor
  · intro h
    refine ⟨?_, h.of_append⟩
    rintro newer' e mid rfl
    rw [List.append_assoc] at h
    exact h.at
  · rintro ⟨hnew, hold⟩
    induction newer with
    | nil => exact hold
    | cons e newer ih =>
      exact ⟨hnew [] e newer rfl,
        ih fun newer' e' mid ht => hnew (e :: newer') e' mid (by simp [ht])⟩

theorem Always.mono {t : List ε} (h : Always P t) (hPQ : ∀ older e, P older e → Q older e) :
    Always Q t := by
  induction t with
  | nil => trivial
  | cons e older ih => exact ⟨hPQ _ _ h.1, ih h.2⟩

theorem Always.and {t : List ε} (hP : Always P t) (hQ : Always Q t) :
    Always (fun older e => P older e ∧ Q older e) t := by
  induction t with
  | nil => trivial
  | cons e older ih => exact ⟨⟨hP.1, hQ.1⟩, ih hP.2 hQ.2⟩

theorem always_pairwise {R : ε → ε → Prop} {t : List ε} :
    Always (fun older e => ∀ f ∈ older, R e f) t ↔ t.Pairwise R := by
  induction t with
  | nil => simp
  | cons e older ih => rw [always_cons, List.pairwise_cons, ih]

/-- **Induction over a history.** To show that `Q` holds of every event, it may
be used for all earlier ones. -/
theorem Always.strong {t : List ε} (h : Always P t)
    (step : ∀ older e, Always P older → Always Q older → P older e → Q older e) : Always Q t := by
  induction t with
  | nil => trivial
  | cons e older ih => exact ⟨step _ _ h.2 (ih h.2) h.1, ih h.2⟩

end Always

/-! ## Keyed registers -/

section Register

variable [DecidableEq K] (writes : ε → Option (K × V))

/-- The value under `k` after the history: that of the newest write to `k`. -/
def lastWrite (k : K) : List ε → Option V
  | [] => none
  | e :: older =>
      match writes e with
      | some (k', v) => if k' = k then some v else lastWrite k older
      | none => lastWrite k older

variable {writes}

theorem lastWrite_cons_self {k : K} {v : V} {e : ε} {older : List ε}
    (h : writes e = some (k, v)) : lastWrite writes k (e :: older) = some v := by
  simp [lastWrite, h]

theorem lastWrite_cons_other {k : K} {e : ε} {older : List ε}
    (h : ∀ v, writes e ≠ some (k, v)) :
    lastWrite writes k (e :: older) = lastWrite writes k older := by
  simp only [lastWrite]
  cases hw : writes e with
  | none => rfl
  | some kv =>
    obtain ⟨k', v⟩ := kv
    simp only [ite_eq_right_iff]
    rintro rfl
    exact absurd hw (h v)

/-- A value comes from the newest event or was there before it. -/
theorem lastWrite_cons_eq_some {k : K} {v : V} {e : ε} {older : List ε}
    (h : lastWrite writes k (e :: older) = some v) :
    writes e = some (k, v) ∨
      ((∀ v', writes e ≠ some (k, v')) ∧ lastWrite writes k older = some v) := by
  by_cases he : ∃ v', writes e = some (k, v')
  · obtain ⟨v', hv'⟩ := he
    rw [lastWrite_cons_self hv'] at h
    cases h
    exact .inl hv'
  · have hno : ∀ v', writes e ≠ some (k, v') := fun v' hv' => he ⟨v', hv'⟩
    rw [lastWrite_cons_other hno] at h
    exact .inr ⟨hno, h⟩

theorem lastWrite_append (k : K) (newer older : List ε) :
    lastWrite writes k (newer ++ older) =
      (lastWrite writes k newer).or (lastWrite writes k older) := by
  induction newer with
  | nil => rfl
  | cons e newer ih =>
    by_cases he : ∃ v, writes e = some (k, v)
    · obtain ⟨v, hv⟩ := he
      rw [List.cons_append, lastWrite_cons_self hv, lastWrite_cons_self hv, Option.some_or]
    · have hno : ∀ v, writes e ≠ some (k, v) := fun v hv => he ⟨v, hv⟩
      rw [List.cons_append, lastWrite_cons_other hno, lastWrite_cons_other hno, ih]

/-- A value that is there comes from the last write to its key. -/
theorem exists_last_write {k : K} {v : V} {t : List ε} (h : lastWrite writes k t = some v) :
    ∃ newer e older, t = newer ++ e :: older ∧ writes e = some (k, v) ∧
      ∀ f ∈ newer, ∀ v', writes f ≠ some (k, v') := by
  induction t with
  | nil => cases h
  | cons e older ih =>
    rcases lastWrite_cons_eq_some h with hw | ⟨hno, hold⟩
    · exact ⟨[], e, older, rfl, hw, by simp⟩
    · obtain ⟨newer, e', older', rfl, hw, hlast⟩ := ih hold
      exact ⟨e :: newer, e', older', rfl, hw, List.forall_mem_cons.mpr ⟨hno, hlast⟩⟩

/-- A value that is there was written. -/
theorem exists_write_of_lastWrite {k : K} {v : V} {t : List ε}
    (h : lastWrite writes k t = some v) : ∃ e ∈ t, writes e = some (k, v) := by
  obtain ⟨newer, e, older, rfl, hw, -⟩ := exists_last_write h
  exact ⟨e, by simp, hw⟩

theorem lastWrite_eq_none {k : K} {t : List ε} :
    lastWrite writes k t = none ↔ ∀ e ∈ t, ∀ v, writes e ≠ some (k, v) := by
  induction t with
  | nil => simp [lastWrite]
  | cons e older ih =>
    by_cases he : ∃ v, writes e = some (k, v)
    · obtain ⟨v, hv⟩ := he
      rw [lastWrite_cons_self hv]
      simp only [reduceCtorEq, List.mem_cons, forall_eq_or_imp, false_iff, not_and]
      intro h
      exact absurd hv (h v)
    · have hno : ∀ v, writes e ≠ some (k, v) := fun v hv => he ⟨v, hv⟩
      rw [lastWrite_cons_other hno, ih]
      simp only [List.mem_cons, forall_eq_or_imp]
      exact ⟨fun h => ⟨hno, h⟩, fun h => h.2⟩

theorem lastWrite_append_other {k : K} {newer older : List ε}
    (h : ∀ e ∈ newer, ∀ v, writes e ≠ some (k, v)) :
    lastWrite writes k (newer ++ older) = lastWrite writes k older := by
  rw [lastWrite_append, lastWrite_eq_none.mpr h, Option.none_or]

/-- Events that write nothing change nothing. -/
theorem lastWrite_append_quiet {newer older : List ε} (h : ∀ e ∈ newer, writes e = none) (k : K) :
    lastWrite writes k (newer ++ older) = lastWrite writes k older :=
  lastWrite_append_other fun e he v => by simp [h e he]

/-- What is stored stays stored. -/
theorem lastWrite_append_ne_none {k : K} {newer older : List ε}
    (h : lastWrite writes k older ≠ none) : lastWrite writes k (newer ++ older) ≠ none := by
  rw [lastWrite_append]
  cases lastWrite writes k newer <;> simp [h]

variable (writes) in
/-- `v` was stored under `k` at some point of the history. -/
def WasStored (t : List ε) (k : K) (v : V) : Prop :=
  ∃ newer older, t = newer ++ older ∧ lastWrite writes k older = some v

theorem WasStored.now {t : List ε} {k : K} {v : V} (h : lastWrite writes k t = some v) :
    WasStored writes t k v := ⟨[], t, rfl, h⟩

theorem wasStored_cons {e : ε} {older : List ε} {k : K} {v : V} :
    WasStored writes (e :: older) k v ↔ writes e = some (k, v) ∨ WasStored writes older k v := by
  constructor
  · rintro ⟨newer, older', ht, h⟩
    cases newer with
    | cons e' newer =>
      obtain ⟨-, hold⟩ := List.cons.inj ht
      exact .inr ⟨newer, older', hold, h⟩
    | nil =>
      obtain rfl : e :: older = older' := ht
      by_cases hw : ∃ v', writes e = some (k, v')
      · obtain ⟨v', hv'⟩ := hw
        rw [lastWrite_cons_self hv'] at h
        cases h
        exact .inl hv'
      · rw [lastWrite_cons_other fun v' hv' => hw ⟨v', hv'⟩] at h
        exact .inr (.now h)
  · rintro (hw | ⟨newer, older', rfl, h⟩)
    · exact .now (lastWrite_cons_self hw)
    · exact ⟨e :: newer, older', rfl, h⟩

theorem WasStored.ne_none {t : List ε} {k : K} {v : V} (h : WasStored writes t k v) :
    lastWrite writes k t ≠ none := by
  obtain ⟨newer, older, rfl, h⟩ := h
  exact lastWrite_append_ne_none (by simp [h])

/-- **Induction over stored values.** An invariant of stored values that
survives further events holds of everything ever stored, if every write keeps
it given that it holds of everything stored before. -/
theorem wasStored_induction {I : List ε → K → V → Prop}
    (mono : ∀ e older k v, I older k v → I (e :: older) k v) {t : List ε}
    (step : Always (fun older e => ∀ k v, writes e = some (k, v) →
      (∀ k' v', WasStored writes older k' v' → I older k' v') → I (e :: older) k v) t)
    {k : K} {v : V} (h : WasStored writes t k v) : I t k v := by
  induction t generalizing k v with
  | nil =>
    obtain ⟨newer, older, ht, h⟩ := h
    obtain ⟨-, rfl⟩ := List.append_eq_nil_iff.mp ht.symm
    cases h
  | cons e older ih =>
    have past : ∀ k v, WasStored writes older k v → I older k v := fun k v h => ih step.2 h
    rcases wasStored_cons.mp h with hw | hold
    · exact step.1 k v hw past
    · exact mono _ _ _ _ (past k v hold)

/-- A write is the first to its key, or agrees on `ident` with a value that was
stored there before. -/
def KeepsIdent {ι : Type} (writes : ε → Option (K × V)) (ident : V → ι) : List ε → Prop :=
  Always fun older e => ∀ k v, writes e = some (k, v) →
    lastWrite writes k older = none ∨ ∃ v₀, WasStored writes older k v₀ ∧ ident v = ident v₀

/-- **What every write keeps never changes**: all values ever stored under one
key agree on it. -/
theorem KeepsIdent.eq {ι : Type} {ident : V → ι} {t : List ε}
    (h : KeepsIdent writes ident t) {k : K} {v v' : V} (hv : WasStored writes t k v)
    (hv' : WasStored writes t k v') : ident v = ident v' := by
  induction t generalizing v v' with
  | nil =>
    obtain ⟨newer, older, ht, hl⟩ := hv
    obtain ⟨-, rfl⟩ := List.append_eq_nil_iff.mp ht.symm
    cases hl
  | cons e older ih =>
    have written : ∀ {v v'}, writes e = some (k, v) → WasStored writes older k v' →
        ident v = ident v' := by
      intro v v' hw hold
      rcases h.1 k v hw with hnone | ⟨v₀, h₀, heq⟩
      · exact absurd hnone hold.ne_none
      · exact heq.trans (ih h.2 h₀ hold)
    rcases wasStored_cons.mp hv with hw | hold <;> rcases wasStored_cons.mp hv' with hw' | hold'
    · rw [hw] at hw'
      cases hw'
      rfl
    · exact written hw hold'
    · exact (written hw' hold).symm
    · exact ih h.2 hold hold'

/-! ## Fresh keys -/

section Fresh

variable (writes) (draws : ε → Option K) (client : ε → ℕ)

/-- No key is drawn twice. -/
def FreshDraws : List ε → Prop :=
  Always fun older e => ∀ k, draws e = some k → ∀ e' ∈ older, draws e' ≠ some k

/-- `e` writes under a key its client has drawn and not written to before. -/
def Creates (older : List ε) (e : ε) (k : K) : Prop :=
  (∃ d ∈ older, client d = client e ∧ draws d = some k) ∧
  ∀ f ∈ older, client f = client e → ∀ v, writes f ≠ some (k, v)

/-- Every write creates its key or changes what is stored there. -/
def Founded : List ε → Prop :=
  Always fun older e => ∀ k v, writes e = some (k, v) →
    Creates writes draws client older e k ∨ lastWrite writes k older ≠ none

variable {writes draws client}

omit [DecidableEq K] in
theorem FreshDraws.unique {t : List ε} (h : FreshDraws draws t) {d d' : ε} {k : K} (hd : d ∈ t)
    (hd' : d' ∈ t) (hk : draws d = some k) (hk' : draws d' = some k) : d = d' := by
  induction t with
  | nil => cases hd
  | cons e older ih =>
    rcases List.mem_cons.mp hd with rfl | hold <;> rcases List.mem_cons.mp hd' with rfl | hold'
    · rfl
    · exact absurd hk' (h.1 k hk d' hold')
    · exact absurd hk (h.1 k hk' d hold)
    · exact ih h.2 hold hold'

/-- Every key that holds a value was created. -/
theorem Founded.exists_creates {t : List ε} (h : Founded writes draws client t) {k : K}
    (hk : lastWrite writes k t ≠ none) :
    ∃ newer e older, t = newer ++ e :: older ∧ (∃ v, writes e = some (k, v)) ∧
      Creates writes draws client older e k := by
  induction t with
  | nil => exact absurd rfl hk
  | cons e older ih =>
    by_cases hw : ∃ v, writes e = some (k, v)
    · obtain ⟨v, hv⟩ := hw
      rcases h.1 k v hv with hc | hn
      · exact ⟨[], e, older, rfl, ⟨v, hv⟩, hc⟩
      · obtain ⟨newer, e', older', rfl, hw', hc⟩ := ih h.2 hn
        exact ⟨e :: newer, e', older', rfl, hw', hc⟩
    · rw [lastWrite_cons_other fun v hv => hw ⟨v, hv⟩] at hk
      obtain ⟨newer, e', older', rfl, hw', hc⟩ := ih h.2 hk
      exact ⟨e :: newer, e', older', rfl, hw', hc⟩

/-- **A key is created once**: before its creation nothing is stored there. -/
theorem Creates.first {older : List ε} {e : ε} {k : K} (hfresh : FreshDraws draws older)
    (hf : Founded writes draws client older) (h : Creates writes draws client older e k) :
    lastWrite writes k older = none := by
  by_contra hne
  obtain ⟨newer, e', older', rfl, ⟨v, hv⟩, ⟨d', hd', hcd', hk'⟩, -⟩ := hf.exists_creates hne
  obtain ⟨⟨d, hd, hcd, hk⟩, hnew⟩ := h
  -- both creations go back to the one draw of the key, so to one client
  obtain rfl := hfresh.unique hd (by simp [hd']) hk hk'
  exact hnew e' (by simp) (hcd'.symm.trans hcd) v hv

/-! ## Evolving values -/

variable (writes draws client) in
/-- Every write creates its key with a `new` value, or takes a value that was
stored there one `step` further. The value need not be the latest one. -/
def Evolves (new : List ε → ε → V → Prop) (step : ε → V → V → Prop) : List ε → Prop :=
  Always fun older e => ∀ k v, writes e = some (k, v) →
    (Creates writes draws client older e k ∧ new older e v) ∨
      ∃ v₀, WasStored writes older k v₀ ∧ step e v₀ v

variable {new : List ε → ε → V → Prop} {step : ε → V → V → Prop}

theorem Evolves.founded {t : List ε} (h : Evolves writes draws client new step t) :
    Founded writes draws client t :=
  Always.mono h fun _ _ hs k v hw => (hs k v hw).imp (·.1) fun ⟨_, hv₀, _⟩ => hv₀.ne_none

/-- Every key that holds a value was drawn. -/
theorem Evolves.drawn {t : List ε} (h : Evolves writes draws client new step t) {k : K}
    (hk : lastWrite writes k t ≠ none) : ∃ d ∈ t, draws d = some k := by
  obtain ⟨newer, e, older, rfl, -, ⟨d, hd, -, hdraw⟩, -⟩ := h.founded.exists_creates hk
  exact ⟨d, by simp [hd], hdraw⟩

/-- **Induction over evolving values**, for an invariant that survives further
events. -/
theorem Evolves.invariant {I : List ε → V → Prop} {t : List ε}
    (h : Evolves writes draws client new step t)
    (mono : ∀ e older v, I older v → I (e :: older) v)
    (hnew : ∀ older e v, new older e v → I (e :: older) v)
    (hstep : ∀ older e v₀ v, I older v₀ → step e v₀ v → I (e :: older) v) {k : K} {v : V}
    (hv : WasStored writes t k v) : I t v := by
  refine wasStored_induction (I := fun t _ v => I t v) (fun e older _ v => mono e older v) ?_ hv
  refine Always.mono h fun older e hs k v hw past => ?_
  rcases hs k v hw with ⟨-, hn⟩ | ⟨v₀, h₀, hst⟩
  · exact hnew older e v hn
  · exact hstep older e v₀ v (past k v₀ h₀) hst

/-- A write creates its key where nothing was stored, or takes a step. -/
theorem Evolves.cases {t : List ε} (h : Evolves writes draws client new step t)
    (hfresh : FreshDraws draws t) :
    Always (fun older e => ∀ k v, writes e = some (k, v) →
      (lastWrite writes k older = none ∧ new older e v) ∨
        ∃ v₀, WasStored writes older k v₀ ∧ step e v₀ v) t := by
  refine (Always.and h hfresh).strong ?_
  rintro older e hall - ⟨hs, -⟩ k v hw
  refine (hs k v hw).imp_left fun ⟨hc, hn⟩ => ⟨?_, hn⟩
  have hold : Evolves writes draws client new step older := hall.mono fun _ _ h => h.1
  exact hc.first (hall.mono fun _ _ h => h.2) hold.founded

/-- What no step changes stays as it was created. -/
theorem Evolves.keepsIdent {ι : Type} {ident : V → ι} {t : List ε}
    (h : Evolves writes draws client new step t) (hfresh : FreshDraws draws t)
    (hstep : ∀ e v₀ v, step e v₀ v → ident v = ident v₀) : KeepsIdent writes ident t :=
  (h.cases hfresh).mono fun _ e hs k v hw =>
    (hs k v hw).imp (·.1) fun ⟨v₀, h₀, hst⟩ => ⟨v₀, h₀, hstep e v₀ v hst⟩

end Fresh

/-! ## Lost updates -/

variable (writes) (reads : ε → Option (K × V)) (client : ε → ℕ) (T : V → Prop)

/-- A read returns the value that is there. -/
def Coherent : List ε → Prop :=
  Always fun older e => ∀ k v, reads e = some (k, v) → lastWrite writes k older = some v

/-- `e` writes `k` back from a read of `v₀` by the same client, with `mid` in between. -/
def WritesBack (older mid : List ε) (e : ε) (k : K) (v₀ : V) : Prop :=
  ∃ r rest, older = mid ++ r :: rest ∧ client r = client e ∧ reads r = some (k, v₀)

/-- A write puts a terminal value, or is the first to its key, or is based on
a read by the same client and stays terminal if that read was. -/
def Disciplined : List ε → Prop :=
  Always fun older e => ∀ k v, writes e = some (k, v) → T v ∨ lastWrite writes k older = none ∨
    ∃ mid v₀, WritesBack reads client older mid e k v₀ ∧ (T v₀ → T v)

/-- No write of a non-terminal value is based on a read of a non-terminal
value with a terminal write in between. -/
def NoLateWrite : List ε → Prop :=
  Always fun older e => ∀ k v, writes e = some (k, v) → ¬ T v → ∀ mid v₀,
    WritesBack reads client older mid e k v₀ → ¬ T v₀ →
      ∀ f ∈ mid, ∀ v', writes f = some (k, v') → ¬ T v'

/-- Once a key holds a terminal value every later write keeps it terminal. -/
def TerminalStable : List ε → Prop :=
  Always fun older e => ∀ k v v', writes e = some (k, v) →
    lastWrite writes k older = some v' → T v' → T v

variable {writes reads client T}

theorem Coherent.wasStored {t : List ε} {r : ε} {k : K} {v : V} (h : Coherent writes reads t)
    (hr : r ∈ t) (hk : reads r = some (k, v)) : WasStored writes t k v := by
  obtain ⟨newer, older, rfl⟩ := List.append_of_mem hr
  exact ⟨newer ++ [r], older, List.append_cons newer r older, h.at k v hk⟩

/-- A terminal value that replaced the non-terminal one a client read was
written after that read. -/
theorem terminal_write_between {mid rest : List ε} {r : ε} {k : K} {v₀ v₁ : V}
    (hc : Coherent writes reads (mid ++ r :: rest)) (hr : reads r = some (k, v₀))
    (hrw : ∀ e, (reads e).isSome → writes e = none)
    (hlast : lastWrite writes k (mid ++ r :: rest) = some v₁) (hne : ¬ T v₀) (h₁ : T v₁) :
    ∃ f ∈ mid, writes f = some (k, v₁) := by
  have hr' : ∀ v, writes r ≠ some (k, v) := by
    intro v
    rw [hrw r (by simp [hr])]
    simp
  rw [lastWrite_append, lastWrite_cons_other hr', hc.at k v₀ hr] at hlast
  cases hm : lastWrite writes k mid with
  | none =>
    rw [hm] at hlast
    cases hlast
    exact absurd h₁ hne
  | some v =>
    rw [hm] at hlast
    cases hlast
    exact exists_write_of_lastWrite hm

/-- **Lost updates are the only way out of a terminal set.** -/
theorem terminal_stable_of_noLateWrite {t : List ε} (hc : Coherent writes reads t)
    (hd : Disciplined writes reads client T t)
    (hrw : ∀ e, (reads e).isSome → writes e = none)
    (h : NoLateWrite writes reads client T t) : TerminalStable writes T t := by
  refine ((hc.and hd).and h).strong ?_
  rintro older e hall - ⟨⟨-, hd⟩, hn⟩ k v v' hw hlast hv'
  have hc' : Coherent writes reads older := hall.mono fun _ _ h => h.1.1
  by_contra hv
  rcases hd k v hw with h | h | ⟨mid, v₀, hwb, hkeep⟩
  · exact hv h
  · rw [h] at hlast; cases hlast
  · have h₀ : ¬ T v₀ := fun h => hv (hkeep h)
    obtain ⟨r, rest, rfl, hcl, hr⟩ := hwb
    obtain ⟨f, hf, hwf⟩ := terminal_write_between hc' hr hrw hlast h₀ hv'
    exact hn k v hw hv mid v₀ ⟨r, rest, rfl, hcl, hr⟩ h₀ f hf v' hwf hv'

/-- Under stability a key that once held a terminal value still does. -/
theorem TerminalStable.lastWrite {newer older : List ε} {k : K} {v : V}
    (h : TerminalStable writes T (newer ++ older)) (hk : lastWrite writes k older = some v)
    (hv : T v) : ∃ v', lastWrite writes k (newer ++ older) = some v' ∧ T v' := by
  induction newer with
  | nil => exact ⟨v, hk, hv⟩
  | cons e newer ih =>
    obtain ⟨v₁, hv₁, ht₁⟩ := ih h.2
    by_cases hw : ∃ v₂, writes e = some (k, v₂)
    · obtain ⟨v₂, hv₂⟩ := hw
      exact ⟨v₂, lastWrite_cons_self hv₂, h.1 k v₂ v₁ hv₂ hv₁ ht₁⟩
    · refine ⟨v₁, ?_, ht₁⟩
      rw [List.cons_append, lastWrite_cons_other fun v₂ hv₂ => hw ⟨v₂, hv₂⟩]
      exact hv₁

/-- The converse: a late write leaves the terminal set. -/
theorem noLateWrite_of_terminal_stable {t : List ε} (h : TerminalStable writes T t) :
    NoLateWrite writes reads client T t := by
  rw [NoLateWrite, always_iff]
  rintro newer e older rfl k v hw hv mid v₀ ⟨r, rest, rfl, -, -⟩ - f hf v' hwf hv'
  obtain ⟨m₁, m₂, rfl⟩ := List.append_of_mem hf
  have hs : TerminalStable writes T (m₁ ++ f :: (m₂ ++ r :: rest)) := by
    simpa [TerminalStable] using h.of_append.2
  obtain ⟨v₁, hv₁, ht₁⟩ := TerminalStable.lastWrite hs
    (lastWrite_cons_self hwf) hv'
  exact hv (h.at k v v₁ hw (by simpa using hv₁) ht₁)

theorem terminal_stable_iff {t : List ε} (hc : Coherent writes reads t)
    (hd : Disciplined writes reads client T t)
    (hrw : ∀ e, (reads e).isSome → writes e = none) :
    TerminalStable writes T t ↔ NoLateWrite writes reads client T t :=
  ⟨noLateWrite_of_terminal_stable, terminal_stable_of_noLateWrite hc hd hrw⟩

end Register

end Interaction
