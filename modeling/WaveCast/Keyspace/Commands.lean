import Mathlib.Data.Finmap
import Mathlib.Data.Finset.Card

/-!
# A keyspace with expiries

The part of a key-value server that typed keys rest on: strings, hashes and
sets under keys, of which some expire. A command on a key of another kind is an
error and changes nothing; a transaction executes all of its commands whatever
becomes of the others. Expired entries are gone as soon as a command looks.

Where every command keeps to a fixed kind for each key, no command is in error;
and a key that no command lets expire, overwrites or deletes holds exactly the
members that were added and not removed (`transact_agrees`), at any times.
-/

namespace Keyspace

inductive Value where
  | string (s : String)
  | hash (fields : Finmap fun _ : String => String)
  | set (members : Finset String)

inductive Kind where
  | string
  | hash
  | set
  deriving DecidableEq

def Value.kind : Value → Kind
  | string _ => .string
  | hash _ => .hash
  | set _ => .set

/-- Without `expiresAt` the value stays. -/
structure Entry where
  value : Value
  expiresAt : Option Int

abbrev Store (K : Type) := K → Option Entry

inductive CommandError where
  | wrongType
  | invalidExpireTime
  deriving DecidableEq

variable {K : Type} [DecidableEq K]

/-- The commands that write. Times to live count from the time of the command. -/
inductive Command (K : Type) where
  | set (key : K) (value : String) (ttl : Int)
  | hset (key : K) (fields : List (String × String))
  | expire (key : K) (ttl : Int)
  | del (keys : List K)
  | sadd (key : K) (member : String)
  | srem (key : K) (member : String)

def empty : Store K := fun _ => none

/-- What is left of the store at a time. -/
def live (now : Int) (s : Store K) : Store K :=
  fun k => (s k).filter fun e => e.expiresAt.all (now < ·)

def putFields (fields : Finmap fun _ : String => String) (new : List (String × String)) :
    Finmap fun _ : String => String :=
  new.foldl (fun t f => t.insert f.1 f.2) fields

def exec (now : Int) (s : Store K) : Command K → Except CommandError (Store K)
  | .set key value ttl =>
      if ttl ≤ 0 then .error .invalidExpireTime
      else .ok (Function.update s key (some ⟨.string value, some (now + ttl)⟩))
  | .hset key fields =>
      match s key with
      | none => .ok (Function.update s key (some ⟨.hash (putFields ∅ fields), none⟩))
      | some ⟨.hash old, expiresAt⟩ =>
          .ok (Function.update s key (some ⟨.hash (putFields old fields), expiresAt⟩))
      | some _ => .error .wrongType
  | .expire key ttl =>
      match s key with
      | none => .ok s
      | some e =>
          -- what is to live no longer is deleted
          .ok (Function.update s key
            (if ttl ≤ 0 then none else some { e with expiresAt := some (now + ttl) }))
  | .del keys => .ok fun k => if k ∈ keys then none else s k
  | .sadd key member =>
      match s key with
      | none => .ok (Function.update s key (some ⟨.set {member}, none⟩))
      | some ⟨.set members, expiresAt⟩ =>
          .ok (Function.update s key (some ⟨.set (insert member members), expiresAt⟩))
      | some _ => .error .wrongType
  | .srem key member =>
      match s key with
      | none => .ok s
      | some ⟨.set members, expiresAt⟩ =>
          -- a set without members is deleted
          .ok (Function.update s key
            (if members.erase member = ∅ then none
             else some ⟨.set (members.erase member), expiresAt⟩))
      | some _ => .error .wrongType

/-- A transaction at one time, with the first error if there is one. -/
def transact (now : Int) : List (Command K) → Store K → Except CommandError Unit × Store K
  | [], s => (.ok (), s)
  | c :: cs, s =>
      match exec now (live now s) c with
      | .ok s' => transact now cs s'
      | .error e => (.error e, (transact now cs (live now s)).2)

/-- The number of members of a set. -/
def scard (now : Int) (key : K) (s : Store K) : Except CommandError ℕ :=
  match live now s key with
  | none => .ok 0
  | some ⟨.set members, _⟩ => .ok members.card
  | some _ => .error .wrongType

/-! ## Keys of a fixed kind -/

/-- The members of the set under a key; a missing key has none. -/
def members (s : Store K) (key : K) : Finset String :=
  match s key with
  | some ⟨.set members, _⟩ => members
  | _ => ∅

/-- What a command does to the members under a key. -/
def Command.change (k : K) (ids : Finset String) : Command K → Finset String
  | .sadd key member => if k = key then insert member ids else ids
  | .srem key member => if k = key then ids.erase member else ids
  | _ => ids

/-- Kinds for the keys, and the keys whose entries stay. -/
structure Scheme (K : Type) where
  kind : K → Kind
  lasting : K → Prop

/-- The store has the kinds of the scheme, and entries that stay where the scheme has. -/
structure Scheme.Fits (S : Scheme K) (s : Store K) : Prop where
  kinds : ∀ k e, s k = some e → e.value.kind = S.kind k
  lasts : ∀ k e, S.lasting k → s k = some e → e.expiresAt = none

/-- The command has the kinds of the scheme, and overwrites, deletes and lets
expire no key whose entry stays. -/
def Scheme.Allows (S : Scheme K) : Command K → Prop
  | .set key _ ttl => S.kind key = .string ∧ ¬ S.lasting key ∧ 0 < ttl
  | .hset key _ => S.kind key = .hash
  | .expire key _ => ¬ S.lasting key
  | .del keys => ∀ key ∈ keys, ¬ S.lasting key
  | .sadd key _ => S.kind key = .set
  | .srem key _ => S.kind key = .set

variable {S : Scheme K} {s s' : Store K} {c : Command K}

omit [DecidableEq K] in
theorem Scheme.fits_empty (S : Scheme K) : S.Fits (empty : Store K) :=
  ⟨by simp [empty], by simp [empty]⟩

theorem Scheme.Fits.update (hs : S.Fits s) {key : K} {e : Option Entry}
    (hkind : ∀ x ∈ e, x.value.kind = S.kind key)
    (hlast : S.lasting key → ∀ x ∈ e, x.expiresAt = none) :
    S.Fits (Function.update s key e) where
  kinds k x hx := by
    by_cases hk : k = key
    · subst hk
      rw [Function.update_self] at hx
      exact hkind x hx
    · rw [Function.update_of_ne hk] at hx
      exact hs.kinds k x hx
  lasts k x hk hx := by
    by_cases heq : k = key
    · subst heq
      rw [Function.update_self] at hx
      exact hlast hk x hx
    · rw [Function.update_of_ne heq] at hx
      exact hs.lasts k x hk hx

theorem members_update_of_ne {k key : K} (h : k ≠ key) (e : Option Entry) :
    members (Function.update s key e) k = members s k := by
  rw [members, members, Function.update_of_ne h]

omit [DecidableEq K] in
/-- Expiry leaves a store that fits the scheme. -/
theorem Scheme.Fits.live (hs : S.Fits s) (now : Int) : S.Fits (live now s) where
  kinds k e he := hs.kinds k e (Option.filter_eq_some_iff.mp he).1
  lasts k e hk he := hs.lasts k e hk (Option.filter_eq_some_iff.mp he).1

omit [DecidableEq K] in
/-- An entry that stays does not expire. -/
theorem Scheme.Fits.live_lasting (hs : S.Fits s) {k : K} (hk : S.lasting k) (now : Int) :
    Keyspace.live now s k = s k := by
  rw [Keyspace.live]
  cases he : s k with
  | none => rfl
  | some e => simp [hs.lasts k e hk he]

omit [DecidableEq K] in
/-- Under a key for sets there is a set or nothing. -/
theorem Scheme.Fits.set_cases (hs : S.Fits s) {k : K} (hk : S.kind k = .set) :
    (s k = none ∧ members s k = ∅) ∨ ∃ ids x, s k = some ⟨.set ids, x⟩ ∧ members s k = ids := by
  cases he : s k with
  | none => exact .inl ⟨rfl, by simp [members, he]⟩
  | some e =>
    obtain ⟨v, x⟩ := e
    have hkind := hs.kinds k _ he
    rw [hk] at hkind
    cases v with
    | set ids => exact .inr ⟨ids, x, rfl, by simp [members, he]⟩
    | _ => cases hkind

omit [DecidableEq K] in
/-- Under a key for hashes there is a hash or nothing. -/
theorem Scheme.Fits.hash_cases (hs : S.Fits s) {k : K} (hk : S.kind k = .hash) :
    s k = none ∨ ∃ fields x, s k = some ⟨.hash fields, x⟩ := by
  cases he : s k with
  | none => exact .inl rfl
  | some e =>
    obtain ⟨v, x⟩ := e
    have hkind := hs.kinds k _ he
    rw [hk] at hkind
    cases v with
    | hash fields => exact .inr ⟨fields, x, rfl⟩
    | _ => cases hkind

omit [DecidableEq K] in
theorem Scheme.Fits.members_eq_empty (hs : S.Fits s) {k : K} (hk : S.kind k ≠ .set) :
    members s k = ∅ := by
  cases he : s k with
  | none => simp [members, he]
  | some e =>
    obtain ⟨v, x⟩ := e
    have hkind := hs.kinds k _ he
    cases v with
    | set ids => exact absurd hkind.symm hk
    | _ => simp [members, he]

/-- A command that leaves a fitting entry under one key agrees with the scheme,
if it changes the members as it says. -/
theorem update_agrees (hs : S.Fits s) {key : K} {e : Option Entry}
    (hkind : ∀ x ∈ e, x.value.kind = S.kind key)
    (hlast : S.lasting key → ∀ x ∈ e, x.expiresAt = none)
    (hkey : S.lasting key → members (Function.update s key e) key = c.change key (members s key))
    (hother : ∀ k, k ≠ key → c.change k (members s k) = members s k) :
    S.Fits (Function.update s key e) ∧
      ∀ k, S.lasting k → members (Function.update s key e) k = c.change k (members s k) := by
  refine ⟨hs.update hkind hlast, fun k hk => ?_⟩
  by_cases heq : k = key
  · subst heq
    exact hkey hk
  · rw [members_update_of_ne heq, hother k heq]

/-- **One command** of the scheme is not in error, fits the scheme, and changes
the members under the keys whose entries stay as it says. -/
theorem exec_agrees (hs : S.Fits s) (hc : S.Allows c) (now : Int) :
    ∃ s', exec now s c = .ok s' ∧ S.Fits s' ∧
      ∀ k, S.lasting k → members s' k = c.change k (members s k) := by
  cases c with
  | set key value ttl =>
    obtain ⟨hkind, hkey, hpos⟩ := hc
    exact ⟨_, if_neg (not_le.mpr hpos), update_agrees hs (by simp [Value.kind, hkind])
      (fun hk => absurd hk hkey) (fun hk => absurd hk hkey) fun _ _ => rfl⟩
  | hset key fields =>
    have hkind : S.kind key = .hash := hc
    have hput : ∀ new x, (S.lasting key → x = none) →
        S.Fits (Function.update s key (some ⟨.hash new, x⟩)) ∧ ∀ k, S.lasting k →
          members (Function.update s key (some ⟨.hash new, x⟩)) k = members s k := by
      intro new x hx
      refine update_agrees (c := .hset key fields) hs (by simp [Value.kind, hkind])
        (by simpa using hx) (fun _ => ?_) fun _ _ => rfl
      change _ = members s key
      rw [hs.members_eq_empty (by simp [hkind]), members, Function.update_self]
    rcases hs.hash_cases hkind with hnone | ⟨old, x, hold⟩
    · exact ⟨_, by rw [exec, hnone], hput _ _ fun _ => rfl⟩
    · exact ⟨_, by rw [exec, hold], hput _ _ fun hk => hs.lasts key _ hk hold⟩
  | expire key ttl =>
    cases he : s key with
    | none => exact ⟨s, by rw [exec, he], hs, fun _ _ => rfl⟩
    | some e =>
      refine ⟨_, by rw [exec, he], update_agrees hs (fun x hx => ?_) (fun hk => absurd hk hc)
        (fun hk => absurd hk hc) fun _ _ => rfl⟩
      rw [← hs.kinds key e he]
      split at hx <;> cases hx
      rfl
  | del keys =>
    refine ⟨_, rfl, ⟨fun k e he => ?_, fun k e hk he => ?_⟩, fun k hk => ?_⟩
    · split at he
      · cases he
      · exact hs.kinds k e he
    · split at he
      · cases he
      · exact hs.lasts k e hk he
    · have hkey : k ∉ keys := fun hmem => hc k hmem hk
      simp [members, hkey, Command.change]
  | sadd key member =>
    have hkind : S.kind key = .set := hc
    rcases hs.set_cases hkind with ⟨hnone, hids⟩ | ⟨ids, x, hsome, hids⟩
    · refine ⟨_, by rw [exec, hnone], update_agrees hs (by simp [Value.kind, hkind])
        (by simp) (fun _ => ?_) fun k hk => if_neg hk⟩
      rw [Command.change, if_pos rfl, hids, members, Function.update_self]
      rfl
    · refine ⟨_, by rw [exec, hsome], update_agrees hs (by simp [Value.kind, hkind])
        (fun hk => ?_) (fun _ => ?_) fun k hk => if_neg hk⟩
      · simpa using hs.lasts key _ hk hsome
      · rw [Command.change, if_pos rfl, hids, members, Function.update_self]
  | srem key member =>
    have hkind : S.kind key = .set := hc
    rcases hs.set_cases hkind with ⟨hnone, hids⟩ | ⟨ids, x, hsome, hids⟩
    · refine ⟨s, by rw [exec, hnone], hs, fun k hk => ?_⟩
      rw [Command.change]
      split
      · subst k
        rw [hids]
        rfl
      · rfl
    · refine ⟨_, by rw [exec, hsome], update_agrees hs (fun y hy => ?_) (fun hk => ?_)
        (fun _ => ?_) fun k hk => if_neg hk⟩
      · split at hy <;> cases hy
        exact hkind.symm
      · have hx := hs.lasts key _ hk hsome
        intro y hy
        split at hy <;> cases hy
        exact hx
      · rw [Command.change, if_pos rfl, hids, members, Function.update_self]
        split
        · rename_i hy
          split at hy <;> cases hy
          rfl
        · rename_i hother
          by_cases hempty : ids.erase member = ∅
          · exact hempty.symm
          · simp [hempty] at hother

omit [DecidableEq K] in
theorem members_live (hs : S.Fits s) {k : K} (hk : S.lasting k) (now : Int) :
    members (live now s) k = members s k := by
  rw [members, members, hs.live_lasting hk]

/-- **A transaction** of the scheme is not in error, and changes the members under the
keys whose entries stay as its commands say, one after the other. -/
theorem transact_agrees {cs : List (Command K)} (hs : S.Fits s) (hcs : ∀ c ∈ cs, S.Allows c)
    (now : Int) : (transact now cs s).1 = .ok () ∧ S.Fits (transact now cs s).2 ∧
      ∀ k, S.lasting k →
        members (transact now cs s).2 k = cs.foldl (Command.change k) (members s k) := by
  induction cs generalizing s with
  | nil => exact ⟨rfl, hs, fun _ _ => rfl⟩
  | cons c cs ih =>
    obtain ⟨s', hexec, hs', hmembers⟩ := exec_agrees (hs.live now) (hcs c (by simp)) now
    obtain ⟨hok, hfits, hrest⟩ := ih hs' fun c' hc' => hcs c' (by simp [hc'])
    rw [transact, hexec]
    refine ⟨hok, hfits, fun k hk => ?_⟩
    rw [hrest k hk, hmembers k hk, members_live hs hk, List.foldl_cons]

omit [DecidableEq K] in
/-- The number of members under a key for sets whose entry stays. -/
theorem scard_agrees (hs : S.Fits s) {k : K} (hkind : S.kind k = .set) (hk : S.lasting k)
    (now : Int) : scard now k s = .ok (members s k).card := by
  rw [scard, hs.live_lasting hk]
  rcases hs.set_cases hkind with ⟨hnone, hids⟩ | ⟨ids, x, hsome, hids⟩
  · rw [hnone, hids]
    rfl
  · rw [hsome, hids]

end Keyspace
