import Mathlib.Logic.Basic
import Mathlib.Data.List.Basic

/-!
# Programs that call their surroundings

A program is a finitely branching tree of calls: it either stops with a
result, stops with an error, or makes one call and goes on with the answer.

`Program.Follows P Q` is a program logic over such trees: whatever the answers
are, every call the program makes satisfies `P` of the exchanges made so far,
and every result satisfies `Q` of all of them. It has a rule for each way of
building a program (`follows_call`, `follows_require`, `follows_ofExcept`,
`follows_bind`, `follows_forEach`) and a rule of consequence (`Follows.mono`).

Histories of exchanges are lists, newest first.
-/

namespace Interaction

/-- The calls a program may make, and the type of the answer to each. -/
structure Signature where
  Call : Type
  Answer : Call → Type

/-- One call together with the answer it got. -/
structure Exchange (S : Signature) where
  call : S.Call
  answer : S.Answer call

inductive Program (S : Signature) (ε α : Type) where
  | ret (a : α)
  | fail (e : ε)
  | call (c : S.Call) (next : S.Answer c → Program S ε α)

namespace Program

variable {S : Signature} {ε α β γ : Type}

def bind : Program S ε α → (α → Program S ε β) → Program S ε β
  | .ret a, f => f a
  | .fail e, _ => .fail e
  | .call c next, f => .call c fun a => (next a).bind f

instance : Monad (Program S ε) where
  pure := .ret
  bind := bind

/-- Make one call and return the raw answer. -/
def perform (c : S.Call) : Program S ε (S.Answer c) := .call c .ret

/-- Go on with `a`, or stop with the error. -/
def ofExcept : Except ε α → Program S ε α
  | .ok a => .ret a
  | .error e => .fail e

/-- Stop with `e` unless `b` holds. -/
def require (b : Bool) (e : ε) : Program S ε Unit := if b then .ret () else .fail e

/-- Run `f` on every element in order; the first error stops the loop. -/
def forEach (xs : List α) (f : α → Program S ε Unit) : Program S ε Unit :=
  match xs with
  | [] => .ret ()
  | x :: xs => (f x).bind fun _ => forEach xs f

@[simp] theorem pure_eq (a : α) : (pure a : Program S ε α) = .ret a := rfl
@[simp] theorem bind_eq (p : Program S ε α) (f : α → Program S ε β) : p >>= f = p.bind f := rfl
@[simp] theorem map_eq (f : α → β) (p : Program S ε α) :
    f <$> p = p.bind fun a => .ret (f a) := rfl
@[simp] theorem ret_bind (a : α) (f : α → Program S ε β) : (ret a).bind f = f a := rfl
@[simp] theorem fail_bind (e : ε) (f : α → Program S ε β) :
    (fail e : Program S ε α).bind f = .fail e := rfl
@[simp] theorem call_bind (c : S.Call) (next : S.Answer c → Program S ε α)
    (f : α → Program S ε β) : (call c next).bind f = .call c fun a => (next a).bind f := rfl
@[simp] theorem perform_bind (c : S.Call) (f : S.Answer c → Program S ε β) :
    (perform c : Program S ε _).bind f = .call c f := rfl
@[simp] theorem ofExcept_ok (a : α) : (ofExcept (.ok a) : Program S ε α) = .ret a := rfl
@[simp] theorem ofExcept_error (e : ε) : (ofExcept (.error e) : Program S ε α) = .fail e := rfl

theorem bind_assoc (p : Program S ε α) (f : α → Program S ε β) (g : β → Program S ε γ) :
    (p.bind f).bind g = p.bind fun a => (f a).bind g := by
  induction p with
  | ret a => rfl
  | fail e => rfl
  | call c next ih => simp only [call_bind, ih]

theorem bind_ret (p : Program S ε α) : p.bind .ret = p := by
  induction p with
  | ret a => rfl
  | fail e => rfl
  | call c next ih => simp only [call_bind, ih]

/-- The result of a program that runs alone, each call answered by `exec` with
the next choice of the list. -/
def eval {E σ : Type} (exec : E → (c : S.Call) → σ → Option (S.Answer c × σ)) :
    List E → Program S ε α → σ → Option (Except ε α × σ)
  | _, .ret a, s => some (.ok a, s)
  | _, .fail e, s => some (.error e, s)
  | [], .call _ _, _ => none
  | env :: envs, .call c next, s =>
      (exec env c s).bind fun r => eval exec envs (next r.1) r.2

/-! ## What a program asks, whatever it is answered -/

/-- Along every path of the program that starts with history `h`, each call
satisfies `P` of the history before it and each result satisfies `Q` of the
whole history. -/
def Follows (P : List (Exchange S) → S.Call → Prop)
    (Q : List (Exchange S) → Except ε α → Prop) :
    List (Exchange S) → Program S ε α → Prop
  | h, .ret a => Q h (.ok a)
  | h, .fail e => Q h (.error e)
  | h, .call c next => P h c ∧ ∀ a, Follows P Q (⟨c, a⟩ :: h) (next a)

section Follows

variable {P P' : List (Exchange S) → S.Call → Prop}
  {Q Q' : List (Exchange S) → Except ε α → Prop}

@[simp] theorem follows_ret (h : List (Exchange S)) (a : α) :
    Follows P Q h (.ret a) ↔ Q h (.ok a) := Iff.rfl
@[simp] theorem follows_fail (h : List (Exchange S)) (e : ε) :
    Follows P Q h (.fail e) ↔ Q h (.error e) := Iff.rfl
@[simp] theorem follows_call (h : List (Exchange S)) (c : S.Call)
    (next : S.Answer c → Program S ε α) :
    Follows P Q h (.call c next) ↔ P h c ∧ ∀ a, Follows P Q (⟨c, a⟩ :: h) (next a) := Iff.rfl

theorem follows_require (h : List (Exchange S)) (b : Bool) (e : ε) (f : Unit → Program S ε α) :
    Follows P Q h ((require b e).bind f) ↔
      (b = true → Follows P Q h (f ())) ∧ (b = false → Q h (.error e)) := by
  cases b <;> simp [require]

theorem follows_ofExcept (h : List (Exchange S)) (r : Except ε α) (f : α → Program S ε β)
    {Q : List (Exchange S) → Except ε β → Prop} :
    Follows P Q h ((ofExcept r).bind f) ↔
      (∀ a, r = .ok a → Follows P Q h (f a)) ∧ ∀ e, r = .error e → Q h (.error e) := by
  cases r <;> simp

theorem Follows.mono {h : List (Exchange S)} {p : Program S ε α} (hp : Follows P Q h p)
    (hP : ∀ h c, P h c → P' h c) (hQ : ∀ h r, Q h r → Q' h r) : Follows P' Q' h p := by
  induction p generalizing h with
  | ret a => exact hQ _ _ hp
  | fail e => exact hQ _ _ hp
  | call c next ih => exact ⟨hP _ _ hp.1, fun a => ih a (hp.2 a)⟩

theorem follows_of_forall (hP : ∀ h c, P h c) (hQ : ∀ h r, Q h r) (h : List (Exchange S))
    (p : Program S ε α) : Follows P Q h p := by
  induction p generalizing h with
  | ret a => exact hQ _ _
  | fail e => exact hQ _ _
  | call c next ih => exact ⟨hP _ _, fun a => ih a _⟩

theorem Follows.and {h : List (Exchange S)} {p : Program S ε α} (hp : Follows P Q h p)
    (hp' : Follows P' Q' h p) :
    Follows (fun h c => P h c ∧ P' h c) (fun h r => Q h r ∧ Q' h r) h p := by
  induction p generalizing h with
  | ret a => exact ⟨hp, hp'⟩
  | fail e => exact ⟨hp, hp'⟩
  | call c next ih => exact ⟨⟨hp.1, hp'.1⟩, fun a => ih a (hp.2 a) (hp'.2 a)⟩

/-- The result condition under which `p.bind f` ends in `Q`. -/
def bindPost (P : List (Exchange S) → S.Call → Prop)
    (Q : List (Exchange S) → Except ε β → Prop) (f : α → Program S ε β)
    (h : List (Exchange S)) : Except ε α → Prop
  | .ok a => Follows P Q h (f a)
  | .error e => Q h (.error e)

theorem follows_bind {Q : List (Exchange S) → Except ε β → Prop} (h : List (Exchange S))
    (p : Program S ε α) (f : α → Program S ε β) :
    Follows P Q h (p.bind f) ↔ Follows P (bindPost P Q f) h p := by
  induction p generalizing h with
  | ret a => rfl
  | fail e => rfl
  | call c next ih => simp only [call_bind, follows_call, ih]

/-- The history of a run begins with what was exchanged before. -/
theorem Follows.extends {h₀ h : List (Exchange S)} {p : Program S ε α} (hp : Follows P Q h p)
    (hh : h₀ ⊆ h) : Follows P (fun h r => h₀ ⊆ h ∧ Q h r) h p := by
  induction p generalizing h with
  | ret a => exact ⟨hh, hp⟩
  | fail e => exact ⟨hh, hp⟩
  | call c next ih => exact ⟨hp.1, fun a => ih a (hp.2 a) (List.subset_cons_of_subset _ hh)⟩

/-- Every exchange of a run was there before or is one the program may make. -/
theorem Follows.exchanges {P : S.Call → Prop} {h₀ h : List (Exchange S)} {p : Program S ε α}
    (hp : Follows (fun _ c => P c) Q h p)
    (hh : ∀ x ∈ h, x ∈ h₀ ∨ P x.call) :
    Follows (fun _ c => P c) (fun h r => (∀ x ∈ h, x ∈ h₀ ∨ P x.call) ∧ Q h r) h p := by
  induction p generalizing h with
  | ret a => exact ⟨hh, hp⟩
  | fail e => exact ⟨hh, hp⟩
  | call c next ih =>
    refine ⟨hp.1, fun a => ih a (hp.2 a) fun x hx => ?_⟩
    rcases List.mem_cons.mp hx with rfl | hx
    · exact .inr hp.1
    · exact hh x hx

/-- A first part whose result does not matter, as long as errors are allowed. -/
theorem follows_bind_any {Q : Except ε β → Prop} (h : List (Exchange S)) (p : Program S ε α)
    (f : α → Program S ε β) (herr : ∀ e, Q (.error e))
    (hf : ∀ h a, Follows (fun _ _ => True) (fun _ r => Q r) h (f a)) :
    Follows (fun _ _ => True) (fun _ r => Q r) h (p.bind f) := by
  rw [follows_bind]
  refine follows_of_forall (fun _ _ => trivial) ?_ h p
  rintro h (e | a)
  · exact herr e
  · exact hf h a

/-- Parts whose calls all satisfy `P` make a program whose calls do. -/
theorem follows_bind_calls {P : S.Call → Prop} {h : List (Exchange S)} {p : Program S ε α}
    {f : α → Program S ε β} (hp : Follows (fun _ c => P c) (fun _ _ => True) h p)
    (hf : ∀ a h, Follows (fun _ c => P c) (fun _ _ => True) h (f a)) :
    Follows (fun _ c => P c) (fun _ _ => True) h (p.bind f) := by
  rw [follows_bind]
  refine hp.mono (fun _ _ hc => hc) ?_
  rintro h (e | a) -
  · trivial
  · exact hf a h

/-- **Loop rule.** An invariant of the history that every round keeps holds
when the loop ends; a round that fails ends in `Q`. The invariant may speak of
the elements that are done. -/
theorem follows_forEach_done {f : γ → Program S ε Unit}
    {Q : List (Exchange S) → Except ε Unit → Prop} (I : List γ → List (Exchange S) → Prop)
    {xs : List γ} (done : List γ) (h : List (Exchange S)) (h₀ : I done h)
    (round : ∀ done x, x ∈ xs → ∀ h, I done h → Follows P (fun h r => match r with
      | .ok _ => I (done ++ [x]) h
      | .error e => Q h (.error e)) h (f x))
    (finish : ∀ h, I (done ++ xs) h → Q h (.ok ())) : Follows P Q h (forEach xs f) := by
  induction xs generalizing done h with
  | nil => exact finish h (by rwa [List.append_nil])
  | cons x xs ih =>
    rw [forEach, follows_bind]
    refine (round done x (by simp) h h₀).mono (fun _ _ hc => hc) ?_
    intro h' r hr
    cases r with
    | ok _ =>
      exact ih (done ++ [x]) h' hr (fun done y hy => round done y (by simp [hy]))
        (by simpa using finish)
    | error e => exact hr

theorem follows_forEach {xs : List γ} {f : γ → Program S ε Unit}
    {Q : List (Exchange S) → Except ε Unit → Prop} (I : List (Exchange S) → Prop)
    (h : List (Exchange S)) (h₀ : I h)
    (round : ∀ x ∈ xs, ∀ h, I h →
      Follows P (fun h r => match r with | .ok _ => I h | .error e => Q h (.error e)) h (f x))
    (done : ∀ h, I h → Q h (.ok ())) : Follows P Q h (forEach xs f) :=
  follows_forEach_done (fun _ => I) [] h h₀ (fun _ => round) done

end Follows

end Program

end Interaction
