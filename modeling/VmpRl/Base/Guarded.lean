import Mathlib.Logic.Function.Basic
import VmpRl.Base.Transition

/-! Sections of single accesses that any number of parties execute on shared memory behind a semaphore, with every
interleaving of the accesses. A party may be killed at any point. What is seen is one whole section after the other. -/
namespace VmpRl.Guarded
open Transition

variable {π κ σ τ : Type}

/- An access takes the memory and what its party has loaded so far; `fresh` is what a party has at the start. -/
structure Code (κ σ τ : Type) where
  fresh : τ
  accesses : κ → List (σ → τ → σ × τ)

def perform (accesses : List (σ → τ → σ × τ)) (s : σ × τ) : σ × τ := accesses.foldl (fun s access => access s.1 s.2) s

def Code.whole (c : Code κ σ τ) (k : κ) (g : σ) : σ × τ := perform (c.accesses k) (g,c.fresh)

inductive Phase (κ τ : Type) where
  | idle
  | waiting (k : κ)
  | inside (k : κ) (made : Nat) (locals : τ)

def Phase.Inside : Phase κ τ → Prop
  | .inside _ _ _ => True
  | _ => False

structure State (π κ σ τ : Type) where
  shared : σ
  value : Nat
  phase : π → Phase κ τ
  ended : List (π × κ × τ)

inductive Event (π κ : Type) where
  | begin (p : π) (k : κ)
  | lock (p : π)
  | access (p : π)
  | unlock (p : π)
  | kill (p : π)

def initial (g : σ) : State π κ σ τ := ⟨g,1,fun _ => .idle,[]⟩

section Steps
variable [DecidableEq π] (c : Code κ σ τ) (undo : Bool)

/- `undo` says whether the semaphore of a party that is killed is given back. -/
def step (s : State π κ σ τ) : Event π κ → Option (State π κ σ τ)
  | .begin p k => match s.phase p with
    | .idle => some {s with phase := Function.update s.phase p (.waiting k)}
    | _ => none
  | .lock p => match s.phase p with
    | .waiting k =>
      if 0 < s.value then
        some {s with value := s.value - 1, phase := Function.update s.phase p (.inside k 0 c.fresh)}
      else none
    | _ => none
  | .access p => match s.phase p with
    | .inside k made locals => match (c.accesses k)[made]? with
      | some access => some {s with
          shared := (access s.shared locals).1
          phase := Function.update s.phase p (.inside k (made + 1) (access s.shared locals).2)}
      | none => none
    | _ => none
  | .unlock p => match s.phase p with
    | .inside k made locals =>
      if made = (c.accesses k).length then
        some {s with
          value := s.value + 1
          phase := Function.update s.phase p .idle
          ended := s.ended ++ [(p,k,locals)]}
      else none
    | _ => none
  | .kill p => match s.phase p with
    | .inside _ _ _ => some {s with
        value := if undo then s.value + 1 else s.value
        phase := Function.update s.phase p .idle}
    | _ => some {s with phase := Function.update s.phase p .idle}

end Steps

structure Done (π κ τ : Type) where
  party : π
  part : κ
  locals : Option τ

def Done.result (d : Done π κ τ) : Option (π × κ × τ) := d.locals.map (fun l => (d.party,d.part,l))

/- At most one party is inside, and then it has made the first of its accesses to what the others left. -/
inductive Held (c : Code κ σ τ) (s : State π κ σ τ) (now : σ) : Prop
  | free (none : ∀ p, ¬ (s.phase p).Inside) (most : s.value ≤ 1) (same : s.shared = now)
  | held (p : π) (k : κ) (made : Nat) (locals : τ) (here : s.phase p = .inside k made locals)
      (others : ∀ q, q ≠ p → ¬ (s.phase q).Inside) (taken : s.value = 0)
      (far : (s.shared,locals) = perform ((c.accesses k).take made) (now,c.fresh))

section Serializing
variable [DecidableEq π] {c : Code κ σ τ} {undo : Bool} {g now : σ} {s t : State π κ σ τ} {past : List (Done π κ τ)}

theorem Held.own (held : Held c s now) {p : π} {k : κ} {made : Nat} {locals : τ}
    (here : s.phase p = .inside k made locals) :
    s.value = 0 ∧ (s.shared,locals) = perform ((c.accesses k).take made) (now,c.fresh) ∧
      ∀ q, q ≠ p → ¬ (s.phase q).Inside := by
  have inside : (s.phase p).Inside := by
    rw [here]
    trivial
  cases held with
  | free none _ _ => exact absurd inside (none p)
  | held q k' made' locals' there others taken far =>
    by_cases same : p = q
    · subst same
      rw [here] at there
      cases there
      exact ⟨taken,far,others⟩
    · exact absurd inside (others p same)

theorem stillOut {p q : π} (other : q ≠ p) (out : ¬ (s.phase q).Inside) (phase : Phase κ τ) :
    ¬ (Function.update s.phase p phase q).Inside := by
  rw [Function.update_of_ne other]
  exact out

theorem Held.outside (held : Held c s now) {p : π} {phase : Phase κ τ} (before : ¬ (s.phase p).Inside)
    (after : ¬ phase.Inside) : Held c {s with phase := Function.update s.phase p phase} now := by
  have kept (q : π) (out : ¬ (s.phase q).Inside) : ¬ (Function.update s.phase p phase q).Inside := by
    by_cases same : q = p
    · rw [same, Function.update_self]
      exact after
    · exact stillOut same out phase
  cases held with
  | free none most same => exact .free (fun q => kept q (none q)) most same
  | held q k made locals here others taken far =>
    have other : q ≠ p := by
      intro same
      subst same
      exact before (by rw [here]; trivial)
    exact .held q k made locals ((Function.update_of_ne other _ _).trans here)
      (fun r apart => kept r (others r apart)) taken far

end Serializing
end VmpRl.Guarded
