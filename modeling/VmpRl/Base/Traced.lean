/-! Runs that can stop and record what they do on the way. The record of a run that stops is
what it did before. -/
namespace VmpRl.Tracing

structure Traced (ω ε α : Type) where
  ops : List ω
  result : Except ε α

namespace Traced
variable {ω ε α β : Type}

def lift (result : Except ε α) : Traced ω ε α := ⟨[],result⟩

def bind (x : Traced ω ε α) (f : α → Traced ω ε β) : Traced ω ε β := match x.result with
  | .error stop => ⟨x.ops,.error stop⟩
  | .ok a => ⟨x.ops ++ (f a).ops,(f a).result⟩

instance : Monad (Traced ω ε) where
  pure a := ⟨[],.ok a⟩
  bind := bind

theorem bindOk {x : Traced ω ε α} {a : α} (ok : x.result = .ok a) (f : α → Traced ω ε β) :
    x >>= f = ⟨x.ops ++ (f a).ops,(f a).result⟩ := by
  show bind x f = _
  unfold bind
  rw [ok]

theorem bindStop {x : Traced ω ε α} {stop : ε} (stopped : x.result = .error stop) (f : α → Traced ω ε β) :
    x >>= f = ⟨x.ops,.error stop⟩ := by
  show bind x f = _
  unfold bind
  rw [stopped]

@[simp] theorem pureResult (a : α) : (pure a : Traced ω ε α).result = .ok a := rfl
@[simp] theorem liftResult (result : Except ε α) : (lift result : Traced ω ε α).result = result := rfl

theorem bindResult (x : Traced ω ε α) (f : α → Traced ω ε β) :
    (x >>= f).result = x.result.bind (fun a => (f a).result) := by
  cases ran : x.result with
  | error stop => rw [bindStop ran]; rfl
  | ok a => rw [bindOk ran]; rfl

theorem bindEnds {x : Traced ω ε α} {f : α → Traced ω ε β} {b : β} (ran : (x >>= f).result = .ok b) :
    ∃ a, x.result = .ok a ∧ (f a).result = .ok b ∧ (x >>= f).ops = x.ops ++ (f a).ops := by
  cases first : x.result with
  | error stop =>
    rw [bindStop first] at ran
    cases ran
  | ok a =>
    rw [bindOk first] at ran
    exact ⟨a,rfl,ran,by rw [bindOk first]⟩

theorem bindStops {x : Traced ω ε α} {f : α → Traced ω ε β} {stop : ε} (ran : (x >>= f).result = .error stop) :
    (x.result = .error stop ∧ (x >>= f).ops = x.ops) ∨
      ∃ a, x.result = .ok a ∧ (f a).result = .error stop ∧ (x >>= f).ops = x.ops ++ (f a).ops := by
  cases first : x.result with
  | error other =>
    rw [bindStop first] at ran
    cases ran
    exact Or.inl ⟨rfl,by rw [bindStop first]⟩
  | ok a =>
    rw [bindOk first] at ran
    exact Or.inr ⟨a,rfl,ran,by rw [bindOk first]⟩

def Emits (P : ω → Prop) (x : Traced ω ε α) : Prop := ∀ op ∈ x.ops, P op

theorem emitsNothing (P : ω → Prop) {x : Traced ω ε α} (none : x.ops = []) : Emits P x := by
  intro op member
  rw [none] at member
  cases member

theorem emitsBind {P : ω → Prop} {x : Traced ω ε α} {f : α → Traced ω ε β} (first : Emits P x)
    (later : ∀ a, x.result = .ok a → Emits P (f a)) : Emits P (x >>= f) := by
  intro op member
  cases ran : x.result with
  | error stop =>
    rw [bindStop ran] at member
    exact first op member
  | ok a =>
    rw [bindOk ran] at member
    rcases List.mem_append.mp member with before | behind
    · exact first op before
    · exact later a ran op behind

end Traced
end VmpRl.Tracing
