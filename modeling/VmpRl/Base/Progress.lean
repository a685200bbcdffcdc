import VmpRl.Base.Transition

/-! One party of a transition system among others: whether it gets out within a bounded number of
its own steps, whatever the others do in between. -/
namespace VmpRl.Transition.System
variable {σ ι : Type} (S : System σ ι)

/- Along every run from `s` the party takes at most so many steps, and as long as it is not out it
can take one. -/
def Leaves (own : ι → Bool) (out : σ → Prop) (s : σ) : Prop :=
  ∃ bound, ∀ events t, S.run s events = some t →
    events.countP own ≤ bound ∧ (¬ out t → ∃ e u, own e = true ∧ S.step t e = some u)

theorem ranked {own : ι → Bool} {I : σ → Prop} {rank : σ → Nat}
    (next : ∀ s e t, I s → S.step s e = some t → I t ∧ rank t + (if own e then 1 else 0) ≤ rank s)
    {s t : σ} {events : List ι} (base : I s) (h : S.run s events = some t) :
    I t ∧ rank t + events.countP own ≤ rank s := by
  induction events generalizing s with
  | nil =>
    cases Option.some.inj h
    exact ⟨base,Nat.le_refl _⟩
  | cons e rest ih =>
    rw [runCons] at h
    obtain ⟨u,taken,later⟩ := Option.bind_eq_some_iff.mp h
    obtain ⟨kept,lower⟩ := next s e u base taken
    obtain ⟨last,fewer⟩ := ih kept later
    refine ⟨last,?_⟩
    rw [List.countP_cons]
    omega

theorem leavesByRank {own : ι → Bool} {out : σ → Prop} (I : σ → Prop) (rank : σ → Nat)
    (next : ∀ s e t, I s → S.step s e = some t → I t ∧ rank t + (if own e then 1 else 0) ≤ rank s)
    (free : ∀ s, I s → ¬ out s → ∃ e u, own e = true ∧ S.step s e = some u)
    {s : σ} (base : I s) : S.Leaves own out s := by
  refine ⟨rank s,?_⟩
  intro events t ran
  obtain ⟨kept,counted⟩ := S.ranked next base ran
  exact ⟨by omega,free t kept⟩

theorem staysByLoop {own : ι → Bool} {out K : σ → Prop}
    (loop : ∀ s, K s → ∃ events t, S.run s events = some t ∧ K t ∧ 0 < events.countP own)
    {s : σ} (base : K s) : ¬ S.Leaves own out s := by
  have turns : ∀ n, ∃ events t, S.run s events = some t ∧ K t ∧ n ≤ events.countP own := by
    intro n
    induction n with
    | zero => exact ⟨[],s,rfl,base,Nat.zero_le _⟩
    | succ n ih =>
      obtain ⟨events,t,ran,there,many⟩ := ih
      obtain ⟨turn,u,turned,back,more⟩ := loop t there
      refine ⟨events ++ turn,u,?_,back,?_⟩
      · rw [runAppend, ran]
        exact turned
      · rw [List.countP_append]
        omega
  intro h
  obtain ⟨bound,bounded⟩ := h
  obtain ⟨events,t,ran,_,many⟩ := turns (bound + 1)
  have few := (bounded events t ran).1
  omega

end VmpRl.Transition.System
