/-! Transition systems given by a partial step function on labelled events, their
runs from a state, and the rules by which a step fact becomes a fact of every run. -/
namespace VmpRl.Transition

theorem guardTaken {σ : Type} {p : Prop} [Decidable p] {s t : σ}
    (h : (if p then some s else none) = some t) : p ∧ t = s := by
  obtain ⟨here,same⟩ := Option.ite_none_right_eq_some.mp h
  exact ⟨here,(Option.some.inj same).symm⟩

structure System (σ ι : Type) where
  start : σ → Prop
  step : σ → ι → Option σ

namespace System
variable {σ ι : Type} (S : System σ ι)

def run (s : σ) (events : List ι) : Option σ := events.foldlM S.step s

def Reachable (t : σ) : Prop := ∃ s events, S.start s ∧ S.run s events = some t

@[simp] theorem runNil (s : σ) : S.run s [] = some s := rfl

theorem runCons (s : σ) (e : ι) (rest : List ι) :
    S.run s (e :: rest) = (S.step s e).bind (fun t => S.run t rest) := rfl

theorem runTaken {s t : σ} {e : ι} (h : S.step s e = some t) (rest : List ι) :
    S.run s (e :: rest) = S.run t rest := by
  rw [runCons, h]
  rfl

theorem runAppend (s : σ) (left right : List ι) :
    S.run s (left ++ right) = (S.run s left).bind (fun t => S.run t right) := by
  simp [run, List.foldlM_append]

theorem runCut {s t : σ} {left right : List ι} (h : S.run s (left ++ right) = some t) :
    ∃ u, S.run s left = some u ∧ S.run u right = some t := by
  rw [runAppend] at h
  exact Option.bind_eq_some_iff.mp h

variable {S} in
theorem Reachable.next {s t : σ} {e : ι} (reached : S.Reachable s) (h : S.step s e = some t) :
    S.Reachable t := by
  obtain ⟨origin,events,started,ran⟩ := reached
  exact ⟨origin,events ++ [e],started,by rw [runAppend, ran]; simp [runCons, h]⟩

def AllStates (P : σ → Prop) (s : σ) (events : List ι) : Prop :=
  ∀ before after t, events = before ++ after → S.run s before = some t → P t

def AllSteps (good : σ → ι → Prop) (s : σ) (events : List ι) : Prop :=
  ∀ before e after t, events = before ++ e :: after → S.run s before = some t → good t e

theorem allStepsNil (good : σ → ι → Prop) (s : σ) : S.AllSteps good s [] := by
  intro before e after t same
  simp at same

theorem allStatesCons {P : σ → Prop} {s t : σ} {e : ι} {rest : List ι} (h : S.step s e = some t) :
    S.AllStates P s (e :: rest) ↔ P s ∧ S.AllStates P t rest := by
  constructor
  · intro all
    refine ⟨all [] _ s rfl rfl,?_⟩
    intro before after u same there
    apply all (e :: before) after u (by rw [same]; rfl)
    rw [runCons, h]
    exact there
  · intro h before after u same there
    obtain ⟨first,all⟩ := h
    cases before with
    | nil => cases Option.some.inj there; exact first
    | cons head tail =>
      obtain ⟨rfl,rfl⟩ := List.cons.inj same
      rw [runCons, h] at there
      exact all tail after u rfl there

theorem allStepsCons {good : σ → ι → Prop} {s t : σ} {e : ι} {rest : List ι}
    (h : S.step s e = some t) :
    S.AllSteps good s (e :: rest) ↔ good s e ∧ S.AllSteps good t rest := by
  constructor
  · intro all
    refine ⟨all [] e rest s rfl rfl,?_⟩
    intro before d after u same there
    apply all (e :: before) d after u (by rw [same]; rfl)
    rw [runCons, h]
    exact there
  · intro h before d after u same there
    obtain ⟨first,all⟩ := h
    cases before with
    | nil =>
      obtain ⟨rfl,rfl⟩ := List.cons.inj same
      cases Option.some.inj there
      exact first
    | cons head tail =>
      obtain ⟨rfl,rfl⟩ := List.cons.inj same
      rw [runCons, h] at there
      exact all tail d after u rfl there

theorem allStepsAppend {good : σ → ι → Prop} {s u : σ} {left right : List ι}
    (reached : S.run s left = some u) (first : S.AllSteps good s left)
    (later : S.AllSteps good u right) : S.AllSteps good s (left ++ right) := by
  induction left generalizing s with
  | nil =>
    cases Option.some.inj reached
    exact later
  | cons e rest ih =>
    rw [runCons] at reached
    obtain ⟨t,taken,there⟩ := Option.bind_eq_some_iff.mp reached
    obtain ⟨now,others⟩ := (S.allStepsCons taken).mp first
    exact (S.allStepsCons taken).mpr ⟨now,ih there others⟩

theorem historyInvariant {J : List ι → σ → Prop} {good : σ → ι → Prop}
    (next : ∀ past s e t, J past s → S.step s e = some t → good s e → J (past ++ [e]) t)
    {s t : σ} {events : List ι} (past : List ι) (base : J past s)
    (met : S.AllSteps good s events) (h : S.run s events = some t) : J (past ++ events) t := by
  induction events generalizing s past with
  | nil =>
    cases Option.some.inj h
    simpa using base
  | cons e rest ih =>
    rw [runCons] at h
    obtain ⟨u,taken,later⟩ := Option.bind_eq_some_iff.mp h
    obtain ⟨first,others⟩ := (S.allStepsCons taken).mp met
    have kept := ih (past ++ [e]) (next past s e u base taken first) others later
    simpa using kept

theorem exactHistory {J : List ι → σ → Prop} {P : σ → Prop} {good : List ι → ι → Prop}
    (next : ∀ past s e t, J past s → S.step s e = some t → J (past ++ [e]) t)
    (exact : ∀ past s e t, J past s → S.step s e = some t → (P t ↔ P s ∧ good past e))
    {s t : σ} {events : List ι} (past : List ι) (base : J past s) (h : S.run s events = some t) :
    P t ↔ P s ∧ ∀ before e after, events = before ++ e :: after → good (past ++ before) e := by
  induction events generalizing s past with
  | nil =>
    cases Option.some.inj h
    simp
  | cons e rest ih =>
    rw [runCons] at h
    obtain ⟨u,taken,later⟩ := Option.bind_eq_some_iff.mp h
    rw [ih (past ++ [e]) (next past s e u base taken) later, exact past s e u base taken]
    constructor
    · intro h
      obtain ⟨⟨kept,now⟩,others⟩ := h
      refine ⟨kept,?_⟩
      intro before d after same
      cases before with
      | nil =>
        obtain ⟨rfl,_⟩ := List.cons.inj same
        simpa using now
      | cons head tail =>
        obtain ⟨rfl,remaining⟩ := List.cons.inj same
        simpa using others tail d after remaining
    · intro h
      obtain ⟨kept,all⟩ := h
      refine ⟨⟨kept,by simpa using all [] e rest rfl⟩,?_⟩
      intro before d after same
      simpa using all (e :: before) d after (by rw [same]; rfl)

theorem stateInvariant {J : σ → Prop} (next : ∀ s e t, J s → S.step s e = some t → J t)
    {s t : σ} {events : List ι} (base : J s) (h : S.run s events = some t) : J t := by
  have always : S.AllSteps (fun _ _ => True) s events := fun _ _ _ _ _ _ => trivial
  exact S.historyInvariant (J := fun _ => J) (fun _ s e t kept taken _ => next s e t kept taken)
    [] base always h

theorem reachableInvariant {J : σ → Prop} (base : ∀ s, S.start s → J s)
    (next : ∀ s e t, J s → S.step s e = some t → J t) {t : σ} (h : S.Reachable t) : J t := by
  obtain ⟨s,events,started,ran⟩ := h
  exact S.stateInvariant next (base s started) ran

theorem exactCondition {I P : σ → Prop} {good : σ → ι → Prop}
    (sound : ∀ s, I s → P s)
    (keep : ∀ s e t, I s → S.step s e = some t → good s e → I t)
    (sharp : ∀ s e t, I s → S.step s e = some t → P t → good s e)
    {s t : σ} {events : List ι} (base : I s) (h : S.run s events = some t) :
    S.AllStates P s events ↔ S.AllSteps good s events := by
  induction events generalizing s with
  | nil =>
    constructor
    · intro _
      exact S.allStepsNil good s
    · intro _ before after u same there
      obtain ⟨rfl,_⟩ := List.append_eq_nil_iff.mp same.symm
      cases Option.some.inj there
      exact sound s base
  | cons e rest ih =>
    rw [runCons] at h
    obtain ⟨u,taken,later⟩ := Option.bind_eq_some_iff.mp h
    rw [S.allStatesCons taken, S.allStepsCons taken]
    constructor
    · intro h
      obtain ⟨_,all⟩ := h
      have now := sharp s e u base taken (all [] rest u rfl rfl)
      exact ⟨now,(ih (keep s e u base taken now) later).mp all⟩
    · intro h
      obtain ⟨now,all⟩ := h
      exact ⟨sound s base,(ih (keep s e u base taken now) later).mpr all⟩

end System
end VmpRl.Transition
