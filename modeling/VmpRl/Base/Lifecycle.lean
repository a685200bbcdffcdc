/-! Objects that are acquired, used and released, and the traces of operations in which every
operation finds its object in the state it needs. -/
namespace VmpRl.Lifecycle

inductive Op (ω : Type) where
  | acquire (o : ω)
  | use (o : ω)
  | release (o : ω)
  deriving DecidableEq, Repr

inductive Life where
  | absent
  | live
  | gone
  deriving DecidableEq, Repr

variable {ω : Type} [DecidableEq ω]

def Life.after (o : ω) (life : Life) : Op ω → Life
  | .acquire p => if p = o then .live else life
  | .use _ => life
  | .release p => if p = o then .gone else life

def lifeOf (o : ω) (trace : List (Op ω)) : Life := trace.foldl (Life.after o) .absent

def Fits (lives : ω → Life) : Op ω → Prop
  | .acquire o => lives o = .absent
  | .use o => lives o = .live
  | .release o => lives o = .live

def FitAll (lives : ω → Life) : List (Op ω) → Prop
  | [] => True
  | op :: rest => Fits lives op ∧ FitAll (fun o => (lives o).after o op) rest

def Disciplined (trace : List (Op ω)) : Prop := FitAll (fun _ => .absent) trace

instance (lives : ω → Life) : (op : Op ω) → Decidable (Fits lives op)
  | .acquire o => inferInstanceAs (Decidable (lives o = .absent))
  | .use o => inferInstanceAs (Decidable (lives o = .live))
  | .release o => inferInstanceAs (Decidable (lives o = .live))

instance fitAllDecidable : (lives : ω → Life) → (trace : List (Op ω)) → Decidable (FitAll lives trace)
  | _, [] => .isTrue trivial
  | lives, op :: rest =>
    have : Decidable (FitAll (fun o => (lives o).after o op) rest) := fitAllDecidable _ rest
    inferInstanceAs (Decidable (Fits lives op ∧ _))

instance (trace : List (Op ω)) : Decidable (Disciplined trace) :=
  inferInstanceAs (Decidable (FitAll _ trace))

theorem lifeOfAppend (o : ω) (trace ops : List (Op ω)) :
    lifeOf o (trace ++ ops) = ops.foldl (Life.after o) (lifeOf o trace) := by
  simp [lifeOf]

theorem fitAllAppend (lives : ω → Life) (left right : List (Op ω)) :
    FitAll lives (left ++ right) ↔
      FitAll lives left ∧ FitAll (fun o => left.foldl (Life.after o) (lives o)) right := by
  induction left generalizing lives with
  | nil => simp [FitAll]
  | cons op rest ih => simp only [List.cons_append, FitAll, ih, List.foldl_cons, and_assoc]

theorem disciplinedAppend (trace ops : List (Op ω)) :
    Disciplined (trace ++ ops) ↔ Disciplined trace ∧ FitAll (fun o => lifeOf o trace) ops :=
  fitAllAppend _ trace ops

theorem disciplinedPrefix {trace ops : List (Op ω)} (h : Disciplined (trace ++ ops)) :
    Disciplined trace := ((disciplinedAppend trace ops).mp h).1

theorem usesFit {α : Type} (lives : ω → Life) {o : ω} (live : lives o = .live) (l : List α) :
    FitAll lives (l.map (fun _ => .use o)) := by
  induction l with
  | nil => trivial
  | cons _ rest ih => exact ⟨live,ih⟩

theorem usesKept {o : ω} {trace ops : List (Op ω)} (uses : ∀ op ∈ ops, ∃ p, op = .use p) :
    lifeOf o (trace ++ ops) = lifeOf o trace := by
  rw [lifeOfAppend]
  induction ops with
  | nil => rfl
  | cons op rest ih =>
    obtain ⟨p,rfl⟩ := uses op List.mem_cons_self
    exact ih (fun op member => uses op (List.mem_cons_of_mem _ member))

def Op.within {κ : Type} (owner : κ) : Op ω → Op (κ × ω)
  | .acquire o => .acquire (owner,o)
  | .use o => .use (owner,o)
  | .release o => .release (owner,o)

section Owners
variable {κ : Type} [DecidableEq κ]

theorem afterWithin (owner : κ) (o : ω) (life : Life) (op : Op ω) :
    Life.after (owner,o) life (op.within owner) = Life.after o life op := by
  cases op with
  | acquire p => simp [Op.within, Life.after]
  | use p => rfl
  | release p => simp [Op.within, Life.after]

theorem afterOutside {owner other : κ} (apart : owner ≠ other) (o : ω) (life : Life) (op : Op ω) :
    Life.after (other,o) life (op.within owner) = life := by
  cases op with
  | acquire p => simp [Op.within, Life.after, apart]
  | use p => rfl
  | release p => simp [Op.within, Life.after, apart]

theorem lifeWithin (owner : κ) (o : ω) (life : Life) (ops : List (Op ω)) :
    (ops.map (Op.within owner)).foldl (Life.after (owner,o)) life = ops.foldl (Life.after o) life := by
  induction ops generalizing life with
  | nil => rfl
  | cons op rest ih =>
    rw [List.map_cons, List.foldl_cons, afterWithin]
    exact ih _

theorem lifeOutside {owner other : κ} (apart : owner ≠ other) (o : ω) (life : Life) (ops : List (Op ω)) :
    (ops.map (Op.within owner)).foldl (Life.after (other,o)) life = life := by
  induction ops generalizing life with
  | nil => rfl
  | cons op rest ih =>
    rw [List.map_cons, List.foldl_cons, afterOutside apart]
    exact ih life

omit [DecidableEq ω] [DecidableEq κ] in
theorem fitsWithin (owner : κ) (lives : κ × ω → Life) (op : Op ω) :
    Fits lives (op.within owner) ↔ Fits (fun o => lives (owner,o)) op := by
  cases op with
  | acquire o => exact Iff.rfl
  | use o => exact Iff.rfl
  | release o => exact Iff.rfl

theorem fitAllWithin (owner : κ) (lives : κ × ω → Life) (ops : List (Op ω)) :
    FitAll lives (ops.map (Op.within owner)) ↔ FitAll (fun o => lives (owner,o)) ops := by
  induction ops generalizing lives with
  | nil => exact Iff.rfl
  | cons op rest ih =>
    refine and_congr (fitsWithin owner lives op) ?_
    rw [ih]
    simp only [afterWithin]

end Owners

/- What is done behind a trace leaves the live objects as they were, and finds each object as it needs it. -/
structure NoneSurvives (trace ops : List (Op ω)) : Prop where
  fit : FitAll (fun o => lifeOf o trace) ops
  same : ∀ o, lifeOf o (trace ++ ops) = .live ↔ lifeOf o trace = .live

theorem noneSurvivesWithin {κ : Type} [DecidableEq κ] {owner : κ} {trace : List (Op (κ × ω))}
    (fresh : ∀ o, lifeOf (owner,o) trace = .absent) (ops : List (Op ω)) :
    NoneSurvives trace (ops.map (Op.within owner)) ↔ Disciplined ops ∧ ∀ o, lifeOf o ops ≠ .live := by
  have own (o : ω) : lifeOf (owner,o) (trace ++ ops.map (Op.within owner)) = lifeOf o ops := by
    rw [lifeOfAppend, lifeWithin, fresh]
    rfl
  have fit : FitAll (fun o => lifeOf o trace) (ops.map (Op.within owner)) ↔ Disciplined ops := by
    rw [fitAllWithin]
    simp only [fresh]
    exact Iff.rfl
  constructor
  · intro h
    refine ⟨fit.mp h.fit,?_⟩
    intro o live
    have still := (h.same (owner,o)).mp ((own o).trans live)
    rw [fresh] at still
    cases still
  · intro h
    refine ⟨fit.mpr h.1,?_⟩
    intro o
    by_cases mine : owner = o.1
    · obtain ⟨other,object⟩ := o
      cases mine
      rw [own, fresh]
      exact ⟨fun live => absurd live (h.2 object),(fun none => by cases none)⟩
    · obtain ⟨other,object⟩ := o
      rw [lifeOfAppend, lifeOutside mine]

def inTurn (first : Nat) : List (List (Op ω)) → List (Op (Nat × ω))
  | [] => []
  | ops :: rest => ops.map (Op.within first) ++ inTurn (first + 1) rest

theorem lifeBeforeTurn {n first : Nat} (earlier : n < first) (o : ω) (life : Life) (all : List (List (Op ω))) :
    (inTurn first all).foldl (Life.after (n,o)) life = life := by
  induction all generalizing first life with
  | nil => rfl
  | cons ops rest ih =>
    rw [inTurn, List.foldl_append, lifeOutside (by omega)]
    exact ih (Nat.lt_succ_of_lt earlier) life

theorem lifeInTurn (first k : Nat) (o : ω) (all : List (List (Op ω))) :
    lifeOf (first + k,o) (inTurn first all) = lifeOf o (all.getD k []) := by
  induction all generalizing first k with
  | nil =>
    cases k with
    | zero => rfl
    | succ k => rfl
  | cons ops rest ih =>
    rw [inTurn, lifeOfAppend]
    cases k with
    | zero =>
      rw [Nat.add_zero, lifeBeforeTurn (Nat.lt_succ_self first)]
      exact lifeWithin first o .absent ops
    | succ k =>
      have others : lifeOf (first + (k + 1),o) (ops.map (Op.within first)) = .absent := lifeOutside (by omega) o .absent ops
      have here : first + (k + 1) = first + 1 + k := by omega
      rw [others, here]
      exact ih (first + 1) k

theorem fitInTurn {first : Nat} {lives : Nat × ω → Life} (fresh : ∀ n o, first ≤ n → lives (n,o) = .absent)
    {all : List (List (Op ω))} (each : ∀ ops ∈ all, Disciplined ops) : FitAll lives (inTurn first all) := by
  induction all generalizing first lives with
  | nil => trivial
  | cons ops rest ih =>
    rw [inTurn, fitAllAppend, fitAllWithin]
    refine ⟨?_,ih ?_ (fun later member => each later (List.mem_cons_of_mem _ member))⟩
    · simp only [fresh first _ (Nat.le_refl first)]
      exact each ops List.mem_cons_self
    · intro n o later
      rw [lifeOutside (by omega)]
      exact fresh n o (by omega)

theorem disciplinedInTurn {all : List (List (Op ω))} (each : ∀ ops ∈ all, Disciplined ops) (first : Nat) :
    Disciplined (inTurn first all) := fitInTurn (fun _ _ _ => rfl) each

end VmpRl.Lifecycle
