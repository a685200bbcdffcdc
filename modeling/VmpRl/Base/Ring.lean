import Mathlib.Data.List.Cycle

/-! Cells that point at two neighbours and carry a value, in a heap that has some of them, and the cells that
form a ring: what putting one between two others and bypassing one do to it. -/
namespace VmpRl.Rings

structure Cell (α β : Type) where
  next : α
  prev : α
  value : β

abbrev Heap (α β : Type) := α → Option (Cell α β)

section Fields
variable {α β : Type} (h : Heap α β) (a : α)

def There : Prop := (h a).isSome = true
def nextOf : Option α := (h a).map Cell.next
def prevOf : Option α := (h a).map Cell.prev
def valueOf : Option β := (h a).map Cell.value

instance : Decidable (There h a) := inferInstanceAs (Decidable ((h a).isSome = true))

theorem prevThere : There h a ↔ (prevOf h a).isSome = true := by
  unfold There prevOf
  rw [Option.isSome_map]

variable [DecidableEq α]

def changed (f : Cell α β → Cell α β) : Heap α β := fun b => if b = a then (h b).map f else h b

def withNext (v : α) : Heap α β := changed h a (fun c => {c with next := v})
def withPrev (v : α) : Heap α β := changed h a (fun c => {c with prev := v})
def withValue (v : β) : Heap α β := changed h a (fun c => {c with value := v})

theorem mapChanged {γ : Type} (f : Cell α β → Cell α β) (g : Cell α β → γ) (same : ∀ c, g (f c) = g c) (b : α) :
    ((changed h a f) b).map g = (h b).map g := by
  unfold changed
  split
  · rw [Option.map_map]
    exact congrArg (fun k => (h b).map k) (funext same)
  · rfl

theorem mapReplaced {γ : Type} (f : Cell α β → Cell α β) (g : Cell α β → γ) (v : γ) (new : ∀ c, g (f c) = v) (b : α) :
    ((changed h a f) b).map g = if b = a ∧ There h b then some v else (h b).map g := by
  unfold changed There
  by_cases same : b = a
  · rw [← same, if_pos rfl]
    obtain absent | ⟨c,present⟩ := Option.eq_none_or_eq_some (h b)
    · simp [absent]
    · simp [present, new]
  · simp [same]

@[simp] theorem nextWithNext (v b : α) :
    nextOf (withNext h a v) b = if b = a ∧ There h b then some v else nextOf h b :=
  mapReplaced h a _ _ v (fun _ => rfl) b

@[simp] theorem prevWithPrev (v b : α) :
    prevOf (withPrev h a v) b = if b = a ∧ There h b then some v else prevOf h b :=
  mapReplaced h a _ _ v (fun _ => rfl) b

@[simp] theorem valueWithValue (v : β) (b : α) :
    valueOf (withValue h a v) b = if b = a ∧ There h b then some v else valueOf h b :=
  mapReplaced h a _ _ v (fun _ => rfl) b

@[simp] theorem nextWithPrev (v b : α) : nextOf (withPrev h a v) b = nextOf h b :=
  mapChanged h a (fun c => {c with prev := v}) Cell.next (fun _ => rfl) b

@[simp] theorem prevWithNext (v b : α) : prevOf (withNext h a v) b = prevOf h b :=
  mapChanged h a (fun c => {c with next := v}) Cell.prev (fun _ => rfl) b

@[simp] theorem valueWithNext (v b : α) : valueOf (withNext h a v) b = valueOf h b :=
  mapChanged h a (fun c => {c with next := v}) Cell.value (fun _ => rfl) b

@[simp] theorem valueWithPrev (v b : α) : valueOf (withPrev h a v) b = valueOf h b :=
  mapChanged h a (fun c => {c with prev := v}) Cell.value (fun _ => rfl) b

@[simp] theorem nextWithValue (v : β) (b : α) : nextOf (withValue h a v) b = nextOf h b :=
  mapChanged h a (fun c => {c with value := v}) Cell.next (fun _ => rfl) b

@[simp] theorem prevWithValue (v : β) (b : α) : prevOf (withValue h a v) b = prevOf h b :=
  mapChanged h a (fun c => {c with value := v}) Cell.prev (fun _ => rfl) b

theorem thereChanged (f : Cell α β → Cell α β) (b : α) : There (changed h a f) b ↔ There h b := by
  unfold There changed
  split
  · rw [Option.isSome_map]
  · rfl

@[simp] theorem thereWithNext (v b : α) : There (withNext h a v) b ↔ There h b := thereChanged h a _ b
@[simp] theorem thereWithPrev (v b : α) : There (withPrev h a v) b ↔ There h b := thereChanged h a _ b
@[simp] theorem thereWithValue (v : β) (b : α) : There (withValue h a v) b ↔ There h b := thereChanged h a _ b

variable {h a}

@[simp] theorem nextUpdate {b : α} (apart : b ≠ a) (c : Option (Cell α β)) :
    nextOf (Function.update h a c) b = nextOf h b := by
  unfold nextOf
  rw [Function.update_of_ne apart]

@[simp] theorem prevUpdate {b : α} (apart : b ≠ a) (c : Option (Cell α β)) :
    prevOf (Function.update h a c) b = prevOf h b := by
  unfold prevOf
  rw [Function.update_of_ne apart]

@[simp] theorem valueUpdate {b : α} (apart : b ≠ a) (c : Option (Cell α β)) :
    valueOf (Function.update h a c) b = valueOf h b := by
  unfold valueOf
  rw [Function.update_of_ne apart]

theorem thereUpdate (c : Option (Cell α β)) (b : α) :
    There (Function.update h a c) b ↔ if b = a then c.isSome = true else There h b := by
  unfold There
  by_cases same : b = a
  · rw [same, Function.update_self, if_pos rfl]
  · rw [Function.update_of_ne same, if_neg same]

end Fields

variable {α β : Type} {h h' : Heap α β}

def Joined (h : Heap α β) (a b : α) : Prop := nextOf h a = some b ∧ prevOf h b = some a

/- The cells in the order of their `next`, the last one before the first. -/
structure Ringed (h : Heap α β) (cells : List α) : Prop where
  nodup : cells.Nodup
  around : Cycle.Chain (Joined h) cells

theorem ringOpen {n : α} {xs : List α} : Ringed h (n :: xs) ↔ (n :: xs).Nodup ∧ (n :: xs).IsChain (Joined h) ∧
    ∀ p ∈ (n :: xs).getLast?, Joined h p n := by
  have opened : Cycle.Chain (Joined h) (n :: xs : List α) ↔ ((n :: xs) ++ [n]).IsChain (Joined h) :=
    Cycle.chain_coe_cons (Joined h) n xs
  rw [List.isChain_append] at opened
  constructor
  · intro ring
    obtain ⟨chain,_,closed⟩ := opened.mp ring.around
    exact ⟨ring.nodup,chain,fun p last => closed p last n rfl⟩
  · intro ring
    obtain ⟨nodup,chain,closed⟩ := ring
    refine ⟨nodup,opened.mpr ⟨chain,List.isChain_singleton n,?_⟩⟩
    intro p last first same
    cases Option.some.inj same
    exact closed p last

theorem ringTurned (xs ys : List α) (ring : Ringed h (xs ++ ys)) : Ringed h (ys ++ xs) := by
  have same : (↑(xs ++ ys) : Cycle α) = ↑(ys ++ xs) := Quot.sound List.isRotated_append
  exact ⟨(List.nodup_append_comm.mp ring.nodup),same ▸ ring.around⟩

theorem ringAlone {a : α} (next : nextOf h a = some a) (prev : prevOf h a = some a) : Ringed h [a] := by
  refine ringOpen.mpr ⟨List.nodup_singleton a,List.isChain_singleton a,?_⟩
  intro p last
  cases Option.some.inj last
  exact ⟨next,prev⟩

theorem chainKept {cells : List α} (nodup : cells.Nodup) (chain : cells.IsChain (Joined h))
    (nexts : ∀ a ∈ cells, cells.getLast? ≠ some a → nextOf h' a = nextOf h a)
    (prevs : ∀ b ∈ cells, cells.head? ≠ some b → prevOf h' b = prevOf h b) : cells.IsChain (Joined h') := by
  rw [List.isChain_iff_forall_rel_of_append_cons_cons] at chain ⊢
  intro a b before behind same
  have joined := chain same
  have apart : (a :: b :: behind).Nodup := (List.nodup_append.mp (same ▸ nodup)).2.1
  have notLast : cells.getLast? ≠ some a := by
    intro last
    rw [same, List.getLast?_append_of_ne_nil _ (List.cons_ne_nil _ _), List.getLast?_cons_cons] at last
    exact (List.nodup_cons.mp apart).1 (List.mem_of_getLast? last)
  have notFirst : cells.head? ≠ some b := by
    intro first
    cases before with
    | nil =>
      rw [same] at first
      cases Option.some.inj first
      exact (List.nodup_cons.mp apart).1 List.mem_cons_self
    | cons c rest =>
      rw [same] at first nodup
      cases Option.some.inj first
      exact (List.nodup_cons.mp nodup).1 (by simp)
  exact ⟨(nexts a (by simp [same]) notLast).trans joined.1,(prevs b (by simp [same]) notFirst).trans joined.2⟩

theorem ringKept {cells : List α} (ring : Ringed h cells) (nexts : ∀ a ∈ cells, nextOf h' a = nextOf h a)
    (prevs : ∀ b ∈ cells, prevOf h' b = prevOf h b) : Ringed h' cells := by
  cases cells with
  | nil => exact ⟨List.nodup_nil,Cycle.Chain.nil _⟩
  | cons n xs =>
    obtain ⟨nodup,chain,closed⟩ := ringOpen.mp ring
    refine ringOpen.mpr ⟨nodup,?_,?_⟩
    · exact chainKept nodup chain (fun a member _ => nexts a member) (fun b member _ => prevs b member)
    · intro p last
      have joined := closed p last
      exact ⟨(nexts p (List.mem_of_getLast? last)).trans joined.1,(prevs n List.mem_cons_self).trans joined.2⟩

theorem ringNext {n a : α} {xs rest : List α} (ring : Ringed h (n :: xs)) (before : List α)
    (same : n :: xs = before ++ a :: rest) : nextOf h a = (rest ++ [n]).head? := by
  have chain : (n :: xs ++ [n]).IsChain (Joined h) := (Cycle.chain_coe_cons (Joined h) n xs).mp ring.around
  rw [same, List.append_assoc, List.cons_append] at chain
  cases behind : rest ++ [n] with
  | nil => exact absurd behind (by simp)
  | cons b more =>
    rw [behind] at chain
    exact (List.isChain_iff_forall_rel_of_append_cons_cons.mp chain rfl).1

theorem ringThere {cells : List α} (ring : Ringed h cells) {a : α} (member : a ∈ cells) : There h a := by
  obtain ⟨before,behind,same⟩ := List.append_of_mem member
  have turned : Ringed h (a :: (behind ++ before)) := ringTurned before (a :: behind) (same ▸ ring)
  obtain ⟨_,_,closed⟩ := ringOpen.mp turned
  obtain ⟨p,last⟩ := Option.isSome_iff_exists.mp (List.getLast?_isSome.mpr (List.cons_ne_nil a (behind ++ before)))
  rw [prevThere, (closed p last).2]
  rfl

section Changes
variable [DecidableEq α]

def inserted (h : Heap α β) (p new n : α) : Heap α β :=
  withPrev (withNext (withPrev (withNext h new n) new p) p new) n new

def bypassed (h : Heap α β) (p n : α) : Heap α β := withPrev (withNext h p n) n p

theorem ringInserted {n p new : α} {xs : List α} (ring : Ringed h (n :: xs)) (last : (n :: xs).getLast? = some p)
    (there : There h new) (fresh : new ∉ n :: xs) : Ringed (inserted h p new n) (n :: xs ++ [new]) := by
  obtain ⟨nodup,chain,_⟩ := ringOpen.mp ring
  have pThere := ringThere ring (List.mem_of_getLast? last)
  have nThere := ringThere ring (List.mem_cons_self (a := n) (l := xs))
  have newNotP : new ≠ p := fun same => fresh (same ▸ List.mem_of_getLast? last)
  have newNotN : new ≠ n := fun same => fresh (same ▸ List.mem_cons_self)
  have kept : (n :: xs).IsChain (Joined (inserted h p new n)) := by
    refine chainKept nodup chain ?_ ?_
    · intro a member notLast
      have notP : a ≠ p := fun same => notLast (same ▸ last)
      have notNew : a ≠ new := fun same => fresh (same ▸ member)
      simp [inserted, notP, notNew]
    · intro b member notFirst
      have notN : b ≠ n := fun same => notFirst (same ▸ rfl)
      have notNew : b ≠ new := fun same => fresh (same ▸ member)
      simp [inserted, notN, notNew]
  refine ringOpen.mpr ⟨?_,?_,?_⟩
  · exact List.nodup_append.mpr ⟨nodup,List.nodup_singleton new,fun a member b other =>
      fun same => fresh (List.mem_singleton.mp other ▸ same ▸ member)⟩
  · refine List.isChain_append.mpr ⟨kept,List.isChain_singleton new,?_⟩
    intro a isLast b isNew
    cases Option.some.inj (last.symm.trans isLast)
    cases Option.some.inj isNew
    constructor
    · simp [inserted, pThere]
    · simp [inserted, newNotN, there]
  · intro a isLast
    have same : (n :: xs ++ [new]).getLast? = some new := List.getLast?_concat
    cases Option.some.inj (same.symm.trans isLast)
    constructor
    · simp [inserted, newNotP, there]
    · simp [inserted, nThere]

theorem ringBypassed {n p old : α} {xs : List α} (ring : Ringed h (n :: xs ++ [old]))
    (last : (n :: xs).getLast? = some p) : Ringed (bypassed h p n) (n :: xs) := by
  obtain ⟨nodup,chain,_⟩ := ringOpen.mp (show Ringed h (n :: (xs ++ [old])) from ring)
  rw [← List.cons_append] at nodup chain
  have pThere := ringThere ring (List.mem_append_left [old] (List.mem_of_getLast? last))
  have nThere := ringThere ring (List.mem_cons_self (a := n) (l := xs ++ [old]))
  have inside := (List.nodup_append.mp nodup).1
  refine ringOpen.mpr ⟨inside,?_,?_⟩
  · refine chainKept inside (List.isChain_append.mp chain).1 ?_ ?_
    · intro a _ notLast
      have notP : a ≠ p := fun same => notLast (same ▸ last)
      simp [bypassed, notP]
    · intro b _ notFirst
      have notN : b ≠ n := fun same => notFirst (same ▸ rfl)
      simp [bypassed, notN]
  · intro a isLast
    cases Option.some.inj (last.symm.trans isLast)
    constructor
    · simp [bypassed, pThere]
    · simp [bypassed, nThere]

end Changes
end VmpRl.Rings
