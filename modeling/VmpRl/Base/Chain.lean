import Mathlib.Data.List.Basic
import Mathlib.Logic.Function.Basic

/-! Cells that point at one next cell or at none and carry a value, and the chain of cells behind a pointer:
it is the only one, no cell is in it twice, and what a new first cell and a cell passed over do to it. -/
namespace VmpRl.Chains

structure Link (α β : Type) where
  next : Option α
  value : β

abbrev Links (α β : Type) := α → Option (Link α β)

variable {α β : Type} {h h' : Links α β}

def Chained (h : Links α β) : Option α → List (α × β) → Prop
  | start, [] => start = none
  | start, cell :: rest => start = some cell.1 ∧ ∃ next, h cell.1 = some ⟨next,cell.2⟩ ∧ Chained h next rest

theorem chainedFrom {start : Option α} {before rest : List (α × β)} (chained : Chained h start (before ++ rest)) :
    ∃ link, Chained h link rest := by
  induction before generalizing start with
  | nil => exact ⟨start,chained⟩
  | cons cell before ih =>
    obtain ⟨_,next,_,later⟩ := chained
    exact ih later

theorem chainedUnique {start : Option α} {xs ys : List (α × β)} (left : Chained h start xs)
    (right : Chained h start ys) : xs = ys := by
  induction xs generalizing start ys with
  | nil =>
    cases ys with
    | nil => rfl
    | cons cell rest => cases left.symm.trans right.1
  | cons cell rest ih =>
    obtain ⟨first,next,here,later⟩ := left
    cases ys with
    | nil => cases first.symm.trans right
    | cons other others =>
      obtain ⟨first',next',here',later'⟩ := right
      have same : cell.1 = other.1 := Option.some.inj (first.symm.trans first')
      rw [← same, here] at here'
      obtain ⟨rfl,value⟩ := (Link.mk.injEq _ _ _ _).mp (Option.some.inj here')
      rw [ih later later']
      exact congrArg (· :: others) (Prod.ext same value)

theorem chainedApart {start : Option α} {cells : List (α × β)} (chained : Chained h start cells) :
    (cells.map Prod.fst).Nodup := by
  induction cells generalizing start with
  | nil => exact List.nodup_nil
  | cons cell rest ih =>
    obtain ⟨first,next,here,later⟩ := chained
    refine List.nodup_cons.mpr ⟨?_,ih later⟩
    intro again
    obtain ⟨other,member,same⟩ := List.mem_map.mp again
    obtain ⟨before,after,split⟩ := List.append_of_mem member
    obtain ⟨link,tail⟩ := chainedFrom (split ▸ later)
    -- both chains start at the cell, so they would be one
    have whole : Chained h link (cell :: rest) := by
      refine ⟨tail.1.trans (congrArg some same),next,here,later⟩
    have lengths := congrArg List.length (chainedUnique whole tail)
    rw [split] at lengths
    simp only [List.length_cons, List.length_append] at lengths
    omega

theorem chainedThere {start : Option α} {cells : List (α × β)} (chained : Chained h start cells) {a : α}
    (member : a ∈ cells.map Prod.fst) : (h a).isSome = true := by
  induction cells generalizing start with
  | nil => cases member
  | cons cell rest ih =>
    obtain ⟨_,next,here,later⟩ := chained
    rcases List.mem_cons.mp member with same | more
    · rw [same, here]
      rfl
    · exact ih later more

theorem chainedKept {start : Option α} {cells : List (α × β)} (chained : Chained h start cells)
    (kept : ∀ a ∈ cells.map Prod.fst, h' a = h a) : Chained h' start cells := by
  induction cells generalizing start with
  | nil => exact chained
  | cons cell rest ih =>
    obtain ⟨first,next,here,later⟩ := chained
    exact ⟨first,next,(kept cell.1 List.mem_cons_self).trans here,
      ih later (fun a member => kept a (List.mem_cons_of_mem _ member))⟩

section Changes
variable [DecidableEq α]

theorem chainedOutside {start : Option α} {cells : List (α × β)} (chained : Chained h start cells) {a : α}
    (outside : a ∉ cells.map Prod.fst) (link : Option (Link α β)) :
    Chained (Function.update h a link) start cells :=
  chainedKept chained (fun b member => Function.update_of_ne (fun same : b = a => outside (same ▸ member)) _ _)

theorem chainedFront {start : Option α} {cells : List (α × β)} (chained : Chained h start cells) {a : α}
    (outside : a ∉ cells.map Prod.fst) (v : β) :
    Chained (Function.update h a (some ⟨start,v⟩)) (some a) ((a,v) :: cells) :=
  ⟨rfl,start,Function.update_self _ _ _,chainedOutside chained outside _⟩

theorem chainedPassed {start : Option α} {before after : List (α × β)} {p c : α × β}
    (chained : Chained h start (before ++ p :: c :: after)) :
    ∃ next, h c.1 = some ⟨next,c.2⟩ ∧ h p.1 = some ⟨some c.1,p.2⟩ ∧
      Chained (Function.update h p.1 (some ⟨next,p.2⟩)) start (before ++ p :: after) := by
  induction before generalizing start with
  | nil =>
    have apart := chainedApart chained
    obtain ⟨first,_,here,rfl,next,there,later⟩ := chained
    have outside : p.1 ∉ after.map Prod.fst := fun member =>
      (List.nodup_cons.mp apart).1 (List.mem_cons_of_mem _ member)
    exact ⟨next,there,here,first,next,Function.update_self _ _ _,chainedOutside later outside _⟩
  | cons cell before ih =>
    have apart := chainedApart chained
    obtain ⟨first,link,here,later⟩ := chained
    obtain ⟨next,there,prev,rest⟩ := ih later
    have notP : cell.1 ≠ p.1 := fun same => (List.nodup_cons.mp apart).1 (by simp [same])
    exact ⟨next,there,prev,first,link,(Function.update_of_ne notP _ _).trans here,rest⟩

end Changes
end VmpRl.Chains
