import Mathlib.Data.List.Perm.Subperm

/-! A heap in which every cell has an address, and who gives out addresses: memory may be refused, and an address that
was given back may be given again, but never one that is in use. -/
namespace VmpRl.Allocation

variable {α β : Type}

/- By the number of calls before this one, each of which added one cell at most. -/
structure Malloc (α β : Type) where
  gives : Nat → Bool
  address : Nat → (α → Option β) → α
  fresh : ∀ {n : Nat} {h : α → Option β} {cells : List α}, cells.length ≤ n →
    (∀ a, (h a).isSome = true → a ∈ cells) → h (address n h) = none

def Malloc.give (M : Malloc α β) (n : Nat) (h : α → Option β) : Option α :=
  if M.gives n then some (M.address n h) else none

@[simp] theorem Malloc.giveIsSome (M : Malloc α β) (n : Nat) (h : α → Option β) :
    (M.give n h).isSome = M.gives n := by
  unfold give
  cases M.gives n with
  | false => rfl
  | true => rfl

theorem Malloc.given {M : Malloc α β} {n : Nat} {h : α → Option β} {a : α} (some : M.give n h = some a)
    (cells : List α) (few : cells.length ≤ n) (only : ∀ b, (h b).isSome = true → b ∈ cells) : h a = none := by
  unfold give at some
  split at some
  · cases some
    exact M.fresh few only
  · cases some

def lowest (n : Nat) (h : Nat → Option β) : Nat := ((List.range (n + 1)).find? (fun a => (h a).isNone)).getD n

theorem lowestFree {n : Nat} {h : Nat → Option β} {cells : List Nat} (few : cells.length ≤ n)
    (only : ∀ a, (h a).isSome = true → a ∈ cells) : h (lowest n h) = none := by
  unfold lowest
  cases found : (List.range (n + 1)).find? (fun a => (h a).isNone) with
  | some a =>
    have free := List.find?_some found
    simpa using free
  | none =>
    have all : List.range (n + 1) ⊆ cells := by
      intro a member
      have used := List.find?_eq_none.mp found a member
      exact only a (by simpa [Option.isSome_iff_ne_none] using used)
    have length := (List.subperm_of_subset List.nodup_range all).length_le
    rw [List.length_range] at length
    omega

def lowestFirst (gives : Nat → Bool) : Malloc Nat β := ⟨gives,lowest,fun few only => lowestFree few only⟩

end VmpRl.Allocation
