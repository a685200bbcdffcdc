import Mathlib.Data.List.Perm.Basic

/-! Lists that are searched from the front: entries that never clash, what removing the first
match leaves of them, and what a search sees of a reordering. -/
namespace VmpRl.Directory
variable {α β : Type} {clash : α → α → Prop} {p : α → Bool} {l : List α}

def Apart (clash : α → α → Prop) (l : List α) : Prop := l.Pairwise (fun a b => ¬ clash a b)

theorem Apart.add (apart : Apart clash l) {a : α} (fresh : ∀ b ∈ l, ¬ clash a b) :
    Apart clash (a :: l) := List.pairwise_cons.mpr ⟨fresh,apart⟩

theorem Apart.remove (apart : Apart clash l) (p : α → Bool) : Apart clash (l.eraseP p) :=
  apart.sublist List.eraseP_sublist

theorem Apart.cleared (apart : Apart clash l) (meet : ∀ a b, p a = true → p b = true → clash a b) :
    ∀ b ∈ l.eraseP p, p b = false := by
  rcases List.exists_or_eq_self_of_eraseP p l with same | ⟨a,before,after,others,found,split,erased⟩
  · intro b member
    rw [same] at member
    by_contra matched
    have matched : p b = true := by simpa using matched
    obtain ⟨a,left,right,_,found,split,erased⟩ := List.exists_of_eraseP member matched
    have shorter := congrArg List.length (same.symm.trans erased)
    rw [split] at shorter
    simp at shorter
  · rw [split] at apart
    have alone := (List.pairwise_cons.mp (List.pairwise_append.mp apart).2.1).1
    intro b member
    rw [erased] at member
    rcases List.mem_append.mp member with early | late
    · simpa using others b early
    · by_contra matched
      exact alone b late (meet a b found (by simpa using matched))

theorem findPerm {f : α → β} {m : List α} (same : l.Perm m)
    (agree : ∀ a ∈ l, ∀ b ∈ l, p a = true → p b = true → f a = f b) :
    (l.find? p).map f = (m.find? p).map f := by
  cases left : l.find? p with
  | none =>
    have absent := List.find?_eq_none.mp left
    have right : m.find? p = none :=
      List.find?_eq_none.mpr (fun b member => absent b (same.mem_iff.mpr member))
    rw [right]
  | some a =>
    have member := List.mem_of_find?_eq_some left
    have found := List.find?_some left
    cases right : m.find? p with
    | none => exact absurd found (List.find?_eq_none.mp right a (same.mem_iff.mp member))
    | some b =>
      have there := same.mem_iff.mpr (List.mem_of_find?_eq_some right)
      exact congrArg some (agree a member b there found (List.find?_some right))

end VmpRl.Directory
