import Mathlib.Data.List.Forall2
import Mathlib.Data.List.Nodup
import VmpRl.Base.Transition

/-! A ledger of items that are issued once and completed at most once, in any order. The
pending ones stay in the order of issue. -/
namespace VmpRl
open Transition

structure Ledger (γ : Type) where
  issued : List γ
  pending : List γ
  done : List γ

namespace Ledger
variable {γ : Type}

inductive Entry (γ : Type) where
  | issue (c : γ)
  | complete (c : γ)

open Classical in
noncomputable def step (l : Ledger γ) : Entry γ → Option (Ledger γ)
  | .issue c => if c ∈ l.issued then none else some {l with
      issued := l.issued ++ [c], pending := l.pending ++ [c]}
  | .complete c => if c ∈ l.pending then some {l with
      pending := l.pending.filter (· ≠ c), done := l.done ++ [c]} else none

noncomputable def system (γ : Type) : System (Ledger γ) (Entry γ) := ⟨(· = ⟨[],[],[]⟩),step⟩

theorem issueStep {l : Ledger γ} {c : γ} (fresh : c ∉ l.issued) :
    (system γ).step l (.issue c) =
      some {l with issued := l.issued ++ [c], pending := l.pending ++ [c]} := if_neg fresh

theorem completeStep {l : Ledger γ} {c : γ} {before after : List γ}
    (pending : l.pending = before ++ c :: after) (once : l.pending.Nodup) :
    (system γ).step l (.complete c) =
      some {l with pending := before ++ after, done := l.done ++ [c]} := by
  have listed : c ∈ l.pending := by simp [pending]
  rw [pending] at once
  obtain ⟨_,tail,apart⟩ := List.nodup_append.mp once
  have left : ∀ a ∈ before, a ≠ c := fun a member => apart a member c List.mem_cons_self
  have right : ∀ a ∈ after, a ≠ c := fun a member same =>
    (List.nodup_cons.mp tail).1 (same ▸ member)
  simp only [system, step, if_pos listed, pending, List.filter_append, List.filter_cons, ne_eq,
    not_true_eq_false, decide_false]
  rw [List.filter_eq_self.mpr (by simpa using left), List.filter_eq_self.mpr (by simpa using right)]
  rfl

open Classical in
structure Balanced (l : Ledger γ) : Prop where
  issuedOnce : l.issued.Nodup
  doneOnce : l.done.Nodup
  doneIssued : ∀ c ∈ l.done, c ∈ l.issued
  pendingRest : l.pending = l.issued.filter (· ∉ l.done)

theorem Balanced.stepKeeps {l m : Ledger γ} {e : Entry γ} (b : Balanced l) (h : step l e = some m) :
    Balanced m := by
  cases e with
  | issue c =>
    simp only [step] at h
    split at h
    · cases h
    · rename_i fresh
      cases Option.some.inj h
      have notDone : c ∉ l.done := fun member => fresh (b.doneIssued c member)
      refine ⟨?_,b.doneOnce,?_,?_⟩
      · exact List.nodup_append.mpr ⟨b.issuedOnce,List.nodup_singleton c,by
          intro a left d right same
          obtain rfl := List.mem_singleton.mp right
          exact fresh (same ▸ left)⟩
      · intro d member
        exact List.mem_append_left _ (b.doneIssued d member)
      · simp [List.filter_append, b.pendingRest, notDone]
  | complete c =>
    simp only [step] at h
    split at h
    · rename_i pending
      cases Option.some.inj h
      rw [b.pendingRest] at pending
      have listed := List.mem_filter.mp pending
      have waiting : c ∉ l.done := by simpa using listed.2
      refine ⟨b.issuedOnce,?_,?_,?_⟩
      · exact List.nodup_append.mpr ⟨b.doneOnce,List.nodup_singleton c,by
          intro a left d right same
          obtain rfl := List.mem_singleton.mp right
          exact waiting (same ▸ left)⟩
      · intro d member
        rcases List.mem_append.mp member with old | new
        · exact b.doneIssued d old
        · obtain rfl := List.mem_singleton.mp new
          exact listed.1
      · dsimp only
        rw [b.pendingRest, List.filter_filter]
        apply List.filter_congr
        intro d _
        by_cases same : d = c <;> by_cases old : d ∈ l.done <;> simp [same, old]
    · cases h

theorem balanced {l : Ledger γ} (h : (system γ).Reachable l) : Balanced l := by
  apply (system γ).reachableInvariant (J := Balanced) _ (fun _ _ _ b h => b.stepKeeps h) h
  intro s started
  cases started
  exact ⟨List.nodup_nil,List.nodup_nil,by simp,rfl⟩

theorem matched {δ : Type} {R : δ → γ → Prop} {records : List δ} {done : List γ}
    (pairs : List.Forall₂ R records done) {r : δ} (member : r ∈ records) : ∃ c ∈ done, R r c := by
  induction pairs with
  | nil => simp at member
  | cons first rest ih =>
    rcases List.mem_cons.mp member with rfl | later
    · exact ⟨_,List.mem_cons_self,first⟩
    · obtain ⟨c,there,related⟩ := ih later
      exact ⟨c,List.mem_cons_of_mem _ there,related⟩

end Ledger
end VmpRl
