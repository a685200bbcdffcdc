import Mathlib.Algebra.Ring.Nat

/-! Loops that work on a buffer in place: accesses checked against the size of the buffer,
loops given by what one round does, and the rules for them. -/
namespace VmpRl.Scan

section Access
variable {ε α : Type} (fault : ε)

def load (buf : List α) (i : Nat) : Except ε α := match buf[i]? with
  | none => .error fault
  | some c => .ok c

def store (buf : List α) (i : Nat) (c : α) : Except ε (List α) :=
  if i < buf.length then .ok (buf.set i c) else .error fault

theorem loadInside {buf : List α} {i : Nat} {c : α} (there : buf[i]? = some c) : load fault buf i = .ok c := by
  unfold load
  rw [there]

theorem storeInside {buf : List α} {i : Nat} (inside : i < buf.length) (c : α) :
    store fault buf i c = .ok (buf.set i c) := if_pos inside

theorem loadAt {before : List α} {i : Nat} (here : i = before.length) (c : α) (behind : List α) :
    load fault (before ++ c :: behind) i = .ok c := by
  apply loadInside
  rw [here, List.getElem?_append_right (Nat.le_refl _), Nat.sub_self]
  rfl

theorem storeAt {before : List α} {i : Nat} (here : i = before.length) (old c : α) (behind : List α) :
    store fault (before ++ old :: behind) i c = .ok (before ++ c :: behind) := by
  rw [storeInside fault (by rw [here, List.length_append, List.length_cons]; omega), here,
    List.set_append_right _ _ (Nat.le_refl _), Nat.sub_self]
  rfl

theorem storeLength {fault : ε} {buf next : List α} {i : Nat} {c : α} (ran : store fault buf i c = .ok next) :
    next.length = buf.length := by
  unfold store at ran
  split at ran
  · cases Except.ok.inj ran
    exact List.length_set
  · cases ran

theorem storeAcross (before gap : List α) (c : α) (behind : List α) :
    ∃ moved : List α, moved.length = gap.length ∧
      store fault (before ++ (gap ++ c :: behind)) before.length c = .ok (before ++ c :: (moved ++ behind)) := by
  cases gap with
  | nil => exact ⟨[],rfl,storeAt fault rfl c c behind⟩
  | cons old rest =>
    refine ⟨rest ++ [c],by rw [List.length_append]; rfl,?_⟩
    rw [List.cons_append, storeAt fault rfl, List.append_assoc]
    rfl

end Access

inductive Round (σ β : Type) where
  | again (s : σ)
  | over (value : β)

section Loop
variable {ε σ β : Type} (body : σ → Except ε (Round σ β))

/- At most `fuel` rounds; `fault` says that they did not suffice. -/
def loop (fault : ε) : Nat → σ → Except ε β
  | 0, _ => .error fault
  | fuel+1, s => match body s with
    | .error stop => .error stop
    | .ok (.over value) => .ok value
    | .ok (.again t) => loop fault fuel t

inductive Visits (s : σ) : σ → Prop where
  | first : Visits s s
  | later (t u : σ) (visited : Visits s t) (round : body t = .ok (.again u)) : Visits s u

variable {body}

def Advances (I : σ → Prop) (Q : β → Prop) (rank : σ → Nat) (body : σ → Except ε (Round σ β)) : Prop :=
  ∀ s, I s → (∃ t, body s = .ok (.again t) ∧ I t ∧ rank t < rank s) ∨ ∃ value, body s = .ok (.over value) ∧ Q value

theorem visitsInvariant {I : σ → Prop} {Q : β → Prop} {rank : σ → Nat} (round : Advances I Q rank body) {s t : σ}
    (base : I s) (visited : Visits body s t) : I t := by
  induction visited with
  | first => exact base
  | later t u _ went ih =>
    rcases round t ih with on | done
    · obtain ⟨next,same,kept,_⟩ := on
      rw [went] at same
      cases Except.ok.inj same
      exact kept
    · obtain ⟨value,same,_⟩ := done
      rw [went] at same
      cases Except.ok.inj same

theorem loopRule {I : σ → Prop} {Q : β → Prop} {rank : σ → Nat} (round : Advances I Q rank body) (fault : ε) {s : σ}
    (base : I s) (fuel : Nat) (enough : rank s < fuel) : ∃ value, loop body fault fuel s = .ok value ∧ Q value := by
  induction fuel generalizing s with
  | zero => exact absurd enough (Nat.not_lt_zero _)
  | succ fuel ih =>
    rcases round s base with on | done
    · obtain ⟨t,went,kept,lower⟩ := on
      obtain ⟨value,ran,holds⟩ := ih kept (by omega)
      refine ⟨value,?_,holds⟩
      rw [loop, went]
      exact ran
    · obtain ⟨value,went,holds⟩ := done
      refine ⟨value,?_,holds⟩
      rw [loop, went]

theorem loopKept {I : σ → Prop} {Q : β → Prop} (on : ∀ s t, I s → body s = .ok (.again t) → I t)
    (done : ∀ s value, I s → body s = .ok (.over value) → Q value) {fault : ε} {fuel : Nat} {s : σ} (base : I s)
    {value : β} (ran : loop body fault fuel s = .ok value) : Q value := by
  induction fuel generalizing s with
  | zero => cases ran
  | succ fuel ih =>
    rw [loop] at ran
    split at ran
    · cases ran
    · rename_i other went
      cases Except.ok.inj ran
      exact done s _ base went
    · rename_i t went
      exact ih (on s t base went) ran

theorem loopStable {fault : ε} {fuel : Nat} {s : σ} {value : β} (ran : loop body fault fuel s = .ok value)
    {more : Nat} (enough : fuel ≤ more) : loop body fault more s = .ok value := by
  induction fuel generalizing s more with
  | zero => cases ran
  | succ fuel ih =>
    obtain ⟨extra,rfl⟩ := Nat.exists_eq_add_of_le' (Nat.le_trans (Nat.le_add_left 1 fuel) enough)
    rw [loop] at ran ⊢
    split at ran
    · cases ran
    · exact ran
    · exact ih ran (by omega)

end Loop
end VmpRl.Scan
