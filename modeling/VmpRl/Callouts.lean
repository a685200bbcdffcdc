import VmpRl.Base.Directory
import VmpRl.Base.Transition
import VmpRl.PbrpcService

/-! Runs of `pbrpc_svc_register` and `pbrpc_svc_unregister` on one service, and what a request
meets in the callout list they lead to. -/
namespace VmpRl.Callouts
open Octets CRuntime PbrpcMessages PbrpcService Transition Directory

abbrev Triple := BitVec 32 × BitVec 32 × Option CString

def Conflicting (a b : Triple) : Prop :=
  a.1 = b.1 ∧ a.2.1 = b.2.1 ∧ (a.2.2 = b.2.2 ∨ a.2.2 = none ∨ b.2.2 = none)

theorem Conflicting.symm {a b : Triple} (h : Conflicting a b) : Conflicting b a := by
  obtain ⟨prog,vers,same | left | right⟩ := h
  · exact ⟨prog.symm,vers.symm,Or.inl same.symm⟩
  · exact ⟨prog.symm,vers.symm,Or.inr (Or.inr left)⟩
  · exact ⟨prog.symm,vers.symm,Or.inr (Or.inl right)⟩

theorem Conflicting.across {a b : Triple} {prog vers : BitVec 32} {name : CString}
    (left : Conflicting a (prog,vers,some name)) (right : Conflicting b (prog,vers,some name)) :
    Conflicting a b := by
  obtain ⟨prog₁,vers₁,name₁⟩ := left
  obtain ⟨prog₂,vers₂,name₂⟩ := right
  refine ⟨prog₁.trans prog₂.symm,vers₁.trans vers₂.symm,?_⟩
  rcases name₁ with same₁ | null₁ | no
  · rcases name₂ with same₂ | null₂ | no
    · exact Or.inl (same₁.trans same₂.symm)
    · exact Or.inr (Or.inr null₂)
    · cases no
  · exact Or.inr (Or.inl null₁)
  · cases no

variable {δ : Type} {α : δ → Type}

def tripleOf (s : Callout δ α) : Triple := (s.scProg,s.scVers,s.scName)

def targetOf (s : Callout δ α) : (d : δ) × α d := ⟨s.dispatch,s.scArgs⟩

theorem matchesIff (s : Callout δ α) (prog vers : BitVec 32) (name : Option CString) :
    s.matches prog vers name = true ↔ Conflicting (tripleOf s) (prog,vers,name) := by
  simp only [Callout.matches, Conflicting, tripleOf, Bool.and_eq_true, Bool.or_eq_true, beq_iff_eq]
  constructor
  · intro h
    obtain ⟨⟨sameProg,sameVers⟩,(null | null) | same⟩ := h
    · exact ⟨sameProg,sameVers,Or.inr (Or.inr null)⟩
    · exact ⟨sameProg,sameVers,Or.inr (Or.inl null)⟩
    · exact ⟨sameProg,sameVers,Or.inl same.symm⟩
  · intro h
    obtain ⟨sameProg,sameVers,same | null | null⟩ := h
    · exact ⟨⟨sameProg,sameVers⟩,Or.inr same.symm⟩
    · exact ⟨⟨sameProg,sameVers⟩,Or.inl (Or.inr null)⟩
    · exact ⟨⟨sameProg,sameVers⟩,Or.inl (Or.inl null)⟩

theorem matchesFalse (s : Callout δ α) (prog vers : BitVec 32) (name : Option CString) :
    s.matches prog vers name = false ↔ ¬ Conflicting (tripleOf s) (prog,vers,name) := by
  rw [← matchesIff]
  simp

section
variable {prog vers : BitVec 32} {name : Option CString} {head : List (Callout δ α)}

theorem findNone (h : pbrpcSvcFind prog vers name head = none) :
    ∀ s ∈ head, s.matches prog vers name = false := by
  induction head with
  | nil => simp
  | cons t rest ih =>
    simp only [pbrpcSvcFind] at h
    split at h
    · cases h
    · rename_i other
      have later := ih (Option.map_eq_none_iff.mp h)
      intro s member
      rcases List.mem_cons.mp member with rfl | there
      · simpa using other
      · exact later s there

theorem findSome {before after : List (Callout δ α)} {s : Callout δ α}
    (h : pbrpcSvcFind prog vers name head = some (before,s,after)) :
    head = before ++ s :: after ∧ s.matches prog vers name = true ∧
      ∀ t ∈ before, t.matches prog vers name = false := by
  induction head generalizing before with
  | nil => simp [pbrpcSvcFind] at h
  | cons t rest ih =>
    simp only [pbrpcSvcFind] at h
    split at h
    · rename_i found
      cases Option.some.inj h
      exact ⟨rfl,found,by simp⟩
    · rename_i other
      obtain ⟨⟨left,found,right⟩,later,same⟩ := Option.map_eq_some_iff.mp h
      cases same
      obtain ⟨split,matched,others⟩ := ih later
      refine ⟨by rw [split]; rfl,matched,?_⟩
      intro u member
      rcases List.mem_cons.mp member with rfl | there
      · simpa using other
      · exact others u there

theorem unregisterErases : pbrpcSvcUnregister head prog vers name =
    head.eraseP (fun s => s.matches prog vers name) := by
  unfold pbrpcSvcUnregister
  cases found : pbrpcSvcFind prog vers name head with
  | none =>
    have others := findNone found
    rw [List.eraseP_of_forall_not (fun s member => by simp [others s member])]
  | some r =>
    obtain ⟨before,s,after⟩ := r
    obtain ⟨rfl,matched,others⟩ := findSome found
    have erased : (s :: after).eraseP (fun t => t.matches prog vers name) = after :=
      List.eraseP_cons_of_pos matched
    rw [List.eraseP_append_right _ (fun t member => by simp [others t member]), erased]

theorem registerCases [DecidableEq δ] {calloc : Bool} {dispatch : δ} {args : α dispatch} {ret : Int}
    {after : List (Callout δ α)}
    (h : pbrpcSvcRegister calloc head prog vers name dispatch args = (ret,after)) :
    (∃ s ∈ head, s.matches prog vers name = true ∧ after = head ∧
      ((ret = 0 ∧ s.dispatch = dispatch) ∨ (ret = 1 ∧ s.dispatch ≠ dispatch))) ∨
    ((∀ s ∈ head, s.matches prog vers name = false) ∧
      ((ret = 0 ∧ calloc = true ∧ after = ⟨prog,vers,name,dispatch,args⟩ :: head) ∨
        (ret = -1 ∧ calloc = false ∧ after = head))) := by
  unfold pbrpcSvcRegister at h
  split at h
  · rename_i left s right found
    obtain ⟨split,matched,_⟩ := findSome found
    have member : s ∈ head := by rw [split]; simp
    split at h
    · rename_i same
      cases h
      exact Or.inl ⟨s,member,matched,rfl,Or.inl ⟨rfl,same⟩⟩
    · rename_i other
      cases h
      exact Or.inl ⟨s,member,matched,rfl,Or.inr ⟨rfl,other⟩⟩
  · rename_i absent
    cases memory : calloc with
    | true =>
      rw [memory] at h
      cases h
      exact Or.inr ⟨findNone absent,Or.inl ⟨rfl,rfl,rfl⟩⟩
    | false =>
      rw [memory] at h
      cases h
      exact Or.inr ⟨findNone absent,Or.inr ⟨rfl,rfl,rfl⟩⟩
end

inductive SvcCall (δ : Type) (α : δ → Type) where
  | register (calloc : Bool) (prog vers : BitVec 32) (name : Option CString) (dispatch : δ)
      (args : α dispatch)
  | unregister (prog vers : BitVec 32) (name : Option CString)

def SvcCall.name : SvcCall δ α → Option CString
  | .register _ _ _ name _ _ => name
  | .unregister _ _ name => name

def callStep [DecidableEq δ] (head : List (Callout δ α)) : SvcCall δ α → List (Callout δ α)
  | .register calloc prog vers name dispatch args =>
    (pbrpcSvcRegister calloc head prog vers name dispatch args).2
  | .unregister prog vers name => pbrpcSvcUnregister head prog vers name

def system (δ : Type) (α : δ → Type) [DecidableEq δ] : System (List (Callout δ α)) (SvcCall δ α) :=
  ⟨(· = []),fun head call => some (callStep head call)⟩

def NoConflict (head : List (Callout δ α)) : Prop :=
  Apart (fun s t => Conflicting (tripleOf s) (tripleOf t)) head

theorem NoConflict.call [DecidableEq δ] {head : List (Callout δ α)} (apart : NoConflict head)
    (call : SvcCall δ α) : NoConflict (callStep head call) := by
  cases call with
  | register calloc prog vers name dispatch args =>
    cases ran : pbrpcSvcRegister calloc head prog vers name dispatch args with
    | mk ret after =>
      simp only [callStep, ran]
      obtain ⟨_,_,_,rfl,_⟩ | ⟨fresh,⟨_,_,rfl⟩ | ⟨_,_,rfl⟩⟩ := registerCases ran
      · exact apart
      · exact apart.add (fun s member clash =>
          (matchesFalse s prog vers name).mp (fresh s member) clash.symm)
      · exact apart
  | unregister prog vers name =>
    rw [callStep, unregisterErases]
    exact apart.remove _

theorem reachedNoConflict [DecidableEq δ] {head : List (Callout δ α)}
    (reached : (system δ α).Reachable head) : NoConflict head := by
  apply (system δ α).reachableInvariant (J := NoConflict) _ _ reached
  · intro s started
    rw [started]
    exact List.Pairwise.nil
  · intro s call t apart taken
    cases Option.some.inj taken
    exact apart.call call

theorem registryDiscipline [DecidableEq δ] {head : List (Callout δ α)}
    (reached : (system δ α).Reachable head) :
    head.Pairwise (fun s t => ¬ Conflicting (tripleOf s) (tripleOf t)) ∧
    (∀ calloc prog vers name dispatch (args : α dispatch) ret after,
      pbrpcSvcRegister calloc head prog vers name dispatch args = (ret,after) →
        (ret = 1 ∨ ret = -1 → after = head) ∧
        (after ≠ head → pbrpcSvcUnregister after prog vers name = head)) ∧
    (∀ prog vers name,
      (∃ before s after, head = before ++ s :: after ∧
        Conflicting (tripleOf s) (prog,vers,name) ∧
        (∀ t ∈ before, ¬ Conflicting (tripleOf t) (prog,vers,name)) ∧
        pbrpcSvcUnregister head prog vers name = before ++ after) ∨
      ((∀ s ∈ head, ¬ Conflicting (tripleOf s) (prog,vers,name)) ∧
        pbrpcSvcUnregister head prog vers name = head)) ∧
    ∀ prog vers (name : CString), ∀ s ∈ pbrpcSvcUnregister head prog vers (some name),
      ¬ Conflicting (tripleOf s) (prog,vers,some name) := by
  have apart := reachedNoConflict reached
  refine ⟨apart,?_,?_,?_⟩
  · intro calloc prog vers name dispatch args ret after h
    obtain ⟨_,_,_,same,_⟩ | ⟨_,⟨good,_,added⟩ | ⟨_,_,same⟩⟩ := registerCases h
    · exact ⟨fun _ => same,fun changed => absurd same changed⟩
    · constructor
      · intro h
        rcases h with other | other <;> rw [good] at other <;> cases other
      · intro _
        have own : Conflicting (tripleOf (⟨prog,vers,name,dispatch,args⟩ : Callout δ α)) (prog,vers,name) :=
          ⟨rfl,rfl,Or.inl rfl⟩
        rw [added, unregisterErases]
        exact List.eraseP_cons_of_pos ((matchesIff _ _ _ _).mpr own)
    · exact ⟨fun _ => same,fun changed => absurd same changed⟩
  · intro prog vers name
    cases found : pbrpcSvcFind prog vers name head with
    | none =>
      refine Or.inr ⟨fun s member => (matchesFalse s _ _ _).mp (findNone found s member),?_⟩
      simp only [pbrpcSvcUnregister, found]
    | some r =>
      obtain ⟨before,s,after⟩ := r
      obtain ⟨split,matched,others⟩ := findSome found
      refine Or.inl ⟨before,s,after,split,(matchesIff s _ _ _).mp matched,?_,?_⟩
      · exact fun t member => (matchesFalse t _ _ _).mp (others t member)
      · simp only [pbrpcSvcUnregister, found]
  · intro prog vers name s member
    rw [unregisterErases] at member
    have left := apart.cleared (fun a b first second =>
      ((matchesIff a prog vers (some name)).mp first).across ((matchesIff b _ _ _).mp second)) s member
    exact (matchesFalse s _ _ _).mp left

def twoServices : List (Callout Unit (fun _ => Nat)) :=
  [⟨200002,1,none,(),7⟩,⟨200001,1,some (cstr "Loader.demo"),(),5⟩]

theorem twoReached : (system Unit (fun _ => Nat)).Reachable twoServices :=
  ⟨[],[.register true 200001 1 (some (cstr "Loader.demo")) () 5,.register true 200002 1 none () 7],
    rfl,rfl⟩

theorem twoServicesApart :
    twoServices.Pairwise (fun s t => ¬ Conflicting (tripleOf s) (tripleOf t)) :=
  (registryDiscipline twoReached).1

end VmpRl.Callouts
