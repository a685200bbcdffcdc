import VmpRl.Callouts

/-! Which executor a method name reaches. Registration goes by program, version and name,
`rpc_invoke_call` by the name alone. -/
namespace VmpRl.Registrations
open Octets CRuntime PbrpcMessages PbrpcService Callouts Transition Directory

variable {δ : Type} {α : δ → Type}

def DispatchedTo (head : List (Callout δ α)) (method : CString) (target : (d : δ) × α d) : Prop :=
  ∀ (σ : Type) (P : Platform δ α σ) (id : BitVec 64) (params : Bytes) (w : σ),
    rpcInvokeCall P head (some ⟨id,method,some params⟩) .init w =
      (P.exec target.1 target.2 params w).map (fun r => (r.1,⟨id,r.2.1,none⟩,r.2.2))

def FirstNamed (method : CString) (s : Callout δ α) (head : List (Callout δ α)) : Prop :=
  ∃ before after, head = before ++ s :: after ∧ s.scName = some method ∧
    ∀ t ∈ before, ∃ other, t.scName = some other ∧ other ≠ method

theorem firstNamedCons {method : CString} {s t : Callout δ α} {rest : List (Callout δ α)} :
    FirstNamed method s (t :: rest) ↔ (t = s ∧ s.scName = some method) ∨
      (∃ other, t.scName = some other ∧ other ≠ method) ∧ FirstNamed method s rest := by
  constructor
  · intro h
    obtain ⟨before,after,split,name,others⟩ := h
    cases before with
    | nil =>
      obtain ⟨same,_⟩ := List.cons.inj split
      exact Or.inl ⟨same,name⟩
    | cons u before =>
      obtain ⟨rfl,remaining⟩ := List.cons.inj split
      exact Or.inr ⟨others t List.mem_cons_self,before,after,remaining,name,
        fun u member => others u (List.mem_cons_of_mem _ member)⟩
  · intro h
    rcases h with ⟨rfl,name⟩ | ⟨skipped,before,after,rfl,name,others⟩
    · exact ⟨[],rest,rfl,name,by simp⟩
    · refine ⟨t :: before,after,rfl,name,?_⟩
      intro u member
      rcases List.mem_cons.mp member with rfl | later
      · exact skipped
      · exact others u later

theorem lookupIff {method : CString} {s : Callout δ α} {head : List (Callout δ α)} :
    methodLookup method head = .ok (some s) ↔ FirstNamed method s head := by
  induction head with
  | nil =>
    constructor
    · intro found
      cases found
    · intro h
      obtain ⟨before,after,split,_⟩ := h
      simp at split
  | cons t rest ih =>
    rw [firstNamedCons, ← ih]
    cases name : t.scName with
    | none =>
      simp only [methodLookup, name]
      constructor
      · intro found
        cases found
      · intro h
        rcases h with ⟨rfl,own⟩ | ⟨⟨_,own,_⟩,_⟩
        · rw [name] at own
          cases own
        · cases own
    | some other =>
      by_cases same : method = other
      · simp only [methodLookup, name, if_pos same]
        constructor
        · intro found
          obtain rfl := Option.some.inj (Except.ok.inj found)
          exact Or.inl ⟨rfl,by rw [name, same]⟩
        · intro h
          rcases h with ⟨rfl,_⟩ | ⟨⟨_,own,differs⟩,_⟩
          · rfl
          · exact absurd (same.trans (Option.some.inj own)).symm differs
      · simp only [methodLookup, name, if_neg same]
        constructor
        · intro found
          exact Or.inr ⟨⟨other,rfl,fun equal => same equal.symm⟩,found⟩
        · intro h
          rcases h with ⟨rfl,own⟩ | ⟨_,found⟩
          · exact absurd (Option.some.inj (name.symm.trans own)).symm same
          · exact found

def witnessPlatform (δ : Type) (α : δ → Type) : Platform δ α (Option ((d : δ) × α d)) where
  exec d args _ _ := .ok (0,[],some ⟨d,args⟩)
  calloc w := (true,w)

theorem dispatchedIff {head : List (Callout δ α)} {method : CString} {target : (d : δ) × α d} :
    DispatchedTo head method target ↔ ∃ s, FirstNamed method s head ∧ targetOf s = target := by
  constructor
  · intro dispatched
    have told := dispatched _ (witnessPlatform δ α) 0 [] none
    cases found : methodLookup method head with
    | error stop => simp [rpcInvokeCall, found, bind, Except.bind, witnessPlatform, Except.map] at told
    | ok r =>
      cases r with
      | none => simp [rpcInvokeCall, found, bind, Except.bind, witnessPlatform, Except.map] at told
      | some s =>
        simp only [rpcInvokeCall, found, bind, Except.bind, witnessPlatform, Except.map] at told
        have ran := congrArg (fun r => r.2.2) (Except.ok.inj told)
        exact ⟨s,lookupIff.mp found,Option.some.inj ran⟩
  · intro h σ P id params w
    obtain ⟨s,first,rfl⟩ := h
    have found := lookupIff.mpr first
    simp only [rpcInvokeCall, found, bind, Except.bind, targetOf]
    cases P.exec s.dispatch s.scArgs params w with
    | error stop => rfl
    | ok r => rfl

theorem addedReached {s : Callout δ α} {head : List (Callout δ α)} {method : CString}
    {target : (d : δ) × α d} : DispatchedTo (s :: head) method target ↔
      (s.scName = some method ∧ targetOf s = target) ∨
        (∃ other, s.scName = some other ∧ other ≠ method) ∧ DispatchedTo head method target := by
  rw [dispatchedIff, dispatchedIff]
  constructor
  · intro h
    obtain ⟨t,first,same⟩ := h
    rcases firstNamedCons.mp first with ⟨rfl,name⟩ | ⟨skipped,later⟩
    · exact Or.inl ⟨name,same⟩
    · exact Or.inr ⟨skipped,t,later,same⟩
  · intro h
    rcases h with ⟨name,same⟩ | ⟨skipped,t,later,same⟩
    · exact ⟨s,firstNamedCons.mpr (Or.inl ⟨rfl,name⟩),same⟩
    · exact ⟨t,firstNamedCons.mpr (Or.inr ⟨skipped,later⟩),same⟩

theorem dispatchedOnce {head : List (Callout δ α)} {method : CString} {a b : (d : δ) × α d}
    (left : DispatchedTo head method a) (right : DispatchedTo head method b) : a = b := by
  obtain ⟨s,first,rfl⟩ := dispatchedIff.mp left
  obtain ⟨t,second,rfl⟩ := dispatchedIff.mp right
  have same := (lookupIff.mpr first).symm.trans (lookupIff.mpr second)
  rw [Option.some.inj (Except.ok.inj same)]

/- A registration that reports success takes effect exactly when no entry conflicted with it,
or the name already reached the dispatch function and the args it gave. -/
theorem takesEffectExactly [DecidableEq δ] {head after : List (Callout δ α)} {calloc : Bool}
    {prog vers : BitVec 32} {name : CString} {dispatch : δ} {args : α dispatch}
    (registered : pbrpcSvcRegister calloc head prog vers (some name) dispatch args = (0,after)) :
    DispatchedTo after name ⟨dispatch,args⟩ ↔
      (∀ s ∈ head, ¬ Conflicting (tripleOf s) (prog,vers,some name)) ∨
        ∃ s, FirstNamed name s head ∧ targetOf s = ⟨dispatch,args⟩ := by
  obtain ⟨s,member,matched,rfl,_⟩ | ⟨fresh,⟨_,_,rfl⟩ | ⟨failed,_,_⟩⟩ := registerCases registered
  · have clash := (matchesIff s _ _ _).mp matched
    rw [dispatchedIff]
    constructor
    · exact Or.inr
    · intro h
      rcases h with none | known
      · exact absurd clash (none s member)
      · exact known
  · constructor
    · intro _
      exact Or.inl (fun s member => (matchesFalse s _ _ _).mp (fresh s member))
    · intro _
      exact addedReached.mpr (Or.inl ⟨rfl,rfl⟩)
  · cases failed

def vmonOnce : List (Callout Unit (fun _ => Nat)) := [⟨200003,1,some (cstr "Loader.vmon"),(),5⟩]

def withOthers : List (Callout Unit (fun _ => Nat)) := ⟨200001,1,some (cstr "Loader.demo"),(),4⟩ :: vmonOnce

theorem freshTakesEffect : DispatchedTo (⟨200004,1,some (cstr "Loader.node_state"),(),6⟩ :: withOthers)
    (cstr "Loader.node_state") ⟨(),6⟩ := by
  have registered : pbrpcSvcRegister (α := fun _ => Nat) true withOthers 200004 1 (some (cstr "Loader.node_state"))
    () 6 = (0,⟨200004,1,some (cstr "Loader.node_state"),(),6⟩ :: withOthers) := rfl
  refine (takesEffectExactly registered).mpr (Or.inl ?_)
  intro s member clash
  have one : s = ⟨200001,1,some (cstr "Loader.demo"),(),4⟩ ∨ s = ⟨200003,1,some (cstr "Loader.vmon"),(),5⟩ := by
    simpa [withOthers, vmonOnce] using member
  rcases one with rfl | rfl
  · exact absurd clash.1 (by decide)
  · exact absurd clash.1 (by decide)

theorem secondIgnored :
    ((system Unit (fun _ => Nat)).Reachable vmonOnce ∧
      pbrpcSvcRegister true vmonOnce 200003 1 (some (cstr "Loader.vmon")) () 8 = (0,vmonOnce) ∧
      ¬ DispatchedTo vmonOnce (cstr "Loader.vmon") ⟨(),8⟩) ∧
    (system Unit (fun _ => Nat)).Reachable [⟨200003,1,none,(),5⟩] ∧
    pbrpcSvcRegister (α := fun _ => Nat) true [⟨200003,1,none,(),5⟩] 200003 1
      (some (cstr "Loader.vmon")) () 5 = (0,[⟨200003,1,none,(),5⟩]) ∧
    ¬ DispatchedTo (α := fun _ => Nat) [⟨200003,1,none,(),5⟩] (cstr "Loader.vmon") ⟨(),5⟩ := by
  refine ⟨⟨⟨[],[.register true 200003 1 (some (cstr "Loader.vmon")) () 5],rfl,rfl⟩,rfl,?_⟩,
    ⟨[],[.register true 200003 1 none () 5],rfl,rfl⟩,rfl,?_⟩
  · intro taken
    have old : DispatchedTo vmonOnce (cstr "Loader.vmon") ⟨(),5⟩ := addedReached.mpr (Or.inl ⟨rfl,rfl⟩)
    cases dispatchedOnce taken old
  · intro taken
    rcases addedReached.mp taken with ⟨own,_⟩ | ⟨⟨_,own,_⟩,_⟩
    · cases own
    · cases own

def namedSystem (δ : Type) (α : δ → Type) [DecidableEq δ] :
    System (List (Callout δ α)) (SvcCall δ α) :=
  ⟨(· = []),fun head call => if call.name = none then none else some (callStep head call)⟩

def AllNamed (head : List (Callout δ α)) : Prop := ∀ s ∈ head, s.scName ≠ none

theorem AllNamed.call [DecidableEq δ] {head : List (Callout δ α)} (names : AllNamed head)
    {call : SvcCall δ α} (named : call.name ≠ none) : AllNamed (callStep head call) := by
  cases call with
  | register calloc prog vers name dispatch args =>
    cases ran : pbrpcSvcRegister calloc head prog vers name dispatch args with
    | mk ret after =>
      simp only [callStep, ran]
      obtain ⟨_,_,_,rfl,_⟩ | ⟨_,⟨_,_,rfl⟩ | ⟨_,_,rfl⟩⟩ := registerCases ran
      · exact names
      · intro s member
        rcases List.mem_cons.mp member with rfl | old
        · exact named
        · exact names s old
      · exact names
  | unregister prog vers name =>
    rw [callStep, unregisterErases]
    exact fun s member => names s (List.mem_of_mem_eraseP member)

theorem reachedNamed [DecidableEq δ] {head : List (Callout δ α)}
    (reached : (namedSystem δ α).Reachable head) : AllNamed head := by
  apply (namedSystem δ α).reachableInvariant (J := AllNamed) _ _ reached
  · intro s started
    rw [started]
    simp [AllNamed]
  · intro s call t names taken
    simp only [namedSystem] at taken
    split at taken
    · cases taken
    · rename_i named
      cases Option.some.inj taken
      exact names.call named

structure Registration (δ : Type) (α : δ → Type) where
  calloc : Bool
  prog : BitVec 32
  vers : BitVec 32
  name : CString
  dispatch : δ
  args : α dispatch

def Registration.triple (r : Registration δ α) : Triple := (r.prog,r.vers,some r.name)
def Registration.target (r : Registration δ α) : (d : δ) × α d := ⟨r.dispatch,r.args⟩
def Registration.entry (r : Registration δ α) : Callout δ α :=
  ⟨r.prog,r.vers,some r.name,r.dispatch,r.args⟩

def registerAll [DecidableEq δ] (head : List (Callout δ α)) (regs : List (Registration δ α)) :
    List (Callout δ α) :=
  regs.foldl (fun head r =>
    (pbrpcSvcRegister r.calloc head r.prog r.vers (some r.name) r.dispatch r.args).2) head

def Registration.adds (head : List (Callout δ α)) (r : Registration δ α) : Bool :=
  r.calloc && head.all (fun s => !s.matches r.prog r.vers (some r.name))

theorem registerOne [DecidableEq δ] (head : List (Callout δ α)) (r : Registration δ α) :
    (pbrpcSvcRegister r.calloc head r.prog r.vers (some r.name) r.dispatch r.args).2 =
      if r.adds head then r.entry :: head else head := by
  cases ran : pbrpcSvcRegister r.calloc head r.prog r.vers (some r.name) r.dispatch r.args with
  | mk ret after =>
    obtain ⟨s,member,matched,rfl,_⟩ | ⟨fresh,⟨_,memory,rfl⟩ | ⟨_,memory,rfl⟩⟩ := registerCases ran
    · have taken : r.adds after = false := by
        simp only [Registration.adds, Bool.and_eq_false_iff, List.all_eq_false]
        exact Or.inr ⟨s,member,by simp [matched]⟩
      simp [taken]
    · have free : r.adds head = true := by simpa [Registration.adds, memory] using fresh
      simp [free, Registration.entry]
    · have starved : r.adds after = false := by simp [Registration.adds, memory]
      simp [starved]

theorem addsLater [DecidableEq δ] {head : List (Callout δ α)} {r t : Registration δ α}
    (distinct : r.triple ≠ t.triple) : t.adds (r.entry :: head) = t.adds head := by
  have other : r.entry.matches t.prog t.vers (some t.name) = false := by
    rw [matchesFalse]
    intro h
    obtain ⟨prog,vers,same | null | null⟩ := h
    · exact distinct (Prod.ext prog (Prod.ext vers same))
    · cases null
    · cases null
  simp [Registration.adds, other]

theorem registerAllAdds [DecidableEq δ] {regs : List (Registration δ α)} (head : List (Callout δ α))
    (distinct : (regs.map Registration.triple).Nodup) : registerAll head regs =
      ((regs.filter (fun r => r.adds head)).map Registration.entry).reverse ++ head := by
  induction regs generalizing head with
  | nil => rfl
  | cons r rest ih =>
    obtain ⟨fresh,others⟩ := List.nodup_cons.mp distinct
    have later : registerAll head (r :: rest) =
        registerAll (if r.adds head then r.entry :: head else head) rest := by
      rw [← registerOne]
      rfl
    rw [later, ih _ others]
    cases added : r.adds head with
    | false => simp [added]
    | true =>
      have same : rest.filter (fun t => t.adds (r.entry :: head)) = rest.filter (fun t => t.adds head) := by
        apply List.filter_congr
        intro t member
        exact addsLater (fun equal => fresh (List.mem_map.mpr ⟨t,member,equal.symm⟩))
      simp [added, same]

theorem addedAllReached {added : List (Registration δ α)} {head : List (Callout δ α)}
    {method : CString} {target : (d : δ) × α d} :
    DispatchedTo (added.map Registration.entry ++ head) method target ↔
      (added.find? (fun r => r.name = method)).map Registration.target = some target ∨
        (added.find? (fun r => r.name = method)).map Registration.target = none ∧
          DispatchedTo head method target := by
  induction added with
  | nil => simp
  | cons r rest ih =>
    rw [List.map_cons, List.cons_append, addedReached, ih]
    by_cases same : r.name = method
    · simp [same, Registration.entry, Registration.target, targetOf]
    · simp [same, Registration.entry]

theorem lastReached [DecidableEq δ] {regs : List (Registration δ α)} {head : List (Callout δ α)}
    (distinct : (regs.map Registration.triple).Nodup) {r : Registration δ α} (member : r ∈ regs)
    (adds : r.adds head = true) :
    ∃ order, order.Perm regs ∧ DispatchedTo (registerAll head order) r.name r.target := by
  obtain ⟨before,after,rfl⟩ := List.append_of_mem member
  have order : (before ++ after ++ [r]).Perm (before ++ r :: after) := by
    rw [List.append_assoc]
    exact (List.perm_append_singleton r after).append_left before
  refine ⟨_,order,?_⟩
  rw [registerAllAdds head ((order.map Registration.triple).nodup_iff.mpr distinct),
    ← List.map_reverse, addedAllReached, List.filter_append]
  exact Or.inl (by simp [adds])

/- The order of registrations with distinct triples does not show exactly when those that add
an entry under one name give it one executor with the same args. -/
theorem orderFree [DecidableEq δ] (head : List (Callout δ α)) {regs : List (Registration δ α)}
    (distinct : (regs.map Registration.triple).Nodup) :
    (∀ order : List (Registration δ α), order.Perm regs → ∀ method target,
      DispatchedTo (registerAll head order) method target ↔
        DispatchedTo (registerAll head regs) method target) ↔
    ∀ r ∈ regs, ∀ t ∈ regs, r.adds head = true → t.adds head = true → r.name = t.name →
      r.target = t.target := by
  constructor
  · intro free r left t right adds adds' name
    obtain ⟨order,perm,reached⟩ := lastReached distinct left adds
    obtain ⟨order',perm',reached'⟩ := lastReached distinct right adds'
    rw [← name] at reached'
    exact dispatchedOnce ((free order perm _ _).mp reached) ((free order' perm' _ _).mp reached')
  · intro agree order perm method target
    have same : ((order.filter (fun r => r.adds head)).reverse).Perm
        (regs.filter (fun r => r.adds head)).reverse :=
      (List.reverse_perm _).trans ((perm.filter _).trans (List.reverse_perm _).symm)
    have found := findPerm (p := fun r => decide (r.name = method)) (f := Registration.target) same (by
      intro r left t right named named'
      obtain ⟨there,adds⟩ := List.mem_filter.mp (List.mem_reverse.mp left)
      obtain ⟨there',adds'⟩ := List.mem_filter.mp (List.mem_reverse.mp right)
      have name : r.name = t.name := (of_decide_eq_true named).trans (of_decide_eq_true named').symm
      exact agree r (perm.mem_iff.mp there) t (perm.mem_iff.mp there') adds adds' name)
    rw [registerAllAdds head distinct,
      registerAllAdds head ((perm.map Registration.triple).nodup_iff.mpr distinct),
      ← List.map_reverse, ← List.map_reverse, addedAllReached, addedAllReached, found]

theorem answerKept [DecidableEq δ] {head : List (Callout δ α)} {method : CString} {E : Callout δ α}
    (first : FirstNamed method E head) (calloc : Bool) (prog vers : BitVec 32) (name : Option CString)
    (dispatch : δ) (args : α dispatch) :
    DispatchedTo (pbrpcSvcRegister calloc head prog vers name dispatch args).2 method (targetOf E) ↔
      (∃ s ∈ head, Conflicting (tripleOf s) (prog,vers,name)) ∨ calloc = false ∨
        (name ≠ none ∧ name ≠ some method) ∨
        (name = some method ∧ (⟨dispatch,args⟩ : (d : δ) × α d) = targetOf E) := by
  have answers : DispatchedTo head method (targetOf E) := dispatchedIff.mpr ⟨E,first,rfl⟩
  cases ran : pbrpcSvcRegister calloc head prog vers name dispatch args with
  | mk ret after =>
    obtain ⟨s,member,matched,rfl,_⟩ | ⟨fresh,⟨_,rfl,rfl⟩ | ⟨_,rfl,rfl⟩⟩ := registerCases ran
    · have clash := (matchesIff s _ _ _).mp matched
      exact ⟨fun _ => Or.inl ⟨s,member,clash⟩,fun _ => answers⟩
    · rw [addedReached]
      constructor
      · intro h
        rcases h with ⟨own,same⟩ | ⟨⟨other,own,differs⟩,_⟩
        · exact Or.inr (Or.inr (Or.inr ⟨own,same⟩))
        · have named : name = some other := own
          refine Or.inr (Or.inr (Or.inl ?_))
          rw [named]
          exact ⟨Option.some_ne_none other,fun same => differs (Option.some.inj same)⟩
      · intro h
        rcases h with ⟨s,member,clash⟩ | none | ⟨named,differs⟩ | ⟨own,same⟩
        · exact absurd clash ((matchesFalse s _ _ _).mp (fresh s member))
        · cases none
        · obtain ⟨other,own⟩ := Option.ne_none_iff_exists'.mp named
          rw [own] at differs
          exact Or.inr ⟨⟨other,own,fun same => differs (congrArg some same)⟩,answers⟩
        · exact Or.inl ⟨own,same⟩
    · exact ⟨fun _ => Or.inr (Or.inl rfl),fun _ => answers⟩

/- Registrations leave each other's names alone exactly when none adds an entry under a name
that is already answered, unless it brings the same executor and args; the same holds of the
order in which they are made. -/
theorem undisturbedExactly [DecidableEq δ] {head : List (Callout δ α)}
    (reached : (namedSystem δ α).Reachable head) :
    (∀ before E after method, head = before ++ E :: after → E.scName = some method →
      (∀ t ∈ before, t.scName ≠ some method) →
      DispatchedTo head method (targetOf E) ∧
      ∀ calloc prog vers name dispatch (args : α dispatch),
        (DispatchedTo (pbrpcSvcRegister calloc head prog vers name dispatch args).2 method (targetOf E) ↔
          (∃ s ∈ head, Conflicting (tripleOf s) (prog,vers,name)) ∨ calloc = false ∨
            (name ≠ none ∧ name ≠ some method) ∨
            (name = some method ∧ (⟨dispatch,args⟩ : (d : δ) × α d) = targetOf E))) ∧
    ∀ regs : List (Registration δ α), (regs.map Registration.triple).Nodup →
      ((∀ order : List (Registration δ α), order.Perm regs → ∀ method target,
        DispatchedTo (registerAll head order) method target ↔
          DispatchedTo (registerAll head regs) method target) ↔
      ∀ r ∈ regs, ∀ t ∈ regs, r.adds head = true → t.adds head = true → r.name = t.name →
        r.target = t.target) := by
  have names := reachedNamed reached
  constructor
  · intro before E after method split name others
    have first : FirstNamed method E head := by
      refine ⟨before,after,split,name,?_⟩
      intro t member
      obtain ⟨other,own⟩ := Option.ne_none_iff_exists'.mp (names t (by rw [split]; simp [member]))
      exact ⟨other,own,fun same => others t member (by rw [own, same])⟩
    exact ⟨dispatchedIff.mpr ⟨E,first,rfl⟩,answerKept first⟩
  · intro regs distinct
    exact orderFree head distinct

def demoOnly : List (Callout Unit (fun _ => Nat)) := [⟨200001,1,some (cstr "Loader.demo"),(),5⟩]

theorem demoOnlyReached : (namedSystem Unit (fun _ => Nat)).Reachable demoOnly :=
  ⟨[],[.register true 200001 1 (some (cstr "Loader.demo")) () 5],rfl,rfl⟩

theorem otherNameUndisturbed :
    DispatchedTo (pbrpcSvcRegister true demoOnly 200003 1 (some (cstr "Loader.vmon")) () 7).2
      (cstr "Loader.demo") ⟨(),5⟩ := by
  have kept := ((undisturbedExactly demoOnlyReached).1 [] _ [] _ rfl rfl (by simp)).2 true 200003 1
    (some (cstr "Loader.vmon")) () 7
  exact kept.mpr (Or.inr (Or.inr (Or.inl ⟨Option.some_ne_none _,by decide⟩)))

theorem sameNameShadowed :
    (namedSystem Unit (fun _ => Nat)).Reachable demoOnly ∧
    DispatchedTo demoOnly (cstr "Loader.demo") ⟨(),5⟩ ∧
    (pbrpcSvcRegister true demoOnly 200000 1 (some (cstr "Loader.demo")) () 0).1 = 0 ∧
    ¬ DispatchedTo (pbrpcSvcRegister true demoOnly 200000 1 (some (cstr "Loader.demo")) () 0).2
      (cstr "Loader.demo") ⟨(),5⟩ := by
  have first : FirstNamed (cstr "Loader.demo") ⟨200001,1,some (cstr "Loader.demo"),(),5⟩ demoOnly :=
    ⟨[],[],rfl,rfl,by simp⟩
  refine ⟨demoOnlyReached,dispatchedIff.mpr ⟨_,first,rfl⟩,rfl,?_⟩
  intro kept
  have shadowing : DispatchedTo (pbrpcSvcRegister true demoOnly 200000 1
      (some (cstr "Loader.demo")) () 0).2 (cstr "Loader.demo") ⟨(),0⟩ :=
    addedReached.mpr (Or.inl ⟨rfl,rfl⟩)
  cases dispatchedOnce kept shadowing

end VmpRl.Registrations
