import VmpRl.Base.Allocation
import VmpRl.Base.Chain
import VmpRl.Base.Scan
import VmpRl.Callouts

/-! The callouts of a service as the chain of calloc'd entries behind `svc_head` that they are, with the loops over
it, the entries that come and the ones that are freed. -/
namespace VmpRl.CalloutChain
open Octets CRuntime PbrpcService Scan Chains Allocation

variable {γ δ : Type} {α : δ → Type}

abbrev Entries (γ δ : Type) (α : δ → Type) := Links γ (Callout δ α)

structure Svc (γ δ : Type) (α : δ → Type) where
  entries : Entries γ δ α
  svcHead : Option γ
  allocated : Nat

def Svc.new : Svc γ δ α := ⟨fun _ => none,none,0⟩

structure Walk (γ : Type) where
  s : Option γ
  p : Option γ

def findRound (h : Entries γ δ α) (prog vers : BitVec 32) (name : Option CString) (w : Walk γ) :
    Run (Round (Walk γ) (Walk γ)) := match w.s with
  | none => .ok (.over w)
  | some s => do
    let callout ← present (h s)
    .ok (if callout.value.matches prog vers name then .over w else .again ⟨callout.next,some s⟩)

def pbrpcSvcFind (svc : Svc γ δ α) (prog vers : BitVec 32) (name : Option CString) : Run (Walk γ) :=
  loop (findRound svc.entries prog vers name) .endless (svc.allocated + 1) ⟨svc.svcHead,none⟩

section
variable [DecidableEq γ] [DecidableEq δ]

/- The fields of the new entry are written one by one; none is read before all are. -/
def pbrpcSvcRegister (M : Malloc γ (Link γ (Callout δ α))) (svc : Svc γ δ α) (prog vers : BitVec 32) (name : Option CString)
    (dispatch : δ) (args : α dispatch) : Run (Int × Svc γ δ α) := do
  let found ← pbrpcSvcFind svc prog vers name
  match found.s with
  | some s =>
    let callout ← present (svc.entries s)
    .ok (if callout.value.dispatch = dispatch then 0 else 1,svc)
  | none =>
    let counted := {svc with allocated := svc.allocated + 1}
    match M.give svc.allocated svc.entries with
    | none => .ok (-1,counted)
    | some s => .ok (0,{counted with
        entries := Function.update svc.entries s (some ⟨svc.svcHead,⟨prog,vers,name,dispatch,args⟩⟩), svcHead := some s})

def freeEntry (h : Entries γ δ α) (s : γ) : Run (Entries γ δ α) := do
  let _ ← present (h s)
  .ok (Function.update h s none)

def pbrpcSvcUnregister (svc : Svc γ δ α) (prog vers : BitVec 32) (name : Option CString) : Run (Svc γ δ α) := do
  let found ← pbrpcSvcFind svc prog vers name
  match found.s with
  | none => .ok svc
  | some s =>
    let callout ← present (svc.entries s)
    let svc ← match found.p with
      | none => .ok {svc with svcHead := callout.next}
      | some p => do
        let prev ← present (svc.entries p)
        .ok {svc with entries := Function.update svc.entries p (some ⟨callout.next,prev.value⟩)}
    let entries := Function.update svc.entries s (some ⟨none,callout.value⟩)
    let entries ← freeEntry entries s
    .ok {svc with entries := entries}

end

def lookupRound (h : Entries γ δ α) (method : CString) (s : Option γ) : Run (Round (Option γ) (Option γ)) :=
  match s with
  | none => .ok (.over none)
  | some a => do
    let callout ← present (h a)
    match callout.value.scName with
    | none => .error .nullDeref
    | some name => .ok (if method = name then .over (some a) else .again callout.next)

def methodLookup (svc : Svc γ δ α) (method : CString) : Run (Option (Callout δ α)) := do
  match ← loop (lookupRound svc.entries method) .endless (svc.allocated + 1) svc.svcHead with
  | none => .ok none
  | some s =>
    let callout ← present (svc.entries s)
    .ok (some callout.value)

inductive Event (δ : Type) (α : δ → Type) where
  | register (prog vers : BitVec 32) (name : Option CString) (dispatch : δ) (args : α dispatch)
  | unregister (prog vers : BitVec 32) (name : Option CString)
  | invoke (method : CString)

inductive Outcome (δ : Type) (α : δ → Type) where
  | ret (value : Int)
  | done
  | found (callout : Option (Callout δ α))

section
variable [DecidableEq γ] [DecidableEq δ]

def event (M : Malloc γ (Link γ (Callout δ α))) (svc : Svc γ δ α) : Event δ α → Run (Outcome δ α × Svc γ δ α)
  | .register prog vers name dispatch args => do
    let made ← pbrpcSvcRegister M svc prog vers name dispatch args
    .ok (.ret made.1,made.2)
  | .unregister prog vers name => do
    let svc ← pbrpcSvcUnregister svc prog vers name
    .ok (.done,svc)
  | .invoke method => do
    let callout ← methodLookup svc method
    .ok (.found callout,svc)

def runEvents (M : Malloc γ (Link γ (Callout δ α))) : Svc γ δ α → List (Event δ α) → Run (List (Outcome δ α) × Svc γ δ α)
  | svc, [] => .ok ([],svc)
  | svc, next :: rest => do
    let first ← event M svc next
    let later ← runEvents M first.2 rest
    .ok (first.1 :: later.1,later.2)

end

abbrev Listed (δ : Type) (α : δ → Type) := Nat × List (Callout δ α)

def listEvent [DecidableEq δ] (gives : Nat → Bool) (s : Listed δ α) : Event δ α → Run (Outcome δ α × Listed δ α)
  | .register prog vers name dispatch args =>
    let made := PbrpcService.pbrpcSvcRegister (gives s.1) s.2 prog vers name dispatch args
    .ok (.ret made.1,if (PbrpcService.pbrpcSvcFind prog vers name s.2).isSome then s.1 else s.1 + 1,made.2)
  | .unregister prog vers name => .ok (.done,s.1,PbrpcService.pbrpcSvcUnregister s.2 prog vers name)
  | .invoke method => (PbrpcService.methodLookup method s.2).map (fun callout => (.found callout,s))

def listEvents [DecidableEq δ] (gives : Nat → Bool) :
    Listed δ α → List (Event δ α) → Run (List (Outcome δ α) × Listed δ α)
  | s, [] => .ok ([],s)
  | s, next :: rest => do
    let first ← listEvent gives s next
    let later ← listEvents gives first.2 rest
    .ok (first.1 :: later.1,later.2)

structure Stands (svc : Svc γ δ α) (cells : List (γ × Callout δ α)) : Prop where
  chained : Chained svc.entries svc.svcHead cells
  only : ∀ a, (svc.entries a).isSome = true → a ∈ cells.map Prod.fst
  enough : cells.length ≤ svc.allocated

theorem newStands : Stands (Svc.new : Svc γ δ α) [] :=
  ⟨rfl,fun _ there => absurd there (by simp [Svc.new]),Nat.le_refl 0⟩

section Find
variable {h : Entries γ δ α} {prog vers : BitVec 32} {name : Option CString}

theorem findPasses {before rest : List (γ × Callout δ α)} {start : Option γ} (p : Option γ) (fuel : Nat)
    (chained : Chained h start (before ++ rest))
    (others : ∀ cell ∈ before, cell.2.matches prog vers name = false) :
    ∃ link, Chained h link rest ∧
      loop (findRound h prog vers name) .endless (before.length + fuel) ⟨start,p⟩ =
        loop (findRound h prog vers name) .endless fuel ⟨link,(before.getLast?.map Prod.fst).or p⟩ := by
  induction before generalizing start p with
  | nil => exact ⟨start,chained,by simp⟩
  | cons cell before ih =>
    obtain ⟨first,next,here,later⟩ := chained
    obtain ⟨link,tail,went⟩ := ih (some cell.1) later (fun other member => others other (List.mem_cons_of_mem _ member))
    refine ⟨link,tail,?_⟩
    have no := others cell List.mem_cons_self
    have round : findRound h prog vers name ⟨start,p⟩ = .ok (.again ⟨next,some cell.1⟩) := by
      simp [findRound, first, here, present, bind, Except.bind, no]
    have last : ((cell :: before).getLast?.map Prod.fst).or p = (before.getLast?.map Prod.fst).or (some cell.1) := by
      cases before with
      | nil => rfl
      | cons other others =>
        rw [List.getLast?_cons_cons]
        simp [List.getLast?_cons]
    rw [last, ← went, List.length_cons, Nat.add_right_comm, loop, round]

variable {svc : Svc γ δ α} {cells : List (γ × Callout δ α)}

theorem findMisses (stands : Stands svc cells)
    (missed : PbrpcService.pbrpcSvcFind prog vers name (cells.map Prod.snd) = none) :
    ∃ p, pbrpcSvcFind svc prog vers name = .ok ⟨none,p⟩ := by
  have others : ∀ cell ∈ cells, cell.2.matches prog vers name = false :=
    fun cell member => Callouts.findNone missed cell.2 (List.mem_map_of_mem member)
  obtain ⟨fuel,rounds⟩ := Nat.exists_eq_add_of_le stands.enough
  have whole : Chained svc.entries svc.svcHead (cells ++ []) := by
    rw [List.append_nil]
    exact stands.chained
  obtain ⟨link,ends,went⟩ := findPasses none (fuel + 1) whole others
  refine ⟨(cells.getLast?.map Prod.fst).or none,?_⟩
  rw [pbrpcSvcFind, rounds, Nat.add_assoc, went, loop]
  simp only [findRound, show link = none from ends]

theorem findFinds (stands : Stands svc cells) {left right : List (Callout δ α)} {callout : Callout δ α}
    (found : PbrpcService.pbrpcSvcFind prog vers name (cells.map Prod.snd) = some (left,callout,right)) :
    ∃ before a after, cells = before ++ (a,callout) :: after ∧ before.map Prod.snd = left ∧ after.map Prod.snd = right ∧
      pbrpcSvcFind svc prog vers name = .ok ⟨some a,before.getLast?.map Prod.fst⟩ := by
  obtain ⟨split,matched,others⟩ := Callouts.findSome found
  obtain ⟨before,tail,rfl,earlier,rest⟩ := List.map_eq_append_iff.mp split
  obtain ⟨cell,after,rfl,here,later⟩ := List.map_eq_cons_iff.mp rest
  have silent : ∀ cell ∈ before, cell.2.matches prog vers name = false :=
    fun cell member => others cell.2 (earlier ▸ List.mem_map_of_mem member)
  have enough := stands.enough
  rw [List.length_append, List.length_cons] at enough
  obtain ⟨fuel,rounds⟩ := Nat.exists_eq_add_of_le (show before.length ≤ svc.allocated by omega)
  obtain ⟨link,tail,went⟩ := findPasses none (fuel + 1) stands.chained silent
  obtain ⟨first,next,there,_⟩ := tail
  refine ⟨before,cell.1,after,by rw [← here],earlier,later,?_⟩
  rw [pbrpcSvcFind, rounds, Nat.add_assoc, went, loop]
  simp [findRound, first, there, present, bind, Except.bind, here, matched]

end Find

def Simulates {β : Type} (ran : Run (β × Svc γ δ α)) (listed : Run (β × Listed δ α)) : Prop := match listed with
  | .error stop => ran = .error stop
  | .ok (out,allocated,head) => ∃ svc cells, ran = .ok (out,svc) ∧ svc.allocated = allocated ∧
      cells.map Prod.snd = head ∧ Stands svc cells

section Steps
variable {svc : Svc γ δ α} {cells : List (γ × Callout δ α)}

theorem lookupWalks {h : Entries γ δ α} {start : Option γ} (chained : Chained h start cells) (method : CString)
    (fuel : Nat) (enough : cells.length < fuel) :
    (do match ← loop (lookupRound h method) .endless fuel start with
        | none => .ok none
        | some s =>
          let callout ← present (h s)
          .ok (some callout.value)) = PbrpcService.methodLookup method (cells.map Prod.snd) := by
  induction cells generalizing start fuel with
  | nil =>
    obtain ⟨fuel,rfl⟩ := Nat.exists_eq_succ_of_ne_zero (Nat.ne_zero_of_lt enough)
    simp only [show start = none from chained, loop, lookupRound, bind, Except.bind]
    rfl
  | cons cell rest ih =>
    obtain ⟨fuel,rfl⟩ := Nat.exists_eq_succ_of_ne_zero (Nat.ne_zero_of_lt enough)
    obtain ⟨first,next,here,later⟩ := chained
    have tail := ih later fuel (by rw [List.length_cons] at enough; omega)
    cases named : cell.2.scName with
    | none => simp [loop, lookupRound, first, here, present, bind, Except.bind, named, PbrpcService.methodLookup]
    | some name =>
      by_cases same : method = name
      · simp [loop, lookupRound, first, here, present, bind, Except.bind, named, PbrpcService.methodLookup, same]
      · have round : lookupRound h method start = .ok (.again next) := by
          simp [lookupRound, first, here, present, bind, Except.bind, named, same]
        rw [loop, round, tail, List.map_cons, PbrpcService.methodLookup, named]
        simp [same]

theorem lookupStands (stands : Stands svc cells) (method : CString) :
    methodLookup svc method = PbrpcService.methodLookup method (cells.map Prod.snd) :=
  lookupWalks stands.chained method _ (Nat.lt_succ_of_le stands.enough)

variable [DecidableEq γ]

theorem freedStands {entries : Entries γ δ α} {svcHead : Option γ} {allocated : Nat} (before : List (γ × Callout δ α))
    {after : List (γ × Callout δ α)} {a : γ} (link : Link γ (Callout δ α)) (chained : Chained entries svcHead (before ++ after))
    (only : ∀ b, (entries b).isSome = true → b = a ∨ b ∈ (before ++ after).map Prod.fst)
    (outside : a ∉ (before ++ after).map Prod.fst) (enough : (before ++ after).length ≤ allocated) :
    ∃ entries', freeEntry (Function.update entries a (some link)) a = .ok entries' ∧
      Stands ⟨entries',svcHead,allocated⟩ (before ++ after) := by
  have gone := chainedOutside (chainedOutside chained outside (some link)) outside none
  refine ⟨Function.update (Function.update entries a (some link)) a none,?_,gone,?_,enough⟩
  · simp only [freeEntry, Function.update_self, present, bind, Except.bind]
  · intro b there
    by_cases same : b = a
    · simp [same] at there
    · simp only [Function.update_of_ne same] at there
      exact (only b there).resolve_left same

theorem unregisterStands (stands : Stands svc cells) (prog vers : BitVec 32) (name : Option CString) :
    ∃ svc' cells', pbrpcSvcUnregister svc prog vers name = .ok svc' ∧
      cells'.map Prod.snd = PbrpcService.pbrpcSvcUnregister (cells.map Prod.snd) prog vers name ∧
      svc'.allocated = svc.allocated ∧ Stands svc' cells' := by
  cases found : PbrpcService.pbrpcSvcFind prog vers name (cells.map Prod.snd) with
  | none =>
    obtain ⟨p,walked⟩ := findMisses stands found
    refine ⟨svc,cells,?_,?_,rfl,stands⟩
    · simp [pbrpcSvcUnregister, walked, bind, Except.bind]
    · simp [PbrpcService.pbrpcSvcUnregister, found]
  | some parts =>
    obtain ⟨left,callout,right⟩ := parts
    obtain ⟨before,a,after,split,earlier,later,walked⟩ := findFinds stands found
    have listed : (before ++ after).map Prod.snd =
        PbrpcService.pbrpcSvcUnregister (cells.map Prod.snd) prog vers name := by
      simp only [PbrpcService.pbrpcSvcUnregister, found, List.map_append, earlier, later]
    have chained : Chained svc.entries svc.svcHead (before ++ (a,callout) :: after) := split ▸ stands.chained
    have outside : a ∉ (before ++ after).map Prod.fst := by
      have apart := chainedApart chained
      rw [List.map_append, List.map_cons] at apart
      rw [List.map_append]
      exact (List.nodup_cons.mp (List.perm_middle.nodup_iff.mp apart)).1
    have only : ∀ b, (svc.entries b).isSome = true → b = a ∨ b ∈ (before ++ after).map Prod.fst := by
      intro b there
      have member := split ▸ stands.only b there
      simp only [List.map_append, List.map_cons, List.mem_append, List.mem_cons] at member ⊢
      tauto
    have room : (before ++ after).length ≤ svc.allocated := by
      have enough := stands.enough
      rw [split] at enough
      simp only [List.length_append, List.length_cons] at enough ⊢
      omega
    rcases List.eq_nil_or_concat' before with rfl | ⟨others,p,rfl⟩
    · obtain ⟨_,next,here,rest⟩ := chained
      obtain ⟨entries',freed,stands'⟩ := freedStands [] ⟨none,callout⟩ rest only outside room
      refine ⟨⟨entries',next,svc.allocated⟩,_,?_,listed,rfl,stands'⟩
      simp only [pbrpcSvcUnregister, walked, here, present, bind, Except.bind, List.getLast?_nil, Option.map_none, freed]
    · rw [List.append_assoc] at chained
      obtain ⟨next,here,prev,passed⟩ := chainedPassed chained
      have notP : a ≠ p.1 := by
        intro same
        apply outside
        simp [same]
      have still : ∀ b, (Function.update svc.entries p.1 (some ⟨next,p.2⟩) b).isSome = true →
          (svc.entries b).isSome = true := by
        intro b there
        by_cases same : b = p.1
        · rw [same, prev]
          rfl
        · rwa [Function.update_of_ne same] at there
      obtain ⟨entries',freed,stands'⟩ := freedStands (others ++ [p]) ⟨none,callout⟩
        (by rw [List.append_assoc]; exact passed) (fun b there => only b (still b there)) outside room
      refine ⟨⟨entries',svc.svcHead,svc.allocated⟩,_,?_,listed,rfl,stands'⟩
      simp only [pbrpcSvcUnregister, walked, here, prev, present, bind, Except.bind, List.getLast?_concat,
        Option.map_some, freed]

variable [DecidableEq δ]

theorem registerStands (M : Malloc γ (Link γ (Callout δ α))) (stands : Stands svc cells) (prog vers : BitVec 32)
    (name : Option CString) (dispatch : δ) (args : α dispatch) :
    Simulates ((pbrpcSvcRegister M svc prog vers name dispatch args).map (fun made => (Outcome.ret made.1,made.2)))
      (listEvent M.gives (svc.allocated,cells.map Prod.snd) (.register prog vers name dispatch args)) := by
  cases found : PbrpcService.pbrpcSvcFind prog vers name (cells.map Prod.snd) with
  | some parts =>
    obtain ⟨left,callout,right⟩ := parts
    obtain ⟨before,a,after,rfl,_,_,walked⟩ := findFinds stands found
    obtain ⟨_,_,_,here,_⟩ := chainedFrom stands.chained
    refine ⟨svc,_,?_,?_,?_,stands⟩
    · simp only [pbrpcSvcRegister, walked, here, present, bind, Except.bind, PbrpcService.pbrpcSvcRegister, found,
        Except.map]
      split <;> rfl
    · simp only [found, Option.isSome_some, if_true]
    · simp only [PbrpcService.pbrpcSvcRegister, found]
      split <;> rfl
  | none =>
    obtain ⟨p,walked⟩ := findMisses stands found
    cases given : M.give svc.allocated svc.entries with
    | none =>
      have refused : M.gives svc.allocated = false := by rw [← M.giveIsSome svc.allocated svc.entries, given]; rfl
      refine ⟨{svc with allocated := svc.allocated + 1},cells,?_,?_,?_,stands.chained,stands.only,
        Nat.le_succ_of_le stands.enough⟩
      · simp [pbrpcSvcRegister, walked, given, bind, Except.bind, Except.map, PbrpcService.pbrpcSvcRegister, found, refused]
      · simp [found]
      · simp [PbrpcService.pbrpcSvcRegister, found, refused]
    | some a =>
      have gave : M.gives svc.allocated = true := by rw [← M.giveIsSome svc.allocated svc.entries, given]; rfl
      have absent := Malloc.given given (cells.map Prod.fst) (by simpa using stands.enough) stands.only
      have outside : a ∉ cells.map Prod.fst := by
        intro member
        have there := chainedThere stands.chained member
        rw [absent] at there
        cases there
      refine ⟨⟨Function.update svc.entries a (some ⟨svc.svcHead,⟨prog,vers,name,dispatch,args⟩⟩),some a,
        svc.allocated + 1⟩,(a,⟨prog,vers,name,dispatch,args⟩) :: cells,?_,?_,?_,chainedFront stands.chained outside _,?_,
        Nat.succ_le_succ stands.enough⟩
      · simp [pbrpcSvcRegister, walked, given, bind, Except.bind, Except.map, PbrpcService.pbrpcSvcRegister, found, gave]
      · simp [found]
      · simp [PbrpcService.pbrpcSvcRegister, found, gave]
      · intro b there
        by_cases same : b = a
        · rw [same]
          exact List.mem_cons_self
        · dsimp only at there
          rw [Function.update_of_ne same] at there
          exact List.mem_cons_of_mem _ (stands.only b there)

theorem eventStands (M : Malloc γ (Link γ (Callout δ α))) (stands : Stands svc cells) (next : Event δ α) :
    Simulates (event M svc next) (listEvent M.gives (svc.allocated,cells.map Prod.snd) next) := by
  cases next with
  | register prog vers name dispatch args => exact registerStands M stands prog vers name dispatch args
  | unregister prog vers name =>
    obtain ⟨svc',cells',made,listed,allocated,stands'⟩ := unregisterStands stands prog vers name
    refine ⟨svc',cells',?_,allocated,listed,stands'⟩
    simp only [event, made, bind, Except.bind]
  | invoke method =>
    simp only [event, lookupStands stands, listEvent]
    cases PbrpcService.methodLookup method (cells.map Prod.snd) with
    | error stop => rfl
    | ok callout => exact ⟨svc,cells,rfl,rfl,rfl,stands⟩

theorem eventsStand (M : Malloc γ (Link γ (Callout δ α))) (stands : Stands svc cells) (events : List (Event δ α)) :
    Simulates (runEvents M svc events) (listEvents M.gives (svc.allocated,cells.map Prod.snd) events) := by
  induction events generalizing svc cells with
  | nil => exact ⟨svc,cells,rfl,rfl,rfl,stands⟩
  | cons next rest ih =>
    have first := eventStands M stands next
    cases listed : listEvent M.gives (svc.allocated,cells.map Prod.snd) next with
    | error stop =>
      rw [listed] at first
      simp only [runEvents, show event M svc next = .error stop from first, bind, Except.bind, listEvents, listed]
      rfl
    | ok made =>
      rw [listed] at first
      obtain ⟨svc',cells',ran,counted,same,stands'⟩ := first
      have later := ih stands'
      rw [counted, same] at later
      simp only [runEvents, ran, bind, Except.bind, listEvents, listed]
      cases rested : listEvents M.gives made.2 rest with
      | error stop =>
        rw [rested] at later
        simp only [show runEvents M svc' rest = .error stop from later]
        rfl
      | ok others =>
        rw [rested] at later
        obtain ⟨svc'',cells'',went,total,listed'',stands''⟩ := later
        exact ⟨svc'',cells'',by simp only [went],total,listed'',stands''⟩

end Steps

/- Any registrations, removals and requests on the memory do what they do on the list, where calloc gives and refuses
memory at the same calls. The code follows no pointer to memory that was freed, and only the entries of the list are
left. -/
theorem chainRefinesList [DecidableEq γ] [DecidableEq δ] (M : Malloc γ (Link γ (Callout δ α)))
    (events : List (Event δ α)) : Simulates (runEvents M .new events) (listEvents M.gives (0,[]) events) :=
  eventsStand M newStands events

def reused : List (Event Bool (fun _ => Unit)) :=
  [.register 1 1 (some (cstr "ping")) true (),.register 2 1 (some (cstr "pong")) true (),.unregister 1 1 none,
    .register 3 1 (some (cstr "pang")) false (),.register 3 1 (some (cstr "pang")) false ()]

example : (runEvents (lowestFirst (fun n => n ≠ 2)) (Svc.new : Svc Nat Bool (fun _ => Unit)) reused).toOption.map
    (fun r => (r.2.svcHead,(r.2.entries 0).map Link.next,(r.2.entries 1).map Link.next)) =
      some (some 0,some (some 1),some none) := by decide +kernel

end VmpRl.CalloutChain
