import VmpRl.Base.Traced
import VmpRl.Nmon

/-! `vmp_proc_net` and `vmp_proc_net_stat` with what they do to their streams, in any sequence of
calls: the NULL of an fopen that failed stays in the static, and the next call reads from it. -/
namespace VmpRl.NetStreams
open Octets Text CRuntime Nmon Tracing Traced

inductive StreamOp where
  | fopen (opened : Bool)
  | fgets (fp : NetFp)
  | rewind (fp : NetFp)
  | fclose (fp : NetFp)
  deriving DecidableEq, Repr

abbrev Streaming := Traced StreamOp Stop

def onStream {α : Type} (op : StreamOp) (fp : NetFp) (value : α) : Streaming α :=
  ⟨[op],if fp = .opened then .ok value else .error .nullDeref⟩

def fgetsDev (fp : NetFp) (input : Bytes) : Streaming (Option (Bytes × Bytes)) :=
  onStream (.fgets fp) fp (fgets 1024 input)

/- The stream, opened if it was never opened or has been closed; none if that fails. -/
def openDev (fp : NetFp) (opens : Bool) : Streaming (Option NetFp) :=
  if fp = .unset then ⟨[.fopen opens],.ok (if opens then some .opened else none)⟩ else pure (some fp)

def skipHeaders (fp : NetFp) (input : Bytes) : Streaming (Option Bytes) := do
  match ← fgetsDev fp input with
  | none => pure none
  | some (_,rest) => match ← fgetsDev fp rest with
    | none => pure none
    | some (_,rest) => pure (some rest)

def leaveDev (fp : NetFp) (reread : Bool) : Streaming NetFp :=
  if reread then onStream (.fclose fp) fp .unset else onStream (.rewind fp) fp fp

def readDev {β : Type} (fp : NetFp) (reread : Bool) (contents : Bytes) (body : NetFp → Bytes → Streaming β)
    (nothing : β) : Streaming (NetFp × β) := do
  match ← skipHeaders fp contents with
  | none => do
    let fp ← leaveDev fp reread
    pure (fp,nothing)
  | some rest => do
    let outcome ← body fp rest
    let fp ← leaveDev fp reread
    pure (fp,outcome)

def onDev {β : Type} (fp : NetFp) (opens reread : Bool) (contents : Bytes) (body : NetFp → Bytes → Streaming β)
    (nothing : β) : Streaming (NetFp × β) := do
  match ← openDev fp opens with
  | none => pure (.null,nothing)
  | some fp => readDev fp reread contents body nothing

def netRows (fp : NetFp) : Nat → Bytes → Streaming (List NetStat)
  | 0, _ => pure []
  | room+1, input => do
    match ← fgetsDev fp input with
    | none => pure []
    | some (buf,rest) => do
      let s ← lift (netLine (stripSpaces true (cut buf).bytes) NetStat.zero)
      let others ← netRows fp room rest
      pure (s :: others)

def statRows (fp : NetFp) : Nat → Nat → Bytes → (Nat → NetStat) → Streaming ((Nat → NetStat) × Nat)
  | 0, i, _, ifstat => pure (ifstat,i)
  | room+1, i, input, ifstat => do
    match ← fgetsDev fp input with
    | none => pure (ifstat,i)
    | some (buf,rest) => do
      let s ← lift (netLine (stripSpaces true (cut buf).bytes) (ifstat i))
      statRows fp room (i + 1) rest (Function.update ifstat i s)

def vmpProcNet {σ : Type} (fp : NetFp) (opens reread : Bool) (contents : Bytes) (proc : σ → List NetStat → σ)
    (ctx : σ) : Streaming (NetFp × σ × Nat) :=
  onDev fp opens reread contents
    (fun fp rest => do
      let ifnets ← netRows fp vmpNetmax rest
      pure (proc ctx ifnets,ifnets.length))
    (ctx,0)

def vmpProcNetStat (fp : NetFp) (opens reread : Bool) (contents : Bytes) (ifstat : Nat → NetStat) :
    Streaming (NetFp × (Nat → NetStat) × Nat) :=
  onDev fp opens reread contents (fun fp rest => statRows fp vmpNetmax 0 rest ifstat) (ifstat,0)

def OnOpen : StreamOp → Prop
  | .fopen _ => True
  | .fgets fp => fp = .opened
  | .rewind fp => fp = .opened
  | .fclose fp => fp = .opened

def IsFgets (op : StreamOp) : Prop := op = .fgets .opened

theorem fgetsEmits (input : Bytes) : Emits IsFgets (fgetsDev .opened input) := by
  intro op member
  exact List.mem_singleton.mp member

theorem headersEmit (input : Bytes) : Emits IsFgets (skipHeaders .opened input) := by
  refine emitsBind (fgetsEmits input) ?_
  intro first _
  cases first with
  | none => exact emitsNothing _ rfl
  | some line =>
    refine emitsBind (fgetsEmits line.2) ?_
    intro second _
    cases second with
    | none => exact emitsNothing _ rfl
    | some line => exact emitsNothing _ rfl

theorem netRowsEmit (room : Nat) (input : Bytes) : Emits IsFgets (netRows .opened room input) := by
  induction room generalizing input with
  | zero => exact emitsNothing _ rfl
  | succ room ih =>
    refine emitsBind (fgetsEmits input) ?_
    intro line _
    cases line with
    | none => exact emitsNothing _ rfl
    | some line =>
      refine emitsBind (emitsNothing _ rfl) ?_
      intro s _
      refine emitsBind (ih line.2) ?_
      intro others _
      exact emitsNothing _ rfl

theorem statRowsEmit (room i : Nat) (input : Bytes) (ifstat : Nat → NetStat) :
    Emits IsFgets (statRows .opened room i input ifstat) := by
  induction room generalizing i input ifstat with
  | zero => exact emitsNothing _ rfl
  | succ room ih =>
    refine emitsBind (fgetsEmits input) ?_
    intro line _
    cases line with
    | none => exact emitsNothing _ rfl
    | some line =>
      refine emitsBind (emitsNothing _ rfl) ?_
      intro s _
      exact ih _ _ _

def nextFp (fp : NetFp) (opens reread : Bool) : NetFp :=
  if fp = .unset ∧ opens = false then .null else if reread then .unset else .opened

section Shared
variable {β : Type} {body : NetFp → Bytes → Streaming β}

def Uses (op : StreamOp) : Prop := OnOpen op ∧ ∀ opened, op ≠ .fopen opened

theorem usesFgets {op : StreamOp} (h : IsFgets op) : Uses op := by
  rw [h]
  exact ⟨rfl,fun opened same => by cases same⟩

theorem leaveUses (reread : Bool) : Emits Uses (leaveDev .opened reread) := by
  intro op member
  cases reread with
  | true =>
    rw [List.mem_singleton.mp member]
    exact ⟨rfl,fun opened same => by cases same⟩
  | false =>
    rw [List.mem_singleton.mp member]
    exact ⟨rfl,fun opened same => by cases same⟩

theorem leaveEnds (reread : Bool) : (leaveDev .opened reread).result = .ok (if reread then .unset else .opened) := by
  cases reread with
  | true => rfl
  | false => rfl

theorem readUses (fgets : ∀ rest, Emits IsFgets (body .opened rest)) (reread : Bool) (contents : Bytes) (nothing : β) :
    Emits Uses (readDev .opened reread contents body nothing) := by
  refine emitsBind (fun op member => usesFgets (headersEmit contents op member)) ?_
  intro rest _
  cases rest with
  | none =>
    refine emitsBind (leaveUses reread) ?_
    intro fp _
    exact emitsNothing _ rfl
  | some rest =>
    refine emitsBind (fun op member => usesFgets (fgets rest op member)) ?_
    intro outcome _
    refine emitsBind (leaveUses reread) ?_
    intro fp _
    exact emitsNothing _ rfl

theorem readEnds {reread : Bool} {contents : Bytes} {nothing outcome : β} {after : NetFp}
    (ran : (readDev .opened reread contents body nothing).result = .ok (after,outcome)) :
    after = if reread then .unset else .opened := by
  obtain ⟨rest,_,ran,_⟩ := bindEnds ran
  cases rest with
  | none =>
    obtain ⟨fp,left,same,_⟩ := bindEnds ran
    rw [leaveEnds] at left
    cases Except.ok.inj left
    cases Except.ok.inj same
    rfl
  | some rest =>
    obtain ⟨_,_,ran,_⟩ := bindEnds ran
    obtain ⟨fp,left,same,_⟩ := bindEnds ran
    rw [leaveEnds] at left
    cases Except.ok.inj left
    cases Except.ok.inj same
    rfl

structure Follows (fp : NetFp) (opens reread : Bool) (nothing : β) (x : Streaming (NetFp × β)) : Prop where
  open_ : fp ≠ .null → Emits OnOpen x
  null : fp = .null → x = ⟨[.fgets .null],.error .nullDeref⟩
  tries : fp = .unset → x.ops.head? = some (.fopen opens)
  failed : .fopen false ∈ x.ops → x = ⟨[.fopen false],.ok (.null,nothing)⟩
  next : ∀ after outcome, x.result = .ok (after,outcome) → after = nextFp fp opens reread

theorem onDevFollows (fgets : ∀ rest, Emits IsFgets (body .opened rest)) (fp : NetFp) (opens reread : Bool)
    (contents : Bytes) (nothing : β) : Follows fp opens reread nothing (onDev fp opens reread contents body nothing) := by
  have uses := readUses fgets reread contents nothing
  have noFopen : .fopen false ∉ (readDev .opened reread contents body nothing).ops :=
    fun member => (uses _ member).2 false rfl
  cases fp with
  | opened =>
    have same : onDev .opened opens reread contents body nothing = readDev .opened reread contents body nothing :=
      (bindOk (x := (pure (some .opened) : Streaming (Option NetFp))) rfl _).trans rfl
    rw [same]
    exact ⟨fun _ op member => (uses op member).1,(fun h => by cases h),(fun h => by cases h),
      fun member => absurd member noFopen,fun after outcome ran => readEnds ran⟩
  | null =>
    have same : onDev .null opens reread contents body nothing = ⟨[.fgets .null],.error .nullDeref⟩ := rfl
    rw [same]
    refine ⟨fun h => absurd rfl h,fun _ => rfl,(fun h => by cases h),?_,(fun after outcome ran => by cases ran)⟩
    intro member
    cases List.mem_singleton.mp member
  | unset =>
    cases opens with
    | false =>
      have same : onDev .unset false reread contents body nothing = ⟨[.fopen false],.ok (.null,nothing)⟩ := rfl
      rw [same]
      refine ⟨?_,(fun h => by cases h),fun _ => rfl,fun _ => rfl,?_⟩
      · intro _ op member
        rw [List.mem_singleton.mp member]
        trivial
      · intro after outcome ran
        cases Except.ok.inj ran
        rfl
    | true =>
      have same : onDev .unset true reread contents body nothing =
          ⟨.fopen true :: (readDev .opened reread contents body nothing).ops,
            (readDev .opened reread contents body nothing).result⟩ := rfl
      rw [same]
      refine ⟨?_,(fun h => by cases h),fun _ => rfl,?_,fun after outcome ran => readEnds ran⟩
      · intro _ op member
        rcases List.mem_cons.mp member with first | later
        · rw [first]
          trivial
        · exact (uses op later).1
      · intro member
        rcases List.mem_cons.mp member with first | later
        · cases first
        · exact absurd later noFopen

end Shared

theorem vmpProcNetFollows {σ : Type} (fp : NetFp) (opens reread : Bool) (contents : Bytes)
    (proc : σ → List NetStat → σ) (ctx : σ) :
    Follows fp opens reread (ctx,0) (vmpProcNet fp opens reread contents proc ctx) := by
  refine onDevFollows ?_ fp opens reread contents (ctx,0)
  intro rest
  refine emitsBind (netRowsEmit vmpNetmax rest) ?_
  intro ifnets _
  exact emitsNothing _ rfl

theorem vmpProcNetStatFollows (fp : NetFp) (opens reread : Bool) (contents : Bytes) (ifstat : Nat → NetStat) :
    Follows fp opens reread (ifstat,0) (vmpProcNetStat fp opens reread contents ifstat) :=
  onDevFollows (fun rest => statRowsEmit vmpNetmax 0 rest ifstat) fp opens reread contents (ifstat,0)

theorem netRowsErased (room : Nat) (input : Bytes) : (netRows .opened room input).result = netLines room input := by
  induction room generalizing input with
  | zero => rfl
  | succ room ih =>
    unfold netRows netLines
    rw [bindResult]
    show (Except.ok (fgets 1024 input)).bind _ = _
    cases fgets 1024 input with
    | none => rfl
    | some line =>
      obtain ⟨buf,rest⟩ := line
      dsimp only [Except.bind]
      rw [bindResult, liftResult]
      cases netLine (stripSpaces true (cut buf).bytes) NetStat.zero with
      | error stop => rfl
      | ok s =>
        dsimp only [Except.bind, Bind.bind]
        show ((netRows .opened room rest) >>= fun others => pure (s :: others)).result = _
        rw [bindResult, ih]
        rfl

theorem readErased {σ : Type} (files : Files) {g : Statics} (usable : g.netFp ≠ .null)
    (opened : g.netFp = .unset → files.opens "/proc/net/dev" = true) (reread : Bool) (proc : σ → List NetStat → σ)
    (ctx : σ) :
    (readDev .opened reread (files.contents "/proc/net/dev")
      (fun fp rest => do
        let ifnets ← netRows fp vmpNetmax rest
        pure (proc ctx ifnets,ifnets.length))
      (ctx,0)).result = (Nmon.vmpProcNet files g reread proc ctx).map (fun r => (r.1.netFp,r.2)) := by
  have closed : ¬ (g.netFp = .unset ∧ files.opens "/proc/net/dev" = false) := by
    intro h
    rw [opened h.1] at h
    exact Bool.noConfusion h.2
  have leave {β : Type} (outcome : β) :
      (leaveDev .opened reread >>= fun fp => pure (fp,outcome) : Streaming (NetFp × β)).result =
        .ok (if reread then .unset else .opened,outcome) := by
    rw [bindResult, leaveEnds]
    rfl
  unfold Nmon.vmpProcNet readDev skipHeaders
  rw [if_neg usable, if_neg closed, bindResult, bindResult]
  show ((Except.ok (fgets 1024 (files.contents "/proc/net/dev"))).bind _).bind _ = _
  cases fgets 1024 (files.contents "/proc/net/dev") with
  | none => exact leave _
  | some first =>
    dsimp only [Except.bind]
    rw [bindResult]
    show ((Except.ok (fgets 1024 first.2)).bind _).bind _ = _
    cases fgets 1024 first.2 with
    | none => exact leave _
    | some second =>
      dsimp only [Except.bind, pureResult]
      rw [bindResult, bindResult, netRowsErased]
      cases netLines vmpNetmax second.2 with
      | error stop => rfl
      | ok ifnets => exact leave _

theorem vmpProcNetErased {σ : Type} (files : Files) (g : Statics) (reread : Bool) (proc : σ → List NetStat → σ)
    (ctx : σ) :
    (vmpProcNet g.netFp (files.opens "/proc/net/dev") reread (files.contents "/proc/net/dev") proc ctx).result =
      (Nmon.vmpProcNet files g reread proc ctx).map (fun r => (r.1.netFp,r.2)) := by
  unfold vmpProcNet onDev
  cases state : g.netFp with
  | null =>
    unfold Nmon.vmpProcNet
    rw [if_pos state]
    rfl
  | opened =>
    exact readErased files (by rw [state]; decide) (fun h => by rw [state] at h; cases h) reread proc ctx
  | unset =>
    cases opens : files.opens "/proc/net/dev" with
    | false =>
      unfold Nmon.vmpProcNet
      rw [if_neg (by rw [state]; decide), if_pos ⟨state,opens⟩]
      rfl
    | true => exact readErased files (by rw [state]; decide) (fun _ => opens) reread proc ctx

inductive Reader where
  | net | stat
  deriving DecidableEq, Repr

structure Shape where
  reader : Reader
  reread : Bool
  opens : Bool
  deriving DecidableEq, Repr

structure Call extends Shape where
  contents : Bytes

structure NetState (σ : Type) where
  fp : Reader → NetFp
  ctx : σ
  ifstat : Nat → NetStat

section Calls
variable {σ : Type} (proc : σ → List NetStat → σ)

def runCall (s : NetState σ) (c : Call) : Streaming (NetState σ × Nat) := match c.reader with
  | .net => do
    let r ← vmpProcNet (s.fp .net) c.opens c.reread c.contents proc s.ctx
    pure ({s with fp := Function.update s.fp .net r.1, ctx := r.2.1},r.2.2)
  | .stat => do
    let r ← vmpProcNetStat (s.fp .stat) c.opens c.reread c.contents s.ifstat
    pure ({s with fp := Function.update s.fp .stat r.1, ifstat := r.2.1},r.2.2)

structure Made (σ : Type) where
  before : NetState σ
  call : Call
  outcome : Streaming (NetState σ × Nat)

def history : NetState σ → List Call → List (Made σ)
  | _, [] => []
  | s, c :: rest => ⟨s,c,runCall proc s c⟩ :: match (runCall proc s c).result with
    | .ok (next,_) => history next rest
    | .error _ => []

/- Only an open stream is used; a call without one tries fopen; if that fails it returns 0, with no sample
changed. -/
structure Retried (m : Made σ) : Prop where
  used : Emits OnOpen m.outcome
  tried : m.before.fp m.call.reader ≠ .opened → ∃ opened, m.outcome.ops.head? = some (.fopen opened)
  failed : .fopen false ∈ m.outcome.ops → ∃ next, m.outcome.result = .ok (next,0) ∧
    next.ctx = m.before.ctx ∧ next.ifstat = m.before.ifstat

def AllRetried (s : NetState σ) (calls : List Call) : Prop := ∀ m ∈ history proc s calls, Retried m

def callsOf (reader : Reader) (shapes : List Shape) : List (Bool × Bool) :=
  (shapes.filter (fun c => c.reader = reader)).map (fun c => (c.reread,c.opens))

/- Every call that has to open the file does, but for the last one. The first has to, and each behind one
with `reread`. -/
def Openable : Bool → List (Bool × Bool) → Prop
  | _, [] => True
  | must, (reread,opens) :: rest => (must = true → opens = true ∨ rest = []) ∧ Openable reread rest

instance decidableOpenable : ∀ (must : Bool) (calls : List (Bool × Bool)), Decidable (Openable must calls)
  | _, [] => instDecidableTrue
  | must, (reread,opens) :: rest =>
    have := decidableOpenable reread rest
    inferInstanceAs (Decidable ((must = true → opens = true ∨ rest = []) ∧ Openable reread rest))

def Fine (fp : NetFp) (calls : List (Bool × Bool)) : Prop := match fp with
  | .null => calls = []
  | .unset => Openable true calls
  | .opened => Openable false calls

theorem fineCons {fp : NetFp} {reread opens : Bool} {rest : List (Bool × Bool)} :
    Fine fp ((reread,opens) :: rest) ↔ fp ≠ .null ∧ Fine (nextFp fp opens reread) rest := by
  have behind : Fine (if reread then .unset else .opened) rest ↔ Openable reread rest := by
    cases reread with
    | true => exact Iff.rfl
    | false => exact Iff.rfl
  have idle : rest = [] → Openable reread rest := by
    intro none
    rw [none]
    trivial
  cases fp with
  | null => simp [Fine]
  | opened =>
    rw [nextFp, if_neg (fun h => by cases h.1), behind]
    simp [Fine, Openable]
  | unset =>
    cases opens with
    | true =>
      rw [nextFp, if_neg (fun h => by cases h.2), behind]
      simp [Fine, Openable]
    | false =>
      rw [nextFp, if_pos ⟨rfl,rfl⟩]
      constructor
      · intro h
        exact ⟨by decide,(h.1 rfl).resolve_left (by decide)⟩
      · intro h
        exact ⟨fun _ => Or.inr h.2,idle h.2⟩

structure CallFollows (s : NetState σ) (c : Call) (x : Streaming (NetState σ × Nat)) : Prop where
  open_ : s.fp c.reader ≠ .null → Emits OnOpen x
  null : s.fp c.reader = .null → x.ops = [.fgets .null]
  tries : s.fp c.reader = .unset → x.ops.head? = some (.fopen c.opens)
  failed : .fopen false ∈ x.ops → ∃ next, x.result = .ok (next,0) ∧ next.ctx = s.ctx ∧ next.ifstat = s.ifstat
  next : ∀ next count, x.result = .ok (next,count) →
    next.fp = Function.update s.fp c.reader (nextFp (s.fp c.reader) c.opens c.reread)

theorem storedFollows {β : Type} {x : Streaming (NetFp × β)} {s : NetState σ} {c : Call} {nothing : β}
    (follows : Follows (s.fp c.reader) c.opens c.reread nothing x) (store : NetFp × β → NetState σ × Nat)
    (fp : ∀ r, (store r).1.fp = Function.update s.fp c.reader r.1)
    (empty : ∀ fp, (store (fp,nothing)).2 = 0 ∧ (store (fp,nothing)).1.ctx = s.ctx ∧
      (store (fp,nothing)).1.ifstat = s.ifstat) :
    CallFollows s c (x >>= fun r => pure (store r)) := by
  have ops : (x >>= fun r => pure (store r)).ops = x.ops := by
    cases ran : x.result with
    | error stop => rw [bindStop ran]
    | ok r =>
      rw [bindOk ran]
      exact List.append_nil _
  refine ⟨?_,?_,?_,?_,?_⟩
  · intro notNull op member
    rw [ops] at member
    exact follows.open_ notNull op member
  · intro null
    rw [ops, follows.null null]
  · intro unset
    rw [ops]
    exact follows.tries unset
  · intro member
    rw [ops] at member
    have ran := congrArg Traced.result (follows.failed member)
    rw [bindOk ran]
    exact ⟨(store (.null,nothing)).1,by rw [← (empty .null).1]; rfl,(empty .null).2⟩
  · intro next count ran
    obtain ⟨r,first,same,_⟩ := bindEnds ran
    have stored : store r = (next,count) := Except.ok.inj same
    have fp := fp r
    rw [stored] at fp
    rw [fp, follows.next r.1 r.2 first]

theorem runCallFollows (s : NetState σ) (c : Call) : CallFollows s c (runCall proc s c) := by
  obtain ⟨⟨reader,reread,opens⟩,contents⟩ := c
  cases reader with
  | net =>
    have follows := vmpProcNetFollows (s.fp .net) opens reread contents proc s.ctx
    exact storedFollows (c := ⟨⟨.net,reread,opens⟩,contents⟩) follows
      (fun r => ({s with fp := Function.update s.fp .net r.1, ctx := r.2.1},r.2.2))
      (fun r => rfl) (fun fp => ⟨rfl,rfl,rfl⟩)
  | stat =>
    have follows := vmpProcNetStatFollows (s.fp .stat) opens reread contents s.ifstat
    exact storedFollows (c := ⟨⟨.stat,reread,opens⟩,contents⟩) follows
      (fun r => ({s with fp := Function.update s.fp .stat r.1, ifstat := r.2.1},r.2.2))
      (fun r => rfl) (fun fp => ⟨rfl,rfl,rfl⟩)

def AllFine (s : NetState σ) (shapes : List Shape) : Prop :=
  ∀ reader, Fine (s.fp reader) (callsOf reader shapes)

theorem callsOfCons (reader : Reader) (c : Shape) (rest : List Shape) :
    callsOf reader (c :: rest) = if c.reader = reader then (c.reread,c.opens) :: callsOf reader rest
      else callsOf reader rest := by
  unfold callsOf
  by_cases same : c.reader = reader
  · rw [List.filter_cons_of_pos (by simpa using same), if_pos same]
    rfl
  · rw [List.filter_cons_of_neg (by simpa using same), if_neg same]

theorem allFineCons {s : NetState σ} {c : Shape} {rest : List Shape} :
    AllFine s (c :: rest) ↔ s.fp c.reader ≠ .null ∧
      ∀ reader, Fine (Function.update s.fp c.reader (nextFp (s.fp c.reader) c.opens c.reread) reader)
        (callsOf reader rest) := by
  constructor
  · intro fine
    have own := fine c.reader
    rw [callsOfCons, if_pos rfl] at own
    refine ⟨(fineCons.mp own).1,?_⟩
    intro reader
    by_cases same : reader = c.reader
    · rw [same, Function.update_self]
      exact (fineCons.mp own).2
    · have other := fine reader
      rw [callsOfCons, if_neg (fun h => same h.symm)] at other
      rw [Function.update_of_ne same]
      exact other
  · intro h reader
    rw [callsOfCons]
    by_cases same : c.reader = reader
    · rw [if_pos same, ← same]
      refine fineCons.mpr ⟨h.1,?_⟩
      have own := h.2 c.reader
      rw [Function.update_self] at own
      exact own
    · have other := h.2 reader
      rw [Function.update_of_ne (fun h => same h.symm)] at other
      rw [if_neg same]
      exact other

theorem fineRetried {s : NetState σ} {c : Call} (usable : s.fp c.reader ≠ .null) :
    Retried ⟨s,c,runCall proc s c⟩ := by
  have follows := runCallFollows proc s c
  refine ⟨follows.open_ usable,?_,follows.failed⟩
  intro notOpen
  refine ⟨c.opens,follows.tries ?_⟩
  cases state : s.fp c.reader with
  | unset => rfl
  | null => exact absurd state usable
  | opened => exact absurd state notOpen

theorem fineKept (s : NetState σ) (calls : List Call) (fine : AllFine s (calls.map Call.toShape)) :
    AllRetried proc s calls := by
  induction calls generalizing s with
  | nil =>
    intro m member
    cases member
  | cons c rest ih =>
    obtain ⟨usable,others⟩ := allFineCons.mp fine
    intro m member
    rcases List.mem_cons.mp member with first | later
    · rw [first]
      exact fineRetried proc usable
    · cases ran : (runCall proc s c).result with
      | error stop =>
        rw [ran] at later
        cases later
      | ok next =>
        rw [ran] at later
        refine ih next.1 ?_ m later
        intro reader
        rw [(runCallFollows proc s c).next next.1 next.2 ran]
        exact others reader

theorem emptyEnds {β : Type} (body : NetFp → Bytes → Streaming β) {fp : NetFp} (usable : fp ≠ .null)
    (opens reread : Bool) (nothing : β) :
    (onDev fp opens reread [] body nothing).result = .ok (nextFp fp opens reread,nothing) := by
  cases fp with
  | null => exact absurd rfl usable
  | opened =>
    cases reread with
    | true => rfl
    | false => rfl
  | unset =>
    cases opens with
    | false => rfl
    | true =>
      cases reread with
      | true => rfl
      | false => rfl

def emptied (c : Shape) : Call := ⟨c,[]⟩

theorem emptiedEnds (s : NetState σ) (c : Shape) (usable : s.fp c.reader ≠ .null) :
    ∃ next, (runCall proc s (emptied c)).result = .ok next := by
  obtain ⟨reader,reread,opens⟩ := c
  cases reader with
  | net =>
    have ends := emptyEnds (fun fp rest => do
      let ifnets ← netRows fp vmpNetmax rest
      pure (proc s.ctx ifnets,ifnets.length)) usable opens reread (s.ctx,0)
    exact ⟨_,congrArg Traced.result (bindOk ends _)⟩
  | stat =>
    have ends := emptyEnds (fun fp rest => statRows fp vmpNetmax 0 rest s.ifstat) usable opens reread
      (s.ifstat,0)
    exact ⟨_,congrArg Traced.result (bindOk ends _)⟩

theorem emptiedFine (s : NetState σ) (shapes : List Shape) (retried : AllRetried proc s (shapes.map emptied)) :
    AllFine s shapes := by
  induction shapes generalizing s with
  | nil =>
    intro reader
    cases state : s.fp reader with
    | null => simp [Fine, callsOf]
    | unset => simp [Fine, callsOf, Openable]
    | opened => simp [Fine, callsOf, Openable]
  | cons c rest ih =>
    have follows := runCallFollows proc s (emptied c)
    have usable : s.fp c.reader ≠ .null := by
      intro null
      have used := (retried ⟨s,emptied c,runCall proc s (emptied c)⟩ List.mem_cons_self).used (.fgets .null)
        (by rw [follows.null null]; exact List.mem_singleton.mpr rfl)
      cases used
    obtain ⟨next,ran⟩ := emptiedEnds proc s c usable
    refine allFineCons.mpr ⟨usable,?_⟩
    have fine := ih next.1 (by
      intro m member
      refine retried m (List.mem_cons_of_mem _ ?_)
      rw [ran]
      exact member)
    intro reader
    have kept := fine reader
    rw [follows.next next.1 next.2 ran] at kept
    exact kept

def unopened (ctx : σ) (ifstat : Nat → NetStat) : NetState σ := ⟨fun _ => .unset,ctx,ifstat⟩

/- In every run with this pattern of calls, whatever the file holds at each. -/
theorem failedOpenLast (ctx : σ) (ifstat : Nat → NetStat) (pattern : List Shape) :
    (∀ calls : List Call, calls.map Call.toShape = pattern → AllRetried proc (unopened ctx ifstat) calls) ↔
      ∀ reader, Openable true (callsOf reader pattern) := by
  constructor
  · intro retried
    refine emptiedFine proc (unopened ctx ifstat) pattern (retried _ ?_)
    rw [List.map_map]
    exact List.map_id _
  · intro openable calls same
    refine fineKept proc _ calls ?_
    rw [same]
    exact openable

end Calls

theorem readFromNull : ∃ calls : List Call,
    calls.map Call.toShape = [⟨.net,false,false⟩,⟨.net,false,true⟩] ∧
    ¬ AllRetried (fun (n : Nat) ifnets => n + ifnets.length) (unopened 0 (fun _ => NetStat.zero)) calls := by
  refine ⟨[⟨⟨.net,false,false⟩,[]⟩,⟨⟨.net,false,true⟩,[]⟩],rfl,?_⟩
  intro retried
  have second := retried _ (List.mem_cons_of_mem _ List.mem_cons_self)
  have used := second.used (.fgets .null) List.mem_cons_self
  cases used

end VmpRl.NetStreams
