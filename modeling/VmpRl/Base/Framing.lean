import VmpRl.Base.Octets

/-! Length-prefixed frames on a byte stream. The prefix is a parameter; so are the
receiver and what it does with a body. A receiver that treats every cut of the
stream frame by frame delivers the same bodies in the same order for every
chunking of the stream. -/
namespace VmpRl.Framing
open Octets (Bytes)

structure Prefix where
  width : Nat
  bound : Nat
  write : Nat → Bytes
  read : Bytes → Nat
  positive : 0 < width
  writeLength : ∀ n, (write n).length = width
  readWrite : ∀ n, n < bound → read (write n) = n

variable (p : Prefix)

def frame (body : Bytes) : Bytes := p.write body.length ++ body

def frames (bodies : List Bytes) : Bytes := (bodies.map (frame p)).flatten

def need (src : Bytes) : Option Nat :=
  if p.width ≤ src.length then some (p.width + p.read (src.take p.width)) else none

def Short (src : Bytes) : Prop :=
  ∀ n, need p src = some n → src.length < n ∧ n < p.width + p.bound

@[simp] theorem framesNil : frames p [] = [] := rfl

@[simp] theorem framesCons (body : Bytes) (rest : List Bytes) :
    frames p (body :: rest) = frame p body ++ frames p rest := by
  simp [frames]

@[simp] theorem frameLength (body : Bytes) : (frame p body).length = p.width + body.length := by
  simp [frame, p.writeLength]

theorem framePositive (body : Bytes) : 0 < (frame p body).length := by
  have := p.positive
  rw [frameLength]
  omega

theorem takePrefix (body rest : Bytes) :
    (frame p body ++ rest).take p.width = p.write body.length := by
  rw [frame, List.append_assoc]
  exact List.take_left' (p.writeLength _)

theorem dropPrefix (body rest : Bytes) :
    (frame p body ++ rest).drop p.width = body ++ rest := by
  rw [frame, List.append_assoc]
  exact List.drop_left' (p.writeLength _)

theorem needFrame {body : Bytes} (small : body.length < p.bound) (rest : Bytes) :
    need p (frame p body ++ rest) = some (frame p body).length := by
  have long : p.width ≤ (frame p body ++ rest).length := by
    rw [List.length_append, frameLength]
    omega
  rw [need, if_pos long, takePrefix, p.readWrite _ small, frameLength]

theorem framesInjective {left right : List Bytes} (smallLeft : ∀ b ∈ left, b.length < p.bound)
    (smallRight : ∀ b ∈ right, b.length < p.bound) (same : frames p left = frames p right) :
    left = right := by
  induction left generalizing right with
  | nil =>
    cases right with
    | nil => rfl
    | cons b right =>
      have positive := framePositive p b
      have size := congrArg List.length same
      simp only [framesNil, framesCons, List.length_nil, List.length_append] at size
      omega
  | cons a left ih =>
    cases right with
    | nil =>
      have positive := framePositive p a
      have size := congrArg List.length same
      simp only [framesNil, framesCons, List.length_nil, List.length_append] at size
      omega
    | cons b right =>
      rw [framesCons, framesCons] at same
      have first := needFrame p (smallLeft a List.mem_cons_self) (frames p left)
      rw [same, needFrame p (smallRight b List.mem_cons_self)] at first
      obtain ⟨heads,tails⟩ := List.append_inj same (Option.some.inj first).symm
      have bodies : a = b := by
        have cut := dropPrefix p a []
        rw [List.append_nil, heads, ← List.append_nil (frame p b), dropPrefix p b] at cut
        simpa using cut.symm
      rw [bodies, ih (fun c member => smallLeft c (List.mem_cons_of_mem _ member))
        (fun c member => smallRight c (List.mem_cons_of_mem _ member)) tails]

theorem shortNil : Short p [] := by
  have positive := p.positive
  intro n h
  simp [need] at h
  omega

theorem shortOfPart {body rest more : Bytes} (small : body.length < p.bound)
    (stream : rest ++ more = frame p body) (lacks : rest.length < (frame p body).length) :
    Short p rest := by
  intro n h
  unfold need at h
  split at h
  · rename_i long
    have same : rest.take p.width = p.write body.length := by
      have h := takePrefix p body []
      rw [List.append_nil, ← stream, List.take_append_of_le_length long] at h
      exact h
    rw [same, p.readWrite _ small] at h
    cases Option.some.inj h
    rw [frameLength] at lacks
    exact ⟨lacks,by omega⟩
  · contradiction

structure Cut (bodies : List Bytes) (src more : Bytes) (done todo : List Bytes) (rest : Bytes) :
    Prop where
  order : bodies = done ++ todo
  taken : src = frames p done ++ rest
  stream : rest ++ more = frames p todo
  short : Short p rest

theorem cutStream {bodies : List Bytes} (small : ∀ b ∈ bodies, b.length < p.bound)
    {src more : Bytes} (stream : src ++ more = frames p bodies) :
    ∃ done todo rest, Cut p bodies src more done todo rest := by
  induction bodies generalizing src with
  | nil =>
    have empty : src = [] ∧ more = [] := by simpa using stream
    exact ⟨[],[],src,rfl,rfl,stream,empty.1 ▸ shortNil p⟩
  | cons body bodies ih =>
    by_cases whole : (frame p body).length ≤ src.length
    · have first : src.take (frame p body).length = frame p body := by
        have taken := congrArg (List.take (frame p body).length) stream
        rwa [List.take_append_of_le_length whole, framesCons, List.take_left] at taken
      have head : src = frame p body ++ src.drop (frame p body).length := by
        calc src = src.take (frame p body).length ++ src.drop (frame p body).length :=
              (List.take_append_drop _ _).symm
          _ = frame p body ++ src.drop (frame p body).length := by rw [first]
      have tail : src.drop (frame p body).length ++ more = frames p bodies := by
        rw [head, framesCons, List.append_assoc] at stream
        exact List.append_cancel_left stream
      obtain ⟨done,todo,rest,c⟩ := ih (fun b member => small b (List.mem_cons_of_mem _ member)) tail
      refine ⟨body :: done,todo,rest,by rw [c.order]; rfl,?_,c.stream,c.short⟩
      rw [framesCons, List.append_assoc, ← c.taken]
      exact head
    · have part : src ++ more.take ((frame p body).length - src.length) = frame p body := by
        have taken := congrArg (List.take (frame p body).length) stream
        rwa [List.take_append, List.take_of_length_le (by omega), framesCons, List.take_left] at taken
      exact ⟨[],body :: bodies,src,rfl,rfl,stream,
        shortOfPart p (small body List.mem_cons_self) part (by omega)⟩

theorem shortNoFrame {body rest : Bytes} (small : body.length < p.bound) : ¬ Short p (frame p body ++ rest) := by
  intro short
  have lacks := (short _ (needFrame p small rest)).1
  rw [List.length_append] at lacks
  omega

theorem cutShort {bodies : List Bytes} (small : ∀ b ∈ bodies, b.length < p.bound) {src more : Bytes}
    (short : Short p src) {done todo : List Bytes} {rest : Bytes} (c : Cut p bodies src more done todo rest) :
    done = [] ∧ rest = src := by
  cases done with
  | nil => exact ⟨rfl,by rw [c.taken]; rfl⟩
  | cons body others =>
    have inside : body ∈ bodies := by
      rw [c.order]
      exact List.mem_append_left _ List.mem_cons_self
    have shape := c.taken
    rw [framesCons, List.append_assoc] at shape
    exact absurd (shape ▸ short) (shortNoFrame p (small body inside))

theorem cutOnward {bodies : List Bytes} {src next more : Bytes} {done todo later left : List Bytes}
    {rest tail : Bytes} (first : Cut p bodies src (next ++ more) done todo rest)
    (second : Cut p todo (rest ++ next) more later left tail) :
    Cut p bodies (src ++ next) more (done ++ later) left tail := by
  refine ⟨?_,?_,second.stream,second.short⟩
  · rw [first.order, second.order, List.append_assoc]
  · have joined : frames p (done ++ later) = frames p done ++ frames p later := by simp [frames]
    rw [first.taken, joined, List.append_assoc, second.taken, List.append_assoc]

theorem framesAppend (left right : List Bytes) : frames p (left ++ right) = frames p left ++ frames p right := by
  simp [frames]

theorem cutGrown {bodies : List Bytes} {src more : Bytes} {done todo : List Bytes} {rest : Bytes}
    (c : Cut p bodies src more done todo rest) (later : List Bytes) :
    Cut p (bodies ++ later) src (more ++ frames p later) done (todo ++ later) rest := by
  refine ⟨?_,c.taken,?_,c.short⟩
  · rw [c.order, List.append_assoc]
  · rw [framesAppend, ← c.stream, List.append_assoc]

theorem cutBack {bodies : List Bytes} (small : ∀ b ∈ bodies, b.length < p.bound) {src next more : Bytes}
    {done todo later left : List Bytes} {rest tail : Bytes}
    (first : Cut p bodies src (next ++ more) done todo rest)
    (whole : Cut p bodies (src ++ next) more later left tail) :
    ∃ between, later = done ++ between ∧ Cut p todo (rest ++ next) more between left tail := by
  have same : done ++ todo = later ++ left := first.order.symm.trans whole.order
  have bytes : frames p done ++ (rest ++ next) = frames p later ++ tail := by
    rw [← whole.taken, first.taken, List.append_assoc]
  have joined (a b : List Bytes) : frames p (a ++ b) = frames p a ++ frames p b := by simp [frames]
  rcases List.append_eq_append_iff.mp same with ⟨between,split,order⟩ | ⟨between,split,order⟩
  · refine ⟨between,split,order,?_,whole.stream,whole.short⟩
    rw [split, joined, List.append_assoc] at bytes
    exact List.append_cancel_left bytes
  · cases between with
    | nil =>
      rw [List.append_nil] at split
      subst split
      exact ⟨[],by simp,by simpa using order.symm,by simpa using List.append_cancel_left bytes,whole.stream,
        whole.short⟩
    | cons body others =>
      have inside : body ∈ bodies := by
        rw [first.order, split]
        simp
      have behind : tail = frame p body ++ (frames p others ++ (rest ++ next)) := by
        rw [split, joined, List.append_assoc, framesCons, List.append_assoc] at bytes
        exact (List.append_cancel_left bytes).symm
      exact absurd (behind ▸ whole.short) (shortNoFrame p (small body inside))

variable {ε σ τ : Type} (ok : Bytes → Prop) (step : σ → Bytes → Except ε σ) (held : Bytes → σ → τ)

def FrameByFrame (receive : τ → Bytes → Except ε τ) : Prop :=
  ∀ pending chunk rest s done, (∀ b ∈ done, ok b) → pending ++ chunk = frames p done ++ rest →
    Short p rest → receive (held pending s) chunk = (done.foldlM step s).map (held rest)

/- Chunks of any sizes deliver what one body after the other delivers, and at the end
nothing is pending. The induction is on the chunks; the part of the stream that is
still to come is the invariant. -/
theorem chunkedDelivery {receive : τ → Bytes → Except ε τ}
    (bounded : ∀ b, ok b → b.length < p.bound)
    (exact : FrameByFrame p ok step held receive) (chunks : List Bytes) (bodies : List Bytes)
    (good : ∀ b ∈ bodies, ok b) (pending : Bytes) (s : σ) (short : Short p pending)
    (stream : pending ++ chunks.flatten = frames p bodies) :
    chunks.foldlM receive (held pending s) = (bodies.foldlM step s).map (held []) := by
  have small : ∀ b ∈ bodies, b.length < p.bound := fun b member => bounded b (good b member)
  induction chunks generalizing bodies pending s with
  | nil =>
    cases bodies with
    | nil =>
      have empty : pending = [] := by simpa using stream
      subst pending
      rfl
    | cons body rest =>
      have first := small body List.mem_cons_self
      have whole : pending = frame p body ++ frames p rest := by simpa using stream
      have lacks := (short _ (whole ▸ needFrame p first _)).1
      rw [whole, List.length_append] at lacks
      omega
  | cons chunk chunks ih =>
    have cutting : (pending ++ chunk) ++ chunks.flatten = frames p bodies := by
      simpa using stream
    obtain ⟨done,todo,rest,c⟩ := cutStream p small cutting
    have order := c.order
    subst order
    have goodDone : ∀ b ∈ done, ok b := fun b member => good b (List.mem_append_left _ member)
    have goodTodo : ∀ b ∈ todo, ok b := fun b member => good b (List.mem_append_right _ member)
    have now := exact pending chunk rest s done goodDone c.taken c.short
    rw [List.foldlM_cons, now, List.foldlM_append]
    cases done.foldlM step s with
    | error e => rfl
    | ok t =>
      exact ih todo goodTodo rest t c.short c.stream (fun b member => bounded b (goodTodo b member))

end VmpRl.Framing
