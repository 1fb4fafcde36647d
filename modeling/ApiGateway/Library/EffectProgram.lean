import Mathlib.Data.List.Basic
import Mathlib.Logic.Function.Basic

/-!
# Programs that talk to shared state

A program is a finite tree of calls on an interface: it either has finished with
a value, or makes one call and continues with whatever is answered.  The
interface is a `Signature`: a type of operations and, for each operation, the
type of its answers.  Programs form a monad, so straight-line code is written in
`do` notation.

Two readings of a program are given.

* `Steps program trace rest` and `Returns program trace value` leave the answers
  completely open: every answer of the right type is possible.  What is proved
  about all traces holds whatever else touches the shared state meanwhile.
* `exec` runs a program alone against an `Interpreter`, which answers a call from
  a state and from one element of an external input stream.  `exec_returns` says
  that this is one of the traces above.

`Ensures` and `Guarded` are the two proof rules: a postcondition over complete
traces, and a condition on every call in terms of the calls made before it.
`Triple` adds the state of the interpreter.
-/

namespace ApiGateway
namespace Library

/-- Operations and the type of their answers. -/
structure Signature where
  Op : Type
  Res : Op → Type

/-- A program over a signature, returning a value of type `α`. -/
inductive Program (S : Signature) (α : Type) : Type where
  | done (value : α) : Program S α
  | call (op : S.Op) (next : S.Res op → Program S α) : Program S α

/-- One call together with its answer. -/
abbrev Event (S : Signature) := (op : S.Op) × S.Res op

namespace Program

variable {S : Signature} {α β : Type}

/-- Sequential composition. -/
def bind : Program S α → (α → Program S β) → Program S β
  | .done value, next => next value
  | .call op rest, next => .call op fun answer => (rest answer).bind next

instance : Monad (Program S) where
  pure := .done
  bind := bind

/-- The program has finished. -/
def isDone : Program S α → Bool
  | .done _ => true
  | .call _ _ => false

/-- The program that makes one call and returns its answer. -/
def perform (op : S.Op) : Program S (S.Res op) := .call op .done

@[simp] theorem pure_eq (value : α) : (pure value : Program S α) = .done value := rfl

@[simp] theorem done_bind (value : α) (next : α → Program S β) :
    (Program.done value >>= next) = next value := rfl

@[simp] theorem call_bind (op : S.Op) (rest : S.Res op → Program S α)
    (next : α → Program S β) :
    (Program.call op rest >>= next) = .call op fun answer => rest answer >>= next := rfl

/-! ## Traces under arbitrary answers -/

/-- The program makes the calls of the trace, with its answers, and becomes `rest`. -/
inductive Steps : Program S α → List (Event S) → Program S α → Prop
  | refl (program : Program S α) : Steps program [] program
  | call (op : S.Op) (next : S.Res op → Program S α) (answer : S.Res op)
      {trace : List (Event S)} {rest : Program S α} (hrest : Steps (next answer) trace rest) :
      Steps (.call op next) (⟨op, answer⟩ :: trace) rest

/-- The program makes the calls of the trace and returns the value. -/
def Returns (program : Program S α) (trace : List (Event S)) (value : α) : Prop :=
  Steps program trace (.done value)

@[simp] theorem returns_done {value result : α} {trace : List (Event S)} :
    Returns (.done value) trace result ↔ trace = [] ∧ result = value := by
  constructor
  · intro h
    cases h
    exact ⟨rfl, rfl⟩
  · rintro ⟨rfl, rfl⟩
    exact .refl _

theorem returns_call {op : S.Op} {next : S.Res op → Program S α} {trace : List (Event S)}
    {value : α} :
    Returns (.call op next) trace value ↔
      ∃ answer tail, trace = ⟨op, answer⟩ :: tail ∧ Returns (next answer) tail value := by
  constructor
  · intro h
    cases h with
    | call _ _ answer hrest => exact ⟨answer, _, rfl, hrest⟩
  · rintro ⟨answer, tail, rfl, hrest⟩
    exact .call op next answer hrest

theorem returns_perform {op : S.Op} {next : S.Res op → Program S β} {trace : List (Event S)}
    {value : β} :
    Returns (perform op >>= next) trace value ↔
      ∃ answer tail, trace = ⟨op, answer⟩ :: tail ∧ Returns (next answer) tail value :=
  returns_call

theorem Steps.snoc {program : Program S α} {trace : List (Event S)} {op : S.Op}
    {next : S.Res op → Program S α} (h : Steps program trace (.call op next))
    (answer : S.Res op) : Steps program (trace ++ [⟨op, answer⟩]) (next answer) := by
  generalize hrest : Program.call op next = rest at h
  induction h with
  | refl _ =>
      subst hrest
      exact .call op next answer (.refl _)
  | call op' next' answer' _ ih => exact .call op' next' answer' (ih hrest)

/-- A trace of a sequential composition is a trace of the first program followed
by one of the second. -/
theorem returns_bind {program : Program S α} {next : α → Program S β}
    {trace : List (Event S)} {result : β} :
    Returns (program >>= next) trace result ↔
      ∃ value first second, trace = first ++ second ∧
        Returns program first value ∧ Returns (next value) second result := by
  -- A call of the first program is the first call of the composition.
  induction program generalizing trace with
  | done value => simp
  | call op rest ih =>
      simp only [call_bind, returns_call, ih]
      constructor
      · rintro ⟨answer, _, rfl, value, first, second, rfl, hfirst, hsecond⟩
        exact ⟨value, ⟨op, answer⟩ :: first, second, rfl, ⟨answer, first, rfl, hfirst⟩, hsecond⟩
      · rintro ⟨value, _, second, rfl, ⟨answer, first, rfl, hfirst⟩, hsecond⟩
        exact ⟨answer, first ++ second, rfl, value, first, second, rfl, hfirst, hsecond⟩

/-- Where a sequential composition stands: in its first program, or past it. -/
theorem steps_bind {program : Program S α} {next : α → Program S β} {trace : List (Event S)}
    {rest : Program S β} (h : Steps (program >>= next) trace rest) :
    (∃ op cont, Steps program trace (.call op cont) ∧
        rest = .call op fun answer => cont answer >>= next) ∨
      ∃ value first second, trace = first ++ second ∧
        Returns program first value ∧ Steps (next value) second rest := by
  induction program generalizing trace with
  | done value => exact Or.inr ⟨value, [], trace, rfl, .refl _, h⟩
  | call op cont ih =>
      cases h with
      | refl => exact Or.inl ⟨op, cont, .refl _, rfl⟩
      | call _ _ answer hrest =>
          rcases ih answer hrest with ⟨op', cont', hsteps, hrest'⟩ |
            ⟨value, first, second, htail, hfirst, hsecond⟩
          · exact Or.inl ⟨op', cont', .call op cont answer hsteps, hrest'⟩
          · refine Or.inr ⟨value, ⟨op, answer⟩ :: first, second, ?_, ?_, hsecond⟩
            · rw [htail]
              rfl
            · exact .call op cont answer hfirst

/-! ## Postconditions over complete traces -/

/-- Every complete trace of the program and its value satisfy `post`. -/
def Ensures (program : Program S α) (post : List (Event S) → α → Prop) : Prop :=
  ∀ trace value, Returns program trace value → post trace value

theorem ensures_done {value : α} {post : List (Event S) → α → Prop} (h : post [] value) :
    Ensures (.done value) post := by
  rintro trace result hreturns
  obtain ⟨rfl, rfl⟩ := returns_done.mp hreturns
  exact h

theorem ensures_call {op : S.Op} {next : S.Res op → Program S α}
    {post : List (Event S) → α → Prop}
    (h : ∀ answer, Ensures (next answer) fun trace => post (⟨op, answer⟩ :: trace)) :
    Ensures (.call op next) post := by
  rintro trace result hreturns
  obtain ⟨answer, tail, rfl, hrest⟩ := returns_call.mp hreturns
  exact h answer tail result hrest

theorem ensures_bind {program : Program S α} {next : α → Program S β}
    {mid : List (Event S) → α → Prop} {post : List (Event S) → β → Prop}
    (hfirst : Ensures program mid)
    (hsecond : ∀ first value, mid first value →
      Ensures (next value) fun second => post (first ++ second)) :
    Ensures (program >>= next) post := by
  rintro trace result hreturns
  obtain ⟨value, first, second, rfl, hreturns₁, hreturns₂⟩ := returns_bind.mp hreturns
  exact hsecond first value (hfirst first value hreturns₁) second result hreturns₂

theorem ensures_perform {op : S.Op} {next : S.Res op → Program S β}
    {post : List (Event S) → β → Prop}
    (h : ∀ answer, Ensures (next answer) fun trace => post (⟨op, answer⟩ :: trace)) :
    Ensures (perform op >>= next) post :=
  ensures_call h

theorem Ensures.mono {program : Program S α} {post post' : List (Event S) → α → Prop}
    (h : Ensures program post) (himp : ∀ trace value, post trace value → post' trace value) :
    Ensures program post' :=
  fun trace value hreturns => himp trace value (h trace value hreturns)

theorem Ensures.and {program : Program S α} {post post' : List (Event S) → α → Prop}
    (h : Ensures program post) (h' : Ensures program post') :
    Ensures program fun trace value => post trace value ∧ post' trace value :=
  fun trace value hreturns => ⟨h trace value hreturns, h' trace value hreturns⟩

/-! ## Conditions on the calls a program makes -/

/-- Every call the program can make satisfies `allowed`, given the events before it. -/
def Guarded (allowed : List (Event S) → S.Op → Prop) : List (Event S) → Program S α → Prop
  | _, .done _ => True
  | history, .call op next =>
      allowed history op ∧ ∀ answer, (next answer).Guarded allowed (history ++ [⟨op, answer⟩])

/-- A composition is guarded when its first part is, and its second part is after
every complete trace of the first. -/
theorem guarded_bind {allowed : List (Event S) → S.Op → Prop} {program : Program S α}
    {next : α → Program S β} {history : List (Event S)}
    (hfirst : program.Guarded allowed history)
    (hsecond : ∀ trace value, Returns program trace value →
      (next value).Guarded allowed (history ++ trace)) :
    (program >>= next).Guarded allowed history := by
  -- The history grows along the first program, so the induction is over every history.
  induction program generalizing history with
  | done value => simpa using hsecond [] value (returns_done.mpr ⟨rfl, rfl⟩)
  | call op rest ih =>
      refine ⟨hfirst.1, fun answer => ih answer (hfirst.2 answer) fun trace value hreturns => ?_⟩
      have := hsecond (⟨op, answer⟩ :: trace) value
        (returns_call.mpr ⟨answer, trace, rfl, hreturns⟩)
      simpa using this

theorem guarded_perform {allowed : List (Event S) → S.Op → Prop} {op : S.Op}
    {next : S.Res op → Program S β} {history : List (Event S)} (hop : allowed history op)
    (hnext : ∀ answer, (next answer).Guarded allowed (history ++ [⟨op, answer⟩])) :
    (perform op >>= next).Guarded allowed history :=
  ⟨hop, hnext⟩

/-- A program is guarded when every call is allowed from now on. -/
theorem guarded_of_forall {allowed : List (Event S) → S.Op → Prop} {program : Program S α}
    {history : List (Event S)} (h : ∀ later op, allowed (history ++ later) op) :
    program.Guarded allowed history := by
  induction program generalizing history with
  | done value => trivial
  | call op next ih =>
      refine ⟨by simpa using h [] op, fun answer => ih answer fun later op' => ?_⟩
      simpa using h (⟨op, answer⟩ :: later) op'

/-- Every event of a partial trace of a guarded program was allowed when it was made. -/
theorem Guarded.allowed_of_mem {allowed : List (Event S) → S.Op → Prop}
    {program rest : Program S α} {history trace : List (Event S)}
    (h : program.Guarded allowed history) (hsteps : Steps program trace rest)
    {before after : List (Event S)} {event : Event S}
    (htrace : trace = before ++ event :: after) : allowed (history ++ before) event.1 := by
  induction hsteps generalizing history before with
  | refl _ => simp at htrace
  | call op next answer _ ih =>
      cases before with
      | nil =>
          obtain ⟨rfl, -⟩ := List.cons.inj htrace
          simpa using h.1
      | cons first before =>
          obtain ⟨rfl, htail⟩ := List.cons.inj htrace
          simpa using ih (h.2 answer) htail

/-- What is left of a guarded program is guarded. -/
theorem Guarded.later {allowed : List (Event S) → S.Op → Prop} {program rest : Program S α}
    {history trace : List (Event S)} (h : program.Guarded allowed history)
    (hsteps : Steps program trace rest) : rest.Guarded allowed (history ++ trace) := by
  induction hsteps generalizing history with
  | refl _ => simpa using h
  | call op next answer _ ih => simpa using ih (h.2 answer)

/-! ## Calls in turn -/

/-- Every call is allowed when it is made, and the calls made by the end satisfy `post`. -/
def Conforms (allowed : List (Event S) → S.Op → Prop) (post : List (Event S) → α → Prop)
    (history : List (Event S)) (program : Program S α) : Prop :=
  program.Guarded allowed history ∧
    Ensures program fun trace value => post (history ++ trace) value

section Conforms

variable {allowed : List (Event S) → S.Op → Prop} {history : List (Event S)}

theorem conforms_done {value : α} {post : List (Event S) → α → Prop} (h : post history value) :
    (Program.done value).Conforms allowed post history :=
  ⟨trivial, ensures_done (by simpa using h)⟩

theorem conforms_perform {op : S.Op} {next : S.Res op → Program S β}
    {post : List (Event S) → β → Prop} (hop : allowed history op)
    (hnext : ∀ answer, (next answer).Conforms allowed post (history ++ [⟨op, answer⟩])) :
    (perform op >>= next).Conforms allowed post history := by
  refine ⟨guarded_perform hop fun answer => (hnext answer).1, ensures_perform fun answer => ?_⟩
  intro trace value hreturns
  simpa using (hnext answer).2 trace value hreturns

/-- The second program starts where the first one has left off. -/
theorem conforms_bind {program : Program S α} {next : α → Program S β}
    {mid : List (Event S) → α → Prop} {post : List (Event S) → β → Prop}
    (hfirst : program.Conforms allowed mid history)
    (hsecond : ∀ later value, mid later value → (next value).Conforms allowed post later) :
    (program >>= next).Conforms allowed post history := by
  constructor
  · refine guarded_bind hfirst.1 fun trace value hreturns => ?_
    exact (hsecond _ value (hfirst.2 trace value hreturns)).1
  · intro trace result hreturns
    obtain ⟨value, first, second, rfl, hreturns₁, hreturns₂⟩ := returns_bind.mp hreturns
    have hmid := hfirst.2 first value hreturns₁
    simpa using (hsecond _ value hmid).2 second result hreturns₂

end Conforms

/-- A call that is about to be made is allowed. -/
theorem Guarded.allowed_pending {allowed : List (Event S) → S.Op → Prop} {program : Program S α}
    {history : List (Event S)} {op : S.Op} {next : S.Res op → Program S α}
    (h : program.Guarded allowed []) (hsteps : Steps program history (.call op next))
    (answer : S.Res op) : allowed history op := by
  simpa using h.allowed_of_mem (hsteps.snoc answer) rfl

/-! ## The calls a program can make at all -/

/-- Every call the program can make satisfies `kind`. -/
def Makes (kind : S.Op → Prop) : Program S α → Prop
  | .done _ => True
  | .call op next => kind op ∧ ∀ answer, (next answer).Makes kind

/-- The calls of a guarded program are calls that are allowed at some point. -/
theorem Guarded.makes {allowed : List (Event S) → S.Op → Prop} {program : Program S α}
    {history : List (Event S)} (h : program.Guarded allowed history) :
    program.Makes fun op => ∃ before, allowed before op := by
  induction program generalizing history with
  | done value => trivial
  | call op next ih => exact ⟨⟨history, h.1⟩, fun answer => ih answer (h.2 answer)⟩

theorem makes_bind {kind : S.Op → Prop} {program : Program S α} {next : α → Program S β}
    (hfirst : program.Makes kind)
    (hsecond : ∀ trace value, Returns program trace value → (next value).Makes kind) :
    (program >>= next).Makes kind := by
  induction program with
  | done value => exact hsecond [] value (returns_done.mpr ⟨rfl, rfl⟩)
  | call op rest ih =>
      refine ⟨hfirst.1, fun answer => ih answer (hfirst.2 answer) fun trace value hreturns => ?_⟩
      exact hsecond _ value (returns_call.mpr ⟨answer, trace, rfl, hreturns⟩)

theorem makes_perform {kind : S.Op → Prop} {op : S.Op} {next : S.Res op → Program S β}
    (hop : kind op) (hnext : ∀ answer, (next answer).Makes kind) :
    (perform op >>= next).Makes kind :=
  ⟨hop, hnext⟩

theorem Makes.mono {kind kind' : S.Op → Prop} {program : Program S α} (h : program.Makes kind)
    (himp : ∀ op, kind op → kind' op) : program.Makes kind' := by
  induction program with
  | done value => trivial
  | call op next ih => exact ⟨himp op h.1, fun answer => ih answer (h.2 answer)⟩

theorem Makes.and {kind kind' : S.Op → Prop} {program : Program S α} (h : program.Makes kind)
    (h' : program.Makes kind') : program.Makes fun op => kind op ∧ kind' op := by
  induction program with
  | done value => trivial
  | call op next ih => exact ⟨⟨h.1, h'.1⟩, fun answer => ih answer (h.2 answer) (h'.2 answer)⟩

/-- Every call of a trace is of the kind that the program makes. -/
theorem Makes.of_mem {kind : S.Op → Prop} {program rest : Program S α}
    {trace : List (Event S)} (h : program.Makes kind) (hsteps : Steps program trace rest)
    {event : Event S} (hevent : event ∈ trace) : kind event.1 := by
  induction hsteps with
  | refl _ => cases hevent
  | call op next answer _ ih =>
      rcases List.mem_cons.mp hevent with rfl | htail
      · exact h.1
      · exact ih (h.2 answer) htail

/-- A program is guarded when each kind of call it makes is allowed after calls of that
kind. -/
theorem Makes.guarded_of_made {kind : S.Op → Prop} {allowed : List (Event S) → S.Op → Prop}
    {program : Program S α} {history : List (Event S)} (h : program.Makes kind)
    (hallowed : ∀ later op, (∀ event ∈ later, kind event.1) → kind op →
      allowed (history ++ later) op) :
    program.Guarded allowed history := by
  induction program generalizing history with
  | done value => trivial
  | call op next ih =>
      refine ⟨by simpa using hallowed [] op nofun h.1, fun answer => ih answer (h.2 answer) ?_⟩
      intro later op' hlater hkind
      have hmade : ∀ event ∈ (⟨op, answer⟩ : Event S) :: later, kind event.1 := by
        intro event hevent
        rcases List.mem_cons.mp hevent with rfl | hmem
        · exact h.1
        · exact hlater event hmem
      simpa using hallowed (⟨op, answer⟩ :: later) op' hmade hkind

/-- A program is guarded when each kind of call it makes is allowed from now on. -/
theorem Makes.guarded {kind : S.Op → Prop} {allowed : List (Event S) → S.Op → Prop}
    {program : Program S α} {history : List (Event S)} (h : program.Makes kind)
    (hallowed : ∀ later op, kind op → allowed (history ++ later) op) :
    program.Guarded allowed history :=
  h.guarded_of_made fun later op _ hkind => hallowed later op hkind

/-! ## Running alone against an interpreter -/

/-- How calls are answered: from one external input and the current state. -/
structure Interpreter (S : Signature) (Input State : Type) where
  answer : Input → State → (op : S.Op) → S.Res op × State

/-- The outcome of a run: the value, the state it leaves and the calls it made. -/
structure Execution (S : Signature) (State α : Type) where
  value : α
  state : State
  trace : List (Event S)

variable {Input State : Type}

/-- Run a program with nobody else touching the state.  The `n`-th call consumes
the `n`-th external input. -/
def exec (interp : Interpreter S Input State) :
    Program S α → (Nat → Input) → State → Execution S State α
  | .done value, _, state => ⟨value, state, []⟩
  | .call op next, inputs, state =>
      let reply := interp.answer (inputs 0) state op
      let tail := exec interp (next reply.1) (fun n => inputs (n + 1)) reply.2
      ⟨tail.value, tail.state, ⟨op, reply.1⟩ :: tail.trace⟩

@[simp] theorem exec_done (interp : Interpreter S Input State) (value : α)
    (inputs : Nat → Input) (state : State) :
    exec interp (.done value) inputs state = ⟨value, state, []⟩ := rfl

/-- An execution is one of the program's traces. -/
theorem exec_returns (interp : Interpreter S Input State) (program : Program S α)
    (inputs : Nat → Input) (state : State) :
    Returns program (exec interp program inputs state).trace
      (exec interp program inputs state).value := by
  induction program generalizing inputs state with
  | done value => exact returns_done.mpr ⟨rfl, rfl⟩
  | call op next ih => exact returns_call.mpr ⟨_, _, rfl, ih _ _ _⟩

theorem Ensures.exec {program : Program S α} {post : List (Event S) → α → Prop}
    (h : Ensures program post) (interp : Interpreter S Input State) (inputs : Nat → Input)
    (state : State) :
    post (program.exec interp inputs state).trace (program.exec interp inputs state).value :=
  h _ _ (exec_returns interp program inputs state)

/-- A reflexive and transitive relation that every call of an execution keeps relates the
states before and after it. -/
theorem exec_related {interp : Interpreter S Input State} {program : Program S α}
    {inputs : Nat → Input} {state : State} (related : State → State → Prop)
    (hrefl : ∀ state, related state state)
    (htrans : ∀ first second third, related first second → related second third →
      related first third)
    (hanswer : ∀ event ∈ (program.exec interp inputs state).trace, ∀ n before,
      related before (interp.answer (inputs n) before event.1).2) :
    related state (program.exec interp inputs state).state := by
  induction program generalizing inputs state with
  | done value => exact hrefl state
  | call op next ih =>
      have hfirst := hanswer _ List.mem_cons_self 0 state
      refine htrans _ _ _ hfirst (ih _ fun event hevent n before => ?_)
      exact hanswer event (List.mem_cons_of_mem _ hevent) (n + 1) before

/-- Every call of an execution was answered by the interpreter from one of the inputs. -/
theorem exec_event {interp : Interpreter S Input State} {program : Program S α}
    {inputs : Nat → Input} {state : State} {event : Event S}
    (h : event ∈ (program.exec interp inputs state).trace) :
    ∃ n before, event = ⟨event.1, (interp.answer (inputs n) before event.1).1⟩ := by
  induction program generalizing inputs state with
  | done value => cases h
  | call op next ih =>
      rcases List.mem_cons.mp h with rfl | htail
      · exact ⟨0, state, rfl⟩
      · obtain ⟨n, before, hevent⟩ := ih _ htail
        exact ⟨n + 1, before, hevent⟩

/-- Inputs that answer the calls of an execution alike lead to the same execution. -/
theorem exec_congr {interp : Interpreter S Input State} {program : Program S α}
    {inputs inputs' : Nat → Input} {state : State}
    (h : ∀ event ∈ (program.exec interp inputs state).trace, ∀ n before,
      interp.answer (inputs' n) before event.1 = interp.answer (inputs n) before event.1) :
    program.exec interp inputs' state = program.exec interp inputs state := by
  -- As long as the answers agree, both runs are in the same state at the same call.
  induction program generalizing inputs inputs' state with
  | done value => rfl
  | call op next ih =>
      have hfirst := h _ List.mem_cons_self 0 state
      have hrest := ih (interp.answer (inputs 0) state op).1
        (fun event hevent n before => h event (List.mem_cons_of_mem _ hevent) (n + 1) before)
      simp only [exec]
      rw [hfirst, hrest]

/-- The input stream that is left after `used` calls. -/
def later (inputs : Nat → Input) (used : Nat) : Nat → Input := fun n => inputs (used + n)

/-- Running a composition runs the parts one after the other. -/
theorem exec_bind (interp : Interpreter S Input State) (program : Program S α)
    (next : α → Program S β) (inputs : Nat → Input) (state : State) :
    exec interp (program >>= next) inputs state =
      let first := exec interp program inputs state
      let second := exec interp (next first.value) (later inputs first.trace.length) first.state
      ⟨second.value, second.state, first.trace ++ second.trace⟩ := by
  induction program generalizing inputs state with
  | done value =>
      have hinputs : later inputs 0 = inputs := by
        funext n
        simp [later]
      simp [hinputs]
  | call op rest ih =>
      have hinputs : ∀ used, later (fun n => inputs (n + 1)) used = later inputs (used + 1) := by
        intro used
        funext n
        exact congrArg inputs (by omega)
      simp only [call_bind, exec, ih, List.length_cons, hinputs, List.cons_append]

/-- From every state satisfying `pre`, with every stream of permitted inputs, the
execution satisfies `post`. -/
def Triple (interp : Interpreter S Input State) (permitted : Input → Prop)
    (pre : State → Prop) (program : Program S α)
    (post : α → List (Event S) → State → Prop) : Prop :=
  ∀ inputs state, (∀ n, permitted (inputs n)) → pre state →
    post (program.exec interp inputs state).value (program.exec interp inputs state).trace
      (program.exec interp inputs state).state

section Triple

variable {interp : Interpreter S Input State} {permitted : Input → Prop}

theorem triple_done {pre : State → Prop} {value : α} {post : α → List (Event S) → State → Prop}
    (h : ∀ state, pre state → post value [] state) :
    Triple interp permitted pre (.done value) post :=
  fun _ state _ hpre => h state hpre

theorem triple_perform {pre : State → Prop} {op : S.Op} {next : S.Res op → Program S α}
    {post : α → List (Event S) → State → Prop}
    (h : ∀ input, permitted input → ∀ state, pre state →
      Triple interp permitted (· = (interp.answer input state op).2)
        (next (interp.answer input state op).1)
        fun value trace => post value (⟨op, (interp.answer input state op).1⟩ :: trace)) :
    Triple interp permitted pre (perform op >>= next) post :=
  fun inputs state hinputs hpre =>
    h (inputs 0) (hinputs 0) state hpre (fun n => inputs (n + 1)) _
      (fun n => hinputs (n + 1)) rfl

theorem triple_bind {pre : State → Prop} {program : Program S α} {next : α → Program S β}
    {mid : α → List (Event S) → State → Prop} {post : β → List (Event S) → State → Prop}
    (hfirst : Triple interp permitted pre program mid)
    (hsecond : ∀ value first state, mid value first state →
      Triple interp permitted (· = state) (next value)
        fun result second => post result (first ++ second)) :
    Triple interp permitted pre (program >>= next) post := by
  intro inputs state hinputs hpre
  rw [exec_bind]
  exact hsecond _ _ _ (hfirst inputs state hinputs hpre) _ _ (fun n => hinputs _) rfl

/-- What holds of every trace holds of every execution. -/
theorem Ensures.triple {pre : State → Prop} {program : Program S α}
    {post : List (Event S) → α → Prop} (h : Ensures program post) :
    Triple interp permitted pre program fun value trace _ => post trace value :=
  fun inputs state _ _ => h.exec interp inputs state

theorem Triple.and {pre : State → Prop} {program : Program S α}
    {post post' : α → List (Event S) → State → Prop}
    (h : Triple interp permitted pre program post)
    (h' : Triple interp permitted pre program post') :
    Triple interp permitted pre program fun value trace state =>
      post value trace state ∧ post' value trace state :=
  fun inputs state hinputs hpre => ⟨h inputs state hinputs hpre, h' inputs state hinputs hpre⟩

theorem Triple.mono {pre pre' : State → Prop} {program : Program S α}
    {post post' : α → List (Event S) → State → Prop}
    (h : Triple interp permitted pre program post) (hpre : ∀ state, pre' state → pre state)
    (hpost : ∀ value trace state, post value trace state → post' value trace state) :
    Triple interp permitted pre' program post' :=
  fun inputs state hinputs hpre' =>
    hpost _ _ _ (h inputs state hinputs (hpre state hpre'))

end Triple

end Program
end Library
end ApiGateway
