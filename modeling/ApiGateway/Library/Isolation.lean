import ApiGateway.Library.Interleaving

/-!
# Isolation of a class of threads

The requests of a server fall into two classes, ours and the others.  `Isolates` collects what
the operations must satisfy so that the others have no influence: a relation of states, to be
read as agreement on what ours can see, that is kept by a call of one of ours made on both
sides, with the same answer, and by a call of one of the others made on one side only.

`isolated_after` is the consequence for whole runs.  For every run there is one in which the
others arrive and make no call at all, and in which every thread of ours has made the same
calls, with the same answers, and stands at the same place.
-/

namespace ApiGateway
namespace Library

open Program

variable {S : Signature} {Request Input Disturbance State α : Type}

/-- The requests of a run, in order of arrival. -/
def arrivals (actions : List (Action Request Input Disturbance)) : List Request :=
  actions.filterMap fun action =>
    match action with
    | .arrive request => some request
    | _ => none

theorem arrivals_append (first second : List (Action Request Input Disturbance)) :
    arrivals (first ++ second) = arrivals first ++ arrivals second :=
  List.filterMap_append

/-- An update that keeps the request of a thread keeps the requests of all. -/
theorem map_request_set {threads : List (Thread S Request α)} {index : Nat}
    {old : Thread S Request α} (hold : threads[index]? = some old) (new : Thread S Request α)
    (hnew : new.request = old.request) :
    (threads.set index new).map Thread.request = threads.map Thread.request := by
  obtain ⟨hlt, hget⟩ := List.getElem?_eq_some_iff.mp hold
  rw [List.map_set]
  refine List.ext_getElem? fun other => ?_
  rw [List.getElem?_set]
  split
  · rename_i heq
    subst heq
    simp [hlt, hget, hnew]
  · rfl

/-- Threads are numbered in order of arrival. -/
theorem Pool.requests_after (server : Server S Request Input Disturbance State α) (state : State)
    (actions : List (Action Request Input Disturbance)) :
    (Pool.after server state actions).threads.map Thread.request = arrivals actions := by
  induction actions using List.reverseRecOn with
  | nil => rfl
  | append_singleton actions action ih =>
      rw [Pool.after_snoc, arrivals_append, ← ih]
      cases action with
      | arrive request => simp [Pool.step, arrivals]
      | advance index input =>
          refine Eq.trans ?_ (List.append_nil _).symm
          simp only [Pool.step]
          split
          · rfl
          · rename_i thread hthread
            split
            · rfl
            · exact map_request_set hthread _ rfl
      | cancel index =>
          refine Eq.trans ?_ (List.append_nil _).symm
          simp only [Pool.step]
          split
          · rfl
          · rename_i thread hthread
            split
            · rfl
            · split
              · exact map_request_set hthread _ rfl
              · rfl
      | disturb disturbance => exact (List.append_nil _).symm

/-! ## What isolates a class -/

section Isolation

variable (server : Server S Request Input Disturbance State α)

/-- Conditions under which the requests that are not ours have no influence on ours.  The calls
of a request are all `permitted` for it; `same` says which inputs count as the same, since a
call may have to make up for what the others did to the state, such as the time they took. -/
structure Isolates (admitted : Request → Prop) (ours : Request → Bool) (own : Disturbance → Bool)
    (permitted : Request → S.Op → Prop) (same : Input → Input → Prop)
    (agree : State → State → Prop) : Prop where
  same_refl : ∀ input, same input input
  makes : ∀ request, admitted request → (server.start request).Makes (permitted request)
  call : ∀ {request op state state'} (input : Input), admitted request → ours request = true →
    permitted request op → agree state state' → ∃ input', same input input' ∧
      (server.interp.answer input' state' op).1 = (server.interp.answer input state op).1 ∧
      agree (server.interp.answer input state op).2 (server.interp.answer input' state' op).2
  callOther : ∀ {request op state state'} (input : Input), admitted request →
    ours request = false → permitted request op → agree state state' →
      agree (server.interp.answer input state op).2 state'
  drop : ∀ {request history state state'}, admitted request → ours request = true →
    (∀ event ∈ history, permitted request event.1) → agree state state' →
      agree (server.onDrop history state) (server.onDrop history state')
  dropOther : ∀ {request history state state'}, admitted request → ours request = false →
    (∀ event ∈ history, permitted request event.1) → agree state state' →
      agree (server.onDrop history state) state'
  disturb : ∀ {disturbance state state'}, own disturbance = true → agree state state' →
    agree (server.disturb disturbance state) (server.disturb disturbance state')
  disturbOther : ∀ {disturbance state state'}, own disturbance = false → agree state state' →
    agree (server.disturb disturbance state) state'

end Isolation

/-- The second run is the first without the calls of the threads that are not ours: they
arrive, and that is all.  The calls of ours have the same inputs. -/
inductive Silenced (mine : Nat → Bool) (own : Disturbance → Bool) (same : Input → Input → Prop) :
    List (Action Request Input Disturbance) → List (Action Request Input Disturbance) → Prop
  | nil : Silenced mine own same [] []
  | arrive {actions kept : List (Action Request Input Disturbance)} (request : Request)
      (before : Silenced mine own same actions kept) :
      Silenced mine own same (actions ++ [.arrive request]) (kept ++ [.arrive request])
  | advance {actions kept : List (Action Request Input Disturbance)} {index : Nat}
      {input input' : Input} (hmine : mine index = true) (hsame : same input input')
      (before : Silenced mine own same actions kept) :
      Silenced mine own same (actions ++ [.advance index input]) (kept ++ [.advance index input'])
  | cancel {actions kept : List (Action Request Input Disturbance)} {index : Nat}
      (hmine : mine index = true) (before : Silenced mine own same actions kept) :
      Silenced mine own same (actions ++ [.cancel index]) (kept ++ [.cancel index])
  | disturb {actions kept : List (Action Request Input Disturbance)} {disturbance : Disturbance}
      (hown : own disturbance = true) (before : Silenced mine own same actions kept) :
      Silenced mine own same (actions ++ [.disturb disturbance]) (kept ++ [.disturb disturbance])
  | advanceOther {actions kept : List (Action Request Input Disturbance)} {index : Nat}
      (input : Input) (hmine : mine index = false) (before : Silenced mine own same actions kept) :
      Silenced mine own same (actions ++ [.advance index input]) kept
  | cancelOther {actions kept : List (Action Request Input Disturbance)} {index : Nat}
      (hmine : mine index = false) (before : Silenced mine own same actions kept) :
      Silenced mine own same (actions ++ [.cancel index]) kept
  | disturbOther {actions kept : List (Action Request Input Disturbance)}
      {disturbance : Disturbance} (hown : own disturbance = false)
      (before : Silenced mine own same actions kept) :
      Silenced mine own same (actions ++ [.disturb disturbance]) kept

/-- Two pools in which ours stand at the same place, over states that agree. -/
structure Alike (mine : Nat → Bool) (agree : State → State → Prop)
    (pool pool' : Pool S Request State α) : Prop where
  length_eq : pool.threads.length = pool'.threads.length
  threads : ∀ index, mine index = true → pool.threads[index]? = pool'.threads[index]?
  state : agree pool.state pool'.state

namespace Alike

variable {server : Server S Request Input Disturbance State α} {admitted : Request → Prop}
  {ours : Request → Bool} {own : Disturbance → Bool} {permitted : Request → S.Op → Prop}
  {same : Input → Input → Prop} {agree : State → State → Prop} {mine : Nat → Bool}
  {pool pool' : Pool S Request State α}

theorem arrive (h : Alike mine agree pool pool') (request : Request) :
    Alike mine agree (pool.step server (.arrive request)) (pool'.step server (.arrive request)) := by
  refine ⟨by simp [Pool.step, h.length_eq], fun index hmine => ?_, h.state⟩
  have hthread := h.threads index hmine
  simp only [Pool.step, List.getElem?_append, h.length_eq, hthread]

/-- An update of one thread of ours on both sides. -/
theorem set {index : Nat} {thread : Thread S Request α} {state state' : State}
    {log log' : List (Nat × Event S)} (h : Alike mine agree pool pool')
    (hstate : agree state state') :
    Alike mine agree ⟨state, pool.threads.set index thread, log⟩
      ⟨state', pool'.threads.set index thread, log'⟩ := by
  refine ⟨by simp [h.length_eq], fun other hmine => ?_, hstate⟩
  simp only [List.getElem?_set, h.length_eq, h.threads other hmine]

/-- An update of one thread that is not ours on one side. -/
theorem setOther {index : Nat} {thread : Thread S Request α} {state : State}
    {log : List (Nat × Event S)} (h : Alike mine agree pool pool') (hmine : mine index = false)
    (hstate : agree state pool'.state) :
    Alike mine agree ⟨state, pool.threads.set index thread, log⟩ pool' := by
  refine ⟨by simp [h.length_eq], fun other hother => ?_, hstate⟩
  have hne : index ≠ other := by
    rintro rfl
    rw [hmine] at hother
    cases hother
  rw [List.getElem?_set_ne hne]
  exact h.threads other hother

end Alike

section Runs

variable {server : Server S Request Input Disturbance State α} {admitted : Request → Prop}
  {ours : Request → Bool} {own : Disturbance → Bool} {permitted : Request → S.Op → Prop}
  {same : Input → Input → Prop} {agree : State → State → Prop} {mine : Nat → Bool}

/-- The calls of a thread, the next one included, are permitted for its request. -/
theorem Isolates.permitted_history
    (h : Isolates server admitted ours own permitted same agree) {pool : Pool S Request State α}
    (hcoherent : Pool.Coherent server pool) {index : Nat} {thread : Thread S Request α}
    (hthread : pool.threads[index]? = some thread) (hadmitted : admitted thread.request) :
    ∀ event ∈ thread.history, permitted thread.request event.1 :=
  fun _ hevent => (h.makes thread.request hadmitted).of_mem (hcoherent.steps index thread hthread)
    hevent

theorem Isolates.permitted_pending
    (h : Isolates server admitted ours own permitted same agree) {pool : Pool S Request State α}
    (hcoherent : Pool.Coherent server pool) {index : Nat} {thread : Thread S Request α}
    (hthread : pool.threads[index]? = some thread) (hadmitted : admitted thread.request)
    {op : S.Op} {next : S.Res op → Program S α} (hpending : thread.pending? = some ⟨op, next⟩)
    (answer : S.Res op) : permitted thread.request op := by
  have hsteps := hcoherent.steps index thread hthread
  rw [Thread.rest_of_pending? hpending] at hsteps
  have hguarded : (server.start thread.request).Guarded
      (fun _ op => permitted thread.request op) [] :=
    (h.makes thread.request hadmitted).guarded fun _ _ hop => hop
  exact hguarded.allowed_pending hsteps answer

namespace Alike

variable {pool pool' : Pool S Request State α} {index : Nat}

/-- A thread of ours makes the same call on both sides. -/
theorem advance (h : Isolates server admitted ours own permitted same agree)
    (hcoherent : Pool.Coherent server pool) (halike : Alike mine agree pool pool')
    (hmine : mine index = true)
    (hours : ∀ thread, pool.threads[index]? = some thread →
      admitted thread.request ∧ ours thread.request = true) (input : Input) :
    ∃ input', same input input' ∧
      Alike mine agree (pool.step server (.advance index input))
        (pool'.step server (.advance index input')) := by
  have hsame := halike.threads index hmine
  cases hthread : pool.threads[index]? with
  | none =>
      refine ⟨input, h.same_refl input, ?_⟩
      simpa only [Pool.step, hthread, ← hsame] using halike
  | some thread =>
      cases hpending : thread.pending? with
      | none =>
          refine ⟨input, h.same_refl input, ?_⟩
          simpa only [Pool.step, hthread, ← hsame, hpending] using halike
      | some pending =>
          obtain ⟨op, next⟩ := pending
          obtain ⟨hadmitted, hclass⟩ := hours thread hthread
          obtain ⟨input', hinput, hanswer, hstate⟩ := h.call input hadmitted hclass
            (h.permitted_pending hcoherent hthread hadmitted hpending
              (server.interp.answer input pool.state op).1) halike.state
          refine ⟨input', hinput, ?_⟩
          simp only [Pool.step, hthread, ← hsame, hpending, hanswer]
          exact halike.set hstate

/-- A call of a thread that is not ours is not seen. -/
theorem advanceOther (h : Isolates server admitted ours own permitted same agree)
    (hcoherent : Pool.Coherent server pool) (halike : Alike mine agree pool pool')
    (hmine : mine index = false)
    (hothers : ∀ thread, pool.threads[index]? = some thread →
      admitted thread.request ∧ ours thread.request = false) (input : Input) :
    Alike mine agree (pool.step server (.advance index input)) pool' := by
  cases hthread : pool.threads[index]? with
  | none => simpa only [Pool.step, hthread] using halike
  | some thread =>
      cases hpending : thread.pending? with
      | none => simpa only [Pool.step, hthread, hpending] using halike
      | some pending =>
          obtain ⟨op, next⟩ := pending
          obtain ⟨hadmitted, hclass⟩ := hothers thread hthread
          have hpermitted := h.permitted_pending hcoherent hthread hadmitted hpending
            (server.interp.answer input pool.state op).1
          simp only [Pool.step, hthread, hpending]
          exact halike.setOther hmine (h.callOther input hadmitted hclass hpermitted halike.state)

theorem cancel (h : Isolates server admitted ours own permitted same agree)
    (hcoherent : Pool.Coherent server pool) (halike : Alike mine agree pool pool')
    (hmine : mine index = true)
    (hours : ∀ thread, pool.threads[index]? = some thread →
      admitted thread.request ∧ ours thread.request = true) :
    Alike mine agree (pool.step server (.cancel index)) (pool'.step server (.cancel index)) := by
  have hsame := halike.threads index hmine
  cases hthread : pool.threads[index]? with
  | none => simpa only [Pool.step, hthread, ← hsame] using halike
  | some thread =>
      cases hpending : thread.pending? with
      | none => simpa only [Pool.step, hthread, ← hsame, hpending] using halike
      | some pending =>
          obtain ⟨op, next⟩ := pending
          obtain ⟨hadmitted, hclass⟩ := hours thread hthread
          have hhistory := h.permitted_history hcoherent hthread hadmitted
          simp only [Pool.step, hthread, ← hsame, hpending]
          split
          · exact halike.set (h.drop hadmitted hclass hhistory halike.state)
          · exact halike

theorem cancelOther (h : Isolates server admitted ours own permitted same agree)
    (hcoherent : Pool.Coherent server pool) (halike : Alike mine agree pool pool')
    (hmine : mine index = false)
    (hothers : ∀ thread, pool.threads[index]? = some thread →
      admitted thread.request ∧ ours thread.request = false) :
    Alike mine agree (pool.step server (.cancel index)) pool' := by
  cases hthread : pool.threads[index]? with
  | none => simpa only [Pool.step, hthread] using halike
  | some thread =>
      cases hpending : thread.pending? with
      | none => simpa only [Pool.step, hthread, hpending] using halike
      | some pending =>
          obtain ⟨op, next⟩ := pending
          obtain ⟨hadmitted, hclass⟩ := hothers thread hthread
          have hhistory := h.permitted_history hcoherent hthread hadmitted
          simp only [Pool.step, hthread, hpending]
          split
          · exact halike.setOther hmine (h.dropOther hadmitted hclass hhistory halike.state)
          · exact halike

end Alike

/-- For every run there is one in which the others make no call, and ours the same ones. -/
theorem isolated_after (h : Isolates server admitted ours own permitted same agree)
    (mine : Nat → Bool) (state : State) (hagree : agree state state)
    (actions : List (Action Request Input Disturbance))
    (hadmitted : ∀ request ∈ arrivals actions, admitted request)
    (hmine : ∀ index request, (arrivals actions)[index]? = some request →
      mine index = ours request) :
    ∃ kept, Silenced mine own same actions kept ∧
      Alike mine agree (Pool.after server state actions) (Pool.after server state kept) := by
  induction actions using List.reverseRecOn with
  | nil => exact ⟨[], .nil, rfl, fun _ _ => rfl, hagree⟩
  | append_singleton actions action ih =>
      rw [arrivals_append] at hadmitted hmine
      have hadmitted' : ∀ request ∈ arrivals actions, admitted request :=
        fun request hrequest => hadmitted request (List.mem_append_left _ hrequest)
      have hmine' : ∀ index request, (arrivals actions)[index]? = some request →
          mine index = ours request := by
        intro index request hrequest
        have hlt := (List.getElem?_eq_some_iff.mp hrequest).1
        exact hmine index request ((List.getElem?_append_left hlt).trans hrequest)
      obtain ⟨kept, hsilenced, halike⟩ := ih hadmitted' hmine'
      have hcoherent := Pool.coherent_after server state actions
      -- The class of a thread is that of the request it arrived with.
      have hclass : ∀ index thread,
          (Pool.after server state actions).threads[index]? = some thread →
          admitted thread.request ∧ ours thread.request = mine index := by
        intro index thread hthread
        have hrequest : (arrivals actions)[index]? = some thread.request := by
          rw [← Pool.requests_after server state actions, List.getElem?_map, hthread]
          rfl
        exact ⟨hadmitted' _ (List.mem_of_getElem? hrequest), (hmine' index _ hrequest).symm⟩
      rw [Pool.after_snoc]
      cases action with
      | arrive request =>
          refine ⟨_, .arrive request hsilenced, ?_⟩
          rw [Pool.after_snoc]
          exact halike.arrive request
      | advance index input =>
          cases hindex : mine index with
          | true =>
              obtain ⟨input', hsame, hnext⟩ := Alike.advance h hcoherent halike hindex
                (fun thread hthread => hindex ▸ hclass index thread hthread) input
              refine ⟨_, .advance hindex hsame hsilenced, ?_⟩
              rw [Pool.after_snoc]
              exact hnext
          | false =>
              exact ⟨kept, .advanceOther input hindex hsilenced, Alike.advanceOther h hcoherent
                halike hindex (fun thread hthread => hindex ▸ hclass index thread hthread) input⟩
      | cancel index =>
          cases hindex : mine index with
          | true =>
              refine ⟨_, .cancel hindex hsilenced, ?_⟩
              rw [Pool.after_snoc]
              exact Alike.cancel h hcoherent halike hindex
                fun thread hthread => hindex ▸ hclass index thread hthread
          | false =>
              exact ⟨kept, .cancelOther hindex hsilenced, Alike.cancelOther h hcoherent halike
                hindex fun thread hthread => hindex ▸ hclass index thread hthread⟩
      | disturb disturbance =>
          cases hown : own disturbance with
          | true =>
              refine ⟨_, .disturb hown hsilenced, ?_⟩
              rw [Pool.after_snoc]
              exact ⟨halike.length_eq, halike.threads, h.disturb hown halike.state⟩
          | false =>
              exact ⟨kept, .disturbOther hown hsilenced, halike.length_eq, halike.threads,
                h.disturbOther hown halike.state⟩

end Runs

end Library
end ApiGateway
