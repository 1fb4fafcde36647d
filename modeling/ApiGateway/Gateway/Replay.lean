import ApiGateway.Gateway.AttemptLoop

/-!
# No replay of non-idempotent requests

A request whose method is not idempotent is sent again only after a call that did
not deliver it.  The law is a condition on every call the handler makes, in terms of
the calls before it, so it holds at every moment of every interleaving, for handlers
that are dropped on the way too.
-/

namespace ApiGateway
namespace Gateway

open Library Core Program

/-- The call failed before anything was delivered. -/
def SendResult.undelivered : SendResult → Bool
  | .ok _ => false
  | .error e => e.isConnect

/-- Nothing sent so far was delivered. -/
def NothingDelivered (history : List (Event effects)) : Prop :=
  ∀ made ∈ sends history, SendResult.undelivered made.2 = true

/-- A request is sent only when nothing of it has been delivered. -/
def SendsUndelivered (history : List (Event effects)) : Op → Prop
  | .send _ _ => NothingDelivered history
  | _ => True

theorem sendsUndelivered_of_kind {history : List (Event effects)} {op : Op}
    (h : op.kind ≠ .send) : SendsUndelivered history op := by
  cases op with
  | send _ _ => exact absurd rfl h
  | _ => trivial

theorem sends_eq_nil {trace : List (Event effects)}
    (h : ∀ event ∈ trace, event.1.kind ≠ .send) : sends trace = [] := by
  refine List.eq_nil_iff_forall_not_mem.mpr fun made hmade => ?_
  obtain ⟨request, hevent⟩ := mem_sends hmade
  exact h _ hevent rfl

/-- A call that is no send delivers nothing. -/
theorem NothingDelivered.snoc {history : List (Event effects)} (h : NothingDelivered history)
    {event : Event effects} (hkind : event.1.kind ≠ .send) :
    NothingDelivered (history ++ [event]) := by
  have hsends : sends [event] = [] := sends_eq_nil fun other hother =>
    List.mem_singleton.mp hother ▸ hkind
  unfold NothingDelivered
  rw [sends_append, hsends, List.append_nil]
  exact h

section Stages

variable {α : Type} {kinds : List OpKind} {program : GatewayProgram α}
  {history : List (Event effects)}

/-- A stage that sends nothing keeps the law. -/
theorem sendsUndelivered_of_makesKinds (h : MakesKinds kinds program) (hkinds : .send ∉ kinds) :
    program.Guarded SendsUndelivered history :=
  Makes.guarded h fun _ _ hop =>
    sendsUndelivered_of_kind fun hsend => hkinds (hsend ▸ hop)

/-- After a stage that sends nothing, still nothing is delivered. -/
theorem nothingDelivered_append (h : MakesKinds kinds program) (hkinds : .send ∉ kinds)
    (hnothing : NothingDelivered history) {trace : List (Event effects)} {value : α}
    (hreturns : Returns program trace value) : NothingDelivered (history ++ trace) := by
  have hsends : sends trace = [] := sends_eq_nil fun _ hevent hsend =>
    hkinds (hsend ▸ Makes.of_mem h hreturns hevent)
  unfold NothingDelivered
  rw [sends_append, hsends, List.append_nil]
  exact hnothing

end Stages

namespace Exchange

variable {exchange : Exchange} {history : List (Event effects)}

theorem tryUpstream_sendsUndelivered (hnothing : NothingDelivered history) (bodyBytes : Bytes)
    (attempt index : Nat) (upstream : Upstream) :
    (exchange.tryUpstream bodyBytes attempt index upstream).Guarded SendsUndelivered history := by
  refine guarded_perform trivial fun start => guarded_perform ?_ fun result => ?_
  · exact hnothing.snoc nofun
  · refine guarded_perform trivial fun _ => guarded_perform trivial fun _ =>
      guarded_perform trivial fun _ => ?_
    refine guarded_bind (sendsUndelivered_of_makesKinds
      (exchange.settle_makesKinds attempt index upstream result) (by decide)) fun _ _ _ => ?_
    exact guarded_perform trivial fun _ => trivial

/-- After an attempt of a non-idempotent request that is to be repeated, still
nothing is delivered. -/
theorem nothingDelivered_tryUpstream (hmethod : exchange.idempotent = false)
    (hnothing : NothingDelivered history) {bodyBytes : Bytes} {attempt index : Nat}
    {upstream : Upstream} {trace : List (Event effects)}
    (hreturns : Returns (exchange.tryUpstream bodyBytes attempt index upstream) trace none) :
    NothingDelivered (history ++ trace) := by
  obtain ⟨result, hnotes, hsettled⟩ :=
    exchange.tryUpstream_ensures bodyBytes attempt index upstream trace none hreturns
  -- Without idempotence only a connect error is retried.
  have hundelivered : SendResult.undelivered result = true := by
    split at hsettled
    · rename_i hretry
      cases result with
      | ok resp => simp [retryable, hmethod] at hretry
      | error e =>
          simp only [retryable, hmethod, Bool.false_or, Bool.and_eq_true] at hretry
          exact hretry.1
    · cases hsettled
  have hlist : notes trace = [(index, result)].flatMap exchange.attemptNotes := by
    simpa using hnotes
  have hsends := sends_of_notes hlist
  unfold NothingDelivered
  rw [sends_append, hsends]
  intro made hmade
  rcases List.mem_append.mp hmade with hold | hnew
  · exact hnothing made hold
  · rw [List.mem_singleton.mp hnew]
    exact hundelivered

theorem attemptLoop_sendsUndelivered (hmethod : exchange.idempotent = false)
    (hnothing : NothingDelivered history) (bodyBytes : Bytes) (remaining attempt : Nat)
    (excluded : List Nat) :
    (exchange.attemptLoop bodyBytes remaining attempt excluded).Guarded SendsUndelivered
      history := by
  induction remaining generalizing history attempt excluded with
  | zero =>
      exact guarded_bind (sendsUndelivered_of_makesKinds (exchange.record_makesKinds _)
        (by decide)) fun _ _ _ => trivial
  | succ remaining ih =>
      have hpick := Balancer.pick_makesKinds exchange.runtime.balancer exchange.runtime.id excluded
      refine guarded_bind (sendsUndelivered_of_makesKinds hpick (by decide))
        fun picking picked hpicked => ?_
      have hpicking := nothingDelivered_append hpick (by decide) hnothing hpicked
      cases picked with
      | none =>
          exact guarded_bind (sendsUndelivered_of_makesKinds (exchange.record_makesKinds _)
            (by decide)) fun _ _ _ => trivial
      | some picked =>
          obtain ⟨index, upstream⟩ := picked
          refine guarded_bind (tryUpstream_sendsUndelivered hpicking bodyBytes attempt index
            upstream) fun trying settled hsettled => ?_
          cases settled with
          -- The round failed and the request goes on: so nothing was delivered by it.
          | none => exact ih (nothingDelivered_tryUpstream hmethod hpicking hsettled) _ _
          | some response => trivial

theorem proxy_sendsUndelivered (hmethod : exchange.idempotent = false)
    (hnothing : NothingDelivered history) :
    exchange.proxy.Guarded SendsUndelivered history := by
  refine guarded_perform trivial fun answer => ?_
  have hread : NothingDelivered (history ++ [⟨.readRequestBody, answer⟩]) := hnothing.snoc nofun
  split
  · exact guarded_bind (sendsUndelivered_of_makesKinds (exchange.record_makesKinds _)
      (by decide)) fun _ _ _ => trivial
  · exact attemptLoop_sendsUndelivered hmethod hread _ _ _ _

theorem serve_sendsUndelivered (decode : TokenDecoder) (hmethod : exchange.idempotent = false)
    (hnothing : NothingDelivered history) :
    (exchange.serve decode).Guarded SendsUndelivered history := by
  have hauth := exchange.authenticate_makesKinds decode
  have hlimit := exchange.limitRate_makesKinds
  have hlookup := exchange.lookupCache_makesKinds
  apply serve_guarded_of_stages
  · exact sendsUndelivered_of_makesKinds hauth (by decide)
  · intro auth _
    exact sendsUndelivered_of_makesKinds hlimit (by decide)
  · intro auth limited _ _
    exact sendsUndelivered_of_makesKinds hlookup (by decide)
  · intro auth limited looked hrauth hrlimited hrlooked
    have hauthed := nothingDelivered_append hauth (by decide) hnothing hrauth
    have hadmitted := nothingDelivered_append hlimit (by decide) hauthed hrlimited
    exact proxy_sendsUndelivered hmethod
      (nothingDelivered_append hlookup (by decide) hadmitted hrlooked)

end Exchange

theorem handle_sendsUndelivered (decode : TokenDecoder) (state : GatewayState)
    (incoming : Incoming) (hmethod : isIdempotent incoming.request.method = false) :
    (handle decode state incoming).Guarded SendsUndelivered [] := by
  apply handle_guarded_of_serve
  · intro history op hop
    apply sendsUndelivered_of_kind
    intro hsend
    rw [hsend] at hop
    exact absurd hop (by decide)
  · intro route runtime correlation started history _ _ hkinds _
    have hnone : sends history = [] := by
      apply sends_eq_nil
      intro event hevent hsend
      have hframe := hkinds event hevent
      rw [hsend] at hframe
      exact absurd hframe (by decide)
    have hnothing : NothingDelivered history := by
      unfold NothingDelivered
      rw [hnone]
      nofun
    exact Exchange.serve_sendsUndelivered decode hmethod hnothing

/-- When each send was made with nothing delivered before, all sends but the last
delivered nothing. -/
theorem undelivered_of_mem_dropLast {trace : List (Event effects)}
    (h : ∀ before event after, trace = before ++ event :: after →
      SendsUndelivered before event.1) :
    ∀ made ∈ (sends trace).dropLast, SendResult.undelivered made.2 = true := by
  induction trace using List.reverseRecOn with
  | nil => simp [sends]
  | append_singleton trace event ih =>
      by_cases hkind : event.1.kind = .send
      · obtain ⟨op, answer⟩ := event
        have hlast := h trace ⟨op, answer⟩ [] rfl
        cases op with
        | send upstream request =>
            have hsends : sends (trace ++ [⟨.send upstream request, answer⟩]) =
                sends trace ++ [(upstream, answer)] := sends_append _ _
            rw [hsends, List.dropLast_concat]
            exact hlast
        | inc counter => cases counter <;> cases hkind
        | _ => cases hkind
      · have hsends : sends [event] = [] := sends_eq_nil fun other hother =>
          List.mem_singleton.mp hother ▸ hkind
        rw [sends_append, hsends, List.append_nil]
        refine ih fun before earlier after htrace => h before earlier (after ++ [event]) ?_
        simp [htrace]

/-- **No replay of non-idempotent requests.**  For every state of the gateway and every
request whose method is not idempotent, at every point of every trace of its handler,
whatever is answered to its calls, every attempt but possibly the last ended in a
connect error.  So the request is delivered to at most one upstream. -/
theorem no_replay (decode : TokenDecoder) (state : GatewayState) (incoming : Incoming)
    (hmethod : isIdempotent incoming.request.method = false) (trace : List (Event effects))
    (rest : GatewayProgram Response) (hsteps : Steps (handle decode state incoming) trace rest) :
    (∀ made ∈ (sends trace).dropLast, ∃ e, made.2 = .error e ∧ e.isConnect = true) ∧
      ((sends trace).filter fun made => !SendResult.undelivered made.2).length ≤ 1 := by
  have hundelivered := undelivered_of_mem_dropLast fun before event after htrace => by
    simpa using (handle_sendsUndelivered decode state incoming hmethod).allowed_of_mem hsteps
      htrace
  refine ⟨fun made hmade => ?_, ?_⟩
  · have hconnect := hundelivered made hmade
    cases hresult : made.2 with
    | ok resp =>
        rw [hresult] at hconnect
        cases hconnect
    | error e =>
        rw [hresult] at hconnect
        exact ⟨e, rfl, hconnect⟩
  · cases hsends : sends trace using List.reverseRecOn with
    | nil => simp
    | append_singleton earlier last =>
        rw [hsends, List.dropLast_concat] at hundelivered
        have hearlier : earlier.filter (fun made => !SendResult.undelivered made.2) = [] :=
          List.filter_eq_nil_iff.mpr fun made hmade => by simp [hundelivered made hmade]
        rw [List.filter_append, hearlier]
        exact (List.length_filter_le _ _).trans (Nat.le_refl 1)

/-- The first upstream cannot be connected, the second one answers. -/
def firstDownInput : Input :=
  { upstream := fun id _ =>
      if id.index = 0 then .error ⟨true⟩ else .ok ⟨.ok, [], ⟨[], true⟩⟩ }

/-- A `POST` goes on to the second upstream after a connect error. -/
theorem no_replay_post :
    let run := (handle (fun _ _ _ => none) (.build pairConfig false) (pairIncoming .post)).exec
      interpreter (fun _ => firstDownInput) .initial
    (sends run.trace).length = 2 ∧
      ∀ made ∈ (sends run.trace).dropLast, ∃ e, made.2 = .error e ∧ e.isConnect = true := by
  intro run
  exact ⟨rfl, (no_replay (fun _ _ _ => none) (.build pairConfig false) (pairIncoming .post) rfl
    run.trace _ (exec_returns interpreter _ _ _)).1⟩

end Gateway
end ApiGateway
