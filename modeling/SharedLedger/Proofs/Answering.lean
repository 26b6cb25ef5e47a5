import SharedLedger.Operation.Run
import SharedLedger.Web.Handler

/-!
# How commands are answered

The answer to a command is what its operation ends with, put into a response.
Nothing else of the operation changes (`Operation.conclude`): it opens the same
transactions, waits for the same locks and leaves the same store behind
(`Operation.run_conclude`). For a caller who is known, what a guarded route
offers for the method is carried out and answered like that, or a status says
why it cannot be (`Web.Handled`).
-/

namespace SharedLedger

/-! ## Changing the end of an operation -/

variable {α β : Type}

/-- The operation with another end to it. -/
def Operation.conclude (f : Except Failure α → Except Failure β) : Operation α → Operation β
  | done r => done (f r)
  | transaction body next => transaction body fun r => (next r).conclude f

/-- The operation on its way, with another end to it. -/
def Run.conclude (f : Except Failure α → Except Failure β) : Run α → Run β
  | outside op => outside (op.conclude f)
  | inside t plan next => inside t plan fun r => (next r).conclude f
  | waiting t key plan next => waiting t key plan fun r => (next r).conclude f

/-- Makes a result of both results and errors. An amount out of range stays what
it is. -/
def Failure.answer (result : α → β) (refusal : LedgerError → β) :
    Except Failure α → Except Failure β
  | .ok a => .ok (result a)
  | .error (.refused e) => .ok (refusal e)
  | .error (.overflow o) => .error (.overflow o)

namespace Operation

variable {f : Except Failure α → Except Failure β} {client : Client}

/-- Operations go as far with another end to them. -/
theorem drive_conclude (hf : ∀ o, f (.error (.overflow o)) = .error (.overflow o))
    (op : Operation α) (s : Store) :
    (op.conclude f).drive client s = ((op.drive client s).1, (op.drive client s).2.conclude f) := by
  induction op generalizing s with
  | done r => rfl
  | transaction body next ih =>
    simp only [conclude, drive]
    rcases s.begin client with ⟨e | t, s⟩
    · exact ih (.error e) s
    · dsimp only
      rcases body.drive s t with ⟨s, ⟨r, t⟩ | ⟨t, key, rest⟩⟩
      · dsimp only
        rcases s.close t r with ⟨s, o | r⟩
        · simp only [Run.conclude, conclude, hf]
        · exact ih r s
      · rfl

theorem result?_conclude (run : Run α) : (run.conclude f).result? = run.result?.map f := by
  cases run with
  | outside op => cases op <;> rfl
  | inside | waiting => rfl

/-- **An operation with another end** leaves the same store behind. -/
theorem run_conclude (hf : ∀ o, f (.error (.overflow o)) = .error (.overflow o))
    (op : Operation α) (s : Store) :
    (op.conclude f).run client s = ((op.run client s).1, (op.run client s).2.map f) := by
  unfold run
  rw [drive_conclude hf op s]
  exact Prod.ext rfl (result?_conclude _)

/-- Putting the result into a response, or the error, and sending that, is to
answer the end of the operation. -/
theorem answer_eq_conclude {γ : Type} (op : Operation α) (result : α → β)
    (refusal : LedgerError → β) (send : β → γ) :
    ((op.bind fun a => pure (result a)).rescue refusal).bind (fun b => pure (send b)) =
      op.conclude (Failure.answer (fun a => send (result a)) fun e => send (refusal e)) := by
  induction op with
  | done r => rcases r with (e | o) | a <;> rfl
  | transaction body next ih => exact congrArg (transaction body) (funext ih)

end Operation

/-! ## Requests of callers who are known -/

/-- In whose name a command is given; accounts are opened and logged in to in
nobody's. -/
def Command.caller? : Command → Option Int
  | register _ | authenticate _ | refresh _ => none
  | getUser caller _ | updateUser caller _ _ | deleteUser caller _ | createGroup caller _
  | listGroups caller | myBalances caller | myExpenses caller | myShares caller
  | act caller _ => some caller

namespace Web

variable {s : Setting} {r : Request} {route : Route Endpoint} {u id : Int} {c : Command}
  {success : Success} {response : Response}

/-- What is sent for a response: whoever asks for a head gets no body. -/
def Request.sent (r : Request) (response : Response) : Response :=
  if r.method = "HEAD" then response.head else response

/-- How the end of a command is answered. -/
def answer (s : Setting) (r : Request) (c : Command) (success : Success) :
    Except Failure c.Reply → Except Failure Response :=
  Failure.answer (fun v => r.sent (success.response (c.toJson v)))
    fun e => r.sent (.ofError s.fresh e)

/-- **A command that is carried out** for a request, and answered. -/
structure CarriedOut (s : Setting) (r : Request) (c : Command) (success : Success) : Prop where
  /-- Nothing is done but what the command does. -/
  operation : respond s r = (s.service.operation s.now c).conclude (answer s r c success)
  /-- The store is left as the command leaves it, and what the command comes to is
  answered. -/
  run : ∀ client store, (respond s r).run client store =
    (((s.service.operation s.now c).run client store).1,
      ((s.service.operation s.now c).run client store).2.map (answer s r c success))

/-- A request whose job is a command is answered as the command ends. -/
theorem carriedOut_of_job (h : job s r = .command c success) : CarriedOut s r c success := by
  have hrespond : respond s r = (s.service.operation s.now c).conclude (answer s r c success) := by
    unfold respond
    rw [h]
    exact Operation.answer_eq_conclude ..
  refine ⟨hrespond, fun client store => ?_⟩
  rw [hrespond]
  exact Operation.run_conclude (fun _ => rfl) _ store

theorem respond_of_reply (h : job s r = .reply response) : respond s r = pure (r.sent response) := by
  unfold respond
  rw [h]
  rfl

/-- **What is done for a caller who is known.** -/
structure Handled (s : Setting) (r : Request) (route : Route Endpoint) (u : Int) : Prop where
  /-- If the route offers something for the method and the id and the body can be
  read, then the command it stands for is given in the name of the caller and
  carried out. -/
  command : ∀ o id c, route.offer? r.method = some o → route.id r.segments = .ok id →
    o.endpoint.command u id r = .ok c →
    c.caller? = some u ∧ job s r = .command c o.endpoint.success ∧
      CarriedOut s r c o.endpoint.success
  /-- Otherwise a status says what is wrong, and the store is left alone. -/
  refusal : (∀ o id c, route.offer? r.method = some o → route.id r.segments = .ok id →
      o.endpoint.command u id r ≠ .ok c) →
    ∃ status ∈ [400, 405, 415, 422], respond s r = pure (r.sent (.bare status)) ∧
      ∀ client store, (respond s r).run client store = (store, some (.ok (r.sent (.bare status))))

/-! ## Reading what is asked for -/

theorem json_cases {α : Type} (reader : Json.Reader α) :
    (∃ a, r.json reader = .ok a) ∨ ∃ status ∈ [400, 415, 422], r.json reader = .error status := by
  unfold Request.json
  split
  · split
    · next a _ => exact .inl ⟨a, rfl⟩
    · exact .inr ⟨400, by decide, rfl⟩
    · exact .inr ⟨422, by decide, rfl⟩
  · exact .inr ⟨415, by decide, rfl⟩

theorem command_of_json {α : Type} (reader : Json.Reader α) {f : α → Command}
    (hf : ∀ a, (f a).caller? = some u) :
    (∃ c, (do return f (← r.json reader)) = Except.ok c ∧ c.caller? = some u) ∨
      ∃ status ∈ [400, 415, 422], (do return f (← r.json reader)) = Except.error status := by
  rcases json_cases (r := r) reader with ⟨a, ha⟩ | ⟨status, hmem, hs⟩
  · rw [ha]
    exact .inl ⟨f a, rfl, hf a⟩
  · rw [hs]
    exact .inr ⟨status, hmem, rfl⟩

/-- The command of an endpoint is given in the name of the caller, unless the
body cannot be read. -/
theorem Endpoint.command_cases (endpoint : Endpoint) (u id : Int) (r : Request) :
    (∃ c, endpoint.command u id r = .ok c ∧ c.caller? = some u) ∨
      ∃ status ∈ [400, 415, 422], endpoint.command u id r = .error status := by
  cases endpoint with
  | updateUser | createGroup | renameGroup | addMember | replaceMembers | updateMember
  | createExpense | updateExpense | createShares | replaceShares =>
    exact command_of_json _ fun _ => rfl
  | _ => exact .inl ⟨_, rfl, rfl⟩

theorem Endpoint.caller_of_command {endpoint : Endpoint} (h : endpoint.command u id r = .ok c) :
    c.caller? = some u := by
  rcases endpoint.command_cases u id r with ⟨c', hc, hu⟩ | ⟨_, -, he⟩
  · rw [hc] at h
    cases h
    exact hu
  · rw [he] at h
    cases h

theorem Route.id_cases (route : Route Endpoint) (path : List (List Char)) :
    (∃ id, route.id path = .ok id) ∨ route.id path = .error 400 := by
  unfold Route.id
  split
  · exact .inl ⟨0, rfl⟩
  · split
    · next n _ => exact .inl ⟨n, rfl⟩
    · exact .inr rfl

/-- What there is to do where the route offers something for the method. -/
theorem knownJob_of_offer {o : Offer Endpoint} (h : route.offer? r.method = some o) :
    knownJob u r route = .orStatus ((route.id r.segments).bind fun id =>
      (o.endpoint.command u id r).bind fun c => .ok (.command c o.endpoint.success)) := by
  rw [knownJob, h]
  rfl

theorem knownJob_of_command {o : Offer Endpoint} (hoffer : route.offer? r.method = some o)
    (hid : route.id r.segments = .ok id) (hc : o.endpoint.command u id r = .ok c) :
    knownJob u r route = .command c o.endpoint.success := by
  rw [knownJob_of_offer hoffer, hid]
  change Job.orStatus ((o.endpoint.command u id r).bind _) = _
  rw [hc]
  rfl

/-- Where there is no command, a status is what there is to reply. -/
theorem exists_status_of_refusal (h : ∀ o id c, route.offer? r.method = some o →
    route.id r.segments = .ok id → o.endpoint.command u id r ≠ .ok c) :
    ∃ status ∈ [400, 405, 415, 422], knownJob u r route = .reply (.bare status) := by
  cases hoffer : route.offer? r.method with
  | none =>
    refine ⟨405, by decide, ?_⟩
    rw [knownJob, hoffer]
    rfl
  | some o =>
    rw [knownJob_of_offer hoffer]
    rcases route.id_cases r.segments with ⟨id, hid⟩ | hid
    · rcases o.endpoint.command_cases u id r with ⟨c, hc, -⟩ | ⟨n, hn, he⟩
      · exact absurd hc (h o id c hoffer hid)
      · have hsub : [400, 415, 422] ⊆ [400, 405, 415, 422] := by decide
        refine ⟨n, hsub hn, ?_⟩
        rw [hid]
        change Job.orStatus ((o.endpoint.command u id r).bind _) = _
        rw [he]
        rfl
    · refine ⟨400, by decide, ?_⟩
      rw [hid]
      rfl

/-- **Callers who are known are handled**: what there is to do for them is done. -/
theorem handled_of_job (h : job s r = knownJob u r route) : Handled s r route u where
  command o id c hoffer hid hc := by
    have hjob : job s r = .command c o.endpoint.success :=
      h.trans (knownJob_of_command hoffer hid hc)
    exact ⟨Endpoint.caller_of_command hc, hjob, carriedOut_of_job hjob⟩
  refusal hnone := by
    obtain ⟨status, hmem, hreply⟩ := exists_status_of_refusal hnone
    have hrespond := respond_of_reply (h.trans hreply)
    exact ⟨status, hmem, hrespond, fun _ _ => by rw [hrespond]; rfl⟩

end Web

end SharedLedger
