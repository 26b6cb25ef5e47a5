import SharedLedger.Proofs.Answering
import SharedLedger.Proofs.System
import Mathlib.Data.List.TakeWhile

/-!
# Who is let in

A guarded route serves a request for a user if the request presents a good
access token of that user (`Web.Admitted`): in its first authorization header,
or, only if it has none that can be read, in a cookie. A cookie is good enough
for reading. Whoever relies on it to change something has to know the guard
cookie as well. What such a request asks for is carried out in the name of the
user and answered (`Web.ServedFor`). Every other request is turned away before
anything is done (`Web.guarded_admission`).
-/

namespace SharedLedger

/-! ## Cookies -/

namespace Cookie

/-- What is in a piece was in the text. -/
theorem mem_of_mem_pieces {separator c : Char} {cs p : List Char} (hp : p ∈ pieces separator cs)
    (hc : c ∈ p) : c ∈ cs := by
  induction cs generalizing p with
  | nil =>
    obtain rfl := List.mem_singleton.1 hp
    exact hc
  | cons d cs ih =>
    rw [pieces] at hp
    split at hp
    · rcases List.mem_cons.1 hp with rfl | hp
      · cases hc
      · exact List.mem_cons_of_mem d (ih hp hc)
    · split at hp
      · obtain rfl := List.mem_singleton.1 hp
        exact List.mem_cons.2 (.inl (List.mem_singleton.1 hc))
      · next q qs hq =>
        -- the character goes to the piece that follows it
        rcases List.mem_cons.1 hp with rfl | hp
        · rcases List.mem_cons.1 hc with rfl | hc
          · exact List.mem_cons_self
          · exact List.mem_cons_of_mem d (ih (hq ▸ List.mem_cons_self) hc)
        · exact List.mem_cons_of_mem d (ih (hq ▸ List.mem_cons_of_mem q hp) hc)

theorem mem_of_mem_trim {c : Char} {cs : List Char} (h : c ∈ Text.trim cs) : c ∈ cs := by
  unfold Text.trim Text.trimRight Text.trimLeft at h
  have hfront := (List.dropWhile_sublist Text.isBlank).subset (List.mem_reverse.1 h)
  exact (List.dropWhile_sublist Text.isBlank).subset (List.mem_reverse.1 hfront)

/-- **A segment is a cookie** if it has an equals sign; the first one ends the
name. -/
theorem ofSegment?_eq_some_iff {segment name value : List Char} :
    ofSegment? segment = some (name, value) ↔
      Text.trim segment = name ++ '=' :: value ∧ '=' ∉ name := by
  unfold ofSegment?
  dsimp only
  constructor
  · intro h
    have hparts := List.takeWhile_append_dropWhile (p := fun c => decide (c ≠ '='))
      (l := Text.trim segment)
    split at h
    · cases h
    · next d rest hdrop =>
      cases h
      have hd : d = '=' := by
        have hstop := List.head?_dropWhile_not (fun c => decide (c ≠ '=')) (Text.trim segment)
        rw [hdrop] at hstop
        simpa using hstop
      rw [hdrop, hd] at hparts
      exact ⟨hparts.symm, fun hin => by simpa using List.mem_takeWhile_imp hin⟩
  · rintro ⟨htrim, hname⟩
    have hall : ∀ c ∈ name, decide (c ≠ '=') = true :=
      fun c hc => decide_eq_true fun he => hname (he ▸ hc)
    rw [htrim, List.dropWhile_append_of_pos hall, List.takeWhile_append_of_pos hall]
    simp

/-- The value of a cookie can be read if its header can be. -/
theorem isReadable_of_mem_ofHeader {header : String} {c : List Char × List Char}
    (hc : c ∈ ofHeader header) (h : isReadable header = true) :
    isReadable (String.ofList c.2) = true := by
  obtain ⟨segment, hsegment, hc⟩ := List.mem_filterMap.1 hc
  obtain ⟨htrim, -⟩ := ofSegment?_eq_some_iff.1 hc
  unfold isReadable at h ⊢
  rw [String.toList_ofList, List.all_eq_true]
  intro x hx
  have hin : x ∈ Text.trim segment := by
    rw [htrim]
    exact List.mem_append_right _ (List.mem_cons_of_mem _ hx)
  exact List.all_eq_true.1 h x (mem_of_mem_pieces hsegment (mem_of_mem_trim hin))

end Cookie

namespace Web

variable {r : Request} {name value token : String} {u : Int} {e : LedgerError}
  {validate : String → Except LedgerError Claims}

/-- The cookies of a request, in the order in which they come. -/
def Request.cookies (r : Request) : List (List Char × List Char) :=
  ((r.values "cookie").filter Cookie.isReadable).flatMap Cookie.ofHeader

/-- A cookie that is the first of its name. -/
def FirstCookie (r : Request) (name value : String) : Prop :=
  ∃ before after, r.cookies = before ++ (name.toList, value.toList) :: after ∧
    ∀ c ∈ before, c.1 ≠ name.toList

theorem cookie?_eq_some_iff : r.cookie? name = some value ↔ FirstCookie r name value := by
  unfold Request.cookie? Cookie.find?
  rw [Option.map_eq_some_iff]
  constructor
  · rintro ⟨⟨n, v⟩, hfind, rfl⟩
    obtain ⟨hn, before, after, heq, hbefore⟩ := List.find?_eq_some_iff_append.1 hfind
    obtain rfl := of_decide_eq_true hn
    refine ⟨before, after, ?_, fun c hc => by simpa using hbefore c hc⟩
    rw [String.toList_ofList]
    exact heq
  · rintro ⟨before, after, heq, hbefore⟩
    have hfind : r.cookies.find? (fun c => decide (c.1 = name.toList)) =
        some (name.toList, value.toList) := List.find?_eq_some_iff_append.2
      ⟨decide_eq_true rfl, before, after, heq, fun c hc => by simpa using hbefore c hc⟩
    exact ⟨(name.toList, value.toList), hfind, String.ofList_toList⟩

/-- Cookies that are found can be read. -/
theorem FirstCookie.isReadable (h : FirstCookie r name value) : Cookie.isReadable value = true := by
  obtain ⟨before, after, heq, -⟩ := h
  have hmem : (name.toList, value.toList) ∈ r.cookies :=
    heq ▸ List.mem_append_right before List.mem_cons_self
  obtain ⟨header, hheader, hc⟩ := List.mem_flatMap.1 hmem
  have hread := Cookie.isReadable_of_mem_ofHeader hc (List.mem_filter.1 hheader).2
  rwa [String.ofList_toList] at hread

/-! ## Tokens that are presented -/

/-- **The token a request presents.** -/
inductive Presents (r : Request) : String → Prop where
  /-- In the authorization header. -/
  | bearer {token : String} (h : (r.values "authorization").head? = some ("Bearer " ++ token))
      (hread : Cookie.isReadable ("Bearer " ++ token) = true) : Presents r token
  /-- In a cookie. To change something, the guard cookie has to be known too. -/
  | cookie {token : String}
      (h : ∀ value, (r.values "authorization").head? = some value → Cookie.isReadable value = false)
      (htoken : FirstCookie r Cookie.access token)
      (hguard : r.method ∈ ["POST", "PUT", "PATCH", "DELETE"] → ∃ guard,
        FirstCookie r Cookie.guard guard ∧ guard ≠ "" ∧
          (r.values guardHeader).head? = some guard) : Presents r token

/-- **The guard cookie is repeated** in the first header made for it. -/
theorem repeatsGuard_iff : r.repeatsGuard = true ↔ ∃ guard, FirstCookie r Cookie.guard guard ∧
    guard ≠ "" ∧ (r.values guardHeader).head? = some guard := by
  unfold Request.repeatsGuard Request.header?
  constructor
  · intro h
    split at h
    · next guard header hcookie hheader =>
      obtain ⟨hne, heq⟩ := Bool.and_eq_true_iff.1 h
      obtain rfl := beq_iff_eq.1 heq
      exact ⟨guard, cookie?_eq_some_iff.1 hcookie, by simpa using hne,
        (Option.filter_eq_some_iff.1 hheader).1⟩
    · cases h
  · rintro ⟨guard, hcookie, hne, hheader⟩
    -- the header is as readable as the cookie it repeats
    have hread : (r.values guardHeader).head?.filter Cookie.isReadable = some guard :=
      Option.filter_eq_some_iff.2 ⟨hheader, hcookie.isReadable⟩
    rw [cookie?_eq_some_iff.2 hcookie, hread]
    simpa using hne

theorem changesState_iff : r.changesState = true ↔ r.method ∈ ["POST", "PUT", "PATCH", "DELETE"] :=
  List.contains_iff_mem

/-- What a bearer's header says behind its mark. -/
theorem bearer_prefix_iff {value : String} :
    Request.bearer.toList.isPrefixOf value.toList = true ↔ ∃ token, value = "Bearer " ++ token := by
  rw [List.isPrefixOf_iff_prefix]
  constructor
  · rintro ⟨rest, hrest⟩
    refine ⟨String.ofList rest, String.toList_injective ?_⟩
    rw [String.toList_append, String.toList_ofList (l := rest)]
    exact hrest.symm
  · rintro ⟨token, rfl⟩
    rw [String.toList_append]
    exact List.prefix_append _ _

theorem drop_bearer (token : String) :
    String.ofList (("Bearer " ++ token).toList.drop Request.bearer.length) = token := by
  rw [String.toList_append, ← String.length_toList]
  exact (congrArg String.ofList List.drop_left).trans String.ofList_toList

theorem token_eq_ok_iff : r.token = .ok token ↔ Presents r token := by
  unfold Request.token
  constructor
  · intro h
    split at h
    · next value hheader =>
      obtain ⟨hfirst, hread⟩ := Option.filter_eq_some_iff.1 hheader
      split at h
      · next hprefix =>
        obtain ⟨rest, rfl⟩ := bearer_prefix_iff.1 hprefix
        rw [drop_bearer] at h
        cases h
        exact .bearer hfirst hread
      · cases h
    · next hheader =>
      split at h
      · cases h
      · next access hcookie =>
        split at h
        · cases h
        · next hrefused =>
          cases h
          refine .cookie (fun value hvalue => ?_) (cookie?_eq_some_iff.1 hcookie) fun hchanges => ?_
          · simpa using Option.filter_eq_none_iff.1 hheader value hvalue
          · rw [changesState_iff.2 hchanges] at hrefused
            exact repeatsGuard_iff.1 (by simpa using hrefused)
  · intro h
    cases h with
    | bearer hfirst hread =>
      have hheader : r.header? "authorization" = some ("Bearer " ++ token) :=
        Option.filter_eq_some_iff.2 ⟨hfirst, hread⟩
      rw [hheader]
      simp only
      rw [if_pos (bearer_prefix_iff.2 ⟨token, rfl⟩), drop_bearer]
    | cookie habsent htoken hguard =>
      have hheader : r.header? "authorization" = none :=
        Option.filter_eq_none_iff.2 fun value hvalue => by simp [habsent value hvalue]
      rw [hheader, cookie?_eq_some_iff.2 htoken]
      simp only
      refine if_neg fun hrefused => ?_
      obtain ⟨hchanges, hunguarded⟩ := Bool.and_eq_true_iff.1 hrefused
      rw [repeatsGuard_iff.2 (hguard (changesState_iff.1 hchanges))] at hunguarded
      cases hunguarded

/-! ## Callers -/

/-- **Who a request is served for**: the user named by the good token it
presents. -/
def Admitted (validate : String → Except LedgerError Claims) (r : Request) (u : Int) : Prop :=
  ∃ token claims, Presents r token ∧ validate token = .ok claims ∧
    Numeral.int64? claims.subject.toList = some u

/-- An error that says that the caller is not known or not trusted. -/
def TurnsAway (e : LedgerError) : Prop := e.kind.status = 401 ∨ e.kind.status = 403

theorem userId_eq_ok_iff {c : Claims} :
    c.userId = .ok u ↔ Numeral.int64? c.subject.toList = some u := by
  unfold Claims.userId
  split
  · next id hid => rw [hid, Except.ok.injEq, Option.some.injEq]
  · next hid => simp [hid]

/-- **A request has the caller it is admitted for.** -/
theorem caller_eq_ok_iff : r.caller validate = .ok u ↔ Admitted validate r u := by
  change r.token.bind (fun token => (validate token).bind Claims.userId) = .ok u ↔ _
  constructor
  · intro h
    cases htoken : r.token with
    | error e => rw [htoken] at h; cases h
    | ok token =>
    rw [htoken] at h
    change (validate token).bind Claims.userId = _ at h
    cases hclaims : validate token with
    | error e => rw [hclaims] at h; cases h
    | ok claims =>
    rw [hclaims] at h
    exact ⟨token, claims, token_eq_ok_iff.1 htoken, hclaims, userId_eq_ok_iff.1 h⟩
  · rintro ⟨token, claims, hpresents, hclaims, huser⟩
    rw [token_eq_ok_iff.2 hpresents]
    change (validate token).bind Claims.userId = _
    rw [hclaims]
    exact userId_eq_ok_iff.2 huser

theorem turnsAway_of_token (h : r.token = .error e) : TurnsAway e := by
  unfold Request.token at h
  split at h
  · split at h
    · cases h
    · cases h
      exact .inl rfl
  · split at h
    · cases h
      exact .inl rfl
    · split at h
      · cases h
        exact .inr rfl
      · cases h

theorem turnsAway_of_userId {c : Claims} (h : c.userId = .error e) : TurnsAway e := by
  unfold Claims.userId at h
  split at h
  · cases h
  · cases h
    exact .inl rfl

theorem turnsAway_of_validate {tokens : TokenService} {now : Nat} {kind : TokenKind}
    (h : tokens.validate now kind token = .error e) : TurnsAway e := by
  unfold TokenService.validate at h
  split at h
  · cases h
    exact .inl rfl
  · split at h
    · cases h
    · cases h
      exact .inl rfl

/-- Where there is no caller, the error says so. -/
theorem turnsAway_of_caller (hvalidate : ∀ token e, validate token = .error e → TurnsAway e)
    (h : r.caller validate = .error e) : TurnsAway e := by
  change r.token.bind (fun token => (validate token).bind Claims.userId) = .error e at h
  cases htoken : r.token with
  | error e' =>
    rw [htoken] at h
    cases h
    exact turnsAway_of_token htoken
  | ok token =>
    rw [htoken] at h
    change (validate token).bind Claims.userId = _ at h
    cases hclaims : validate token with
    | error e' =>
      rw [hclaims] at h
      cases h
      exact hvalidate token e hclaims
    | ok claims =>
      rw [hclaims] at h
      exact turnsAway_of_userId h

/-! ## Routes -/

theorem Route.of_find? {ε : Type} {routes : List (Route ε)} {path : List (List Char)}
    {route : Route ε} (h : find? routes path = some route) :
    route ∈ routes ∧ leadsTo route.address path = true := by
  unfold find? at h
  have hleads := List.find?_some h
  exact ⟨List.mem_of_find?_eq_some h, hleads⟩

/-- Whether some path might lead to both of two addresses. -/
def Route.overlaps : List Segment → List Segment → Bool
  | [], [] => true
  | .fixed s :: address, .fixed s' :: address' => s == s' && overlaps address address'
  | _ :: address, _ :: address' => overlaps address address'
  | _, _ => false

/-- A path leads past a segment to what follows it. -/
theorem Route.leadsTo_tail {segment : Segment} {address : List Segment} {cs : List Char}
    {path : List (List Char)} (h : leadsTo (segment :: address) (cs :: path) = true) :
    leadsTo address path = true := by
  cases segment <;> exact (Bool.and_eq_true_iff.1 h).2

theorem Route.overlaps_of_leadsTo {address address' : List Segment} {path : List (List Char)}
    (h : leadsTo address path = true) (h' : leadsTo address' path = true) :
    overlaps address address' = true := by
  -- along the path, segment by segment
  induction path generalizing address address' with
  | nil =>
    cases address with
    | nil =>
      cases address' with
      | nil => rfl
      | cons segment' address' => cases segment' <;> cases h'
    | cons segment address => cases segment <;> cases h
  | cons cs path ih =>
    cases address with
    | nil => cases h
    | cons segment address =>
    cases address' with
    | nil => cases h'
    | cons segment' address' =>
      have hrest := ih (leadsTo_tail h) (leadsTo_tail h')
      cases segment with
      | id name => exact hrest
      | fixed text =>
      cases segment' with
      | id name => exact hrest
      | fixed text' =>
        have htext := beq_iff_eq.1 (Bool.and_eq_true_iff.1 h).1
        have htext' := beq_iff_eq.1 (Bool.and_eq_true_iff.1 h').1
        have hsame : text = text' := String.toList_injective (htext.symm.trans htext')
        exact Bool.and_eq_true_iff.2 ⟨beq_iff_eq.2 hsame, hrest⟩

/-- No path leads to an open and to a guarded route. -/
theorem find?_openRoutes_eq_none {path : List (List Char)} {route : Route Endpoint}
    (h : Route.find? guardedRoutes path = some route) : Route.find? openRoutes path = none := by
  have hapart : ∀ o ∈ openRoutes, ∀ g ∈ guardedRoutes,
      Route.overlaps o.address g.address = false := by decide
  refine List.find?_eq_none.2 fun o ho hopen => ?_
  obtain ⟨hmem, hguarded⟩ := Route.of_find? h
  have hboth := Route.overlaps_of_leadsTo hopen hguarded
  rw [hapart o ho route hmem] at hboth
  cases hboth

/-- On a guarded route everything depends on the caller. -/
theorem job_eq_guardedJob {s : Setting} {route : Route Endpoint}
    (h : Route.find? guardedRoutes r.segments = some route) :
    job s r = guardedJob (s.service.tokens.validate s.now .access) s.fresh r route := by
  unfold job
  rw [find?_openRoutes_eq_none h, h]

/-- **A request that is turned away**: all that is done is to say so. -/
structure TurnedAway (s : Setting) (r : Request) (e : LedgerError) : Prop where
  /-- The status says that the caller is not known or not trusted. -/
  turnsAway : TurnsAway e
  /-- There is nothing to do but to reply. -/
  job : job s r = .reply (.ofError s.fresh e)
  /-- The reply opens no transaction and leaves the store as it is. -/
  reply : ∃ response : Response, response.status = e.kind.status ∧ respond s r = pure response ∧
    ∀ client store, (respond s r).run client store = (store, some (.ok response))

/-- A request whose job is to report an error leaves the store alone. -/
theorem turnedAway_of_job {s : Setting} (he : TurnsAway e)
    (hjob : job s r = .reply (.ofError s.fresh e)) : TurnedAway s r e where
  turnsAway := he
  job := hjob
  reply := by
    have hrespond := respond_of_reply hjob
    refine ⟨_, ?_, hrespond, fun _ _ => by rw [hrespond]; rfl⟩
    unfold Request.sent
    split <;> rfl

/-- **A request that is served for a user.** -/
structure ServedFor (s : Setting) (r : Request) (route : Route Endpoint) (u : Int) : Prop where
  /-- The user is the caller. -/
  caller : r.caller (s.service.tokens.validate s.now .access) = .ok u
  /-- What there is to do is what the route offers that caller. -/
  job : job s r = knownJob u r route
  /-- That is done and answered. -/
  handled : Handled s r route u

/-- **Guarded routes serve exactly those who are admitted.** A request is served
for a user if it presents a good access token of that user; if there is none,
it is turned away. -/
theorem guarded_admission {s : Setting} {r : Request} {route : Route Endpoint}
    (hroute : Route.find? guardedRoutes r.segments = some route) :
    (∀ u, ServedFor s r route u ↔ Admitted (s.service.tokens.validate s.now .access) r u) ∧
    ((∀ u, ¬Admitted (s.service.tokens.validate s.now .access) r u) → ∃ e, TurnedAway s r e) := by
  have hjob := job_eq_guardedJob (s := s) hroute
  unfold guardedJob at hjob
  constructor
  · intro u
    rw [← caller_eq_ok_iff]
    refine ⟨ServedFor.caller, fun hcaller => ?_⟩
    rw [hcaller] at hjob
    exact ⟨hcaller, hjob, handled_of_job hjob⟩
  · intro hnone
    cases hcaller : r.caller (s.service.tokens.validate s.now .access) with
    | ok u => exact absurd (caller_eq_ok_iff.1 hcaller) (hnone u)
    | error e =>
      rw [hcaller] at hjob
      exact ⟨e, turnedAway_of_job
        (turnsAway_of_caller (fun token e h => turnsAway_of_validate h) hcaller) hjob⟩

end Web

namespace Sample

/-- The small service, when it starts. -/
def setting : Web.Setting := ⟨service, 0, ""⟩

/-- An access token of the user 1, from that service at that time. -/
def token : String :=
  "eyJ0eXAiOiJKV1QiLCJhbGciOiJIUzI1NiJ9." ++
    "eyJzdWIiOiIxIiwidG9rZW5fdHlwZSI6ImFjY2VzcyIsImlhdCI6MCwiZXhwIjowfQ." ++
    "O-2fq40PdhWAVtbcg3K313kZM5q5WUCk6aPnmp-jj4k"

/-- A browser asks to delete the account 1, with cookies and the guard, and
perhaps with more headers. -/
def parting (headers : List (String × String)) : Web.Request where
  method := "DELETE"
  path := "/users/1".toList
  headers := headers ++ [("cookie", "theme=dark; access_token=" ++ token),
    ("cookie", "csrf_token=x"), ("x-csrf-token", "x")]
  body := none

end Sample

/-- The cookies are good enough: the account is deleted and the answer says no
more than that it is done. Behind a header that is no bearer's they are not. -/
theorem Web.guarded_admission_parting :
    (Admitted (Sample.service.tokens.validate 0 .access) (Sample.parting []) 1 ∧
      job Sample.setting (Sample.parting []) = .command (.deleteUser 1 1) .done ∧
      Sample.trip.store.tables.users.contains 1 = true ∧
      ∃ store, (respond Sample.setting (Sample.parting [])).run Sample.client Sample.trip.store =
          (store, some (.ok (.bare 200))) ∧ store.tables.users.contains 1 = false) ∧
    ∃ e, TurnedAway Sample.setting (Sample.parting [("authorization", "Basic x")]) e := by
  have hroute : ∀ headers, Route.find? guardedRoutes (Sample.parting headers).segments =
      some guardedRoutes[3] := fun _ => by rfl
  constructor
  · have hadmitted : Admitted (Sample.service.tokens.validate 0 .access) (Sample.parting []) 1 :=
      caller_eq_ok_iff.1 (by decide +kernel)
    have hserved := ((guarded_admission (s := Sample.setting) (hroute [])).1 1).2 hadmitted
    obtain ⟨-, hjob, hdone⟩ := hserved.handled.command guardedRoutes[3].offers[2] 1
      (.deleteUser 1 1) rfl rfl rfl
    have hresult : ((Sample.setting.service.operation Sample.setting.now (.deleteUser 1 1)).run
        Sample.client Sample.trip.store).2 = some (.ok ()) := by rfl
    have hrun := hdone.run Sample.client Sample.trip.store
    rw [hresult] at hrun
    exact ⟨hadmitted, hjob, by decide +kernel, _, hrun, by decide +kernel⟩
  · refine (guarded_admission (hroute [("authorization", "Basic x")])).2 fun u hu => ?_
    have hrefused : (Sample.parting [("authorization", "Basic x")]).token =
        .error (.unauthenticated "Invalid Authorization header") := by decide +kernel
    obtain ⟨token, -, htoken, -⟩ := hu
    rw [token_eq_ok_iff.2 htoken] at hrefused
    cases hrefused

end SharedLedger
