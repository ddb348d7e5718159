/-
# OpencodeCloud.Router.Ownership -- whose sandbox a native request is served by

A native request says whom it is for in up to four places: a session id in its path, a session id in
the header `x-cloud-session-id`, agent and user in headers, and agent and user in the object `_cloud`
of a JSON body. `native_router.proxy` with `_extract_metadata`, `_session_route` and `_resolve_owner`
comes to one owner or refuses, acquires the sandbox of that owner, and from there on talks to this
sandbox only.

`Concerns` says what the places have to say about an owner. `served_by_owner`: what is sent goes to an
owner that the request concerns, of whom there is at most one; a request that concerns nobody is
refused; and the response is determined by the sandbox of that owner.
-/
import OpencodeCloud.Router.Spelling
import OpencodeCloud.Library.Exchange

namespace OpencodeCloud.Router.Ownership

open OpencodeCloud.Library OpencodeCloud.Library.Checked
open OpencodeCloud.Catalog (endsWith)

/-! ## §A Requests -/

/-- The body of a request; `malformed` is no JSON. -/
inductive Body where
  | empty
  | malformed
  | json (value : Json)

/-- A request as it comes in; the names of the headers are in lower case. -/
structure Incoming where
  method : Method
  /-- `native_path` -/
  path : List Char
  query : List (String × String)
  headers : List (String × String)
  body : Body

/-- `request.headers.get(name)`. -/
def Incoming.header (r : Incoming) (name : String) : Option String := r.headers.lookup name

/-- The empty text counts as nothing given. -/
def nonempty (s : Option String) : Option String := s.filter (· ≠ "")

/-- `a or b`. -/
def orElse (a b : Option String) : Option String := (nonempty a).or b

/-- The characters that `strip` removes, as far as a header can have them. -/
def isBlank (c : Char) : Bool :=
  c.toNat == 32 || (9 ≤ c.toNat && c.toNat ≤ 13) || (28 ≤ c.toNat && c.toNat ≤ 31) || c.toNat == 133
    || c.toNat == 160

/-- `content_type.split(";", 1)[0].strip().lower()`. -/
def mediaType (contentType : String) : List Char :=
  let head := contentType.toList.takeWhile (· != ';')
  (((head.dropWhile isBlank).reverse.dropWhile isBlank).reverse).map Char.toLower

/-! ## §B `_extract_metadata` -/

structure RouteMetadata where
  agentId : Option String
  username : Option String
  sessionWorkspace : Option String
  requestId : Option String

def headerMetadata (r : Incoming) : RouteMetadata where
  agentId := r.header "x-cloud-agent-id"
  username := r.header "x-cloud-username"
  sessionWorkspace := none
  requestId := r.header "x-cloud-request-id"

/-- Does the body count for the metadata? -/
def readsBody (r : Incoming) : Bool :=
  (r.method == .post || r.method == .put || r.method == .patch)
    && mediaType ((r.header "content-type").getD "") == "application/json".toList

/-- `_optional_string(mapping, key)`. -/
def optionalString (mapping : Json) (key : String) : Checked (Option String) :=
  match (mapping.get? key).getD .null with
  | .null => .ok none
  | .string s =>
    if s = "" then raise 400 ("_cloud." ++ key ++ " must be a non-empty string") else .ok (some s)
  | _ => raise 400 ("_cloud." ++ key ++ " must be a non-empty string")

/-- Both are given, and they differ. -/
def conflicting (a b : Option String) : Bool :=
  match nonempty a, nonempty b with
  | some x, some y => x != y
  | _, _ => false

/-- The object without its field `_cloud`. -/
def withoutCloud : Json → Json
  | .object fields => .object (fields.filter (·.1 ≠ "_cloud"))
  | j => j

/-- The metadata of headers and `_cloud` together. -/
def mergeMetadata (header : RouteMetadata) (cloud : Json) : Checked RouteMetadata := do
  refuse (!cloud.isObject) 400 "_cloud must be an object"
  let agentId ← optionalString cloud "agent_id"
  let username ← optionalString cloud "username"
  let sessionWorkspace ← optionalString cloud "session_workspace"
  let requestId ← optionalString cloud "request_id"
  refuse (conflicting header.requestId (orElse requestId header.requestId)) 409
    "conflicting request IDs"
  refuse (conflicting header.agentId agentId) 409 "conflicting Agent routing metadata"
  refuse (conflicting header.username username) 409 "conflicting user routing metadata"
  return ⟨orElse agentId header.agentId, orElse username header.username, sessionWorkspace,
    orElse requestId header.requestId⟩

/-- The object `_cloud` of a body that counts. -/
def cloudOf (r : Incoming) : Option Json :=
  match readsBody r, r.body with
  | true, .json value =>
    match value.get? "_cloud" with
    | none | some .null => none
    | some cloud => some cloud
  | _, _ => none

/-- `_extract_metadata`: the metadata, and the body without them. -/
def extractMetadata (r : Incoming) : Checked (RouteMetadata × Body) :=
  match readsBody r, r.body with
  | true, .malformed => raise 400 "invalid JSON request body"
  | true, .json value =>
    match cloudOf r with
    | none => .ok (headerMetadata r, r.body)
    | some cloud => do
      let metadata ← mergeMetadata (headerMetadata r) cloud
      return (metadata, .json (withoutCloud value))
  | _, _ => .ok (headerMetadata r, r.body)

/-! ## §C Admission -/

/-- The session that the header names. -/
def contextOf (r : Incoming) : Option String := nonempty (r.header "x-cloud-session-id")

/-- The session whose route the request takes, once the two references agree. -/
def routedSession (sessions : Dict String Owner) (r : Incoming) : Option String :=
  ((sessionOf r.path).filter fun id => (sessions.lookup id).isSome).or (contextOf r)

/-- An admitted request. -/
structure Admitted where
  owner : Owner
  /-- `route.session_id` -/
  session : Option String
  sessionWorkspace : Option String
  requestId : Option String
  /-- `upstream_body` -/
  body : Body

/-- `json.loads(upstream_body) if upstream_body else {}`. -/
def payloadOf : Body → Checked Json
  | .empty => .ok (.object [])
  | .malformed => raise 400 "Invalid JSON"
  | .json value => .ok value

/-- The body that is sent on: what the catalog made of it, when it is an object. -/
def sentBody (body : Body) (payload : Json) : Body :=
  match body with
  | .json value => if value.isObject then .json payload else body
  | _ => body

/-- The first half of `proxy`: who the request is for, and may it be served? -/
def admission (p : Platform) (r : Incoming) : Checked Admitted := do
  refuse (isHidden r.path) 404 "route not found"
  refuse (isMoving r.path) 403 "Session directories are managed by the platform"
  let extracted ← extractMetadata r
  let metadata := extracted.1
  let route ← sessionRoute p.sessions (sessionOf r.path) ((contextOf r).getD "")
  let owner ← resolveOwner route ⟨metadata.agentId.getD "", metadata.username.getD ""⟩
  let payload ← payloadOf extracted.2
  refuse ((p.blocked.contains owner.agentId || p.blocked.contains "*") && !isQuiet r.path) 503
    "Agent lifecycle operation in progress"
  let result ← passOn (Catalog.authorize p.data owner.agentId r.method.text r.path payload)
  return ⟨owner, routedSession p.sessions r, metadata.sessionWorkspace, metadata.requestId,
    sentBody extracted.2 result.2⟩

/-! ## §D The conversation with a sandbox -/

/-- A request to the server of a sandbox. -/
structure Sent where
  method : Method
  path : List Char
  query : List (String × String)
  /-- what the parameter `directory` is set to; `directory` and `workspace` of the query go then -/
  directory : Option String
  headers : List (String × String)
  body : Body

/-- What comes back: an `httpx.HTTPError`, or an answer; content that is no JSON is `none`. -/
inductive Reply where
  | failed
  | answer (status : Nat) (content : Option Json)

/-- What the client gets. -/
structure Response where
  status : Nat
  content : Option Json
  /-- the events of the sandbox follow -/
  streamed : Bool

/-- What the second half of `proxy` finds outside the request, for each owner. -/
structure World where
  platform : Platform
  /-- `LocalDockerBackend.acquire` -/
  acquire : Owner → Checked Unit
  /-- `registry.list_sessions_for_sandbox` -/
  sessionsOf : Owner → List String
  /-- `workspaces.user_scope` and `workspaces.resolve_user_path`, for a session -/
  files : Owner → String → Checked Unit
  /-- `SessionRecorder.record` of a session with a workspace, its errors made answers -/
  record : Owner → String → String → Checked Unit
  safeRequestId : Option String → String
  redact : Json → Json
  /-- the server in the sandbox -/
  sandbox : Owner → Peer Sent Reply

/-- A part of `proxy`: it talks to one sandbox, and may raise. -/
abbrev Call := Talk Exception Sent Reply

def isSuccess (status : Nat) : Bool := 200 ≤ status && status < 300

def sessionPath (sid : String) : List Char := "session/".toList ++ sid.toList

def sessionDirectory (sid : String) : String := "/workspace/sessions/" ++ sid

/-- A request that the platform makes of its own. -/
def ownRequest (method : Method) (path : List Char) (body : Body) : Sent :=
  ⟨method, path, [], none, [], body⟩

/-- `response.raise_for_status()` and `response.json()`. -/
def readJson (detail : String) : Reply → Checked Json
  | .answer status (some content) => if isSuccess status then .ok content else raise 502 detail
  | _ => raise 502 detail

/-- `session.get("directory") == directory`; what is no object has no `get`. -/
def isAt (session : Json) (directory : String) : Checked Bool :=
  match session with
  | .object fields =>
    match fields.lookup "directory" with
    | some (.string d) => .ok (d == directory)
    | _ => .ok false
  | _ => .error .other

def checked {α : Type} (x : Checked α) : Call α := ExceptT.mk (pure x)

def call (request : Sent) : Call Reply := ExceptT.lift (ask request)

/-- `SessionBindings.ensure`: the native session lives in its directory, or is moved there. -/
def ensure (w : World) (owner : Owner) (sid : String) : Call Unit := do
  let unverified := "Unable to verify native session directory"
  checked (w.files owner sid)
  let first ← call (ownRequest .get (sessionPath sid) .empty)
  checked (refuse (first matches .answer 404 _) 404 "Native session no longer exists")
  let session ← checked (readJson unverified first)
  if ← checked (isAt session (sessionDirectory sid)) then return ()
  let moved ← call (ownRequest .post "experimental/control-plane/move-session".toList
    (.json (.object [("sessionID", .string sid),
      ("destination", .object [("directory", .string (sessionDirectory sid))]),
      ("moveChanges", .bool false)])))
  match moved with
  | .failed => checked (raise 502 unverified)
  | .answer status _ =>
    checked (refuse (400 ≤ status) 409
      "Session directory binding failed; wait for active tasks to finish and retry")
    let again ← call (ownRequest .get (sessionPath sid) .empty)
    let session ← checked (readJson unverified again)
    let confirmed ← checked (isAt session (sessionDirectory sid))
    checked (refuse (!confirmed) 502 "Native session directory binding was not confirmed")

/-- The states of all directories as one: of two for a session the busy one counts. -/
def mergeStatus (groups : List Json) : Checked Json :=
  groups.foldlM (fun result group =>
    match group with
    | .object fields => .ok (fields.foldl (fun result field =>
        let known := ((result.get? field.1).bind (·.get? "type")).getD .null
        if known.same (.string "busy") || known.same (.string "retry") then result
        else result.set field.1 field.2) result)
    | _ => .error .other) (.object [])

/-- The items of all directories, the last of those with the same id. -/
def mergeItems (groups : List Json) : Checked Json := do
  let lists ← groups.mapM fun group =>
    match group with
    | .array items => Except.ok items
    | _ => .error Exception.other
  let keyed ← lists.flatten.mapM fun item => (orRaise (item.get? "id")).map (·, item)
  return .array ((keyed.foldl (fun known entry =>
    if known.any (·.1.same entry.1) then
      known.map fun other => if other.1.same entry.1 then (other.1, entry.2) else other
    else known ++ [entry]) []).map (·.2))

/-- `directory_collection`: the same request for the shared directory and for each session's. -/
def directoryCollection (w : World) (owner : Owner) (path : List Char) : Call Json := do
  let directories := ("/workspace" :: (w.sessionsOf owner).map sessionDirectory).eraseDups
  let groups ← directories.mapM fun directory => do
    let reply ← call { ownRequest .get path .empty with directory := some directory }
    checked (readJson "Could not read state across session directories" reply)
  checked (if path = "session/status".toList then mergeStatus groups else mergeItems groups)

/-! ## §E What is sent on -/

/-- `_SESSION_EVENT_PATH`: `^api/session/[^/]+/event$`. -/
def isSessionEvent (path : List Char) : Bool :=
  match Uri.segments path with
  | [api, session, id, event] =>
    api == "api".toList && session == "session".toList && !id.isEmpty && event == "event".toList
  | _ => false

/-- The requests that `proxy` hands to `_stream_sse`. -/
def isEventStream (r : Incoming) : Bool :=
  r.method == .get && (["event", "global/event", "api/event"].any (fun p => r.path == p.toList)
    || isSessionEvent r.path)

/-- `native_path.rstrip("/") in {"session", "api/session"}`. -/
def isCreation (r : Incoming) : Bool :=
  let path := (r.path.reverse.dropWhile (· == '/')).reverse
  r.method == .post && (path == "session".toList || path == "api/session".toList)

/-- Headers that concern a connection, the platform or the platform's own credentials. -/
def heldBack : List String :=
  ["connection", "keep-alive", "proxy-authenticate", "proxy-authorization", "te", "trailer",
    "transfer-encoding", "upgrade", "x-cloud-agent-id", "x-cloud-username", "x-cloud-request-id",
    "x-cloud-session-id", "host", "content-length", "authorization"]

/-- The request as it goes to the sandbox, in the directory of a session if there is one. -/
def upstreamRequest (w : World) (a : Admitted) (r : Incoming) (session : Option String) : Sent :=
  let event := r.path == "event".toList
  let list := r.method == .get && r.path == "session".toList
  let directory := (session.map sessionDirectory).or (if isCreation r then some "/workspace" else none)
  let headers := r.headers.filter fun h => !heldBack.contains h.1
    && !(directory.isSome && (h.1 == "x-opencode-directory" || h.1 == "x-opencode-workspace"))
  { method := r.method
    path := if event then "global/event".toList
      else if list then "experimental/session".toList else r.path
    query := if event then []
      else if list then r.query.filter fun kv => !(["directory", "workspace", "path", "scope"].contains kv.1)
      else r.query
    directory := directory
    headers := headers ++ [("x-cloud-request-id", w.safeRequestId a.requestId)]
    body := a.body }

/-- The id in the answer to a creation. -/
def createdId (v2 : Bool) (content : Option Json) : Checked String :=
  let session := if v2 then content.bind (·.get? "data") else content
  match session.bind (·.get? "id") with
  | none => raise 502 "OpenCode session response lacks an ID"
  | some (.string id) =>
    if id = "" then raise 502 "OpenCode session response has an invalid ID" else .ok id
  | some _ => raise 502 "OpenCode session response has an invalid ID"

/-- The answer with the directory of the new session put in. -/
def withDirectory (v2 : Bool) (content : Json) (directory : String) : Json :=
  if v2 then content.set "data" (((content.get? "data").getD .null).set "directory" (.string directory))
  else content.set "directory" (.string directory)

/-- `_record_created_session` and the binding after it: the content that the client gets. -/
def recordCreated (w : World) (a : Admitted) (v2 : Bool) (content : Option Json) :
    Call (Option Json) := do
  let id ← checked (createdId v2 content)
  checked (w.record a.owner id (a.sessionWorkspace.getD ("sessions/" ++ id)))
  ensure w a.owner id
  return content.map fun c => withDirectory v2 c (sessionDirectory id)

/-- The second half of `proxy`, once the sandbox of the owner is acquired. -/
def converse (w : World) (a : Admitted) (r : Incoming) : Call Response := do
  if isEventStream r then
    match ← call (upstreamRequest w a r none) with
    | .failed => checked (raise 502 "OpenCode upstream failed")
    | .answer status content => return ⟨status, content, true⟩
  else if a.session.isNone && r.method == .get
      && ["session/status", "permission", "question"].any (fun p => r.path == p.toList) then
    let content ← directoryCollection w a.owner r.path
    return ⟨200, some content, false⟩
  else
    if !(r.method == .get || r.method == .head || r.method == .delete) && !isQuiet r.path then
      match a.session with
      | some sid => ensure w a.owner sid
      | none => pure ()
    match ← call (upstreamRequest w a r a.session) with
    | .failed => checked (raise 502 "OpenCode upstream failed")
    | .answer status content =>
      let creates := isCreation r || (r.method == .post && a.session.isSome && endsWith r.path "/fork")
      let content ←
        if creates && isSuccess status then
          recordCreated w a (isCreation r && "api/".toList.isPrefixOf r.path) content
        else pure content
      if r.method == .get && (r.path == "config".toList || r.path == "global/config".toList) then
        match content with
        | none => checked (raise 502 "Could not read managed runtime configuration")
        | some c => return ⟨status, some (w.redact c), false⟩
      else return ⟨status, content, false⟩

/-- `proxy`: the response or what was raised, and what was sent to whose sandbox. -/
def serve (w : World) (r : Incoming) : Checked Response × List (Owner × Sent) :=
  match admission w.platform r with
  | .error e => (.error e, [])
  | .ok a =>
    match w.acquire a.owner with
    | .error e => (.error e, [])
    | .ok () =>
      let talk := (converse w a r).run.run (w.sandbox a.owner)
      (talk.1, talk.2.map fun sent => (a.owner, sent))

/-! ## §F Whom a request concerns -/

/-- The non-empty texts that the object has for a key. -/
def textOf (key : String) (cloud : Json) : Option String :=
  match cloud.get? key with
  | some (.string s) => some s
  | _ => none

/-- The agents that headers and `_cloud` name. -/
def givenAgents (r : Incoming) : List String :=
  (nonempty (r.header "x-cloud-agent-id")).toList ++ ((cloudOf r).bind (textOf "agent_id")).toList

/-- The users that headers and `_cloud` name. -/
def givenUsers (r : Incoming) : List String :=
  (nonempty (r.header "x-cloud-username")).toList ++ ((cloudOf r).bind (textOf "username")).toList

/-- The sessions that path and context name. -/
def namedSessions (r : Incoming) : List String := (sessionOf r.path).toList ++ (contextOf r).toList

/-- **Whom a request concerns**: every registered session that it names is one of this owner, and so is
every agent and every user that it gives; when it names no registered session, both are given. A context
is registered, and it is the session of the path when that is registered too. -/
structure Concerns (sessions : Dict String Owner) (r : Incoming) (owner : Owner) : Prop where
  named : ∀ id ∈ namedSessions r, ∀ o, sessions.lookup id = some o → o = owner
  context : ∀ id ∈ contextOf r, (sessions.lookup id).isSome = true
  references : ∀ id ∈ sessionOf r.path, (sessions.lookup id).isSome = true →
    ∀ other ∈ contextOf r, other = id
  agents : ∀ agentId ∈ givenAgents r, agentId = owner.agentId
  users : ∀ username ∈ givenUsers r, username = owner.username
  stated : (∀ id ∈ namedSessions r, sessions.lookup id = none) →
    owner.agentId ∈ givenAgents r ∧ owner.username ∈ givenUsers r

/-- A request concerns one owner at most. -/
theorem Concerns.unique {sessions : Dict String Owner} {r : Incoming} {owner other : Owner}
    (h : Concerns sessions r owner) (h' : Concerns sessions r other) : owner = other := by
  by_cases hnone : ∀ id ∈ namedSessions r, sessions.lookup id = none
  · obtain ⟨hagent, huser⟩ := h.stated hnone
    have ha := h'.agents _ hagent
    have hu := h'.users _ huser
    cases owner
    cases other
    simp_all
  · push Not at hnone
    obtain ⟨id, hid, hsome⟩ := hnone
    obtain ⟨o, ho⟩ := Option.ne_none_iff_exists'.mp hsome
    exact (h.named id hid o ho).symm.trans (h'.named id hid o ho)

section Metadata

variable {r : Incoming}

theorem nonempty_eq_some {s : Option String} {x : String} :
    nonempty s = some x ↔ s = some x ∧ x ≠ "" := by
  cases s with
  | none => simp [nonempty]
  | some y =>
    simp only [nonempty, Option.filter_some, Option.some.injEq]
    split
    · next hy =>
      simp only [decide_eq_true_eq] at hy
      constructor
      · rintro hyx
        obtain rfl := Option.some.inj hyx
        exact ⟨rfl, hy⟩
      · rintro ⟨rfl, -⟩
        rfl
    · next hy =>
      simp only [decide_eq_true_eq, not_not] at hy
      subst hy
      constructor
      · exact nofun
      · rintro ⟨rfl, hne⟩
        exact absurd rfl hne

/-- What `_optional_string` returns. -/
theorem optionalString_eq_ok {cloud : Json} {key : String} {given : Option String}
    (h : optionalString cloud key = .ok given) : given = textOf key cloud ∧ given ≠ some "" := by
  unfold optionalString at h
  unfold textOf
  cases hget : cloud.get? key with
  | none =>
    rw [hget] at h
    exact ⟨(Except.ok.inj h).symm, by rw [← Except.ok.inj h]; nofun⟩
  | some v =>
    rw [hget, Option.getD_some] at h
    cases v with
    | null => exact ⟨(Except.ok.inj h).symm, by rw [← Except.ok.inj h]; nofun⟩
    | string s =>
      dsimp only at h
      split at h
      · simp at h
      · next hs =>
        obtain rfl := Except.ok.inj h
        exact ⟨rfl, by simpa using hs⟩
    | _ => simp at h

/-- Header and `_cloud` together name what one of them names, once they do not conflict. -/
theorem orElse_iff {header given : Option String} (hgiven : given ≠ some "")
    (hconflict : conflicting header given = false) {x : String} :
    nonempty (orElse given header) = some x ↔ x ∈ (nonempty header).toList ++ given.toList := by
  cases given with
  | none =>
    have hself : nonempty (orElse none header) = nonempty header := rfl
    simp [hself]
  | some g =>
    have hne : g ≠ "" := fun hg => hgiven (by rw [hg])
    have hg : nonempty (some g) = some g := nonempty_eq_some.mpr ⟨rfl, hne⟩
    have horElse : orElse (some g) header = some g := by simp [orElse, hg]
    rw [horElse, hg]
    cases hh : nonempty header with
    | none => simp [eq_comm]
    | some y =>
      have hyg : y = g := by simpa [conflicting, hh, hg] using hconflict
      simp [hyg, eq_comm]

/-- Agent and user of the metadata are what headers and `_cloud` name. -/
theorem extractMetadata_eq_ok {x : RouteMetadata × Body} (h : extractMetadata r = .ok x) :
    (∀ agentId, nonempty x.1.agentId = some agentId ↔ agentId ∈ givenAgents r) ∧
      ∀ username, nonempty x.1.username = some username ↔ username ∈ givenUsers r := by
  have hplain : cloudOf r = none → x = (headerMetadata r, r.body) →
      (∀ agentId, nonempty x.1.agentId = some agentId ↔ agentId ∈ givenAgents r) ∧
        ∀ username, nonempty x.1.username = some username ↔ username ∈ givenUsers r := by
    rintro hnone rfl
    simp [givenAgents, givenUsers, hnone, headerMetadata]
  unfold extractMetadata at h
  split at h
  · exact absurd h (by simp)
  · next value hreads hbody =>
    split at h
    · next hnone => exact hplain hnone (Except.ok.inj h).symm
    · next cloud hcloud =>
      simp only [mergeMetadata, bind_eq_ok, refuse_eq_ok, pure_eq_ok] at h
      obtain ⟨_, ⟨_, -, agentId, hagent, username, huser, workspace, -, requestId, -, _, -, _,
        hagents, _, husers, rfl⟩, rfl⟩ := h
      obtain ⟨hagent, hane⟩ := optionalString_eq_ok hagent
      obtain ⟨huser, hune⟩ := optionalString_eq_ok huser
      subst hagent huser
      refine ⟨fun agentId => ?_, fun username => ?_⟩
      · rw [givenAgents, hcloud]
        exact orElse_iff hane hagents
      · rw [givenUsers, hcloud]
        exact orElse_iff hune husers
  · next hneither =>
    refine hplain ?_ (Except.ok.inj h).symm
    unfold cloudOf
    split
    · next value hreads hbody => exact absurd hbody (hneither value hreads)
    · rfl

end Metadata

/-! ## §G The decision -/

section Decision

variable {sessions : Dict String Owner} {r : Incoming} {route : Option Owner}

theorem contextOf_ne {id : String} (h : contextOf r = some id) : id ≠ "" := (nonempty_eq_some.mp h).2

/-- The route of a request: it is that of a registered session the request names, if there is one. A
context is registered, and it is the session of the path when that is registered too. -/
theorem sessionRoute_eq_ok
    (h : sessionRoute sessions (sessionOf r.path) ((contextOf r).getD "") = .ok route) :
    (∀ o, route = some o ↔ ∃ id ∈ namedSessions r, sessions.lookup id = some o) ∧
      (∀ id ∈ contextOf r, (sessions.lookup id).isSome = true) ∧
      ∀ id ∈ sessionOf r.path, (sessions.lookup id).isSome = true →
        ∀ other ∈ contextOf r, other = id := by
  unfold sessionRoute at h
  cases hcontext : contextOf r with
  | none =>
    rw [hcontext, Option.getD_none, if_pos rfl] at h
    obtain rfl := Except.ok.inj h
    cases hpath : sessionOf r.path <;> simp [namedSessions, hcontext, hpath]
  | some context =>
    rw [hcontext, Option.getD_some, if_neg (contextOf_ne hcontext)] at h
    cases hc : sessions.lookup context with
    | none => simp [hc] at h
    | some contextual =>
      simp only [hc] at h
      cases hpath : sessionOf r.path with
      | none =>
        rw [hpath, Option.bind_none] at h
        obtain rfl := Except.ok.inj h
        simp [namedSessions, hcontext, hpath, hc]
      | some id =>
        rw [hpath, Option.bind_some] at h
        cases hid : sessions.lookup id with
        | none =>
          rw [hid] at h
          obtain rfl := Except.ok.inj h
          simp [namedSessions, hcontext, hpath, hc, hid]
        | some owner =>
          simp only [hid] at h
          split at h
          · next hsame =>
            obtain rfl := Except.ok.inj h
            obtain rfl := Option.some.inj hsame
            simp [namedSessions, hcontext, hpath, hid]
          · simp at h

/-- The owner that `_resolve_owner` returns. -/
theorem resolveOwner_eq_ok {given owner : Owner} (h : resolveOwner route given = .ok owner) :
    (∀ o, route = some o → owner = o ∧ (given.agentId ≠ "" → given.agentId = owner.agentId) ∧
      (given.username ≠ "" → given.username = owner.username)) ∧
    (route = none → owner = given ∧ given.agentId ≠ "" ∧ given.username ≠ "") := by
  unfold resolveOwner at h
  cases route with
  | none =>
    simp only [bind_eq_ok, refuse_eq_ok, pure_eq_ok, Bool.or_eq_false_iff, beq_eq_false_iff_ne] at h
    obtain ⟨_, hgiven, rfl⟩ := h
    exact ⟨fun o ho => (by cases ho), fun _ => ⟨rfl, hgiven⟩⟩
  | some o =>
    simp only [bind_eq_ok, refuse_eq_ok, pure_eq_ok] at h
    obtain ⟨_, hagent, _, huser, rfl⟩ := h
    refine ⟨fun o' ho => ?_, fun h => by cases h⟩
    obtain rfl := Option.some.inj ho
    refine ⟨rfl, fun hne => ?_, fun hne => ?_⟩
    · simpa [hne] using hagent
    · simpa [hne] using huser

theorem nonempty_getD {s : Option String} (h : s.getD "" ≠ "") : nonempty s = some (s.getD "") := by
  cases s with
  | none => exact absurd rfl h
  | some x => exact nonempty_eq_some.mpr ⟨rfl, h⟩

theorem getD_of_nonempty {s : Option String} {x : String} (h : nonempty s = some x) :
    s.getD "" = x ∧ x ≠ "" := by
  obtain ⟨rfl, hne⟩ := nonempty_eq_some.mp h
  exact ⟨rfl, hne⟩

/-- **A request is admitted for the owner it concerns.** -/
theorem admission_concerns {p : Platform} {a : Admitted} (h : admission p r = .ok a) :
    Concerns p.sessions r a.owner := by
  simp only [admission, bind_eq_ok, refuse_eq_ok, pure_eq_ok] at h
  obtain ⟨_, -, _, -, extracted, hextracted, route, hroute, owner, howner, payload, -, _, -, result, -,
    rfl⟩ := h
  obtain ⟨hagents, husers⟩ := extractMetadata_eq_ok hextracted
  obtain ⟨hsource, hcontext, hreferences⟩ := sessionRoute_eq_ok hroute
  obtain ⟨hrouted, hunrouted⟩ := resolveOwner_eq_ok howner
  have hagent : ∀ agentId ∈ givenAgents r, agentId = owner.agentId := by
    intro agentId hmem
    obtain ⟨hget, hne⟩ := getD_of_nonempty ((hagents agentId).mpr hmem)
    cases route with
    | none =>
      obtain ⟨rfl, -, -⟩ := hunrouted rfl
      exact hget.symm
    | some o => exact hget.symm.trans ((hrouted o rfl).2.1 (by rw [hget]; exact hne))
  have huser : ∀ username ∈ givenUsers r, username = owner.username := by
    intro username hmem
    obtain ⟨hget, hne⟩ := getD_of_nonempty ((husers username).mpr hmem)
    cases route with
    | none =>
      obtain ⟨rfl, -, -⟩ := hunrouted rfl
      exact hget.symm
    | some o => exact hget.symm.trans ((hrouted o rfl).2.2 (by rw [hget]; exact hne))
  refine ⟨fun id hid o ho => ?_, hcontext, hreferences, hagent, huser, fun hnone => ?_⟩
  · exact ((hrouted o ((hsource o).mpr ⟨id, hid, ho⟩)).1).symm
  · cases route with
    | none =>
      obtain ⟨rfl, hane, hune⟩ := hunrouted rfl
      exact ⟨(hagents _).mp (nonempty_getD hane), (husers _).mp (nonempty_getD hune)⟩
    | some o =>
      obtain ⟨id, hid, ho⟩ := (hsource o).mp rfl
      rw [hnone id hid] at ho
      cases ho

end Decision

/-! ## §H The result -/

/-- Two worlds are the same in what belongs to no owner. -/
structure SamePlatform (w w' : World) : Prop where
  platform : w'.platform = w.platform
  safeRequestId : w'.safeRequestId = w.safeRequestId
  redact : w'.redact = w.redact

/-- Two worlds are the same as far as an owner is concerned. -/
structure SameFor (w w' : World) (owner : Owner) : Prop where
  acquire : w'.acquire owner = w.acquire owner
  sessionsOf : w'.sessionsOf owner = w.sessionsOf owner
  files : w'.files owner = w.files owner
  record : w'.record owner = w.record owner
  sandbox : w'.sandbox owner = w.sandbox owner

section Result

variable {w w' : World} {r : Incoming} {a : Admitted} {owner : Owner}

theorem ensure_congr (h : SameFor w w' owner) (sid : String) :
    ensure w' owner sid = ensure w owner sid := by
  unfold ensure
  rw [h.files]

theorem directoryCollection_congr (h : SameFor w w' owner) (path : List Char) :
    directoryCollection w' owner path = directoryCollection w owner path := by
  unfold directoryCollection
  rw [h.sessionsOf]

theorem recordCreated_congr (h : SameFor w w' a.owner) (v2 : Bool) (content : Option Json) :
    recordCreated w' a v2 content = recordCreated w a v2 content := by
  unfold recordCreated
  rw [h.record]
  simp only [ensure_congr h]

theorem upstreamRequest_congr (h : SamePlatform w w') (a : Admitted) (session : Option String) :
    upstreamRequest w' a r session = upstreamRequest w a r session := by
  unfold upstreamRequest
  rw [h.safeRequestId]

/-- The whole conversation is about the owner only. -/
theorem converse_congr (hplatform : SamePlatform w w') (h : SameFor w w' a.owner) :
    converse w' a r = converse w a r := by
  unfold converse
  simp only [upstreamRequest_congr hplatform, directoryCollection_congr h, ensure_congr h,
    recordCreated_congr h, hplatform.redact]

/-- What a request is served with, when it is sent anywhere at all. -/
theorem serve_sent {x : Owner × Sent} (h : x ∈ (serve w r).2) :
    ∃ a, admission w.platform r = .ok a ∧ x.1 = a.owner := by
  unfold serve at h
  split at h
  · exact absurd h (by simp)
  · next a ha =>
    split at h
    · exact absurd h (by simp)
    · obtain ⟨sent, -, rfl⟩ := List.mem_map.mp h
      exact ⟨a, ha, rfl⟩

/-- A request that concerns nobody is refused. -/
theorem serve_refused (h : ∀ owner, ¬Concerns w.platform.sessions r owner) :
    ∃ e, serve w r = (.error e, []) := by
  unfold serve
  cases ha : admission w.platform r with
  | error e => exact ⟨e, rfl⟩
  | ok a => exact absurd (admission_concerns ha) (h a.owner)

/-- The owners that a request does not concern have no part in its answer. -/
theorem serve_congr (hplatform : SamePlatform w w')
    (h : ∀ owner, Concerns w.platform.sessions r owner → SameFor w w' owner) :
    serve w' r = serve w r := by
  unfold serve
  rw [hplatform.platform]
  cases ha : admission w.platform r with
  | error e => rfl
  | ok a =>
    have hsame := h a.owner (admission_concerns ha)
    simp only [hsame.acquire, hsame.sandbox, converse_congr hplatform hsame]

end Result

/-- **Whose sandbox serves a request.** There is at most one owner whom a request concerns. Whatever is
sent goes to the sandbox of this owner, a request that concerns nobody is refused and sent nowhere, and
the response is the same whatever the sandboxes of all others are. -/
theorem served_by_owner (w : World) (r : Incoming) :
    (∀ owner other, Concerns w.platform.sessions r owner → Concerns w.platform.sessions r other →
      owner = other) ∧
    (∀ x ∈ (serve w r).2, Concerns w.platform.sessions r x.1) ∧
    ((∀ owner, ¬Concerns w.platform.sessions r owner) → ∃ e, serve w r = (.error e, [])) ∧
    ∀ w' : World, SamePlatform w w' →
      (∀ owner, Concerns w.platform.sessions r owner → SameFor w w' owner) →
      serve w' r = serve w r := by
  refine ⟨fun owner other h h' => h.unique h', fun x hx => ?_, serve_refused,
    fun w' hplatform hsame => serve_congr hplatform hsame⟩
  obtain ⟨a, ha, howner⟩ := serve_sent hx
  rw [howner]
  exact admission_concerns ha

/-! ## §I A session that is not registered -/

/-- A world with one registered session, whose sandbox does not answer. -/
def oneSession : World where
  platform := samplePlatform ((∅ : Dict String Owner).insert "ses_1" sampleOwner) [] .active
  acquire := fun _ => .ok ()
  sessionsOf := fun _ => []
  files := fun _ _ => .ok ()
  record := fun _ _ _ => .ok ()
  safeRequestId := fun id => id.getD "request"
  redact := id
  sandbox := fun _ _ _ => .failed

/-- The path names a session that is not registered, the header the one that is. -/
def twoReferences : Incoming where
  method := .get
  path := "session/ses_2".toList
  query := []
  headers := [("x-cloud-session-id", "ses_1")]
  body := .empty

/-- The session of the path and that of the header differ, and the request is sent on for the latter. -/
theorem unregistered_path_passes : ¬ ∀ (w : World) (r : Incoming), (serve w r).2 ≠ [] →
    (∃ id ∈ namedSessions r, (w.platform.sessions.lookup id).isSome = true) →
    ∀ id ∈ sessionOf r.path, ∀ other ∈ contextOf r, other = id := by
  intro hall
  have hsent : (serve oneSession twoReferences).2.map (·.1) = [sampleOwner] := by decide +kernel
  have hsame := hall oneSession twoReferences (fun hnone => by rw [hnone] at hsent; cases hsent)
    ⟨"ses_1", by decide, by decide⟩ "ses_2" (by decide) "ses_1" (by decide)
  exact absurd hsame (by decide)

end OpencodeCloud.Router.Ownership
