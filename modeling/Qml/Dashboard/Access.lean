import Qml.Dashboard.Auth
import Qml.Dashboard.Retries

namespace Qml
open Lib

/-- The handlers of the routes. -/
inductive Handler
  | getServerStatistics
  | getJobStatistics
  | getQueueStatistics
  | getJobs
  | getJobDetails (jobId : String)
  | retryJob (jobId : String)
  | deleteJob (jobId : String)
  | getQueueJobs (queueName : String)
  | healthCheck
  | websocketHandler
  | dashboardUi
  | metricsHandler
  deriving DecidableEq

/-- The part of the dashboard's configuration that its routes depend on; whether there is a
metrics registry, of the registry itself. -/
structure DashboardConfig where
  auth : Option DashboardAuth
  metrics : Bool
  metricsSkipAuth : Bool

/-- How a request is answered. Of one that no handler takes, it is left open whether a guard
answers or the router. -/
inductive Answer
  | preflight
  | unauthorized (challenge : Option String)
  | forbidden (message : String)
  | handled (handler : Handler)
  | unrouted

namespace Dashboard

/-- `get(..)` also serves `HEAD`. -/
def isGet : HttpMethod → Bool
  | .get | .head => true
  | _ => false

/-- The captured segment of a path, which is not empty, percent-decoded. -/
def captured (percentDecode : String → Option String) (segment : String) : Option String :=
  if segment = "" then none else percentDecode segment

/-- `create_router`, and the routes that `create_app` adds to it. -/
def route (percentDecode : String → Option String) (method : HttpMethod) (path : List String) :
    Option Handler :=
  match path with
  | ["api", "jobs", segment, "retry"] =>
    if method = .post then (captured percentDecode segment).map .retryJob else none
  | ["api", "jobs", segment] =>
    if method = .delete then (captured percentDecode segment).map .deleteJob
    else if isGet method then (captured percentDecode segment).map .getJobDetails
    else none
  | ["api", "queues", segment, "jobs"] =>
    if isGet method then (captured percentDecode segment).map .getQueueJobs else none
  | path =>
    if isGet method then
      match path with
      | ["api", "statistics"] => some .getServerStatistics
      | ["api", "statistics", "jobs"] => some .getJobStatistics
      | ["api", "statistics", "queues"] => some .getQueueStatistics
      | ["api", "jobs"] => some .getJobs
      | ["api", "health"] => some .healthCheck
      | ["ws"] => some .websocketHandler
      | [] | ["dashboard"] | ["jobs"] | ["queues"] | ["statistics"] => some .dashboardUi
      | ["metrics"] => some .metricsHandler
      | _ => none
    else none

/-- The answer of `unauthorized`: a name and a password are asked for, a token is not. -/
def challenge : DashboardAuth → Option String
  | .basic .. => some "Basic realm=\"qml-dashboard\""
  | .bearer _ => none

def csrfGuard (req : Request) (next : Answer) : Answer :=
  if Auth.isMutation req.method && !Auth.sameOrigin req then .forbidden "CSRF check failed"
  else next

def requireAuth (auth : DashboardAuth) (req : Request) (next : Answer) : Answer :=
  if Auth.authorized auth req then next else .unauthorized (challenge auth)

/-- `create_app`. The outermost layer answers every `OPTIONS` request; the guards apply to all
routes but that of the metrics, if these are to skip them. -/
def serve (percentDecode : String → Option String) (config : DashboardConfig) (req : Request) :
    Answer :=
  if req.method = .options then .preflight
  else
    match route percentDecode req.method req.path with
    | none => .unrouted
    | some .metricsHandler =>
      if !config.metrics then .unrouted
      else if config.metricsSkipAuth then .handled .metricsHandler
      else guarded config req (.handled .metricsHandler)
    | some handler => guarded config req (.handled handler)
where
  guarded (config : DashboardConfig) (req : Request) (next : Answer) : Answer :=
    match config.auth with
    | some auth => requireAuth auth req (csrfGuard req next)
    | none => csrfGuard req next

/-- What a handler does to the storage. The other handlers only read. -/
def program : Handler → Option (Prog Call (Except QmlError Bool))
  | .retryJob jobId => some (DashboardService.retryJob jobId)
  | .deleteJob jobId => some (DashboardService.deleteJob jobId)
  | _ => none

/-- What a handler has seen after one more call. The one call of a removal applies it. -/
def noted (handler : Handler) (seen : Retry) (op : Call ρ) (reply : ρ) : Retry :=
  match handler with
  | .deleteJob _ => { seen with applied := true }
  | _ => seen.after op reply

/-- A request that a handler works on, and what that has seen. -/
structure Served where
  req : Request
  handler : Handler
  program : Prog Call (Except QmlError Bool)
  seen : Retry

/-- A storage, and the requests for changes that the dashboard works on. -/
structure Site where
  storage : MemoryStorage
  served : List Served

namespace Site

def idle (storage : MemoryStorage) : Site := ⟨storage, []⟩

/-- A request comes in, a handler makes its next call, or any other task enters a section of
the storage. -/
inductive Event
  | request (req : Request)
  | step (i : Nat) (env : Env)
  | enter (e : MemoryStorage.Entry)

/-- The request that a step works on, by its place. -/
def Event.index : Event → Option Nat
  | .step i _ => some i
  | _ => none

def next (percentDecode : String → Option String) (config : DashboardConfig) (s : Site) :
    Event → Option Site
  | .request req =>
    match serve percentDecode config req with
    | .handled handler =>
      match program handler with
      | some work => some { s with served := s.served ++ [⟨req, handler, work, .none⟩] }
      | none => some s
    | _ => some s
  | .step i env =>
    match s.served[i]? with
    | some ⟨req, handler, .call op k, seen⟩ =>
      (op.perform env s.storage).map fun (reply, storage) =>
        ⟨storage, s.served.set i ⟨req, handler, k reply, noted handler seen op reply⟩⟩
    | _ => none
  | .enter e => (s.storage.enter e).map fun storage => { s with storage := storage }

abbrev Next (percentDecode : String → Option String) (config : DashboardConfig) (s : Site)
    (e : Event) (t : Site) : Prop :=
  s.next percentDecode config e = some t

end Site

/-- The calls that a handler may make. -/
def Serving (handler : Handler) : Contract Call Retry where
  may seen _ op :=
    match handler, op with
    | .retryJob id, op => (Retrying id).may seen op
    | .deleteJob id, .storage (.delete jobId) => jobId = id ∧ seen.applied = false
    | _, _ => False
  step seen _ op reply seen' := Answers op reply ∧ seen' = noted handler seen op reply

/-- What a handler may do to the storage: put one failed job back into its queue, or take one
job out. -/
inductive Changes (s : MemoryStorage) : Handler → MemoryStorage → Prop
  | retried {job : Job} (hfailed : s.isFailed job.id = true) (hstate : job.state.kind = .enqueued) :
      Changes s (.retryJob job.id) { s with jobs := s.jobs.insert job }
  | deleted (id : String) : Changes s (.deleteJob id) { s with jobs := s.jobs.erase id }

/-- One call of a handler leaves the storage alone, or makes the one change. -/
inductive Steps (s : MemoryStorage) (seen : Retry) (handler : Handler) :
    MemoryStorage → Retry → Prop
  | quiet {seen' : Retry} (happlied : seen'.applied = seen.applied) :
      Steps s seen handler s seen'
  | changed {seen' : Retry} {t : MemoryStorage} (hbefore : seen.applied = false)
      (hafter : seen'.applied = true) (hchange : Changes s handler t) :
      Steps s seen handler t seen'

theorem program_serving {handler : Handler} {work : Prog Call (Except QmlError Bool)}
    (h : program handler = some work) : work.wp (Serving handler) (fun _ _ => True) .none := by
  cases handler with
  | retryJob id =>
    cases h
    exact Prog.wp_mono (C := Serving (.retryJob id)) (fun _ _ _ => trivial) (retryJob_retrying id)
  | deleteJob id =>
    cases h
    exact ⟨⟨rfl, rfl⟩, fun _ _ _ => trivial⟩
  | getServerStatistics | getJobStatistics | getQueueStatistics | getJobs | getJobDetails |
    getQueueJobs | healthCheck | websocketHandler | dashboardUi | metricsHandler => cases h

theorem serving_steps {handler : Handler} {seen : Retry} {op : Call ρ} {env : Env}
    {s t : MemoryStorage} {reply : ρ} (hmay : (Serving handler).may seen op)
    (hop : op.perform env s = some (reply, t)) :
    Steps s seen handler t (noted handler seen op reply) := by
  cases handler with
  | retryJob id =>
    have hsteps := Retry.steps hmay hop
    simp only [noted]
    generalize seen.after op reply = seen' at hsteps ⊢
    cases hsteps with
    | quiet happlied => exact .quiet happlied
    | wrote hfailed hjob hbefore hafter =>
      obtain ⟨rfl, hstate⟩ := hjob.enqueued
      exact .changed hbefore hafter (.retried hfailed hstate)
  | deleteJob id =>
    cases op with
    | storage op =>
      cases op
      case delete jobId =>
        obtain ⟨rfl, hbefore⟩ := hmay
        cases hop
        exact .changed hbefore rfl (.deleted jobId)
      all_goals exact hmay.elim
    | now | random | execute | await | hook | panic => exact hmay.elim
  | getServerStatistics | getJobStatistics | getQueueStatistics | getJobs | getJobDetails |
    getQueueJobs | healthCheck | websocketHandler | dashboardUi | metricsHandler =>
    exact hmay.elim

/-- What asks for a change of a job: its name, percent-encoded, is in the path. -/
inductive Asks (percentDecode : String → Option String) : HttpMethod → List String → Handler → Prop
  | retry {segment id : String} (hsegment : segment ≠ "") (hid : percentDecode segment = some id) :
      Asks percentDecode .post ["api", "jobs", segment, "retry"] (.retryJob id)
  | delete {segment id : String} (hsegment : segment ≠ "")
      (hid : percentDecode segment = some id) :
      Asks percentDecode .delete ["api", "jobs", segment] (.deleteJob id)

/-- What a request has to meet for its handler to change anything: its credentials are right,
where there are any, and it comes from a page of the dashboard itself. -/
structure Admitted (percentDecode : String → Option String) (config : DashboardConfig)
    (req : Request) (handler : Handler) : Prop where
  presents : ∀ auth, config.auth = some auth → Auth.Presents req auth
  sameOrigin : Auth.sameOrigin req = true
  asked : Asks percentDecode req.method req.path handler

variable {percentDecode : String → Option String} {config : DashboardConfig} {req : Request}
  {handler : Handler} {work : Prog Call (Except QmlError Bool)}

theorem captured_some {segment id : String} (h : captured percentDecode segment = some id) :
    segment ≠ "" ∧ percentDecode segment = some id := by
  unfold captured at h
  split at h
  · cases h
  · rename_i hne
    exact ⟨hne, h⟩

/-- The two routes that change a job. -/
theorem route_changes {method : HttpMethod} {path : List String}
    (h : route percentDecode method path = some handler) (hwork : program handler = some work) :
    Auth.isMutation method = true ∧ Asks percentDecode method path handler := by
  unfold route at h
  split at h
  · rename_i segment
    split at h
    · rename_i hmethod
      obtain ⟨id, hid, rfl⟩ := Option.map_eq_some_iff.mp h
      obtain ⟨hsegment, hdecode⟩ := captured_some hid
      subst hmethod
      exact ⟨rfl, .retry hsegment hdecode⟩
    · cases h
  · rename_i segment
    split at h
    · rename_i hmethod
      obtain ⟨id, hid, rfl⟩ := Option.map_eq_some_iff.mp h
      obtain ⟨hsegment, hdecode⟩ := captured_some hid
      subst hmethod
      exact ⟨rfl, .delete hsegment hdecode⟩
    · split at h
      · obtain ⟨id, -, rfl⟩ := Option.map_eq_some_iff.mp h
        cases hwork
      · cases h
  · split at h
    · obtain ⟨id, -, rfl⟩ := Option.map_eq_some_iff.mp h
      cases hwork
    · cases h
  · split at h
    · split at h <;> cases h <;> cases hwork
    · cases h

theorem csrfGuard_handled {next : Answer} (h : csrfGuard req next = .handled handler) :
    next = .handled handler ∧
      (Auth.isMutation req.method = true → Auth.sameOrigin req = true) := by
  unfold csrfGuard at h
  split at h
  · cases h
  · rename_i horigin
    exact ⟨h, fun hmutation => by simpa [hmutation] using horigin⟩

/-- What the guards let through. -/
theorem guarded_handled {next : Answer} (h : serve.guarded config req next = .handled handler) :
    (∀ auth, config.auth = some auth → Auth.Presents req auth) ∧ next = .handled handler ∧
      (Auth.isMutation req.method = true → Auth.sameOrigin req = true) := by
  unfold serve.guarded at h
  cases hauth : config.auth with
  | none =>
    rw [hauth] at h
    refine ⟨?_, csrfGuard_handled h⟩
    intro auth hsome
    cases hsome
  | some auth =>
    simp only [hauth, requireAuth] at h
    split at h
    · rename_i hok
      refine ⟨?_, csrfGuard_handled h⟩
      intro other hsome
      cases hsome
      exact Auth.authorized_iff.mp hok
    · cases h

/-- What gets through to a handler that changes something. -/
theorem serve_admitted (h : serve percentDecode config req = .handled handler)
    (hwork : program handler = some work) : Admitted percentDecode config req handler := by
  unfold serve at h
  split at h
  · cases h
  split at h
  · cases h
  · split at h
    · cases h
    · split at h
      · cases h
        cases hwork
      · obtain ⟨-, hhandler, -⟩ := guarded_handled h
        cases hhandler
        cases hwork
  · rename_i hroute
    obtain ⟨hpresents, hhandler, horigin⟩ := guarded_handled h
    cases hhandler
    obtain ⟨hmutation, hasks⟩ := route_changes hroute hwork
    exact ⟨hpresents, horigin hmutation, hasks⟩

namespace Site

/-- The request for a change that an event brings in, and the handler that takes it. -/
def asked (percentDecode : String → Option String) (config : DashboardConfig) :
    Event → Option (Request × Handler)
  | .request req =>
    match serve percentDecode config req with
    | .handled handler => if (program handler).isSome then some (req, handler) else none
    | _ => none
  | _ => none

/-- What one event does. -/
inductive Moves (percentDecode : String → Option String) (config : DashboardConfig) (s : Site) :
    Event → Site → Prop
  | passed {req : Request} (hasked : asked percentDecode config (.request req) = none) :
      Moves percentDecode config s (.request req) s
  | served {req : Request} {handler : Handler} {work : Prog Call (Except QmlError Bool)}
      (hserve : serve percentDecode config req = .handled handler)
      (hwork : program handler = some work) :
      Moves percentDecode config s (.request req)
        { s with served := s.served ++ [⟨req, handler, work, .none⟩] }
  | stepped {i : Nat} {env : Env} {req : Request} {handler : Handler} {ρ : Type} {op : Call ρ}
      {k : ρ → Prog Call (Except QmlError Bool)} {seen : Retry} {reply : ρ}
      {storage : MemoryStorage} (hserved : s.served[i]? = some ⟨req, handler, .call op k, seen⟩)
      (hop : op.perform env s.storage = some (reply, storage)) :
      Moves percentDecode config s (.step i env)
        ⟨storage, s.served.set i ⟨req, handler, k reply, noted handler seen op reply⟩⟩
  | entered {e : MemoryStorage.Entry} {storage : MemoryStorage}
      (henter : s.storage.enter e = some storage) :
      Moves percentDecode config s (.enter e) { s with storage := storage }

theorem next_moves {s t : Site} {e : Event} (h : Next percentDecode config s e t) :
    Moves percentDecode config s e t := by
  cases e with
  | request req =>
    simp only [Next, next] at h
    split at h
    · rename_i hserve
      split at h <;> cases h
      · rename_i hwork
        exact .served hserve hwork
      · rename_i hwork
        exact .passed (by simp [asked, hserve, hwork])
    · rename_i hserve
      cases h
      refine .passed ?_
      simp only [asked]
  | step i env =>
    simp only [Next, next] at h
    split at h
    · rename_i hserved
      obtain ⟨⟨reply, storage⟩, hop, rfl⟩ := Option.map_eq_some_iff.mp h
      exact .stepped hserved hop
    · cases h
  | enter e =>
    obtain ⟨storage, henter, rfl⟩ := Option.map_eq_some_iff.mp h
    exact .entered henter

/-- A request that a handler works on was admitted, and the handler keeps to its calls. -/
def Obeys (percentDecode : String → Option String) (config : DashboardConfig)
    (served : Served) : Prop :=
  Admitted percentDecode config served.req served.handler ∧
    served.program.wp (Serving served.handler) (fun _ _ => True) served.seen

/-- The requests that are worked on are those that asked for a change, in their order. -/
structure Sound (percentDecode : String → Option String) (config : DashboardConfig)
    (tr : List (Step Site Event)) (s : Site) : Prop where
  inOrder : s.served.map (fun served => (served.req, served.handler)) =
    tr.filterMap fun x => asked percentDecode config x.label
  obeys : ∀ (i : Nat) (served : Served), s.served[i]? = some served →
    Obeys percentDecode config served

variable {s t : Site} {tr : List (Step Site Event)}

theorem Sound.next (hs : Sound percentDecode config tr s) {e : Event}
    (h : Next percentDecode config s e t) : Sound percentDecode config (tr ++ [⟨s, e, t⟩]) t := by
  have hasked : asked percentDecode config e = none →
      (tr ++ [(⟨s, e, t⟩ : Step Site Event)]).filterMap
          (fun x => asked percentDecode config x.label) =
        s.served.map fun served => (served.req, served.handler) := by
    intro hnone
    rw [List.filterMap_append, ← hs.inOrder]
    simp only [List.filterMap_cons, hnone, List.filterMap_nil, List.append_nil]
  cases next_moves h with
  | passed hnone => exact ⟨(hasked hnone).symm, hs.obeys⟩
  | entered => exact ⟨(hasked rfl).symm, hs.obeys⟩
  | @served req handler work hserve hwork =>
    have hsome : asked percentDecode config (.request req) = some (req, handler) := by
      simp [asked, hserve, hwork]
    constructor
    · rw [List.filterMap_append, ← hs.inOrder, List.map_append]
      simp only [List.map_cons, List.map_nil, List.filterMap_cons, hsome, List.filterMap_nil]
    · intro i served hserved
      rcases join_cases hserved with ⟨-, rfl⟩ | hold
      · exact ⟨serve_admitted hserve hwork, program_serving hwork⟩
      · exact hs.obeys i served hold
  | @stepped i env req handler ρ op k seen reply storage hserved hop =>
    constructor
    · rw [hasked rfl]
      exact map_set_same _ hserved rfl
    · intro j served hj
      rcases set_cases hj with ⟨rfl, rfl⟩ | ⟨-, hold⟩
      · obtain ⟨hadmitted, -, hk⟩ := hs.obeys _ _ hserved
        exact ⟨hadmitted, hk reply _ ⟨Call.answers hop, rfl⟩⟩
      · exact hs.obeys j served hold

theorem sound_run {storage : MemoryStorage}
    (hr : Run (Next percentDecode config) (idle storage) tr s) :
    Sound percentDecode config tr s := by
  refine hr.invariant (Sound percentDecode config) ⟨rfl, fun i served h => by simp [idle] at h⟩ ?_
  intro tr t a u _ ih hnext
  exact ih.next hnext

/-- The change that the `i`-th request has asked for has been made. -/
def Spent (i : Nat) (s : Site) : Prop := ∃ served, s.served[i]? = some served ∧
  served.seen.applied = true

/-- What one step of a handler does. -/
theorem Sound.step (hs : Sound percentDecode config tr s) {e : Event} {i : Nat}
    (h : Next percentDecode config s e t) (he : e.index = some i) :
    ∃ before after : Served, s.served[i]? = some before ∧
      t.served = s.served.set i after ∧ Admitted percentDecode config before.req before.handler ∧
      Steps s.storage before.seen before.handler t.storage after.seen := by
  cases next_moves h with
  | passed | served | entered => cases he
  | stepped hserved hop =>
    cases he
    obtain ⟨hadmitted, hmay, -⟩ := hs.obeys _ _ hserved
    exact ⟨_, _, hserved, rfl, hadmitted, serving_steps hmay hop⟩

theorem Spent.next {i : Nat} (hspent : Spent i s) (hs : Sound percentDecode config tr s)
    {e : Event} (h : Next percentDecode config s e t) : Spent i t := by
  obtain ⟨served, hserved, happlied⟩ := hspent
  cases e with
  | request req =>
    cases next_moves h with
    | passed => exact ⟨served, hserved, happlied⟩
    | served =>
      exact ⟨served, List.getElem?_append_left (List.getElem?_eq_some_iff.mp hserved).1 ▸ hserved,
        happlied⟩
  | enter e =>
    cases next_moves h with
    | entered => exact ⟨served, hserved, happlied⟩
  | step j env =>
    obtain ⟨before, after, hbefore, hset, -, hsteps⟩ := hs.step h rfl
    by_cases hij : i = j
    · subst hij
      cases hbefore.symm.trans hserved
      refine ⟨after, hset ▸ List.getElem?_set_self (List.getElem?_eq_some_iff.mp hserved).1, ?_⟩
      generalize t.storage = storage at hsteps
      cases hsteps with
      | quiet hsame => exact hsame.trans happlied
      | changed _ hafter => exact hafter
    · exact ⟨served, hset ▸ (List.getElem?_set_ne (Ne.symm hij)).trans hserved, happlied⟩

/-- A request that changes something was not spent, and is. -/
theorem Sound.spent (hs : Sound percentDecode config tr s) {e : Event} {i : Nat}
    (h : Next percentDecode config s e t) (he : e.index = some i) :
    t.storage = s.storage ∨ ¬ Spent i s ∧ Spent i t := by
  obtain ⟨before, after, hbefore, hset, -, hsteps⟩ := hs.step h he
  obtain ⟨storage, served⟩ := t
  subst hset
  obtain ⟨req, handler, program, seen⟩ := after
  cases hsteps with
  | quiet => exact .inl rfl
  | changed hunspent hspent =>
    refine .inr ⟨?_, _, List.getElem?_set_self (List.getElem?_eq_some_iff.mp hbefore).1, hspent⟩
    rintro ⟨served, hserved, happlied⟩
    cases hbefore.symm.trans hserved
    rw [hunspent] at happlied
    cases happlied

variable {storage : MemoryStorage} {i : Nat}

/-- No request changes the storage twice. -/
theorem once {pre mid post : List (Step Site Event)} {x y : Step Site Event}
    (hr : Run (Next percentDecode config) (idle storage) (pre ++ x :: (mid ++ y :: post)) s)
    (hx : x.label.index = some i) (hy : y.label.index = some i) :
    x.after.storage = x.before.storage ∨ y.after.storage = y.before.storage := by
  have hkept : ∀ z ∈ pre ++ x :: (mid ++ y :: post), Spent i z.before → Spent i z.after := by
    intro z hz hspent
    obtain ⟨_, -, hbefore, hnext⟩ := hr.of_mem hz
    exact hspent.next (sound_run hbefore) hnext
  obtain ⟨hbefore, hxnext, hrest⟩ := hr.around
  obtain ⟨hmid, -, -⟩ := hrest.around
  rcases (sound_run hbefore).spent hxnext hx with hsame | ⟨-, hspent⟩
  · exact .inl hsame
  · have hstill : Spent i y.before :=
      hmid.stable (Spent i) hspent fun z hz => hkept z (by simp [hz])
    have hsplit : pre ++ x :: (mid ++ y :: post) = (pre ++ x :: mid) ++ y :: post := by simp
    rw [hsplit] at hr
    obtain ⟨hbefore, hynext, -⟩ := hr.around
    rcases (sound_run hbefore).spent hynext hy with hsame | ⟨hunspent, -⟩
    · exact .inr hsame
    · exact absurd hstill hunspent

/-- Every change that the dashboard makes was asked for by a request that came in before, was
let in, and came from a page of the dashboard. It is a change of the job that the request
names, and no request makes a second one. -/
theorem changes_asked_for {pre post : List (Step Site Event)} {x : Step Site Event}
    (hr : Run (Next percentDecode config) (idle storage) (pre ++ x :: post) s)
    (hstep : x.label.index = some i) (hchange : x.after.storage ≠ x.before.storage) :
    (∃ req handler,
      (pre.filterMap fun y => asked percentDecode config y.label)[i]? = some (req, handler) ∧
      Admitted percentDecode config req handler ∧
      Changes x.before.storage handler x.after.storage) ∧
    ∀ y ∈ pre ++ post, y.label.index = some i → y.after.storage = y.before.storage := by
  constructor
  · obtain ⟨hbefore, hnext, -⟩ := hr.around
    have hs := sound_run hbefore
    obtain ⟨before, after, hserved, -, hadmitted, hsteps⟩ := hs.step hnext hstep
    refine ⟨before.req, before.handler, ?_, hadmitted, ?_⟩
    · rw [← hs.inOrder, List.getElem?_map, hserved]
      rfl
    · generalize after.seen = seen at hsteps
      generalize x.after.storage = storage at hsteps hchange
      cases hsteps with
      | quiet => exact absurd rfl hchange
      | changed _ _ hchanges => exact hchanges
  · intro y hy hlabel
    rcases List.mem_append.mp hy with hy | hy
    · obtain ⟨pre', mid, rfl⟩ := List.append_of_mem hy
      rw [List.append_assoc, List.cons_append] at hr
      rcases once hr hlabel hstep with hsame | hsame
      · exact hsame
      · exact absurd hsame hchange
    · obtain ⟨mid, post', rfl⟩ := List.append_of_mem hy
      rcases once hr hstep hlabel with hsame | hsame
      · exact absurd hsame hchange
      · exact hsame

/-- A request from the page of the dashboard that carries a name and a password. -/
def fromPage (method : HttpMethod) (path : List String) (username password : String) : Request where
  method := method
  path := path
  headers
    | .authorization => some (Auth.asValue ("Basic ".toList ++
        Base64.encode (Auth.asBytes (username ++ ":" ++ password))))
    | .host => some (Auth.asValue "localhost:8080".toList)
    | .origin => some (Auth.asValue "http://LOCALHOST:8080".toList)
    | .referer => none

def locked : DashboardConfig := ⟨some (.basic "admin" "secret"), false, false⟩

/-- A failed job is stored; a wrong password does not get in, and the right one has the job
retried. -/
def retried : List Event :=
  let env := Env.at 0 .elapsed
  let job := { Job.new "job" 0 "send_email" .null with state := .failed 0 "timed out" none }
  let path := ["api", "jobs", "job", "retry"]
  [.enter ⟨.insertJob job, env.toReading⟩, .request (fromPage .post path "admin" "12345"),
    .request (fromPage .post path "admin" "secret"), .step 0 env, .step 0 env, .step 0 env]

theorem changes_asked_for_retried : ∃ pre x post s,
    Run (Next some locked) (idle (.empty none)) (pre ++ x :: post) s ∧
    (∃ req handler, (pre.filterMap fun y => asked some locked y.label)[0]? = some (req, handler) ∧
      Admitted some locked req handler ∧ Changes x.before.storage handler x.after.storage) ∧
    ∀ y ∈ pre ++ post, y.label.index = some 0 → y.after.storage = y.before.storage := by
  obtain ⟨s, hr⟩ := replay_run (next some locked) (idle (.empty none)) retried
  have hany : (replay (next some locked) (idle (.empty none)) retried).any
      (fun x => decide (x.label.index = some 0) && x.before.storage.isFailed "job" &&
        !x.after.storage.isFailed "job") = true := by
    decide +kernel
  obtain ⟨pre, x, hcut, hx⟩ := cut_first hany
  rw [hcut] at hr
  simp only [Bool.and_eq_true, Bool.not_eq_true', decide_eq_true_eq] at hx
  obtain ⟨⟨hindex, hbefore⟩, hafter⟩ := hx
  refine ⟨pre, x, _, s, hr, changes_asked_for hr hindex fun hsame => ?_⟩
  rw [hsame, hbefore] at hafter
  cases hafter

end Site

end Dashboard
end Qml
