import Ninfer.Acquire.Address

/-!
# Fetching a media URL

`fetch_url` of `acquire.cpp` with the functions it is made of. What is outside the code is an
environment: the cancellation callback and the clock at each place where they are asked, the URL
parser of libcurl, the resolver, which may answer differently at each turn of the redirect loop,
and what libcurl does with a request. A run leaves a trace of its lookups and of its requests, also
when it throws.

A request carries the address that is pinned for its host; `inet_ntop` and libcurl take it to text
and back. libcurl connects to no other address.

## Main definitions

* `Env`: everything the code asks
* `resolvePublic`, `fetchUrl`: the selection of an address, and the redirect loop
* `tested`: the answers the selection looks at
* `Safe`: what a run may do

## Main results

* `fetchUrl_safe_iff`: on which answers of the resolver a run is safe
-/

namespace Ninfer.Acquire

/-- `ErrorKind`. -/
inductive ErrorKind
  | budgetExceeded
  | remoteUnavailable
  | remoteTimeout
  | deadlineExceeded
  | cancelled
  deriving DecidableEq, Repr

/-- What the functions throw. -/
inductive Failure
  | error (kind : ErrorKind) (message : String)
  | invalidArgument (message : String)
  | runtimeError (message : String)
  | badAlloc
  deriving DecidableEq, Repr

/-- `Policy`, as far as a URL is concerned. Time is in nanoseconds of the steady clock, and no
deadline is the epoch of the clock. -/
structure Policy where
  maxBytes : Nat := 256 * 2 ^ 20
  connectTimeoutMs : Int := 5000
  timeoutMs : Int := 60000
  maxRedirects : Int := 3
  allowRemote : Bool := true
  allowPrivateNetwork : Bool := false
  deadline : Option Int := none
  deriving DecidableEq, Repr

/-- The parts of a URL that the code reads with `curl_url_get`; a part that is not there is
`none`. -/
structure CurlUrl where
  scheme : Option String
  host : Option String
  port : Option String
  user : Option String

/-- `UrlParts`. -/
structure UrlParts where
  scheme : String
  host : String
  port : String
  deriving DecidableEq, Repr

/-- A request: the turn of the loop it is made in, the URL, the entry for `CURLOPT_RESOLVE`, and
the limits. -/
structure Request where
  redirect : Nat
  url : String
  host : String
  port : String
  address : SockAddr
  connectTimeoutMs : Int
  timeoutMs : Int
  maxFilesize : Nat
  deriving DecidableEq, Repr

/-- A lookup the resolver has answered, and the address selected from the answer. -/
structure Lookup where
  redirect : Nat
  answers : List SockAddr
  pinned : Option SockAddr
  deriving DecidableEq, Repr

/-- The result codes of libcurl that the code tells apart. -/
inductive CurlCode
  | ok
  | operationTimedout
  | filesizeExceeded
  | writeError
  | other (code : Nat)
  deriving DecidableEq, Repr

/-- What libcurl does with a request: the pieces of the body in the order in which it writes them,
its result, and what it knows of the response. -/
structure Transfer where
  body : List (List UInt8)
  code : CurlCode
  status : Int
  redirectUrl : Option String

/-- Everything the code asks. `cancelled` and `now` are asked at numbered places of a turn. -/
structure Env where
  cancelled : Nat → Nat → Bool
  now : Nat → Nat → Int
  curlGlobalInit : Bool
  curlUrl : String → Option CurlUrl
  getaddrinfo : Nat → String → String → Except String (List SockAddr)
  slistAppend : Nat → Bool
  easyInit : Nat → Bool
  perform : Request → Transfer
  strerror : CurlCode → String

/-- The lookups and the requests of a run, in order. -/
structure Trace where
  lookups : List Lookup := []
  requests : List Request := []
  deriving DecidableEq, Repr

/-- A function that may throw; the trace is kept either way. -/
abbrev Fetch (α : Type) := EStateM Failure Trace α

/-- Throws `e` unless `p` holds. -/
def require (p : Prop) [Decidable p] (e : Failure) : Fetch Unit :=
  if p then pure () else throw e

section Functions

variable (env : Env) (policy : Policy)

/-- `check_control`, at a place of a turn. -/
def checkControl (redirect place : Nat) : Fetch Unit := do
  require (¬env.cancelled redirect place) (.error .cancelled "media acquisition was cancelled")
  match policy.deadline with
  | none => pure ()
  | some deadline =>
    require (env.now redirect place < deadline)
      (.error .deadlineExceeded "media acquisition exceeded request deadline")

/-- `bounded_timeout_ms`. -/
def boundedTimeoutMs (redirect place : Nat) (configured : Int) : Fetch Int :=
  match policy.deadline with
  | none => pure configured
  | some deadline => do
    checkControl env policy redirect place
    pure (min configured (max 1 ((deadline - env.now redirect (place + 1)).tdiv 1000000)))

/-- `parse_url`. -/
def parseUrl (value : String) : Fetch UrlParts :=
  match env.curlUrl value with
  | none => throw (.invalidArgument "invalid media URL")
  | some url => do
    let out : UrlParts :=
      { scheme := url.scheme.getD ""
        host := url.host.getD ""
        port := url.port.getD "" }
    let user := url.user.getD ""
    require (¬(out.scheme ≠ "http" ∧ out.scheme ≠ "https" ∨ out.host = "" ∨ out.port = "" ∨
      user ≠ "")) (.invalidArgument "media URL must be credential-free HTTP(S)")
    pure out

/-- The loop of `resolve_public`: the last IPv6 address before the first IPv4 address, and that
IPv4 address if there is one, of those that are not skipped. -/
def select (allowPrivate : Bool) : Option SockAddr → List SockAddr → Option SockAddr
  | selected, [] => selected
  | selected, address :: rest =>
    if !allowPrivate && privateAddress address then select allowPrivate selected rest
    else
      match address with
      | .inet sin => some (.inet sin)
      | .inet6 sin6 => select allowPrivate (some (.inet6 sin6)) rest
      -- `inet_ntop` knows no other family
      | .other _ => select allowPrivate selected rest

/-- `resolve_public`. -/
def resolvePublic (redirect : Nat) (url : UrlParts) (allowPrivate : Bool) : Fetch SockAddr :=
  match env.getaddrinfo redirect url.host url.port with
  | .error text =>
    throw (.error .remoteUnavailable ("failed to resolve media URL host: " ++ text))
  | .ok answers => do
    let selected := select allowPrivate none answers
    modify fun t => { t with lookups := t.lookups ++ [⟨redirect, answers, selected⟩] }
    match selected with
    | none =>
      throw (.invalidArgument "media URL resolves only to disallowed network addresses")
    | some address => pure address

/-- `curl_write`: the buffer with the piece, or a refusal. -/
def curlWrite (limit : Nat) (bytes data : List UInt8) : Option (List UInt8) :=
  if data.length > limit - min limit bytes.length then none else some (bytes ++ data)

/-- The pieces of a body through `curl_write`; a refusal ends the transfer. -/
def receive (limit : Nat) (bytes : List UInt8) : List (List UInt8) → Option (List UInt8)
  | [] => some bytes
  | data :: rest =>
    match curlWrite limit bytes data with
    | none => none
    | some bytes' => receive limit bytes' rest

/-- What `fetch_url` makes of a transfer: the bytes, or the URL of the next turn. -/
def finish (redirect : Nat) (transfer : Transfer) : Fetch (List UInt8 ⊕ String) :=
  let received := receive policy.maxBytes [] transfer.body
  let code := if received.isNone then .writeError else transfer.code
  if code ≠ .ok then do
    checkControl env policy redirect 6
    match code with
    | .operationTimedout =>
      throw (.error .remoteTimeout ("media URL fetch timed out: " ++ env.strerror code))
    | .filesizeExceeded | .writeError =>
      throw (.error .budgetExceeded "media URL exceeds byte limit")
    | _ =>
      throw (.error .remoteUnavailable ("failed to fetch media URL: " ++ env.strerror code))
  else if 200 ≤ transfer.status ∧ transfer.status < 300 then do
    checkControl env policy redirect 7
    pure (.inl (received.getD []))
  else if transfer.status < 300 ∨ 400 ≤ transfer.status ∨ redirect = policy.maxRedirects then
    throw (.error .remoteUnavailable ("media URL returned HTTP " ++ toString transfer.status))
  else if transfer.redirectUrl.getD "" = "" then
    throw (.error .remoteUnavailable "media URL redirect has no location")
  else pure (.inr (transfer.redirectUrl.getD ""))

/-- A turn of the loop of `fetch_url` up to the request. -/
def prepare (redirect : Nat) (url : String) : Fetch Request := do
  checkControl env policy redirect 0
  let parts ← parseUrl env url
  let ip ← resolvePublic env redirect parts policy.allowPrivateNetwork
  checkControl env policy redirect 1
  require (env.slistAppend redirect) .badAlloc
  require (env.easyInit redirect) (.runtimeError "failed to create libcurl handle")
  let connectTimeout ← boundedTimeoutMs env policy redirect 2 policy.connectTimeoutMs
  let timeout ← boundedTimeoutMs env policy redirect 4 policy.timeoutMs
  pure
    { redirect
      url
      host := parts.host
      port := parts.port
      address := ip
      connectTimeoutMs := connectTimeout
      timeoutMs := timeout
      maxFilesize := policy.maxBytes }

/-- `curl_easy_perform`. -/
def perform (request : Request) : Fetch Transfer := do
  modify fun t => { t with requests := t.requests ++ [request] }
  pure (env.perform request)

/-- The loop of `fetch_url` with the number of turns that are left. -/
def fetchUrl.loop : Nat → Nat → String → Fetch (List UInt8)
  | 0, _, _ => throw (.error .remoteUnavailable "too many media URL redirects")
  | left + 1, redirect, url => do
    let request ← prepare env policy redirect url
    let transfer ← perform env request
    match ← finish env policy redirect transfer with
    | .inl bytes => pure bytes
    | .inr next => fetchUrl.loop left (redirect + 1) next

/-- `fetch_url`. -/
def fetchUrl (url : String) : Fetch (List UInt8) := do
  require policy.allowRemote (.invalidArgument "remote media URLs are disabled")
  require env.curlGlobalInit (.runtimeError "failed to initialize libcurl")
  fetchUrl.loop env policy (policy.maxRedirects + 1).toNat 0 url

/-- The trace of a run. -/
def traceOf (url : String) : Trace :=
  match fetchUrl env policy url {} with
  | .ok _ t => t
  | .error _ t => t

end Functions

/-! ## What a run may do -/

/-- The answers that the loop of `resolve_public` looks at: those up to the first IPv4 address that
is not skipped. -/
def tested : List SockAddr → List SockAddr
  | [] => []
  | address :: rest =>
    address ::
      if privateAddress address then tested rest
      else
        match address with
        | .inet _ => []
        | _ => tested rest

/-- What a run may do: it pins only addresses that the resolver has returned for the host of that
turn and that are not internal, it passes over no public IPv4 address that it looks at, and it makes
at most one request more than there may be redirects. -/
structure Safe (env : Env) (policy : Policy) (url : String) : Prop where
  resolved : ∀ r ∈ (traceOf env policy url).requests,
    ∃ answers, env.getaddrinfo r.redirect r.host r.port = .ok answers ∧ r.address ∈ answers
  hostOfUrl : ∀ r ∈ (traceOf env policy url).requests,
    ∃ parts, env.curlUrl r.url = some parts ∧ parts.host = some r.host ∧ parts.port = some r.port
  external : ∀ r ∈ (traceOf env policy url).requests, ¬Internal r.address
  passed : ∀ l ∈ (traceOf env policy url).lookups, ∀ a ∈ tested l.answers, PublicIpv4 a →
    privateAddress a = false
  accepted : ∀ l ∈ (traceOf env policy url).lookups, ∀ a ∈ l.answers, PublicIpv4 a →
    l.pinned.isSome
  first : ∀ l ∈ (traceOf env policy url).lookups, ∀ q, .inet q ∈ tested l.answers →
    PublicIpv4 (.inet q) → l.pinned = some (.inet q)
  bounded : (traceOf env policy url).requests.length ≤ (policy.maxRedirects + 1).toNat

/-- The two blocks the filter has mixed up are not met: no request is made for a host of which the
answer that is selected lies in `198.18.0.0/15`, and no answer that is looked at in
`198.126.0.0/15`. -/
structure Clear (env : Env) (policy : Policy) (url : String) : Prop where
  selected : ∀ r ∈ (traceOf env policy url).requests, ∀ answers,
    env.getaddrinfo r.redirect r.host r.port = .ok answers → ∀ a, select false none answers = some a →
      ¬a.InIpv4 (ipv4Block 198 18 0 0 15)
  tested : ∀ l ∈ (traceOf env policy url).lookups, ∀ a ∈ tested l.answers,
    ¬a.InIpv4 (ipv4Block 198 126 0 0 15)

/-! ## The selection of an address -/

section Select

variable {allowPrivate : Bool} {selected : Option SockAddr} {answers : List SockAddr}
  {a : SockAddr}

/-- A selected address is an answer that is not skipped, or it was selected before. -/
theorem mem_of_select (h : select allowPrivate selected answers = some a) :
    selected = some a ∨
      a ∈ answers ∧ (allowPrivate = false → privateAddress a = false) := by
  induction answers generalizing selected with
  | nil => exact Or.inl h
  | cons address rest ih =>
    unfold select at h
    split_ifs at h with hskip
    · exact (ih h).imp_right fun ha => ⟨List.mem_cons_of_mem _ ha.1, ha.2⟩
    · have hpub : allowPrivate = false → privateAddress address = false := by
        intro hap
        simpa only [hap, Bool.not_false, Bool.true_and, Bool.not_eq_true] using hskip
      cases address with
      | inet sin =>
        cases h
        exact Or.inr ⟨List.mem_cons_self .., hpub⟩
      | inet6 sin6 =>
        rcases ih h with hsel | ha
        · cases hsel
          exact Or.inr ⟨List.mem_cons_self .., hpub⟩
        · exact Or.inr ⟨List.mem_cons_of_mem _ ha.1, ha.2⟩
      | other family => exact (ih h).imp_right fun ha => ⟨List.mem_cons_of_mem _ ha.1, ha.2⟩

theorem select_isSome_of_selected (h : selected.isSome) :
    (select allowPrivate selected answers).isSome := by
  induction answers generalizing selected with
  | nil => exact h
  | cons address rest ih =>
    unfold select
    split_ifs
    · exact ih h
    · cases address with
      | inet sin => rfl
      | inet6 sin6 => exact ih rfl
      | other family => exact ih h

/-- A native IPv4 answer that is looked at and not skipped is the one that is selected. -/
theorem select_eq_of_mem_tested {q : Quad} (h : .inet q ∈ tested answers)
    (hpass : privateAddress (.inet q) = false) :
    select false selected answers = some (.inet q) := by
  induction answers generalizing selected with
  | nil => cases h
  | cons address rest ih =>
    unfold tested at h
    unfold select
    rcases List.mem_cons.mp h with rfl | h
    · rw [hpass, Bool.and_false, if_neg Bool.false_ne_true]
    · by_cases hskip : privateAddress address = true
      · rw [if_pos hskip] at h
        rw [hskip, Bool.and_true, if_pos Bool.not_false]
        exact ih h
      · rw [if_neg hskip] at h
        rw [Bool.eq_false_iff.mpr hskip, Bool.and_false, if_neg Bool.false_ne_true]
        cases address with
        | inet sin => cases h
        | inet6 sin6 => exact ih h
        | other family => exact ih h

/-- When no public IPv4 answer that is looked at is skipped, a public one among the answers keeps
the selection from being empty. -/
theorem select_isSome (hpassed : ∀ b ∈ tested answers, PublicIpv4 b → privateAddress b = false)
    (ha : a ∈ answers) (hpub : PublicIpv4 a) : (select false selected answers).isSome := by
  induction answers generalizing selected with
  | nil => cases ha
  | cons address rest ih =>
    unfold tested at hpassed
    unfold select
    by_cases hskip : privateAddress address = true
    · rw [if_pos hskip] at hpassed
      rw [hskip, Bool.and_true, if_pos Bool.not_false]
      rcases List.mem_cons.mp ha with rfl | ha
      · have hpass := hpassed a List.mem_cons_self hpub
        rw [hskip] at hpass
        cases hpass
      · exact ih (fun b hb => hpassed b (List.mem_cons_of_mem _ hb)) ha
    · rw [Bool.eq_false_iff.mpr hskip, Bool.and_false, if_neg Bool.false_ne_true]
      cases address with
      | inet sin => rfl
      | inet6 sin6 => exact select_isSome_of_selected rfl
      | other family => exact absurd rfl hskip

end Select

/-! ## What a function leaves of the trace -/

namespace Fetch

variable {α β : Type}

/-- After the function from `t`, `Q` holds of the value and the trace if it returned, and `P` of
the trace if it threw. -/
def Ensures (x : Fetch α) (t : Trace) (Q : α → Trace → Prop) (P : Trace → Prop) : Prop :=
  match x t with
  | .ok a t' => Q a t'
  | .error _ t' => P t'

variable {x : Fetch α} {f : α → Fetch β} {t : Trace} {Q : α → Trace → Prop}
  {R : β → Trace → Prop} {P : Trace → Prop}

theorem ensures_bind (h : x.Ensures t (fun a t' => (f a).Ensures t' R P) P) :
    Ensures (x >>= f) t R P := by
  unfold Ensures at h ⊢
  simp only [bind, EStateM.bind]
  cases hx : x t <;> simp only [hx] at h ⊢ <;> exact h

theorem Ensures.imp {Q' : α → Trace → Prop} {P' : Trace → Prop} (h : x.Ensures t Q P)
    (hQ : ∀ a t', Q a t' → Q' a t') (hP : ∀ t', P t' → P' t') : x.Ensures t Q' P' := by
  unfold Ensures at h ⊢
  cases hx : x t with
  | ok a t' => simp only [hx] at h ⊢; exact hQ _ _ h
  | error e t' => simp only [hx] at h ⊢; exact hP _ h

theorem ensures_pure {a : α} (h : Q a t) : Ensures (pure a) t Q P := h

theorem ensures_throw {e : Failure} (h : P t) : Ensures (throw e : Fetch α) t Q P := h

theorem ensures_modify {g : Trace → Trace} {Q : Unit → Trace → Prop} (h : Q () (g t)) :
    Ensures (modify g) t Q P := h

theorem ensures_require {p : Prop} [Decidable p] {e : Failure} {Q : Unit → Trace → Prop}
    (hok : p → Q () t) (hthrow : P t) : (require p e).Ensures t Q P := by
  unfold require
  split_ifs with hp
  · exact hok hp
  · exact hthrow

/-- The function leaves the trace alone. -/
def Still (x : Fetch α) : Prop := ∀ t, x.Ensures t (fun _ t' => t' = t) (· = t)

theorem Still.ensures (hx : x.Still) (hok : ∀ a, Q a t) (hthrow : P t) : x.Ensures t Q P := by
  have h := hx t
  unfold Ensures at h ⊢
  cases hxt : x t with
  | ok a t' =>
    simp only [hxt] at h ⊢
    exact h ▸ hok a
  | error e t' =>
    simp only [hxt] at h ⊢
    exact h ▸ hthrow

theorem still_pure (a : α) : Still (pure a) := fun _ => rfl

theorem still_throw (e : Failure) : Still (throw e : Fetch α) := fun _ => rfl

theorem still_require (p : Prop) [Decidable p] (e : Failure) : Still (require p e) :=
  fun _ => ensures_require (fun _ => rfl) rfl

theorem Still.bind (hx : x.Still) (hf : ∀ a, (f a).Still) : Still (x >>= f) :=
  fun t => ensures_bind (hx.ensures (fun a => hf a t) rfl)

end Fetch

section Functions

variable {env : Env} {policy : Policy} {redirect : Nat}

open Fetch

theorem still_checkControl (place : Nat) : Still (checkControl env policy redirect place) := by
  unfold checkControl
  refine (still_require _ _).bind fun _ => ?_
  cases policy.deadline with
  | none => exact still_pure ()
  | some deadline => exact still_require _ _

theorem still_boundedTimeoutMs (place : Nat) (configured : Int) :
    Still (boundedTimeoutMs env policy redirect place configured) := by
  unfold boundedTimeoutMs
  cases policy.deadline with
  | none => exact still_pure _
  | some deadline => exact (still_checkControl _).bind fun _ => still_pure _

theorem still_finish (transfer : Transfer) : Still (finish env policy redirect transfer) := by
  unfold finish
  dsimp only
  generalize (if (receive policy.maxBytes [] transfer.body).isNone then .writeError
    else transfer.code : CurlCode) = code
  split_ifs
  · refine (still_checkControl _).bind fun _ => ?_
    cases code <;> exact still_throw _
  · exact (still_checkControl _).bind fun _ => still_pure _
  · exact still_throw _
  · exact still_throw _
  · exact still_pure _

/-- `parse_url` returns the host and the port the parser of libcurl reads. -/
theorem parseUrl_ensures {url : String} {t : Trace} :
    (parseUrl env url).Ensures t
      (fun parts t' => t' = t ∧ ∃ u, env.curlUrl url = some u ∧ u.host = some parts.host ∧
        u.port = some parts.port) (· = t) := by
  unfold parseUrl
  cases hurl : env.curlUrl url with
  | none => exact ensures_throw rfl
  | some u =>
    refine ensures_bind (ensures_require (fun hok => ensures_pure ⟨rfl, u, rfl, ?_, ?_⟩) rfl)
    · cases hhost : u.host with
      | none => simp [hhost] at hok
      | some host => rfl
    · cases hport : u.port with
      | none => simp [hport] at hok
      | some port => rfl

/-! ## What every run has done -/

/-- A lookup as the code makes it. -/
def GoodLookup (env : Env) (policy : Policy) (l : Lookup) : Prop :=
  (∃ host port, env.getaddrinfo l.redirect host port = .ok l.answers) ∧
    l.pinned = select policy.allowPrivateNetwork none l.answers

/-- A request as the code makes it. -/
def GoodRequest (env : Env) (policy : Policy) (r : Request) : Prop :=
  (∃ answers, env.getaddrinfo r.redirect r.host r.port = .ok answers ∧
    select policy.allowPrivateNetwork none answers = some r.address) ∧
    ∃ u, env.curlUrl r.url = some u ∧ u.host = some r.host ∧ u.port = some r.port

/-- A trace of lookups and at most `n` requests as the code makes them. -/
structure Good (env : Env) (policy : Policy) (n : Nat) (t : Trace) : Prop where
  lookups : ∀ l ∈ t.lookups, GoodLookup env policy l
  requests : ∀ r ∈ t.requests, GoodRequest env policy r
  length_le : t.requests.length ≤ n

theorem Good.mono {m n : Nat} {t : Trace} (h : Good env policy m t) (hmn : m ≤ n) :
    Good env policy n t := ⟨h.lookups, h.requests, Nat.le_trans h.length_le hmn⟩

/-- `resolve_public` adds its lookup to the trace and returns what it has selected. -/
theorem Good.resolvePublic {n : Nat} {t : Trace} {url : UrlParts} (h : Good env policy n t) :
    (resolvePublic env redirect url policy.allowPrivateNetwork).Ensures t
      (fun address t' => Good env policy n t' ∧
        ∃ answers, env.getaddrinfo redirect url.host url.port = .ok answers ∧
          select policy.allowPrivateNetwork none answers = some address)
      (Good env policy n) := by
  unfold Acquire.resolvePublic
  cases hanswers : env.getaddrinfo redirect url.host url.port with
  | error text => exact ensures_throw h
  | ok answers =>
    have hgood (pinned : Option SockAddr)
        (hpinned : select policy.allowPrivateNetwork none answers = pinned) :
        Good env policy n { t with lookups := t.lookups ++ [⟨redirect, answers, pinned⟩] } := by
      refine ⟨fun l hl => ?_, h.requests, h.length_le⟩
      rcases List.mem_append.mp hl with hl | hl
      · exact h.lookups l hl
      · cases List.mem_singleton.mp hl
        exact ⟨⟨url.host, url.port, hanswers⟩, hpinned.symm⟩
    dsimp only
    cases hsel : select policy.allowPrivateNetwork none answers with
    | none => exact ensures_bind (ensures_modify (ensures_throw (hgood _ hsel)))
    | some address =>
      exact ensures_bind (ensures_modify (ensures_pure ⟨hgood _ hsel, answers, rfl, hsel⟩))

/-- A turn up to its request keeps the trace good, and the request is good. -/
theorem Good.prepare {n : Nat} {t : Trace} {url : String} (h : Good env policy n t) :
    (prepare env policy redirect url).Ensures t
      (fun r t' => Good env policy n t' ∧ GoodRequest env policy r) (Good env policy n) := by
  unfold Acquire.prepare
  refine ensures_bind ((still_checkControl _).ensures (fun _ => ?_) h)
  refine ensures_bind (parseUrl_ensures.imp ?_ fun _ ht => ht ▸ h)
  rintro parts _ ⟨rfl, hparts⟩
  refine ensures_bind (h.resolvePublic.imp ?_ fun _ ht => ht)
  rintro address t' ⟨h', haddress⟩
  refine ensures_bind ((still_checkControl _).ensures (fun _ => ?_) h')
  refine ensures_bind (ensures_require (fun _ => ?_) h')
  refine ensures_bind (ensures_require (fun _ => ?_) h')
  refine ensures_bind ((still_boundedTimeoutMs _ _).ensures (fun _ => ?_) h')
  refine ensures_bind ((still_boundedTimeoutMs _ _).ensures (fun _ => ?_) h')
  exact ensures_pure ⟨h', haddress, hparts⟩

theorem Good.perform {n : Nat} {t : Trace} {r : Request} (h : Good env policy n t)
    (hr : GoodRequest env policy r) :
    (perform env r).Ensures t (fun _ => Good env policy (n + 1)) (Good env policy n) := by
  refine ensures_bind (ensures_modify (ensures_pure ⟨h.lookups, fun r' hr' => ?_, ?_⟩))
  · rcases List.mem_append.mp hr' with hr' | hr'
    · exact h.requests r' hr'
    · rwa [List.mem_singleton.mp hr']
  · rw [List.length_append]
    exact Nat.succ_le_succ h.length_le

/-- The loop, by induction on the turns that are left: each turn makes at most one request. -/
theorem Good.loop {left n : Nat} {t : Trace} {url : String} (h : Good env policy n t) :
    (fetchUrl.loop env policy left redirect url).Ensures t
      (fun _ => Good env policy (n + left)) (Good env policy (n + left)) := by
  induction left generalizing redirect n t url with
  | zero => exact ensures_throw h
  | succ left ih =>
    have hn : n ≤ n + (left + 1) := Nat.le_add_right ..
    unfold fetchUrl.loop
    refine ensures_bind (h.prepare.imp ?_ fun _ h' => h'.mono hn)
    rintro request t₁ ⟨h₁, hrequest⟩
    refine ensures_bind ((h₁.perform hrequest).imp ?_ fun _ h' => h'.mono hn)
    intro transfer t₂ h₂
    have hturn : n + 1 + left = n + (left + 1) := Nat.succ_add_eq_add_succ n left
    have hdone : Good env policy (n + (left + 1)) t₂ := h₂.mono (by omega)
    refine ensures_bind ((still_finish transfer).ensures (fun result => ?_) hdone)
    cases result with
    | inl bytes => exact ensures_pure hdone
    | inr next => exact hturn ▸ ih h₂

theorem good_traceOf (env : Env) (policy : Policy) (url : String) :
    Good env policy (policy.maxRedirects + 1).toNat (traceOf env policy url) := by
  have hempty (n : Nat) : Good env policy n {} := by
    refine ⟨?_, ?_, Nat.zero_le n⟩
    · exact fun l hl => nomatch hl
    · exact fun r hr => nomatch hr
  have h : (fetchUrl env policy url).Ensures {}
      (fun _ => Good env policy (policy.maxRedirects + 1).toNat)
      (Good env policy (policy.maxRedirects + 1).toNat) := by
    refine ensures_bind (ensures_require (fun _ => ?_) (hempty _))
    refine ensures_bind (ensures_require (fun _ => ?_) (hempty _))
    simpa only [Nat.zero_add] using (hempty 0).loop
  unfold Ensures at h
  unfold traceOf
  cases hrun : fetchUrl env policy url {} <;> simpa only [hrun] using h

end Functions

/-! ## When a run is safe -/

/-- A resolver that answers every lookup with the same addresses, and servers that answer every
request with an empty body. -/
def Env.answeringAll (answers : List SockAddr) : Env where
  cancelled _ _ := false
  now _ _ := 0
  curlGlobalInit := true
  curlUrl _ := some ⟨some "http", some "media.example", some "80", none⟩
  getaddrinfo _ _ _ := .ok answers
  slistAppend _ := true
  easyInit _ := true
  perform _ := ⟨[], .ok, 200, none⟩
  strerror _ := ""

/-- A resolver that answers with one address. -/
abbrev Env.answering (a : SockAddr) : Env := .answeringAll [a]

/-- A run makes one lookup, and one request if an address is selected. -/
theorem traceOf_answeringAll (answers : List SockAddr) (url : String) :
    traceOf (.answeringAll answers) {} url =
      match select false none answers with
      | none => ⟨[⟨0, answers, none⟩], []⟩
      | some b => ⟨[⟨0, answers, some b⟩],
          [⟨0, url, "media.example", "80", b, 5000, 60000, 256 * 2 ^ 20⟩]⟩ := by
  have hturns : ((3 : Int) + 1).toNat = 3 + 1 := rfl
  unfold traceOf fetchUrl
  dsimp only
  rw [hturns]
  unfold fetchUrl.loop prepare parseUrl resolvePublic
  cases hsel : select false none answers <;>
    simp [hsel, Env.answeringAll, require, checkControl, boundedTimeoutMs, perform, finish, receive,
      bind, EStateM.bind, pure, EStateM.pure, modify, modifyGet, MonadStateOf.modifyGet,
      EStateM.modifyGet, throw, throwThe, MonadExceptOf.throw, EStateM.throw]

/-- The internal address `198.18.0.1` is pinned for a request, and the public address `198.126.0.1`
is refused. -/
theorem not_safe_sample :
    ¬Safe (.answering (.inet ⟨198, 18, 0, 1⟩)) {} "http://media.example/a" ∧
      ¬Safe (.answering (.inet ⟨198, 126, 0, 1⟩)) {} "http://media.example/a" := by
  constructor
  · intro hsafe
    have htrace := traceOf_answeringAll [.inet ⟨198, 18, 0, 1⟩] "http://media.example/a"
    rw [show select false none [.inet ⟨198, 18, 0, 1⟩] = some (.inet ⟨198, 18, 0, 1⟩) by decide]
      at htrace
    refine hsafe.external ⟨0, "http://media.example/a", "media.example", "80",
      .inet ⟨198, 18, 0, 1⟩, 5000, 60000, 256 * 2 ^ 20⟩ ?_ ?_
    · rw [htrace]
      exact List.mem_singleton_self _
    · exact internal_of_inIpv4 ⟨_, Or.inl rfl, by decide⟩
  · intro hsafe
    have htrace := traceOf_answeringAll [.inet ⟨198, 126, 0, 1⟩] "http://media.example/a"
    rw [show select false none [.inet ⟨198, 126, 0, 1⟩] = none by decide] at htrace
    have hsome := hsafe.accepted ⟨0, [.inet ⟨198, 126, 0, 1⟩], none⟩
      (htrace ▸ List.mem_singleton_self _) (.inet ⟨198, 126, 0, 1⟩) (List.mem_singleton_self _)
      (publicIpv4_of_inIpv4 ⟨_, Or.inl rfl, by decide⟩)
    exact nomatch hsome

/-- **Safety of a fetch.** A run with the policy against private networks is safe if and only if it
does not meet the two blocks that the filter has mixed up: it lets addresses of `198.18.0.0/15`
pass, native or mapped, and refuses those of `198.126.0.0/15` in their place. -/
theorem fetchUrl_safe_iff (env : Env) (policy : Policy) (url : String)
    (hpolicy : policy.allowPrivateNetwork = false) :
    Safe env policy url ↔ Clear env policy url := by
  have hgood := good_traceOf env policy url
  have hrequest (r : Request) (hr : r ∈ (traceOf env policy url).requests) :
      ∃ answers, env.getaddrinfo r.redirect r.host r.port = .ok answers ∧
        select false none answers = some r.address := by
    rw [← hpolicy]
    exact (hgood.requests r hr).1
  have hlookup (l : Lookup) (hl : l ∈ (traceOf env policy url).lookups) :
      l.pinned = select false none l.answers := by
    rw [← hpolicy]
    exact (hgood.lookups l hl).2
  constructor
  · intro hsafe
    refine ⟨fun r hr answers hanswers a hsel hblock => ?_, fun l hl a ha hblock => ?_⟩
    · obtain ⟨answers', hanswers', hsel'⟩ := hrequest r hr
      obtain rfl := Except.ok.inj (hanswers.symm.trans hanswers')
      obtain rfl := Option.some.inj (hsel.symm.trans hsel')
      exact hsafe.external r hr (internal_of_inIpv4 hblock)
    · have hpub := publicIpv4_of_inIpv4 hblock
      have hrefused := (privateAddress_iff_of_public hpub).mpr hblock
      rw [hsafe.passed l hl a ha hpub] at hrefused
      exact Bool.false_ne_true hrefused
  · intro hclear
    have hpassed (l : Lookup) (hl : l ∈ (traceOf env policy url).lookups) (a : SockAddr)
        (ha : a ∈ tested l.answers) (hpub : PublicIpv4 a) : privateAddress a = false := by
      rw [← Bool.not_eq_true, privateAddress_iff_of_public hpub]
      exact hclear.tested l hl a ha
    refine ⟨fun r hr => ?_, fun r hr => (hgood.requests r hr).2, fun r hr => ?_, hpassed,
      fun l hl a ha hpub => ?_, fun l hl q hq hpub => ?_, hgood.length_le⟩
    · obtain ⟨answers, hanswers, hsel⟩ := hrequest r hr
      exact ⟨answers, hanswers, ((mem_of_select hsel).resolve_left nofun).1⟩
    · obtain ⟨answers, hanswers, hsel⟩ := hrequest r hr
      have hpass := ((mem_of_select hsel).resolve_left nofun).2 rfl
      rw [internal_iff_of_passed hpass]
      exact hclear.selected r hr answers hanswers _ hsel
    · rw [hlookup l hl]
      exact select_isSome (hpassed l hl) ha hpub
    · rw [hlookup l hl]
      exact select_eq_of_mem_tested hq (hpassed l hl _ hq hpub)

/-- An address of the block behind the one that is selected does not matter: it is not looked
at. -/
theorem fetchUrl_safe_sample :
    Safe (.answeringAll [.inet ⟨8, 8, 8, 8⟩, .inet ⟨198, 126, 0, 1⟩]) {} "http://media.example/a" := by
  have htrace := traceOf_answeringAll [.inet ⟨8, 8, 8, 8⟩, .inet ⟨198, 126, 0, 1⟩]
    "http://media.example/a"
  have hsel : select false none [.inet ⟨8, 8, 8, 8⟩, .inet ⟨198, 126, 0, 1⟩] =
      some (.inet ⟨8, 8, 8, 8⟩) := by decide
  have hclear (block : Set Nat) (hblock : (⟨8, 8, 8, 8⟩ : Quad).value ∉ block) :
      ¬(SockAddr.inet ⟨8, 8, 8, 8⟩).InIpv4 block :=
    fun h => hblock ((SockAddr.IsIpv4.inIpv4_iff (Or.inl rfl)).mp h)
  rw [hsel] at htrace
  refine (fetchUrl_safe_iff _ {} _ rfl).mpr ⟨fun r _ answers hanswers a ha => ?_,
    fun l hl a ha => ?_⟩
  · obtain rfl := Except.ok.inj hanswers
    obtain rfl := Option.some.inj (hsel.symm.trans ha)
    exact hclear _ (by decide)
  · rw [htrace] at hl
    obtain rfl := List.mem_singleton.mp hl
    obtain rfl : a = .inet ⟨8, 8, 8, 8⟩ := List.mem_singleton.mp ha
    exact hclear _ (by decide)

end Ninfer.Acquire
