import Sower.Calendar

/-!
# Reauthentication of the garden

The garden keeps its token in its storage and asks for a new one when a timer runs out. The
timer is set when the lobby is joined, and again whenever a new token has come; nothing takes
an earlier one back. When it is set, it is set by the token's whole lifetime.
-/

namespace Sower.Garden.Reauthentication

open Sower.Calendar

section Storage

/-- The keys that come with an access token. -/
structure Token where
  /-- None if it is no text. -/
  accessToken : Option String
  /-- Seconds. -/
  tokenIssuedAt : ℤ
  /-- Seconds; none if it is no integer. -/
  expiresIn : Option ℤ
  deriving DecidableEq, Repr

/-- `oauth_credentials`. -/
structure Credentials where
  clientId : Option String
  token : Option Token := none
  deriving DecidableEq, Repr

/-- What the garden stores of its identity. -/
structure Storage where
  gardenSid : Option String := none
  oauthCredentials : Option Credentials := none
  privateKeyPem : Option String := none
  credentialsRejectedAt : Option DateTime := none
  deriving DecidableEq, Repr

/-- Client and key, if both are there. -/
def Storage.keys (storage : Storage) : Option (String × String) :=
  match storage.oauthCredentials, storage.privateKeyPem with
  | some ⟨some clientId, _⟩, some privateKeyPem => some (clientId, privateKeyPem)
  | _, _ => none

/-- The stored token. -/
def Storage.token (storage : Storage) : Option Token := storage.oauthCredentials.bind (·.token)

/-- Answer of the server to `request_token`. -/
inductive TokenReply where
  | ok (accessToken : Option String) (expiresIn : Option ℤ)
  /-- Whether the server does not know the client. -/
  | error (unknownClient : Bool)
  deriving DecidableEq, Repr

/-- What a connection attempt reads. -/
structure Reading where
  /-- Clock, in seconds, when the token's age is checked. -/
  checked : ℤ
  /-- Clock, in seconds, when a new token has come. -/
  issued : ℤ
  utcNow : DateTime
  tokenReply : TokenReply
  /-- Identifier of the garden and its client, if the registration succeeds. -/
  registration : Option (Option String × Option String)
  /-- A new key pair's private key. -/
  generated : String
  deriving DecidableEq, Repr

/-- Why no token is found. -/
inductive ConnectError where
  | reauthenticationFailed (unknownClient : Bool)
  | noCredentials
  | awaitingOperator
  | tokenRequestFailed
  | registrationFailed
  deriving DecidableEq, Repr

/-- The header with the token. -/
def borutaToken (accessToken : Option String) : String := "boruta:" ++ accessToken.getD ""

/-- `token_expired?`. -/
def tokenExpired (now : ℤ) (token : Token) : Bool :=
  match token.expiresIn with
  | some expiresIn => token.tokenIssuedAt + expiresIn ≤ now
  | none => true

/-- `try_reauthenticate`. -/
def tryReauthenticate (reading : Reading) (storage : Storage) :
    Storage × Except ConnectError String :=
  match storage.oauthCredentials, storage.keys with
  | some credentials, some _ =>
    match reading.tokenReply with
    | .ok accessToken expiresIn =>
      ({ storage with
          oauthCredentials :=
            some { credentials with token := some ⟨accessToken, reading.issued, expiresIn⟩ }
          credentialsRejectedAt := none },
        .ok (borutaToken accessToken))
    | .error unknownClient => (storage, .error (.reauthenticationFailed unknownClient))
  | _, _ => (storage, .error .noCredentials)

/-- `await_operator`. -/
def awaitOperator (reading : Reading) (storage : Storage) : Storage :=
  match storage.credentialsRejectedAt with
  | none => { storage with credentialsRejectedAt := some reading.utcNow }
  | some _ => storage

/-- `try_reauthenticate_or_await_operator`. -/
def tryReauthenticateOrAwaitOperator (reading : Reading) (storage : Storage) :
    Storage × Except ConnectError String :=
  match tryReauthenticate reading storage with
  | (storage', .error (.reauthenticationFailed true)) =>
    (awaitOperator reading storage', .error .awaitingOperator)
  | result => result

/-- `try_http_registration` with an identity that need not be the stored one. -/
def tryHttpRegistration (reading : Reading) (stored storage : Storage) :
    Storage × Except ConnectError String :=
  let (stored, storage) :=
    match storage.privateKeyPem with
    | some _ => (stored, storage)
    | none =>
      ({ storage with privateKeyPem := some reading.generated },
        { storage with privateKeyPem := some reading.generated })
  match reading.registration with
  | none => (stored, .error .registrationFailed)
  | some (gardenSid, clientId) =>
    let registered := { storage with gardenSid, oauthCredentials := some { clientId } }
    match reading.tokenReply with
    | .ok accessToken expiresIn =>
      ({ registered with
          oauthCredentials := some ⟨clientId, some ⟨accessToken, reading.issued, expiresIn⟩⟩
          credentialsRejectedAt := none },
        .ok (borutaToken accessToken))
    | .error _ => (registered, .error .tokenRequestFailed)

/-- `resolve_connect_token`. -/
def resolveConnectToken (reading : Reading) (storage : Storage) :
    Storage × Except ConnectError String :=
  match storage.token, storage.privateKeyPem with
  | some ⟨some accessToken, tokenIssuedAt, expiresIn⟩, some _ =>
    if tokenExpired reading.checked ⟨some accessToken, tokenIssuedAt, expiresIn⟩ then
      tryReauthenticateOrAwaitOperator reading storage
    else (storage, .ok (borutaToken (some accessToken)))
  | _, _ =>
    match storage.keys with
    | some _ => tryReauthenticateOrAwaitOperator reading storage
    | none => tryHttpRegistration reading storage storage

/-- `invalidate_cached_token`. -/
def invalidateCachedToken (storage : Storage) : Storage :=
  { storage with oauthCredentials := storage.oauthCredentials.map ({ · with token := none }) }

end Storage

section Client

/-- The socket process as far as its token is concerned. -/
structure Client where
  storage : Storage
  /-- When the pending timers run out, in milliseconds. -/
  pending : List ℤ := []
  deriving DecidableEq, Repr

/-- `trunc(expires_in * 0.8 * 1000)`, for the numbers that a timer accepts. -/
def reauthMs (expiresIn : ℤ) : ℤ := expiresIn * 800

/-- `schedule_reauthentication`; a timer in the past ends the process. -/
def Client.scheduleReauthentication (client : Client) (now : ℤ) (token : Token) : Option Client :=
  match token.expiresIn with
  | some expiresIn =>
    if reauthMs expiresIn < 0 then none
    else some { client with pending := client.pending ++ [now + reauthMs expiresIn] }
  | none => some client

/-- What happens to the process. -/
inductive Action where
  /-- An attempt to connect, or to connect again. -/
  | connect (reading : Reading)
  /-- Whether the server rejected the token. -/
  | disconnect (rejected : Bool)
  /-- The lobby is joined. -/
  | join (now : ℤ)
  /-- A timer has run out. The clock is read when the answer is there, and goes on to when
  the next timer is set. -/
  | reauthenticate (due : ℤ) (reply : TokenReply) (issued now : ℤ)
  /-- An operator asks for a new identity. -/
  | reregister (reading : Reading)
  deriving DecidableEq, Repr

/-- One callback; nothing when it is not called, or ends the process. -/
def Client.step (client : Client) : Action → Option Client
  | .connect reading => some { client with storage := (resolveConnectToken reading client.storage).1 }
  | .disconnect rejected =>
    some (if rejected then { client with storage := invalidateCachedToken client.storage } else client)
  | .join now =>
    match client.storage.token with
    | some token => client.scheduleReauthentication now token
    | none => some client
  | .reauthenticate due reply issued now =>
    if due ∈ client.pending ∧ due ≤ issued then
      let client := { client with pending := client.pending.erase due }
      match client.storage.oauthCredentials, client.storage.keys with
      | some credentials, some _ =>
        match reply with
        | .ok accessToken expiresIn =>
          let token : Token := ⟨accessToken, issued / 1000, expiresIn⟩
          { client with
            storage := { client.storage with
              oauthCredentials := some { credentials with token := some token } }
          }.scheduleReauthentication now token
        | .error _ => some { client with pending := client.pending ++ [now + 60000] }
      | _, _ => some client
    else none
  | .reregister reading =>
    let cleared := { client.storage with
      gardenSid := none, oauthCredentials := none, credentialsRejectedAt := none }
    some { client with storage := (tryHttpRegistration reading client.storage cleared).1 }

/-- A run of the process. -/
def Client.run (client : Client) : List Action → Option Client
  | [] => some client
  | action :: actions => (client.step action).bind fun next => next.run actions

/-- The process when it starts. -/
def Client.start (storage : Storage) : Client := { storage }

end Client

section Timers

/-- When the token expires, in milliseconds. -/
def Token.expiry (token : Token) : Option ℤ :=
  token.expiresIn.map fun expiresIn => (token.tokenIssuedAt + expiresIn) * 1000

/-- A timer runs out before the stored token expires. A token whose lifetime is no integer
counts as expired. -/
def Client.FiresInTime (client : Client) : Prop :=
  ∀ token, client.storage.token = some token →
    ∃ due ∈ client.pending, ∃ expiry, token.expiry = some expiry ∧ due < expiry

/-- The lobby is joined, or a new token has come for the timer. -/
def Action.sets (client : Client) : Action → Prop
  | .join _ => True
  | .reauthenticate _ (.ok _ _) _ _ => client.storage.keys.isSome
  | _ => False

/-- One timer at most is pending after the step, and it fires in time if the step sets it. -/
structure Timely (client : Client) (action : Action) (next : Client) : Prop where
  one : next.pending.length ≤ 1
  inTime : action.sets client → next.FiresInTime

/-- The token is younger than a fifth of its lifetime. -/
def Token.YoungAt (token : Token) (now : ℤ) : Prop :=
  ∃ expiresIn, token.expiresIn = some expiresIn ∧ now - token.tokenIssuedAt * 1000 < expiresIn * 200

/-- What a step needs: a join finds no timer and, like a new token that has come, a token
that is young. -/
def Client.Admits (client : Client) : Action → Prop
  | .join now => ∀ token, client.storage.token = some token → client.pending = [] ∧ token.YoungAt now
  | .reauthenticate _ (.ok accessToken expiresIn) issued now =>
    client.storage.keys.isSome → Token.YoungAt ⟨accessToken, issued / 1000, expiresIn⟩ now
  | _ => True

end Timers

section Steps

variable {client next : Client} {action : Action} {token : Token} {now : ℤ}

/-- A timer set by a young token, and only by one, fires in time. -/
theorem youngAt_iff : token.YoungAt now ↔ ∃ expiresIn expiry, token.expiresIn = some expiresIn ∧
    token.expiry = some expiry ∧ now + reauthMs expiresIn < expiry := by
  unfold Token.YoungAt Token.expiry reauthMs
  cases token.expiresIn with
  | none => simp
  | some lifetime =>
    constructor
    · intro ⟨expiresIn, heq, hlt⟩
      cases heq
      have hbefore : now + lifetime * 800 < (token.tokenIssuedAt + lifetime) * 1000 := by omega
      exact ⟨lifetime, _, rfl, rfl, hbefore⟩
    · intro ⟨expiresIn, expiry, heq, hexpiry, hlt⟩
      cases heq
      cases hexpiry
      have hbefore : now + lifetime * 800 < (token.tokenIssuedAt + lifetime) * 1000 := hlt
      exact ⟨lifetime, rfl, by omega⟩

/-- What setting a timer does. -/
theorem schedule_cases (h : client.scheduleReauthentication now token = some next) :
    (∃ expiresIn, token.expiresIn = some expiresIn ∧
      next = { client with pending := client.pending ++ [now + reauthMs expiresIn] }) ∨
    (token.expiresIn = none ∧ next = client) := by
  unfold Client.scheduleReauthentication at h
  split at h
  · rename_i expiresIn hlifetime
    split at h
    · cases h
    · cases h
      exact Or.inl ⟨expiresIn, hlifetime, rfl⟩
  · rename_i hlifetime
    cases h
    exact Or.inr ⟨hlifetime, rfl⟩

/-- Setting a timer for the stored token: it is the only one and in time exactly if there
was none and the token is young. -/
theorem schedule_timely (hone : client.pending.length ≤ 1) (htoken : client.storage.token = some token)
    (h : client.scheduleReauthentication now token = some next) :
    (next.pending.length ≤ 1 ∧ next.FiresInTime) ↔ client.pending = [] ∧ token.YoungAt now := by
  rw [youngAt_iff]
  cases schedule_cases h with
  | inl hset =>
    obtain ⟨expiresIn, hlifetime, rfl⟩ := hset
    have hexpiry : token.expiry = some ((token.tokenIssuedAt + expiresIn) * 1000) := by
      unfold Token.expiry
      rw [hlifetime, Option.map_some]
    have hlength : (client.pending ++ [now + reauthMs expiresIn]).length ≤ 1 ↔
        client.pending = [] := by
      rw [List.length_append, List.length_singleton, ← List.length_eq_zero_iff]
      omega
    constructor
    · intro ⟨hlen, hfires⟩
      have hempty := hlength.mp hlen
      obtain ⟨due, hdue, expiry, hexpiry', hlt⟩ := hfires token htoken
      rw [hempty, List.nil_append, List.mem_singleton] at hdue
      exact ⟨hempty, expiresIn, expiry, hlifetime, hexpiry', hdue ▸ hlt⟩
    · intro ⟨hempty, lifetime, expiry, hlifetime', hexpiry', hlt⟩
      refine ⟨hlength.mpr hempty, fun token' htoken' => ?_⟩
      have hsame : token = token' := Option.some.inj (htoken.symm.trans htoken')
      have hequal : expiresIn = lifetime := Option.some.inj (hlifetime.symm.trans hlifetime')
      rw [← hsame, hequal]
      exact ⟨_, List.mem_append_right _ (List.mem_singleton_self _), expiry, hexpiry', hlt⟩
  | inr hnone =>
    obtain ⟨hlifetime, rfl⟩ := hnone
    constructor
    · intro ⟨_, hfires⟩
      obtain ⟨_, _, expiry, hexpiry, _⟩ := hfires token htoken
      unfold Token.expiry at hexpiry
      rw [hlifetime] at hexpiry
      cases hexpiry
    · intro ⟨_, expiresIn, _, hlifetime', _⟩
      rw [hlifetime] at hlifetime'
      cases hlifetime'

/-- When one timer is pending and it has run out, no other one is. -/
theorem erase_eq_nil {pending : List ℤ} {due : ℤ} (hone : pending.length ≤ 1) (h : due ∈ pending) :
    pending.erase due = [] := by
  have hlength := List.length_erase_of_mem h
  exact List.length_eq_zero_iff.mp (by omega)

theorem credentials_of_keys {storage : Storage} {keys : String × String}
    (h : storage.keys = some keys) :
    ∃ credentials, storage.oauthCredentials = some credentials := by
  unfold Storage.keys at h
  split at h
  · rename_i hcredentials _
    exact ⟨_, hcredentials⟩
  · cases h

/-- A step that starts with one timer at most keeps the law exactly if it is admitted. -/
theorem step_timely (hone : client.pending.length ≤ 1) (h : client.step action = some next) :
    Timely client action next ↔ client.Admits action := by
  cases action with
  | connect reading =>
    cases h
    exact ⟨fun _ => trivial, fun _ => ⟨hone, fun hsets => nomatch hsets⟩⟩
  | disconnect rejected =>
    cases h
    refine ⟨fun _ => trivial, fun _ => ⟨?_, fun hsets => nomatch hsets⟩⟩
    split
    · exact hone
    · exact hone
  | reregister reading =>
    cases h
    exact ⟨fun _ => trivial, fun _ => ⟨hone, fun hsets => nomatch hsets⟩⟩
  | join now =>
    unfold Client.step at h
    cases htoken : client.storage.token with
    | none =>
      simp only [htoken, Option.some.injEq] at h
      cases h
      constructor
      · intro _ token htoken'
        rw [htoken] at htoken'
        cases htoken'
      · intro _
        refine ⟨hone, fun _ token htoken' => ?_⟩
        rw [htoken] at htoken'
        cases htoken'
    | some token =>
      simp only [htoken] at h
      have hset := schedule_timely hone htoken h
      constructor
      · intro htimely token' htoken'
        have hsame : token = token' := Option.some.inj (htoken.symm.trans htoken')
        exact hsame ▸ hset.mp ⟨htimely.one, htimely.inTime trivial⟩
      · intro hadmits
        obtain ⟨hlen, hfires⟩ := hset.mpr (hadmits token htoken)
        exact ⟨hlen, fun _ => hfires⟩
  | reauthenticate due reply issued now =>
    simp only [Client.step, Option.ite_none_right_eq_some] at h
    obtain ⟨⟨hmem, -⟩, h⟩ := h
    have hempty := erase_eq_nil hone hmem
    cases hkeys : client.storage.keys with
    | none =>
      have hunset : ¬ Action.sets client (.reauthenticate due reply issued now) := by
        cases reply with
        | ok accessToken expiresIn => simp [Action.sets, hkeys]
        | error unknownClient => exact id
      have hadmits : client.Admits (.reauthenticate due reply issued now) := by
        cases reply with
        | ok accessToken expiresIn => simp [Client.Admits, hkeys]
        | error unknownClient => trivial
      have hnext : next.pending = [] := by
        split at h
        · rename_i hsome
          rw [hkeys] at hsome
          cases hsome
        · cases h
          exact hempty
      refine ⟨fun _ => hadmits, fun _ => ⟨?_, fun hsets => absurd hsets hunset⟩⟩
      rw [hnext]
      exact Nat.zero_le _
    | some keys =>
      obtain ⟨credentials, hcredentials⟩ := credentials_of_keys hkeys
      simp only [hkeys, hcredentials] at h
      cases reply with
      | error unknownClient =>
        cases h
        refine ⟨fun _ => trivial, fun _ => ⟨?_, fun hsets => nomatch hsets⟩⟩
        rw [hempty]
        exact Nat.le_refl 1
      | ok accessToken expiresIn =>
        have hkeys' : client.storage.keys.isSome := by rw [hkeys]; rfl
        have hlen : (client.pending.erase due).length ≤ 1 := by
          rw [hempty]
          exact Nat.zero_le _
        have hset := schedule_timely hlen rfl h
        constructor
        · intro htimely _
          exact (hset.mp ⟨htimely.one, htimely.inTime hkeys'⟩).2
        · intro hadmits
          obtain ⟨hlen, hfires⟩ := hset.mpr ⟨hempty, hadmits hkeys'⟩
          exact ⟨hlen, fun _ => hfires⟩

end Steps

section Runs

variable {client next : Client} {action : Action} {actions : List Action}

/-- Every step of the run is of the kind. -/
def Client.EveryStep (kind : Client → Action → Client → Prop) (client : Client)
    (actions : List Action) : Prop :=
  ∀ front action back, actions = front ++ action :: back →
    ∀ state next, client.run front = some state → state.step action = some next →
      kind state action next

theorem everyStep_cons {kind : Client → Action → Client → Prop}
    (hstep : client.step action = some next) :
    client.EveryStep kind (action :: actions) ↔
      kind client action next ∧ next.EveryStep kind actions := by
  constructor
  · intro h
    refine ⟨h [] action actions rfl client next rfl hstep, ?_⟩
    intro front later back hsplit state after hrun hlater
    refine h (action :: front) later back (by rw [hsplit]; rfl) state after ?_ hlater
    rw [Client.run, hstep]
    exact hrun
  · intro ⟨hfirst, hrest⟩ front later back hsplit state after hrun hlater
    cases front with
    | nil =>
      cases hsplit
      cases hrun
      rw [hstep] at hlater
      cases hlater
      exact hfirst
    | cons first front =>
      cases hsplit
      rw [Client.run, hstep] at hrun
      exact hrest front later back rfl state after hrun hlater

/-- A run whose first step ends the process has no steps. -/
theorem everyStep_of_none {kind : Client → Action → Client → Prop}
    (hstep : client.step action = none) : client.EveryStep kind (action :: actions) := by
  intro front later back hsplit state after hrun hlater
  cases front with
  | nil =>
    cases hsplit
    cases hrun
    rw [hstep] at hlater
    cases hlater
  | cons first front =>
    cases hsplit
    rw [Client.run, hstep] at hrun
    cases hrun

theorem run_timely (hone : client.pending.length ≤ 1) :
    client.EveryStep Timely actions ↔
      client.EveryStep (fun client action _ => client.Admits action) actions := by
  induction actions generalizing client with
  | nil =>
    have hnone (kind : Client → Action → Client → Prop) : client.EveryStep kind [] := by
      intro front later back hsplit
      cases front with
      | nil => cases hsplit
      | cons first front => cases hsplit
    exact ⟨fun _ => hnone _, fun _ => hnone _⟩
  | cons action actions ih =>
    cases hstep : client.step action with
    | none => exact ⟨fun _ => everyStep_of_none hstep, fun _ => everyStep_of_none hstep⟩
    | some next =>
      rw [everyStep_cons hstep, everyStep_cons hstep]
      have hfirst := step_timely hone hstep
      constructor
      · intro ⟨htimely, hrest⟩
        exact ⟨hfirst.mp htimely, (ih htimely.one).mp hrest⟩
      · intro ⟨hadmits, hrest⟩
        have htimely := hfirst.mpr hadmits
        exact ⟨htimely, (ih htimely.one).mpr hrest⟩

/-- In a run of the process one timer at most is pending and it fires in time, exactly if no
join finds a timer, and every token for which one is set is young. -/
theorem reauthentication_timely_iff (storage : Storage) (actions : List Action) :
    (Client.start storage).EveryStep Timely actions ↔
      (Client.start storage).EveryStep (fun client action _ => client.Admits action) actions :=
  run_timely (Nat.zero_le 1)

/-- A garden with a token of an hour. -/
def hourStorage : Storage where
  gardenSid := some "garden_1"
  oauthCredentials := some ⟨some "client", some ⟨some "token", 0, some 3600⟩⟩
  privateKeyPem := some "key"

/-- It connects, loses the connection and connects again while its token is young. -/
theorem rejoin_not_timely : ¬ (Client.start hourStorage).EveryStep Timely
    [.join 1000, .disconnect false, .connect ⟨5, 5, 5, .error false, none, "new"⟩, .join 6000] := by
  intro h
  have hjoin := h [.join 1000, .disconnect false, .connect ⟨5, 5, 5, .error false, none, "new"⟩]
    (.join 6000) [] rfl _ _ rfl rfl
  have htwo : ¬ [(2881000 : ℤ), 2886000].length ≤ 1 := by decide
  exact htwo hjoin.one

end Runs

end Sower.Garden.Reauthentication
