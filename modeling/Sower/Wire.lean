import Sower.Policy

/-!
# Messages between server and garden

The payloads that cross the channel. Identifiers are opaque; text that a
schema only constrains on the wire stays text.
-/

namespace Sower.Wire

open Sower.Policy

/-- Public identifier of a seed, subscription or deployment. -/
abbrev Sid := ℕ

/-- An installable unit. -/
structure Seed where
  /-- Identifier set by the server. -/
  sid : Sid
  /-- Name, usually of a host or a user. -/
  name : String
  /-- One of nixos, home-manager, nix-darwin and service. -/
  seedType : String
  /-- Store path of the closure. -/
  artifact : String
  /-- Tags as pairs of key and value. -/
  tags : List (String × String) := []
  deriving DecidableEq, Repr

/-- One seed of a deployment and how it is to be deployed. -/
structure SeedDeployment where
  seed : Seed
  /-- Subscription whose policy governs the seed. -/
  subscriptionSid : Option Sid := none
  /-- Action the server authorized; nil leaves it to the subscription. -/
  action : Option String := none
  /-- Server-authorized override of the local policy. -/
  override : Bool := false
  deriving DecidableEq, Repr

/-- A deployment as the server hands it to a garden. -/
structure Deployment where
  /-- Identifier of the request that led to it, when there was one. -/
  requestId : Option Sid := none
  sid : Sid
  seedDeployments : List SeedDeployment
  /-- Answer to a request whose work was already done. -/
  skipped : Bool := false
  deriving DecidableEq, Repr

/-- A subscription as the garden stores it. -/
structure Subscription where
  sid : Option Sid := none
  /-- Missing only in the empty subscription that stands for an unknown one. -/
  seedType : Option String := none
  /-- Zone for windows that name none. -/
  timezone : Option String := none
  policy : Rules := .map []
  deriving DecidableEq, Repr

/-- Overall result of a deployment. -/
inductive DeploymentResult where
  | success
  /-- Some seeds succeeded and some did not. -/
  | partialSuccess
  | failure
  deriving DecidableEq, Repr

/-- Terminal result of one seed. -/
inductive SeedResult where
  | success
  | failure
  deriving DecidableEq, Repr

/-- Progress of one seed. -/
inductive SeedStatus where
  | downloading
  | activating
  | completed
  deriving DecidableEq, Repr

end Sower.Wire
