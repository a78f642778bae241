import Sower.Server.Registration

/-!
# What a synchronisation of subscriptions leaves

A garden submits all its subscriptions at once. If each of them is accepted, the garden's
rows are afterwards the submitted subscriptions, by name, the last one of a name deciding;
rows of known names keep their keys. If one is refused, the table stays as it was.
-/

namespace Sower.Server

open Sower.Policy Sower.Wire Keyed

section Contents

/-- What a garden configures of a subscription, all but the key. -/
def ClientSubscription.content (sub : ClientSubscription) : ClientSubscription :=
  { sub with sid := none }

/-- The content of a row. -/
def Subscription.content (row : Subscription) : ClientSubscription := row.toClient.content

/-- The garden's row of a name. -/
def Db.named (db : Db) (gardenId : ℕ) (name : String) : Option Subscription :=
  db.subscriptions.rows.find? (Subscription.hasName gardenId name)

variable {gardenId : ℕ} {name : String} {row : Subscription}

end Contents

section Registering

variable {db db' : Db} {gardenId : ℕ} {name seedName seedType : String}
  {rules : List (String × String)} {schedule timezone : Option String} {policy : List Rule}
  {row : Subscription}

end Registering

section Runs

variable {refuses : ClientSubscription → Option RegisterError} {db db' : Db} {gardenId : ℕ}

end Runs

section Synchronisation

variable {refuses : ClientSubscription → Option RegisterError} {db db₁ : Db} {gardenId : ℕ}
  {subs answered : List ClientSubscription}

/-- A garden with one subscription. -/
def configured : Db :=
  Db.registerSubscription { clock := fun _ => 0 } 1 "web" "web" "nixos" [] none none []

/-- It is configured anew, and another one twice. -/
def submitted : List ClientSubscription :=
  [{ name := "db", seedName := "db", seedType := "nixos" },
    { name := "web", seedName := "web", seedType := "nixos", rules := [("branch", "main")] },
    { name := "db", seedName := "store", seedType := "nixos" }]

end Synchronisation

end Sower.Server
