import Sower.Server.Deployments

/-!
# Registration of subscriptions

The transaction that registers the subscriptions a garden has configured. The
server knows a subscription of a garden by its name: a name it already has keeps
its key, a new one gets a fresh key, and rows whose names are no longer
configured are deleted. The reply lists the registered rows in the order of the
request.
-/

namespace Sower.Server

open Sower.Policy Sower.Wire Keyed

/-- A subscription as a garden configures it and as the server answers it. -/
structure ClientSubscription where
  /-- Allocated by the server. -/
  sid : Option Sid := none
  name : String
  seedName : String
  seedType : String
  /-- Keys and values of the rules; equality is their only operation. -/
  rules : List (String × String) := []
  schedule : Option String := none
  timezone : Option String := none
  policy : List Rule := []
  deriving DecidableEq, Repr

/-- Seed name and seed type. -/
def ClientSubscription.seedKey (sub : ClientSubscription) : String × String :=
  (sub.seedName, sub.seedType)

/-- A row as the schema of the clients has it. -/
def Subscription.toClient (row : Subscription) : ClientSubscription where
  sid := some row.id
  name := row.name
  seedName := row.seedName
  seedType := row.seedType
  rules := row.rules
  schedule := row.schedule
  timezone := row.timezone
  policy := row.policy

/-- Why a registration is rolled back. -/
inductive RegisterError where
  /-- The changeset is invalid. -/
  | changeset
  /-- A column or the schema of the reply refuses a text. -/
  | raised
  deriving DecidableEq, Repr

section Transaction

/-- Whether the row is the garden's subscription of the name. -/
def Subscription.hasName (gardenId : ℕ) (name : String) (row : Subscription) : Bool :=
  row.gardenId = gardenId && row.name = name

/-- Upsert one subscription and read it back. What the changeset, the columns and
the schema of the reply refuse is a parameter. -/
def Db.registerClientSubscription (refuses : ClientSubscription → Option RegisterError)
    (gardenId : ℕ) (sub : ClientSubscription) (db : Db) :
    Except RegisterError (Db × ClientSubscription) :=
  match refuses sub with
  | some error => .error error
  | none =>
    let db' := db.registerSubscription gardenId sub.name sub.seedName sub.seedType sub.rules
      sub.schedule sub.timezone sub.policy
    match db'.subscriptions.rows.find? (Subscription.hasName gardenId sub.name) with
    | none => .error .raised
    | some row => .ok (db', row.toClient)

/-- Register the subscriptions in order, up to the first error. -/
def Db.registerAll (refuses : ClientSubscription → Option RegisterError) (gardenId : ℕ) :
    List ClientSubscription → Db → Except RegisterError (Db × List ClientSubscription)
  | [], db => .ok (db, [])
  | sub :: subs, db =>
    match db.registerClientSubscription refuses gardenId sub with
    | .error error => .error error
    | .ok (db₁, registered) =>
      match registerAll refuses gardenId subs db₁ with
      | .error error => .error error
      | .ok (db₂, rest) => .ok (db₂, registered :: rest)

/-- `sync_subscriptions`: one transaction, rolled back at the first error. -/
def Db.syncSubscriptions (refuses : ClientSubscription → Option RegisterError)
    (subscriptions : List ClientSubscription) (gardenId : ℕ) (db : Db) :
    Db × Except RegisterError (List ClientSubscription) :=
  match db.registerAll refuses gardenId subscriptions with
  | .error error => (db, .error error)
  | .ok (db', registered) =>
    (db'.removeSubscriptions gardenId (registered.filterMap ClientSubscription.sid),
      .ok registered)

end Transaction

section Rows

/-- Every row is still there under its key, for the same garden and name. -/
def Db.KeepsRows (db db' : Db) : Prop :=
  ∀ row ∈ db.subscriptions.rows, ∃ row' ∈ db'.subscriptions.rows,
    row'.id = row.id ∧ row'.gardenId = row.gardenId ∧ row'.name = row.name

theorem Db.KeepsRows.refl (db : Db) : db.KeepsRows db := by
  intro row hrow
  exact ⟨row, hrow, rfl, rfl, rfl⟩

theorem Db.KeepsRows.trans {db₁ db₂ db₃ : Db} (h₁ : db₁.KeepsRows db₂)
    (h₂ : db₂.KeepsRows db₃) : db₁.KeepsRows db₃ := by
  intro row hrow
  obtain ⟨row₂, hrow₂, hid₂, hgarden₂, hname₂⟩ := h₁ row hrow
  obtain ⟨row₃, hrow₃, hid₃, hgarden₃, hname₃⟩ := h₂ row₂ hrow₂
  exact ⟨row₃, hrow₃, hid₃.trans hid₂, hgarden₃.trans hgarden₂, hname₃.trans hname₂⟩

variable {db db' : Db} {gardenId : ℕ} {name seedName seedType : String}
  {rules : List (String × String)} {schedule timezone : Option String} {policy : List Rule}

theorem keepsRows_registerSubscription :
    db.KeepsRows
      (db.registerSubscription gardenId name seedName seedType rules schedule timezone policy) := by
  intro row hrow
  unfold Db.registerSubscription
  dsimp only
  split
  · simp only [Table.mem_update]
    refine ⟨_, ⟨row, hrow, rfl⟩, ?_⟩
    split
    · exact ⟨rfl, rfl, rfl⟩
    · exact ⟨rfl, rfl, rfl⟩
  · exact ⟨row, (Table.mem_insert _).mpr (Or.inl hrow), rfl, rfl, rfl⟩

/-- The row of the registered name has the registered seed. -/
theorem seed_of_registerSubscription {row : Subscription}
    (hrow : row ∈ (db.registerSubscription gardenId name seedName seedType rules schedule timezone
      policy).subscriptions.rows)
    (hname : row.hasName gardenId name = true) :
    row.seedName = seedName ∧ row.seedType = seedType := by
  have hfields := hname
  simp only [Subscription.hasName, Bool.and_eq_true, decide_eq_true_eq] at hfields
  unfold Db.registerSubscription at hrow
  dsimp only at hrow
  split at hrow
  · rw [Table.mem_update] at hrow
    obtain ⟨old, -, heq⟩ := hrow
    split at heq
    · rw [← heq]
      exact ⟨rfl, rfl⟩
    · rename_i hold
      rw [heq] at hold
      exact absurd hname hold
  · rename_i hnew
    rcases (Table.mem_insert _).mp hrow with hold | hinserted
    · have hany : db.subscriptions.rows.any (fun s =>
          decide (s.gardenId = gardenId) && decide (s.name = name)) = true :=
        List.any_eq_true.mpr ⟨row, hold, hname⟩
      exact absurd hany hnew
    · rw [hinserted]
      exact ⟨rfl, rfl⟩

/-- The reply to one subscription: its seed, and the key of the row that the server
has for the garden under its name. -/
structure Db.Registered (db : Db) (gardenId : ℕ) (sub reply : ClientSubscription) : Prop where
  seedKey : reply.seedKey = sub.seedKey
  row : ∃ row ∈ db.subscriptions.rows, row.gardenId = gardenId ∧ row.name = sub.name ∧
    reply.sid = some row.id

theorem Db.Registered.keeps {sub reply : ClientSubscription}
    (h : db.Registered gardenId sub reply) (hkeeps : db.KeepsRows db') :
    db'.Registered gardenId sub reply := by
  refine ⟨h.seedKey, ?_⟩
  obtain ⟨row, hrow, hgarden, hname, hsid⟩ := h.row
  obtain ⟨row', hrow', hid', hgarden', hname'⟩ := hkeeps row hrow
  exact ⟨row', hrow', hgarden'.trans hgarden, hname'.trans hname, by rw [hsid, hid']⟩

end Rows

section Replies

variable {refuses : ClientSubscription → Option RegisterError} {db db' : Db} {gardenId : ℕ}

theorem registerClientSubscription_spec {sub reply : ClientSubscription}
    (h : db.registerClientSubscription refuses gardenId sub = .ok (db', reply)) :
    db.KeepsRows db' ∧ db'.Registered gardenId sub reply := by
  unfold Db.registerClientSubscription at h
  cases hrefuses : refuses sub with
  | some error =>
    rw [hrefuses] at h
    cases h
  | none =>
    rw [hrefuses] at h
    dsimp only at h
    split at h
    · cases h
    · rename_i row hfind
      cases h
      have hrow := List.mem_of_find?_eq_some hfind
      have hname : row.hasName gardenId sub.name = true := List.find?_some hfind
      have hseed := seed_of_registerSubscription hrow hname
      simp only [Subscription.hasName, Bool.and_eq_true, decide_eq_true_eq] at hname
      exact ⟨keepsRows_registerSubscription, Prod.ext hseed.1 hseed.2,
        row, hrow, hname.1, hname.2, rfl⟩

/-- Later registrations keep what earlier ones answered. -/
theorem registerAll_spec {subs replies : List ClientSubscription}
    (h : db.registerAll refuses gardenId subs = .ok (db', replies)) :
    db.KeepsRows db' ∧ List.Forall₂ (db'.Registered gardenId) subs replies := by
  induction subs generalizing db replies with
  | nil =>
    cases h
    exact ⟨.refl _, .nil⟩
  | cons sub subs ih =>
    unfold Db.registerAll at h
    split at h
    · cases h
    · rename_i db₁ registered hone
      split at h
      · cases h
      · rename_i db₂ rest hrest
        cases h
        obtain ⟨hkeeps, hreply⟩ := registerClientSubscription_spec hone
        obtain ⟨hkeeps', hreplies⟩ := ih hrest
        exact ⟨hkeeps.trans hkeeps', .cons (hreply.keeps hkeeps') hreplies⟩

/-- The keys in a reply survive the deletion of the rows that are not in it. -/
theorem Db.Registered.remove {sub reply : ClientSubscription} {kept : List ℕ}
    (h : db.Registered gardenId sub reply) (hkept : ∀ id, reply.sid = some id → id ∈ kept) :
    (db.removeSubscriptions gardenId kept).Registered gardenId sub reply := by
  refine ⟨h.seedKey, ?_⟩
  obtain ⟨row, hrow, hgarden, hname, hsid⟩ := h.row
  have hstays : (decide (row.gardenId = gardenId) && decide (row.id ∉ kept)) = false := by
    simp [hkept row.id hsid]
  exact ⟨row, Table.mem_delete.mpr ⟨hrow, hstays⟩, hgarden, hname, hsid⟩

theorem forall₂_remove {subs replies : List ClientSubscription} {kept : List ℕ}
    (h : List.Forall₂ (db.Registered gardenId) subs replies)
    (hkept : ∀ reply ∈ replies, ∀ id, reply.sid = some id → id ∈ kept) :
    List.Forall₂ ((db.removeSubscriptions gardenId kept).Registered gardenId) subs replies := by
  induction h with
  | nil => exact .nil
  | cons hreply _ ih =>
    have htail := ih fun reply hmem => hkept reply (List.mem_cons_of_mem _ hmem)
    exact .cons (hreply.remove (hkept _ List.mem_cons_self)) htail

/-- Every configured subscription is answered, in order, with the key of the row
registered under its name. -/
theorem syncSubscriptions_spec {subs replies : List ClientSubscription}
    (h : db.syncSubscriptions refuses subs gardenId = (db', .ok replies)) :
    List.Forall₂ (db'.Registered gardenId) subs replies := by
  unfold Db.syncSubscriptions at h
  split at h
  · cases h
  · rename_i db₁ registered hall
    cases h
    obtain ⟨-, hreplies⟩ := registerAll_spec hall
    have hkept : ∀ reply ∈ replies, ∀ id, reply.sid = some id →
        id ∈ replies.filterMap ClientSubscription.sid := by
      intro reply hreply id hid
      exact List.mem_filterMap.mpr ⟨reply, hreply, hid⟩
    exact forall₂_remove hreplies hkept

end Replies

section Index

/-- The unique index: a garden has at most one subscription of a name. -/
def Db.Indexed (db : Db) : Prop :=
  ∀ a ∈ db.subscriptions.rows, ∀ b ∈ db.subscriptions.rows,
    a.gardenId = b.gardenId → a.name = b.name → a.id = b.id

variable {refuses : ClientSubscription → Option RegisterError} {db db' : Db} {gardenId : ℕ}

/-- A row after a registration is one of the rows before it up to its contents, or the
new row of a name that the garden did not have. -/
theorem origin_of_registerSubscription {name seedName seedType : String}
    {rules : List (String × String)} {schedule timezone : Option String} {policy : List Rule}
    {row : Subscription}
    (hrow : row ∈ (db.registerSubscription gardenId name seedName seedType rules schedule timezone
      policy).subscriptions.rows) :
    (∃ old ∈ db.subscriptions.rows, old.id = row.id ∧ old.gardenId = row.gardenId ∧
        old.name = row.name) ∨
      row.id = db.subscriptions.next ∧ row.gardenId = gardenId ∧ row.name = name ∧
        ∀ old ∈ db.subscriptions.rows, old.gardenId = gardenId → old.name ≠ name := by
  unfold Db.registerSubscription at hrow
  dsimp only at hrow
  split at hrow
  · rw [Table.mem_update] at hrow
    obtain ⟨old, hold, heq⟩ := hrow
    have hsame : old.id = row.id ∧ old.gardenId = row.gardenId ∧ old.name = row.name := by
      rw [← heq]
      split
      · exact ⟨rfl, rfl, rfl⟩
      · exact ⟨rfl, rfl, rfl⟩
    exact Or.inl ⟨old, hold, hsame⟩
  · rename_i hnew
    rcases (Table.mem_insert _).mp hrow with hold | hinserted
    · exact Or.inl ⟨row, hold, rfl, rfl, rfl⟩
    · rw [hinserted]
      refine Or.inr ⟨rfl, rfl, rfl, ?_⟩
      intro old hold hgarden hname
      have hany : db.subscriptions.rows.any (fun s =>
          decide (s.gardenId = gardenId) && decide (s.name = name)) = true :=
        List.any_eq_true.mpr ⟨old, hold, by simp [hgarden, hname]⟩
      exact hnew hany

theorem Db.Indexed.registerSubscription (h : db.Indexed) {name seedName seedType : String}
    {rules : List (String × String)} {schedule timezone : Option String} {policy : List Rule} :
    (db.registerSubscription gardenId name seedName seedType rules schedule timezone
      policy).Indexed := by
  intro a ha b hb hgarden hname
  rcases origin_of_registerSubscription ha with
    ⟨oldA, holdA, hidA, hgardenA, hnameA⟩ | ⟨hidA, hgardenA, hnameA, hfreshA⟩
  · rcases origin_of_registerSubscription hb with
      ⟨oldB, holdB, hidB, hgardenB, hnameB⟩ | ⟨hidB, hgardenB, hnameB, hfreshB⟩
    · rw [← hidA, ← hidB]
      exact h oldA holdA oldB holdB (by rw [hgardenA, hgardenB, hgarden])
        (by rw [hnameA, hnameB, hname])
    · have hold : oldA.name = name := by rw [hnameA, hname, hnameB]
      exact absurd hold (hfreshB oldA holdA (by rw [hgardenA, hgarden, hgardenB]))
  · rcases origin_of_registerSubscription hb with
      ⟨oldB, holdB, hidB, hgardenB, hnameB⟩ | ⟨hidB, hgardenB, hnameB, hfreshB⟩
    · have hold : oldB.name = name := by rw [hnameB, ← hname, hnameA]
      exact absurd hold (hfreshA oldB holdB (by rw [hgardenB, ← hgarden, hgardenA]))
    · rw [hidA, hidB]

theorem Db.Indexed.registerAll (h : db.Indexed) {subs replies : List ClientSubscription}
    (hall : db.registerAll refuses gardenId subs = .ok (db', replies)) : db'.Indexed := by
  induction subs generalizing db replies with
  | nil =>
    cases hall
    exact h
  | cons sub subs ih =>
    unfold Db.registerAll at hall
    split at hall
    · cases hall
    · rename_i db₁ registered hone
      split at hall
      · cases hall
      · rename_i db₂ rest hrest
        cases hall
        unfold Db.registerClientSubscription at hone
        split at hone
        · cases hone
        · dsimp only at hone
          split at hone
          · cases hone
          · cases hone
            exact ih h.registerSubscription hrest

/-- The transaction keeps the index, so a garden's row for a name is one row. -/
theorem Db.Indexed.syncSubscriptions (h : db.Indexed) (subs : List ClientSubscription) :
    (db.syncSubscriptions refuses subs gardenId).1.Indexed := by
  unfold Db.syncSubscriptions
  split
  · exact h
  · rename_i db₁ registered hall
    have hindexed := h.registerAll hall
    intro a ha b hb
    exact hindexed a (Table.mem_delete.mp ha).1 b (Table.mem_delete.mp hb).1

end Index

end Sower.Server
