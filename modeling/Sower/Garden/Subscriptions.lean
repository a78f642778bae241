import Mathlib.Data.List.AList
import Mathlib.Data.List.Forall2
import Sower.Server.Registration

/-!
# Merging the registered subscriptions

The garden pushes the subscriptions it has configured and merges the keys of the
reply into them. The server registers by name; the garden joins the reply by seed
name and seed type, and of two replies with one pair the later one wins.
-/

namespace Sower.Garden

open Sower.Wire Sower.Server Keyed

section Merge

/-- The map from seed name and type to the key; later replies overwrite earlier ones. -/
def sidMap (registered : List ClientSubscription) : AList fun _ : String × String => Option Sid :=
  registered.foldl (fun map sub => map.insert sub.seedKey sub.sid) ∅

/-- `merge_subscriptions`. -/
def mergeSubscriptions (configSubscriptions registered : List ClientSubscription) :
    List ClientSubscription :=
  configSubscriptions.filterMap fun sub =>
    ((sidMap registered).lookup sub.seedKey).join.map fun sid => { sub with sid := some sid }

/-- Scheduled subscriptions are evaluated in the garden's timezone. -/
def localize (timezone : String) (sub : ClientSubscription) : ClientSubscription :=
  if sub.schedule.isSome then { sub with timezone := some timezone } else sub

/-- What the garden stores once its push is answered; an error leaves it nothing. -/
def storedSubscriptions (configSubscriptions : List ClientSubscription)
    (reply : Except RegisterError (List ClientSubscription)) : List ClientSubscription :=
  match reply with
  | .ok registered => mergeSubscriptions configSubscriptions registered
  | .error _ => []

@[simp] theorem localize_name (timezone : String) (sub : ClientSubscription) :
    (localize timezone sub).name = sub.name := by
  unfold localize
  split <;> rfl

@[simp] theorem localize_seedKey (timezone : String) (sub : ClientSubscription) :
    (localize timezone sub).seedKey = sub.seedKey := by
  unfold localize
  split <;> rfl

/-- The last reply decides. -/
theorem lookup_sidMap_append (registered : List ClientSubscription) (sub : ClientSubscription)
    (key : String × String) :
    (sidMap (registered ++ [sub])).lookup key =
      if key = sub.seedKey then some sub.sid else (sidMap registered).lookup key := by
  unfold sidMap
  rw [List.foldl_append, List.foldl_cons, List.foldl_nil]
  split
  · rename_i hkey
    rw [hkey, AList.lookup_insert]
  · rename_i hkey
    rw [AList.lookup_insert_ne hkey]

/-- What the map holds comes from a reply. -/
theorem exists_of_lookup_sidMap {registered : List ClientSubscription} {key : String × String}
    {sid : Option Sid} (h : (sidMap registered).lookup key = some sid) :
    ∃ reply ∈ registered, reply.seedKey = key ∧ reply.sid = sid := by
  induction registered using List.reverseRecOn with
  | nil =>
    rw [sidMap, List.foldl_nil, AList.lookup_empty] at h
    cases h
  | append_singleton registered last ih =>
    rw [lookup_sidMap_append] at h
    split at h
    · rename_i hkey
      cases h
      exact ⟨last, by simp, hkey.symm, rfl⟩
    · obtain ⟨reply, hreply, hfields⟩ := ih h
      exact ⟨reply, List.mem_append_left _ hreply, hfields⟩

/-- Every reply puts its pair into the map. -/
theorem exists_lookup_sidMap {registered : List ClientSubscription} {reply : ClientSubscription}
    (hreply : reply ∈ registered) : ∃ sid, (sidMap registered).lookup reply.seedKey = some sid := by
  induction registered using List.reverseRecOn with
  | nil => cases hreply
  | append_singleton registered last ih =>
    rw [lookup_sidMap_append]
    split
    · exact ⟨last.sid, rfl⟩
    · rename_i hne
      rcases List.mem_append.mp hreply with hearlier | hlast
      · exact ih hearlier
      · exact absurd (congrArg ClientSubscription.seedKey (List.mem_singleton.mp hlast)) hne

/-- Where no other reply has its pair, a reply is found under it. -/
theorem lookup_sidMap_of_nodup {registered : List ClientSubscription}
    (hnodup : (registered.map ClientSubscription.seedKey).Nodup) {reply : ClientSubscription}
    (hreply : reply ∈ registered) :
    (sidMap registered).lookup reply.seedKey = some reply.sid := by
  induction registered using List.reverseRecOn with
  | nil => cases hreply
  | append_singleton registered last ih =>
    rw [List.map_append, List.nodup_append] at hnodup
    obtain ⟨hinit, -, hdisjoint⟩ := hnodup
    rw [lookup_sidMap_append]
    rcases List.mem_append.mp hreply with hearlier | hlast
    · have hne : reply.seedKey ≠ last.seedKey :=
        hdisjoint _ (List.mem_map_of_mem hearlier) _ (by simp)
      rw [if_neg hne]
      exact ih hinit hearlier
    · rw [List.mem_singleton.mp hlast, if_pos rfl]

theorem mem_mergeSubscriptions {config registered : List ClientSubscription}
    {merged : ClientSubscription} :
    merged ∈ mergeSubscriptions config registered ↔
      ∃ sub ∈ config, ∃ sid, (sidMap registered).lookup sub.seedKey = some (some sid) ∧
        { sub with sid := some sid } = merged := by
  unfold mergeSubscriptions
  rw [List.mem_filterMap]
  constructor
  · intro h
    obtain ⟨sub, hsub, hmerged⟩ := h
    obtain ⟨sid, hsid, heq⟩ := Option.map_eq_some_iff.mp hmerged
    exact ⟨sub, hsub, sid, Option.join_eq_some_iff.mp hsid, heq⟩
  · intro h
    obtain ⟨sub, hsub, sid, hlookup, heq⟩ := h
    exact ⟨sub, hsub, by rw [hlookup, Option.join_some, Option.map_some, heq]⟩

end Merge

section Identity

/-- Each merged subscription carries the key of the row that the server has for the
garden under its name, and distinct names carry distinct keys. -/
structure KeepsIdentity (db : Db) (gardenId : ℕ) (merged : List ClientSubscription) : Prop where
  registered : ∀ sub ∈ merged, ∃ row ∈ db.subscriptions.rows,
    row.gardenId = gardenId ∧ row.name = sub.name ∧ sub.sid = some row.id
  distinct : ∀ a ∈ merged, ∀ b ∈ merged, a.name ≠ b.name → a.sid ≠ b.sid

variable {refuses : ClientSubscription → Option RegisterError} {db db' : Db} {gardenId : ℕ}
  {config registered : List ClientSubscription}

/-- A key belongs to one row, so it is registered under one name. -/
theorem KeepsIdentity.of_registered {merged : List ClientSubscription}
    (h : ∀ sub ∈ merged, ∃ row ∈ db.subscriptions.rows,
      row.gardenId = gardenId ∧ row.name = sub.name ∧ sub.sid = some row.id) :
    KeepsIdentity db gardenId merged where
  registered := h
  distinct a ha b hb hne hsame := by
    obtain ⟨rowA, hrowA, -, hnameA, hsidA⟩ := h a ha
    obtain ⟨rowB, hrowB, -, hnameB, hsidB⟩ := h b hb
    have hid : rowA.id = rowB.id := Option.some.inj (hsidA.symm.trans (hsame.trans hsidB))
    have hrow : rowA = rowB := db.subscriptions.eq_of_key hrowA hrowB hid
    have hname : a.name = b.name := by
      rw [← hnameA, ← hnameB, hrow]
    exact hne hname

/-- The replies have the pairs of the configured subscriptions, in order. -/
theorem seedKeys_of_registered (h : List.Forall₂ (db.Registered gardenId) config registered) :
    registered.map ClientSubscription.seedKey = config.map ClientSubscription.seedKey := by
  induction h with
  | nil => rfl
  | cons hreply _ ih => rw [List.map_cons, List.map_cons, hreply.seedKey, ih]

/-- Every reply answers a configured subscription. -/
theorem exists_reply (h : List.Forall₂ (db.Registered gardenId) config registered)
    {sub : ClientSubscription} (hsub : sub ∈ config) :
    ∃ reply ∈ registered, db.Registered gardenId sub reply := by
  induction h with
  | nil => cases hsub
  | @cons head reply _ _ hreply _ ih =>
    rcases List.mem_cons.mp hsub with hhead | htail
    · rw [hhead]
      exact ⟨reply, List.mem_cons_self, hreply⟩
    · obtain ⟨reply', hmem, hanswers⟩ := ih htail
      exact ⟨reply', List.mem_cons_of_mem _ hmem, hanswers⟩

/-- Without a repeated pair the join by pair is the join by name. -/
theorem keepsIdentity_of_nodup (h : List.Forall₂ (db.Registered gardenId) config registered)
    (hnodup : (config.map ClientSubscription.seedKey).Nodup) :
    KeepsIdentity db gardenId (mergeSubscriptions config registered) := by
  refine .of_registered fun merged hmerged => ?_
  obtain ⟨sub, hsub, sid, hlookup, heq⟩ := mem_mergeSubscriptions.mp hmerged
  obtain ⟨reply, hreply, hanswers⟩ := exists_reply h hsub
  have hfound := lookup_sidMap_of_nodup (seedKeys_of_registered h ▸ hnodup) hreply
  rw [hanswers.seedKey, hlookup] at hfound
  obtain ⟨row, hrow, hgarden, hname, hsid⟩ := hanswers.row
  have hkey : some sid = some row.id := (Option.some.inj hfound).trans hsid
  rw [← heq]
  exact ⟨row, hrow, hgarden, hname, hkey⟩

/-- Every reply carries a key. -/
theorem isSome_of_registered (h : List.Forall₂ (db.Registered gardenId) config registered)
    {reply : ClientSubscription} (hreply : reply ∈ registered) : ∃ sid, reply.sid = some sid := by
  induction h with
  | nil => cases hreply
  | cons hanswers _ ih =>
    rcases List.mem_cons.mp hreply with hhead | htail
    · obtain ⟨row, -, -, -, hsid⟩ := hanswers.row
      rw [hhead]
      exact ⟨row.id, hsid⟩
    · exact ih htail

/-- Every configured subscription is merged with the key its pair has in the map. -/
theorem exists_merged (h : List.Forall₂ (db.Registered gardenId) config registered)
    {sub : ClientSubscription} (hsub : sub ∈ config) :
    ∃ sid, (sidMap registered).lookup sub.seedKey = some (some sid) ∧
      { sub with sid := some sid } ∈ mergeSubscriptions config registered := by
  obtain ⟨reply, hreply, hanswers⟩ := exists_reply h hsub
  obtain ⟨found, hfound⟩ := exists_lookup_sidMap hreply
  obtain ⟨last, hlast, -, hsid⟩ := exists_of_lookup_sidMap hfound
  obtain ⟨sid, hsome⟩ := isSome_of_registered h hlast
  rw [hanswers.seedKey, ← hsid, hsome] at hfound
  exact ⟨sid, hfound, mem_mergeSubscriptions.mpr ⟨sub, hsub, sid, hfound, rfl⟩⟩

/-- Two subscriptions of one pair are merged with one key. -/
theorem seedKey_injOn_of_keepsIdentity
    (h : List.Forall₂ (db.Registered gardenId) config registered)
    (hkeeps : KeepsIdentity db gardenId (mergeSubscriptions config registered))
    {a b : ClientSubscription} (ha : a ∈ config) (hb : b ∈ config)
    (hkey : a.seedKey = b.seedKey) : a.name = b.name := by
  obtain ⟨sidA, hlookupA, hmergedA⟩ := exists_merged h ha
  obtain ⟨sidB, hlookupB, hmergedB⟩ := exists_merged h hb
  have hsid : sidA = sidB := by
    rw [hkey, hlookupB] at hlookupA
    cases hlookupA
    rfl
  by_contra hne
  exact hkeeps.distinct _ hmergedA _ hmergedB hne (congrArg some hsid)

/-- For configured subscriptions with distinct names whose registration the server
accepts, the garden's merged subscriptions keep their identities exactly when no
two of them share seed name and seed type. -/
theorem storedSubscriptions_keepsIdentity_iff {timezone : String}
    (hnames : (config.map ClientSubscription.name).Nodup)
    (hsync : db.syncSubscriptions refuses (config.map (localize timezone)) gardenId =
      (db', .ok registered)) :
    KeepsIdentity db' gardenId
        (storedSubscriptions (config.map (localize timezone)) (.ok registered)) ↔
      (config.map ClientSubscription.seedKey).Nodup := by
  have hreplies := syncSubscriptions_spec hsync
  have hkeys : (config.map (localize timezone)).map ClientSubscription.seedKey =
      config.map ClientSubscription.seedKey := by
    simp
  constructor
  · intro hkeeps
    refine List.Nodup.map_on ?_ (List.Nodup.of_map _ hnames)
    intro a ha b hb hkey
    have hname := seedKey_injOn_of_keepsIdentity hreplies hkeeps
      (List.mem_map_of_mem ha) (List.mem_map_of_mem hb) (by simpa using hkey)
    rw [localize_name, localize_name] at hname
    exact List.inj_on_of_nodup_map hnames ha hb hname
  · intro hnodup
    exact keepsIdentity_of_nodup hreplies (hkeys ▸ hnodup)

end Identity

section Example

/-- A server without subscriptions. -/
def unregistered : Db where clock _ := 0

/-- One seed under a nightly and a manual subscription. -/
def twoSchedules : List ClientSubscription :=
  [{ name := "nightly", seedName := "web", seedType := "nixos", schedule := some "0 3 * * *" },
    { name := "manual", seedName := "web", seedType := "nixos" }]

/-- The server registers both names; the garden runs both under the second key. -/
theorem twoSchedules_share_sid :
    (twoSchedules.map ClientSubscription.name).Nodup ∧
      ∃ db' registered,
        unregistered.syncSubscriptions (fun _ => none) (twoSchedules.map (localize "Etc/UTC")) 1 =
          (db', .ok registered) ∧
        registered.map (fun sub => (sub.name, sub.sid)) =
          [("nightly", some 1), ("manual", some 2)] ∧
        (storedSubscriptions (twoSchedules.map (localize "Etc/UTC")) (.ok registered)).map
            (fun sub => (sub.name, sub.sid)) = [("nightly", some 2), ("manual", some 2)] ∧
        ¬ KeepsIdentity db' 1
          (storedSubscriptions (twoSchedules.map (localize "Etc/UTC")) (.ok registered)) := by
  refine ⟨by decide, _, _, rfl, by decide, by decide, fun h => ?_⟩
  have hne := h.distinct _ (List.head_mem (by decide)) _ (List.getLast_mem (by decide)) (by decide)
  exact hne rfl

/-- Subscriptions of different seeds. -/
def twoSeeds : List ClientSubscription :=
  [{ name := "web", seedName := "web", seedType := "nixos", schedule := some "0 3 * * *" },
    { name := "mail", seedName := "mail", seedType := "nixos" }]

/-- They keep their own keys. -/
theorem storedSubscriptions_keepsIdentity_twoSeeds :
    ∃ db' registered,
      unregistered.syncSubscriptions (fun _ => none) (twoSeeds.map (localize "Etc/UTC")) 1 =
        (db', .ok registered) ∧
      KeepsIdentity db' 1
        (storedSubscriptions (twoSeeds.map (localize "Etc/UTC")) (.ok registered)) :=
  ⟨_, _, rfl, (@storedSubscriptions_keepsIdentity_iff (fun _ => none) unregistered _ 1 twoSeeds _
    "Etc/UTC" (by decide) rfl).mpr (by decide)⟩

end Example

end Sower.Garden
