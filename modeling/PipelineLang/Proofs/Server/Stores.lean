import PipelineLang.Proofs.Server.CacheHistory
import PipelineLang.Proofs.Server.Conversation

/-!
# Open and cached documents

A session keeps the text of each open document in one store and analyses in another, and updates
them at different times: the store of texts when it is told something, the cache also when it is
asked. After any messages they agree (`stores_agree`): only open documents are cached, in the limits
of the cache, and where diagnostics are published it is the open version that is cached.

What is open is read off what the session was told: the last notification that leaves a document
open or closed decides (`openBehind?`). The invariant is `InStep`; a lookup of an open document keeps
it, and so do a new version of a document and its closing.
-/

namespace PipelineLang.Server

/-! ## What is open -/

/-- How the notification leaves the document, if it does something with it: open, at a version, or
closed. -/
def Notification.leaves? (uri : String) : Notification → Option (Option Snapshot)
  | .opened u text version | .changed u (some text) version =>
    if u = uri then some (some ⟨text, version⟩) else none
  | .closed u => if u = uri then some none else none
  | .changed _ none _ | .exit => none

/-- The version at which the notifications leave the document open. -/
def openBehind? (uri : String) (told : List Notification) : Option Snapshot :=
  ((told.filterMap (·.leaves? uri)).getLast?).join

theorem openBehind?_append (uri : String) (told : List Notification) (n : Notification) :
    openBehind? uri (told ++ [n]) = (n.leaves? uri).getD (openBehind? uri told) := by
  rw [openBehind?, List.filterMap_append]
  cases hn : n.leaves? uri with
  | none =>
    rw [List.filterMap_cons_none hn, List.filterMap_nil, List.append_nil]
    rfl
  | some left =>
    rw [List.filterMap_cons_some hn, List.filterMap_nil, List.getLast?_concat]
    rfl

theorem notifications_cons (m : Message) (messages : List Message) :
    notifications (m :: messages) = m.notification?.toList ++ notifications messages := by
  rw [notifications, List.filterMap_cons]
  cases m.notification? with
  | none => rfl
  | some n => rfl

namespace Cache

variable {α : Type} {c : Cache α} {build : List Char → α} {id other : String} {version v : Int}

/-- Behind a lookup a document is cached at the version that was looked up, any other one as
before. -/
theorem versionOf?_get (h : c.entries.Sorted) {now : Nat} {text : List Char}
    (hv : (c.get (fun t => some (build t)) now id version text).1.versionOf? other = some v) :
    if id = other then v = version else c.versionOf? other = some v := by
  obtain ⟨e, he, rfl⟩ := versionOf?_eq_some.1 hv
  obtain ⟨e', hversion, hfind⟩ : ∃ e' : CacheEntry α, e'.version = version ∧
      (if id = other then some e' else c.entries.find? other) = some e := by
    by_cases hhit : c.versionOf? id = some version
    · obtain ⟨e', hfind, rfl⟩ := versionOf?_eq_some.1 hhit
      rw [get_of_cached hfind] at he
      exact ⟨{ e' with lastAccess := now }, rfl, (Table.find?_insert ..).symm.trans he⟩
    · rw [get_of_built hhit rfl] at he
      exact ⟨_, rfl, (Table.find?_insert ..).symm.trans (find?_evict (h.insert _ _) he)⟩
  by_cases heq : id = other
  · rw [if_pos heq] at hfind ⊢
    rw [← Option.some.inj hfind, hversion]
  · rw [if_neg heq] at hfind ⊢
    exact versionOf?_eq_some.2 ⟨e, hfind, rfl⟩

theorem versionOf?_invalidate (c : Cache α) (id other : String) :
    (c.invalidate id).versionOf? other = if id = other then none else c.versionOf? other := by
  rw [versionOf?, invalidate, Table.find?_erase]
  split
  · rfl
  · rfl

end Cache

namespace Session

/-! ## The invariant -/

/-- The documents are open as the session was told, and only such are cached: within the limits of
the cache, and at the open version if each version is published. -/
structure InStep (settings : Settings) (told : List Notification) (s : Session) : Prop where
  settings_eq : s.settings = settings
  explained : ∃ past, Cache.Explained (fun t => some (analyze settings.templateEngine t))
    (limits settings) past s.cache
  opened : ∀ uri, s.documents.snapshot? uri = openBehind? uri told
  cached : ∀ uri v, s.cache.versionOf? uri = some v →
    ∃ d, s.documents.snapshot? uri = some d ∧ (settings.publishes = true → v = d.version)

namespace InStep

variable {settings : Settings} {told : List Notification} {s : Session} {uri : String}
  {d : Snapshot}

theorem start (settings : Settings) : InStep settings [] (start settings) where
  settings_eq := rfl
  explained := ⟨[], Cache.Explained.empty _ _⟩
  opened _ := rfl
  cached _ _ h := by cases h

/-- Whether the session is to shut down or to exit does not matter here. -/
theorem with_flags (h : InStep settings told s) (down exit : Bool) :
    InStep settings told { s with shutdownRequested := down, exitRequested := exit } :=
  ⟨h.settings_eq, h.explained, h.opened, h.cached⟩

theorem engine_eq (h : InStep settings told s) : s.engine = settings.templateEngine := by
  rw [engine, h.settings_eq]

/-- What the cache holds can be told after a lookup as well. -/
theorem explained_get (h : InStep settings told s) (now : Nat) (uri : String) (d : Snapshot) :
    ∃ past, Cache.Explained (fun t => some (analyze settings.templateEngine t)) (limits settings) past
      (s.cache.get (fun t => some (analyze s.engine t)) now uri d.version d.text).1 := by
  obtain ⟨past, hpast⟩ := h.explained
  rw [h.engine_eq]
  exact ⟨_, hpast.apply (.get now uri d.version d.text)⟩

theorem versionOf?_get (h : InStep settings told s) {now : Nat} {other : String} {v : Int}
    (hv : (s.cache.get (fun t => some (analyze s.engine t)) now uri d.version d.text).1.versionOf?
      other = some v) :
    if uri = other then v = d.version else s.cache.versionOf? other = some v := by
  obtain ⟨past, hpast⟩ := h.explained
  exact Cache.versionOf?_get hpast.sorted hv

/-- Looking up the open version of a document keeps the stores in step. -/
theorem get (h : InStep settings told s) (hd : s.documents.snapshot? uri = some d) (now : Nat) :
    InStep settings told { s with cache :=
      (s.cache.get (fun t => some (analyze s.engine t)) now uri d.version d.text).1 } where
  settings_eq := h.settings_eq
  explained := h.explained_get now uri d
  opened := h.opened
  cached other v hv := by
    have hversion := h.versionOf?_get hv
    split at hversion
    · next heq => exact ⟨d, heq ▸ hd, fun _ => hversion⟩
    · exact h.cached other v hversion

theorem asked {cache : Cache Analysis} {now : Nat} (h : InStep settings told s)
    (hcache : Asked now s cache) : InStep settings told { s with cache } := by
  cases hcache with
  | never => exact h
  | lookup hd => exact h.get hd now

/-- What is open behind a notification that opens the document or changes it. -/
theorem opened_put (h : InStep settings told s) {n : Notification}
    (hn : ∀ u, n.leaves? u = if uri = u then some (some d) else none) (u : String) :
    (s.documents.put uri d.text d.version).snapshot? u = openBehind? u (told ++ [n]) := by
  rw [openBehind?_append, hn, DocumentStore.snapshot?, DocumentStore.put, Table.find?_insert]
  split
  · rfl
  · exact h.opened u

/-- A new version of a document keeps the stores in step: it is looked up at once where versions are
published, and where they are not a cached version may be another than the open one. -/
theorem store (h : InStep settings told s) {n : Notification}
    (hn : ∀ u, n.leaves? u = if uri = u then some (some d) else none) (now : Nat) :
    InStep settings (told ++ [n]) (s.store now uri d).1 := by
  rw [Session.store, (publish_eq ..).1]
  have hput (other : String) : (s.documents.put uri d.text d.version).snapshot? other
      = if uri = other then some d else s.documents.snapshot? other := Table.find?_insert ..
  by_cases hpublishes : s.settings.publishes = true
  · rw [if_pos hpublishes]
    refine ⟨h.settings_eq, h.explained_get now uri d, h.opened_put hn, fun other v hv => ?_⟩
    have hversion := h.versionOf?_get hv
    simp only [hput]
    split at hversion
    · next heq => exact ⟨d, if_pos heq, fun _ => hversion⟩
    · next hne =>
      rw [if_neg hne]
      exact h.cached other v hversion
  · rw [if_neg hpublishes]
    refine ⟨h.settings_eq, h.explained, h.opened_put hn, fun other v hv => ?_⟩
    simp only [hput]
    by_cases heq : uri = other
    · rw [if_pos heq]
      exact ⟨d, rfl, fun hpub => absurd (h.settings_eq ▸ hpub) hpublishes⟩
    · rw [if_neg heq]
      exact h.cached other v hv

/-- Closing a document takes it out of both stores. -/
theorem close (h : InStep settings told s) (uri : String) :
    InStep settings (told ++ [.closed uri])
      { s with documents := s.documents.close uri, cache := s.cache.invalidate uri } where
  settings_eq := h.settings_eq
  explained := by
    obtain ⟨past, hpast⟩ := h.explained
    exact ⟨_, hpast.invalidate uri⟩
  opened u := by
    rw [openBehind?_append, Notification.leaves?, DocumentStore.snapshot?, DocumentStore.close,
      Table.find?_erase]
    split
    · rfl
    · exact h.opened u
  cached other v hv := by
    rw [Cache.versionOf?_invalidate] at hv
    split at hv
    · cases hv
    · next hne =>
      obtain ⟨d, hd, hversion⟩ := h.cached other v hv
      refine ⟨d, ?_, hversion⟩
      rw [DocumentStore.snapshot?, DocumentStore.close, Table.find?_erase, if_neg hne]
      exact hd

/-- A notification that leaves every document as it is. -/
theorem tell (h : InStep settings told s) {n : Notification} (hn : ∀ u, n.leaves? u = none) :
    InStep settings (told ++ [n]) s :=
  ⟨h.settings_eq, h.explained, fun u => by rw [openBehind?_append, hn, h.opened]; rfl, h.cached⟩

theorem onNotification (h : InStep settings told s) (now : Nat) (n : Notification) :
    InStep settings (told ++ [n]) (s.onNotification now n).1 := by
  cases n with
  | opened uri text version => exact h.store (fun _ => rfl) now
  | changed uri text version =>
    cases text with
    | none => exact h.tell fun _ => rfl
    | some text => exact h.store (fun _ => rfl) now
  | closed uri => exact h.close uri
  | exit => exact (h.tell fun _ => rfl).with_flags _ _

/-- **One message.** Whatever arrives, the stores stay in step. -/
theorem handle (h : InStep settings told s) (now : Nat) (m : Message) :
    InStep settings (told ++ m.notification?.toList) (s.handle now m).1 := by
  cases m with
  | request id method params =>
    obtain ⟨cache, hcache, heq⟩ := onRequest_eq now method params s
    rw [Session.handle, Message.notification?, Option.toList_none, List.append_nil, heq]
    · exact (h.asked hcache).with_flags _ _
    · rintro _ _ ⟨⟩
  | notification method params =>
    rw [Session.handle, Message.notification?]
    cases Decode.notification method params with
    | none =>
      rw [Option.toList_none, List.append_nil]
      exact h
    | some n => exact h.onNotification now n
  | response =>
    rw [show Message.response.notification? = none from rfl, Option.toList_none, List.append_nil]
    exact h

theorem after (h : InStep settings told s) (messages : List (Nat × Message)) :
    InStep settings (told ++ notifications (messages.map (·.2))) (s.after messages) := by
  induction messages generalizing told s with
  | nil =>
    rw [List.map_nil, notifications, List.filterMap_nil, List.append_nil]
    exact h
  | cons m rest ih =>
    rw [List.map_cons, notifications_cons, ← List.append_assoc]
    exact ih (h.handle m.1 m.2)

end InStep

/-! ## Reachable states -/

/-- **Open and cached documents agree.** Behind any messages, at any times, every cached document is
open, there are no more of them than the limit, every document is open exactly at the text and the
version that the session was last told unless it was closed since, and where diagnostics are published
a document is cached at the version that is open. -/
theorem stores_agree (settings : Settings) (messages : List (Nat × Message)) :
    (∀ uri v, ((start settings).after messages).cache.versionOf? uri = some v →
        (((start settings).after messages).documents.snapshot? uri).isSome = true) ∧
      ((start settings).after messages).cache.size ≤ settings.cache.maxEntries ∧
      (∀ uri, ((start settings).after messages).documents.snapshot? uri
        = openBehind? uri (notifications (messages.map (·.2)))) ∧
      (settings.publishes = true → ∀ uri v,
        ((start settings).after messages).cache.versionOf? uri = some v →
          (((start settings).after messages).documents.snapshot? uri).map (·.version) = some v) := by
  have h : InStep settings (notifications (messages.map (·.2))) ((start settings).after messages) :=
    (InStep.start settings).after messages
  obtain ⟨past, hpast⟩ := h.explained
  refine ⟨fun uri v hv => ?_, hpast.size_le, h.opened, fun hpublishes uri v hv => ?_⟩
  · obtain ⟨d, hd, -⟩ := h.cached uri v hv
    rw [hd, Option.isSome_some]
  · obtain ⟨d, hd, hversion⟩ := h.cached uri v hv
    rw [hd, hversion hpublishes, Option.map_some]

end Session
end PipelineLang.Server
