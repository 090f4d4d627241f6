import PipelineLang.Proofs.Table
import PipelineLang.Server.Session

/-!
# The cache of a session cannot be seen

A plain session has no cache: it keeps the last text and version of each open document and analyzes
that text anew for every answer and everything it publishes. A session with a cache of any limits,
and with a clock of any readings, sends exactly what the plain session sends
(`sent_eq_of_distinctVersions`), as long as an editor gives no version twice to a document between
two closings of it.

A cached analysis belongs to a version, so it is right as long as the version still means the same
text. `Coherent` says so of a session and of the messages to come: a version that is open or cached
does not come again before its document is closed, and where the open version is the cached one,
the cached analysis is that of the open text.
-/

namespace PipelineLang.Server

open Editor

/-! ## Sessions without a cache -/

/-- What a session without a cache remembers. -/
structure PlainSession where
  settings : Settings
  documents : DocumentStore
  shutdownRequested : Bool
  exitRequested : Bool

namespace PlainSession

def start (settings : Settings) : PlainSession := ⟨settings, .empty, false, false⟩

/-- A version of a document with the analysis of its text. -/
def analyzed (s : PlainSession) (uri : String) (snapshot : Snapshot) : Document :=
  ⟨uri, s.settings.templateEngine, snapshot.text, analyze s.settings.templateEngine snapshot.text⟩

/-- An open document with the analysis of its text. -/
def document? (s : PlainSession) (uri : String) : Option Document :=
  (s.documents.snapshot? uri).map (s.analyzed uri)

def answer (s : PlainSession) : Request → PlainSession × Except RequestError JsonValue
  | .start => (s, .ok offer)
  | .shutdown => ({ s with shutdownRequested := true }, .ok .null)
  | request =>
    match request.uri?.bind s.document? with
    | none => (s, .ok .null)
    | some d => (s, request.answer d)

def onRequest (method : String) (params : JsonValue) (s : PlainSession) :
    PlainSession × Except RequestError JsonValue :=
  if s.shutdownRequested && method != "shutdown" then (s, .error .shuttingDown)
  else
    match Decode.request method params with
    | none => (s, .error (.unknownMethod method))
    | some (.error fault) => (s, .error (.invalidParams fault))
    | some (.ok request) => s.answer request

/-- The diagnostics of a version of a document, if they are wanted. -/
def published (s : PlainSession) (uri : String) (snapshot : Snapshot) : List Outgoing :=
  if s.settings.publishes then
    [.published uri (some snapshot.version) (s.analyzed uri snapshot).diagnostics]
  else []

def store (uri : String) (snapshot : Snapshot) (s : PlainSession) : PlainSession × List Outgoing :=
  ({ s with documents := s.documents.put uri snapshot.text snapshot.version },
    s.published uri snapshot)

def onNotification (s : PlainSession) : Notification → PlainSession × List Outgoing
  | .opened uri text version => s.store uri ⟨text, version⟩
  | .changed uri (some text) version => s.store uri ⟨text, version⟩
  | .changed _ none _ => (s, [])
  | .closed uri => ({ s with documents := s.documents.close uri }, [.published uri none []])
  | .exit => ({ s with exitRequested := true }, [])

def handle (s : PlainSession) : Message → PlainSession × List Outgoing
  | .request id method params =>
    let (s, result) := s.onRequest method params
    (s, [reply id result])
  | .notification method params =>
    match Decode.notification method params with
    | some n => s.onNotification n
    | none => (s, [])
  | .response => (s, [])

/-- What is sent for each of the messages. -/
def sent (s : PlainSession) : List Message → List (List Outgoing)
  | [] => []
  | m :: rest => (s.handle m).2 :: (s.handle m).1.sent rest

/-- Handles messages up to the request to exit. -/
def run (s : PlainSession) : List Message → List Outgoing
  | [] => []
  | m :: rest =>
    let (s, sent) := s.handle m
    if s.exitRequested then sent else sent ++ s.run rest

end PlainSession

namespace Session

/-- What is sent for each of the messages that arrive, each with its time of arrival. -/
def sent (s : Session) : List (Nat × Message) → List (List Outgoing)
  | [] => []
  | (now, m) :: rest => (s.handle now m).2 :: (s.handle now m).1.sent rest

/-- A session with a cache of the given limits, before its first message. -/
def startWith (limits : CacheLimits) (settings : Settings) : Session :=
  { start settings with cache := .empty limits }

/-- The session without its cache. -/
def plain (s : Session) : PlainSession :=
  ⟨s.settings, s.documents, s.shutdownRequested, s.exitRequested⟩

end Session

/-! ## Versions -/

/-- The notification that a message decodes to. -/
def Message.notification? : Message → Option Notification
  | .notification method params => Decode.notification method params
  | _ => none

/-- What an editor tells in the messages, in order. -/
def notifications (messages : List Message) : List Notification :=
  messages.filterMap Message.notification?

/-- The versions of a document that notifications carry before one of them closes it. -/
def versionsUntilClose (uri : String) : List Notification → List Int
  | [] => []
  | .opened u _ version :: rest | .changed u _ version :: rest =>
    if u = uri then version :: versionsUntilClose uri rest else versionsUntilClose uri rest
  | .closed u :: rest => if u = uri then [] else versionsUntilClose uri rest
  | .exit :: rest => versionsUntilClose uri rest

/-- Between two closings of a document no version of it comes twice. -/
def DistinctVersions (told : List Notification) : Prop :=
  ∀ uri rest, rest <:+ told → (versionsUntilClose uri rest).Nodup

theorem distinctVersions_nil : DistinctVersions [] := by
  intro uri rest hs
  rw [List.suffix_nil.1 hs]
  exact List.nodup_nil

theorem distinctVersions_cons_iff {n : Notification} {rest : List Notification} :
    DistinctVersions (n :: rest) ↔
      (∀ uri, (versionsUntilClose uri (n :: rest)).Nodup) ∧ DistinctVersions rest := by
  constructor
  · intro h
    exact ⟨fun uri => h uri _ (List.suffix_refl _),
      fun uri _ hs => h uri _ (hs.trans (List.suffix_cons n rest))⟩
  · rintro ⟨hfirst, hrest⟩ uri tail hs
    rcases List.suffix_cons_iff.1 hs with rfl | hs
    · exact hfirst uri
    · exact hrest uri tail hs

theorem versionsUntilClose_subset {n : Notification} (hn : ∀ uri, n ≠ .closed uri) (uri : String)
    (rest : List Notification) :
    versionsUntilClose uri rest ⊆ versionsUntilClose uri (n :: rest) := by
  intro v hv
  cases n with
  | opened u text version =>
    rw [versionsUntilClose]
    split
    · exact List.mem_cons_of_mem _ hv
    · exact hv
  | changed u text version =>
    rw [versionsUntilClose]
    split
    · exact List.mem_cons_of_mem _ hv
    · exact hv
  | closed u => exact absurd rfl (hn u)
  | exit => exact hv

/-! ## What a lookup leaves in the cache -/

namespace Cache

variable {α : Type} {c : Cache α} {build : List Char → α} {now : Nat} {id : String} {version : Int}
  {text : List Char}

theorem mem_dropOldest {p : String × CacheEntry α} :
    ∀ {n : Nat} {t : Table (CacheEntry α)}, p ∈ (dropOldest n t).entries → p ∈ t.entries
  | 0, _, h => h
  | n + 1, t, h => by
    simp only [dropOldest] at h
    split at h
    · exact h
    · exact (Table.mem_erase.1 (mem_dropOldest h)).1

theorem mem_evict {limits : CacheLimits} {t : Table (CacheEntry α)} {p : String × CacheEntry α}
    (h : p ∈ (evict limits now t).entries) : p ∈ t.entries := by
  simp only [evict] at h
  split at h
  · exact h
  · exact (Table.mem_filter.1 (mem_dropOldest h)).1

/-- An entry behind a lookup was cached before, or is the one that was looked up. -/
theorem mem_get {p : String × CacheEntry α}
    (h : p ∈ (c.get (fun t => some (build t)) now id version text).1.entries.entries) :
    (∃ e, (p.1, e) ∈ c.entries.entries ∧ e.version = p.2.version ∧ e.value = p.2.value) ∨
      (p.1 = id ∧ p.2.version = version ∧ p.2.value = build text) := by
  simp only [get] at h
  split at h
  · next e he =>
    rcases Table.mem_insert h with rfl | h
    · have hmem : (id, e) ∈ c.entries.entries :=
        Table.mem_of_find? (Option.filter_eq_some_iff.1 he).1
      exact Or.inl ⟨e, hmem, rfl, rfl⟩
    · exact Or.inl ⟨p.2, h, rfl, rfl⟩
  · rcases Table.mem_insert (mem_evict h) with rfl | h
    · exact Or.inr ⟨rfl, rfl, rfl⟩
    · exact Or.inl ⟨p.2, h, rfl, rfl⟩

/-- Where a cached value of the version is the one that would be built, a lookup yields that. -/
theorem get_eq_build
    (h : ∀ e, (id, e) ∈ c.entries.entries → e.version = version → e.value = build text) :
    (c.get (fun t => some (build t)) now id version text).2 = .ok (build text) := by
  simp only [get]
  split
  · next e he =>
    obtain ⟨hfind, hversion⟩ := Option.filter_eq_some_iff.1 he
    exact congrArg Except.ok (h e (Table.mem_of_find? hfind) (by simpa using hversion))
  · rfl

end Cache

/-! ## Coherence -/

/-- No version that is open or cached is among those to come, and where the open version is cached,
it is with the analysis of the open text. -/
structure Coherent (s : Session) (coming : List Notification) : Prop where
  opened : ∀ uri d, s.documents.find? uri = some d → d.version ∉ versionsUntilClose uri coming
  cached : ∀ uri e, (uri, e) ∈ s.cache.entries.entries →
    e.version ∉ versionsUntilClose uri coming
  current : ∀ uri e d, (uri, e) ∈ s.cache.entries.entries → s.documents.find? uri = some d →
    e.version = d.version → e.value = analyze s.engine d.text

namespace Coherent

variable {s : Session} {n : Notification} {coming rest : List Notification} {uri : String}
  {d : Snapshot}

theorem startWith (limits : CacheLimits) (settings : Settings) :
    Coherent (Session.startWith limits settings) coming where
  opened _ _ h := by cases h
  cached _ _ h := by cases h
  current _ _ _ h := by cases h

theorem mono (h : Coherent s coming)
    (hsub : ∀ uri, versionsUntilClose uri rest ⊆ versionsUntilClose uri coming) :
    Coherent s rest where
  opened uri d hd hv := h.opened uri d hd (hsub uri hv)
  cached uri e he hv := h.cached uri e he (hsub uri hv)
  current := h.current

/-- Looking up the open version of a document keeps a session coherent. -/
theorem get (h : Coherent s coming) (hd : s.documents.find? uri = some d) (now : Nat) :
    Coherent { s with cache :=
      (s.cache.get (fun t => some (analyze s.engine t)) now uri d.version d.text).1 } coming where
  opened := h.opened
  cached u e he := by
    rcases Cache.mem_get he with ⟨e', he', hversion, -⟩ | ⟨rfl, hversion, -⟩
    · exact hversion ▸ h.cached u e' he'
    · exact hversion.symm ▸ h.opened _ d hd
  current u e d' he hd' hv := by
    rcases Cache.mem_get he with ⟨e', he', hversion, hvalue⟩ | ⟨rfl, -, hvalue⟩
    · exact hvalue ▸ h.current u e' d' he' hd' (hversion.trans hv)
    · cases hd.symm.trans hd'
      exact hvalue

/-- For an open document the cache yields the analysis of its text. -/
theorem get_analysis (h : Coherent s coming) (hd : s.documents.find? uri = some d) (now : Nat) :
    (s.cache.get (fun t => some (analyze s.engine t)) now uri d.version d.text).2
      = .ok (analyze s.engine d.text) :=
  Cache.get_eq_build fun e he hv => h.current uri e d he hd hv

/-- A version of a document that is new to the session may replace the one that is open. -/
theorem put (h : Coherent s (n :: rest))
    (hn : ∀ u, versionsUntilClose u (n :: rest) =
      if uri = u then d.version :: versionsUntilClose u rest else versionsUntilClose u rest)
    (hnew : d.version ∉ versionsUntilClose uri rest) :
    Coherent { s with documents := s.documents.put uri d.text d.version } rest where
  opened u d' hd' hv := by
    simp only [DocumentStore.put, Table.find?_insert] at hd'
    split at hd'
    · next hu => cases hd'; exact hnew (hu ▸ hv)
    · next hu => exact h.opened u d' hd' (by rw [hn, if_neg hu]; exact hv)
  cached u e he hv := by
    refine h.cached u e he ?_
    rw [hn]
    split
    · exact List.mem_cons_of_mem _ hv
    · exact hv
  current u e d' he hd' hv := by
    simp only [DocumentStore.put, Table.find?_insert] at hd'
    split at hd'
    · next hu =>
      cases hd'
      refine absurd ?_ (h.cached u e he)
      rw [hn, if_pos hu]
      exact hv ▸ List.mem_cons_self
    · exact h.current u e d' he hd' hv

/-- Closing a document forgets its versions, so that they may come again. -/
theorem close (h : Coherent s (.closed uri :: rest)) :
    Coherent { s with documents := s.documents.close uri, cache := s.cache.invalidate uri }
      rest where
  opened u d' hd' hv := by
    simp only [DocumentStore.close, Table.find?_erase] at hd'
    split at hd'
    · cases hd'
    · next hu => exact h.opened u d' hd' (by rw [versionsUntilClose, if_neg hu]; exact hv)
  cached u e he hv := by
    obtain ⟨hmem, hu⟩ := Table.mem_erase.1 he
    exact h.cached u e hmem (by rw [versionsUntilClose, if_neg (Ne.symm hu)]; exact hv)
  current u e d' he hd' := by
    simp only [DocumentStore.close, Table.find?_erase] at hd'
    split at hd'
    · cases hd'
    · exact h.current u e d' (Table.mem_erase.1 he).1 hd'

end Coherent

/-! ## One message -/

/-- Sending the same and staying alike: a step of a session is that of the session without cache,
and what comes next finds the session coherent. -/
structure Follows {α : Type} (step : Session × α) (plain : PlainSession × α)
    (coming : List Notification) : Prop where
  state : step.1.plain = plain.1
  result : step.2 = plain.2
  coherent : Coherent step.1 coming

namespace Session

variable {s : Session} {n : Notification} {coming rest : List Notification} {uri : String}
  {d : Snapshot}

theorem document_follows (h : Coherent s coming) (now : Nat) (uri : String) :
    Follows (s.document now uri) (s.plain, s.plain.document? uri) coming := by
  unfold document
  split
  · next hd => exact ⟨rfl, by simp only [PlainSession.document?, plain, hd, Option.map_none], h⟩
  · next d hd =>
    have hget := h.get_analysis hd now
    refine ⟨rfl, ?_, h.get hd now⟩
    simp only [analysisOf, hget, PlainSession.document?, plain, hd, Option.map_some]
    rfl

theorem answer_follows (h : Coherent s coming) (now : Nat) (request : Request) :
    Follows (s.answer now request) (s.plain.answer request) coming := by
  cases request with
  | start => exact ⟨rfl, rfl, h⟩
  | shutdown => exact ⟨rfl, rfl, h.opened, h.cached, h.current⟩
  | _ =>
    simp only [answer, PlainSession.answer, Request.uri?, Option.bind_some]
    generalize hstep : s.document now _ = step
    obtain ⟨hstate, hresult, hcoherent⟩ := hstep ▸ document_follows h now _
    obtain ⟨s', d⟩ := step
    rw [← show d = s.plain.document? _ from hresult]
    cases d with
    | none => exact ⟨hstate, rfl, hcoherent⟩
    | some d => exact ⟨hstate, rfl, hcoherent⟩

theorem onRequest_follows (h : Coherent s coming) (now : Nat) (method : String)
    (params : JsonValue) :
    Follows (s.onRequest now method params) (s.plain.onRequest method params) coming := by
  unfold onRequest PlainSession.onRequest
  change Follows _ (if s.shutdownRequested && method != "shutdown" then _ else _) coming
  split
  · exact ⟨rfl, rfl, h⟩
  · cases Decode.request method params with
    | none => exact ⟨rfl, rfl, h⟩
    | some decoded =>
      cases decoded with
      | error fault => exact ⟨rfl, rfl, h⟩
      | ok request => exact answer_follows h now request

theorem publish_follows (h : Coherent s coming) (now : Nat)
    (hd : s.documents.find? uri = some d) :
    Follows (s.publish now uri d) (s.plain, s.plain.published uri d) coming := by
  unfold publish PlainSession.published
  change Follows _ (_, if s.settings.publishes then _ else _) coming
  split
  · have hget := h.get_analysis hd now
    refine ⟨rfl, ?_, h.get hd now⟩
    simp only [hget]
    rfl
  · exact ⟨rfl, rfl, h⟩

/-- A version of a document is stored when the session has not seen it before. -/
theorem store_follows (h : Coherent s (n :: rest)) (now : Nat)
    (hn : ∀ u, versionsUntilClose u (n :: rest) =
      if uri = u then d.version :: versionsUntilClose u rest else versionsUntilClose u rest)
    (hdistinct : DistinctVersions (n :: rest)) :
    Follows (s.store now uri d) (s.plain.store uri d) rest := by
  have hnodup := (distinctVersions_cons_iff.1 hdistinct).1 uri
  rw [hn, if_pos rfl] at hnodup
  have hput := h.put hn (List.nodup_cons.1 hnodup).1
  have hopen : (s.documents.put uri d.text d.version).find? uri = some d := by
    rw [DocumentStore.put, Table.find?_insert, if_pos rfl]
  exact publish_follows hput now hopen

theorem onNotification_follows (h : Coherent s (n :: rest)) (now : Nat)
    (hdistinct : DistinctVersions (n :: rest)) :
    Follows (s.onNotification now n) (s.plain.onNotification n) rest := by
  cases n with
  | opened uri text version => exact store_follows h now (fun _ => rfl) hdistinct
  | changed uri text version =>
    cases text with
    | some text => exact store_follows h now (fun _ => rfl) hdistinct
    | none => exact ⟨rfl, rfl, h.mono fun u => versionsUntilClose_subset (by simp) u rest⟩
  | closed uri => exact ⟨rfl, rfl, h.close⟩
  | exit => exact ⟨rfl, rfl, h.opened, h.cached, h.current⟩

/-- **One message.** A coherent session sends what the session without cache sends. -/
theorem handle_follows {m : Message} {messages : List Message}
    (h : Coherent s (notifications (m :: messages))) (now : Nat)
    (hdistinct : DistinctVersions (notifications (m :: messages))) :
    Follows (s.handle now m) (s.plain.handle m) (notifications messages) := by
  cases m with
  | request id method params =>
    obtain ⟨hstate, hresult, hcoherent⟩ := onRequest_follows h now method params
    exact ⟨hstate, congrArg (fun r => [reply id r]) hresult, hcoherent⟩
  | notification method params =>
    simp only [handle, PlainSession.handle]
    simp only [notifications, List.filterMap_cons, Message.notification?] at h hdistinct
    cases hn : Decode.notification method params with
    | some n =>
      rw [hn] at h hdistinct
      exact onNotification_follows h now hdistinct
    | none =>
      rw [hn] at h
      exact ⟨rfl, rfl, h⟩
  | response => exact ⟨rfl, rfl, h⟩

/-! ## Runs -/

theorem distinctVersions_tail {m : Message} {messages : List Message}
    (h : DistinctVersions (notifications (m :: messages))) :
    DistinctVersions (notifications messages) := by
  simp only [notifications, List.filterMap_cons] at h
  split at h
  · exact h
  · exact (distinctVersions_cons_iff.1 h).2

theorem sent_eq_of_coherent :
    ∀ {history : List (Nat × Message)} {s : Session},
      Coherent s (notifications (history.map (·.2))) →
      DistinctVersions (notifications (history.map (·.2))) →
      s.sent history = s.plain.sent (history.map (·.2))
  | [], _, _, _ => rfl
  | (now, m) :: rest, s, h, hdistinct => by
    obtain ⟨hstate, hresult, hcoherent⟩ := handle_follows h now hdistinct
    rw [sent, List.map_cons, PlainSession.sent, hresult,
      sent_eq_of_coherent hcoherent (distinctVersions_tail hdistinct), hstate]

theorem run_eq_of_coherent :
    ∀ {history : List (Nat × Message)} {s : Session},
      Coherent s (notifications (history.map (·.2))) →
      DistinctVersions (notifications (history.map (·.2))) →
      s.run history = s.plain.run (history.map (·.2))
  | [], _, _, _ => rfl
  | (now, m) :: rest, s, h, hdistinct => by
    obtain ⟨hstate, hresult, hcoherent⟩ := handle_follows h now hdistinct
    have hexit : (s.handle now m).1.exitRequested = (s.plain.handle m).1.exitRequested :=
      congrArg PlainSession.exitRequested hstate
    simp only [run, List.map_cons, PlainSession.run]
    rw [hexit, hresult, run_eq_of_coherent hcoherent (distinctVersions_tail hdistinct), hstate]

/-- **The cache cannot be seen.** With a cache of any limits, in whatever unit they count time, and
a clock of any readings, a session answers and publishes what a session without a cache does:
message by message, and up to the request to exit. -/
theorem sent_eq_of_distinctVersions (settings : Settings) (limits : CacheLimits)
    (history : List (Nat × Message))
    (h : DistinctVersions (notifications (history.map (·.2)))) :
    (startWith limits settings).sent history
        = (PlainSession.start settings).sent (history.map (·.2)) ∧
      (startWith limits settings).run history
        = (PlainSession.start settings).run (history.map (·.2)) :=
  ⟨sent_eq_of_coherent (Coherent.startWith limits settings) h,
    run_eq_of_coherent (Coherent.startWith limits settings) h⟩

/-- Two documents in turns. One is looked at, changed, closed, and opened again at the version that
it had first, with another text. -/
def turns : List (Nat × Message) :=
  [(0, .notification "textDocument/didOpen"
      (.arr [.arr [.str "a", .str "", .int 1, .str "GET /a"]])),
    (0, .notification "textDocument/didOpen"
      (.arr [.arr [.str "b", .str "", .int 1, .str "GET /b"]])),
    (3, .request (.int 1) "textDocument/documentSymbol" (.obj [("textDocument", .arr [.str "a"])])),
    (3, .notification "textDocument/didChange"
      (.arr [.arr [.str "a", .int 2], .arr [.arr [.null, .null, .str "GET /c"]]])),
    (9, .notification "textDocument/didClose" (.arr [.arr [.str "a"]])),
    (9, .notification "textDocument/didOpen" (.arr [.arr [.str "a", .str "", .int 1, .str ""]])),
    (9, .request (.int 2) "textDocument/documentSymbol" (.obj [("textDocument", .arr [.str "a"])]))]

/-- The cache of this session holds one analysis at a time. -/
theorem sent_turns :
    DistinctVersions (notifications (turns.map (·.2))) ∧
      (startWith ⟨1, 0⟩ .default).sent turns
          = (PlainSession.start .default).sent (turns.map (·.2)) ∧
      (startWith ⟨1, 0⟩ .default).run turns
          = (PlainSession.start .default).run (turns.map (·.2)) := by
  have htold : notifications (turns.map (·.2)) = [.opened "a" "GET /a".toList 1,
      .opened "b" "GET /b".toList 1, .changed "a" (some "GET /c".toList) 2, .closed "a",
      .opened "a" [] 1] := rfl
  have hdistinct : DistinctVersions (notifications (turns.map (·.2))) := by
    rw [htold]
    simp only [distinctVersions_cons_iff, distinctVersions_nil, versionsUntilClose]
    grind
  exact ⟨hdistinct, sent_eq_of_distinctVersions .default ⟨1, 0⟩ turns hdistinct⟩

end Session

end PipelineLang.Server
