import PipelineLang.Proofs.Server.Cacheless

/-!
# What a session says

Behind any messages, a session says of the next one what the protocol asks for (`conversation`).
Requests are responded to one by one, in their order. The number of an error is read off its
message, and the message about an unknown method is the only one that starts as it does
(`code_eq`), so the number tells what has failed.

What a message does to a session is said once for each handler (`onRequest_eq`,
`onNotification_eq`). A message changes the settings never, and whether the session is shut down
only if it is the request for it, so that can be read off the messages before (`after_eq`).
-/

namespace PipelineLang.Server

open Editor

/-! ## Numbers of errors -/

namespace RequestError

theorem head?_append {t : String} {p : Char → Bool} (h : t.toList.head?.any p = true) (t' : String) :
    (t ++ t').toList.head?.any p = true := by
  obtain ⟨x, hx, hp⟩ := (Option.any_eq_true _ _).1 h
  rw [String.toList_append, List.head?_append, hx, Option.some_or, Option.any_some, hp]

/-- The messages about parameters start with small letters. -/
theorem head?_decodeFault (fault : DecodeFault) :
    fault.message.toList.head?.any Char.isLower = true := by
  cases fault with
  | manyNames => decide
  | noAlternative name => exact head?_append (by decide) _
  | tooLong length fields layout =>
    cases layout
    all_goals
      dsimp only [DecodeFault.message]
      simp only [String.append_assoc]
      exact head?_append (by decide) _
  | uri fault =>
    cases fault
    all_goals exact head?_append (by decide) _
  | _ =>
    dsimp only [DecodeFault.message]
    simp only [String.append_assoc]
    exact head?_append (by decide) _

theorem code_of_head? {e : RequestError} {p : Char → Bool} (hp : p 'U' = false)
    (h : e.message.toList.head?.any p = true) : e.code = internalError := by
  rw [code, if_neg]
  intro hprefix
  obtain ⟨rest, hrest⟩ := List.isPrefixOf_iff_prefix.1 hprefix
  have hhead : e.message.toList.head? = some 'U' := by
    rw [← hrest]
    rfl
  rw [hhead, Option.any_some, hp] at h
  cases h

/-- The number tells an unknown method from everything else. -/
theorem code_eq (e : RequestError) :
    e.code = match e with
      | .unknownMethod _ => methodNotFound
      | _ => internalError := by
  cases e with
  | unknownMethod method =>
    rw [code, if_pos]
    rw [List.isPrefixOf_iff_prefix, message, String.append_assoc, String.toList_append]
    exact List.prefix_append ..
  | shuttingDown =>
    exact code_of_head? (p := (· == 'S')) rfl (by decide)
  | invalidParams fault => exact code_of_head? (p := Char.isLower) rfl (head?_decodeFault fault)
  | rename error =>
    cases error with
    | invalidName name =>
      refine code_of_head? (p := (· == '\'')) rfl ?_
      rw [message, RenameError.message, String.append_assoc]
      exact head?_append (by decide) _

end RequestError

/-! ## Methods -/

/-- The methods of the requests that are answered. -/
def requestMethods : List String :=
  ["initialize", "shutdown", "textDocument/completion", "textDocument/definition",
    "textDocument/references", "textDocument/hover", "textDocument/documentSymbol",
    "textDocument/documentHighlight", "textDocument/prepareRename", "textDocument/rename"]

/-- The methods of the notifications that tell of a document. -/
def documentMethods : List String :=
  ["textDocument/didOpen", "textDocument/didChange", "textDocument/didClose"]

namespace Decode

theorem request_eq_none_iff {method : String} {j : JsonValue} :
    request method j = none ↔ method ∉ requestMethods := by
  unfold request
  split
  case h_11 => simp_all [requestMethods]
  all_goals simp [requestMethods]

theorem map_ne_ok {α β : Type} {f : α → β} {b : β} (h : ∀ a, f a ≠ b) (d : Decoded α) :
    d.map f ≠ .ok b := by
  cases d with
  | error fault => exact nofun
  | ok a => exact fun heq => h a (Except.ok.inj heq)

/-- The request to shut down is known by its method, and has no parameters that could be wrong. -/
theorem request_eq_shutdown_iff {method : String} {j : JsonValue} :
    request method j = some (.ok .shutdown) ↔ method = "shutdown" := by
  unfold request
  split
  case h_2 => simp
  case h_11 => simp_all
  all_goals
    refine iff_of_false (fun h => ?_) (by decide)
    exact map_ne_ok (fun _ => Request.noConfusion) _ (Option.some.inj h)

/-- A notification that is understood tells of a document, or to exit. -/
theorem notification_of_not_mem {method : String} {j : JsonValue} {n : Notification}
    (hmethod : method ∉ documentMethods) (h : notification method j = some n) : n = .exit := by
  unfold notification at h
  split at h
  case h_4 => exact (Option.some.inj h).symm
  case h_5 => cases h
  all_goals exact absurd (by decide) hmethod

end Decode

/-! ## One message -/

namespace Session

variable {s : Session} {now : Nat} {method uri : String} {params : JsonValue} {d : Snapshot}

/-- The cache of a session that has left it alone, or has looked up an open document in it. -/
inductive Asked (now : Nat) (s : Session) : Cache Analysis → Prop where
  | never : Asked now s s.cache
  | lookup {uri : String} {d : Snapshot} (h : s.documents.snapshot? uri = some d) :
    Asked now s (s.cache.get (fun t => some (analyze s.engine t)) now uri d.version d.text).1

theorem document_eq (now : Nat) (uri : String) (s : Session) :
    ∃ cache, Asked now s cache ∧ (s.document now uri).1 = { s with cache } := by
  unfold document
  split
  · exact ⟨s.cache, .never, rfl⟩
  · next d hd => exact ⟨_, .lookup hd, rfl⟩

theorem answer_eq (now : Nat) (request : Request) (s : Session) :
    ∃ cache, Asked now s cache ∧ (s.answer now request).1 =
      { s with cache, shutdownRequested := s.shutdownRequested || request = .shutdown } := by
  cases request with
  | start => exact ⟨s.cache, .never, by simp [answer]⟩
  | shutdown => exact ⟨s.cache, .never, by simp [answer]⟩
  | _ =>
    simp only [answer, Request.uri?]
    generalize hstep : s.document now _ = step
    obtain ⟨cache, hcache, heq⟩ := hstep ▸ document_eq now _ s
    refine ⟨cache, hcache, ?_⟩
    obtain ⟨s', d⟩ := step
    cases d with
    | none => simpa using heq
    | some d => simpa using heq

/-- Of all requests only one to rename can fail once it is decoded. -/
theorem answer_error {request : Request} {e : RequestError}
    (h : (s.answer now request).2 = .error e) : ∃ error, e = .rename error := by
  cases request with
  | start => cases h
  | shutdown => cases h
  | rename place newName =>
    simp only [answer, Request.uri?] at h
    split at h
    · simp only [Request.answer] at h
      split at h
      · cases h
      · next error _ => exact ⟨error, (Except.error.inj h).symm⟩
    · cases h
  | _ =>
    simp only [answer, Request.uri?] at h
    split at h
    · cases h
    · cases h

/-- After the request to shut down all others are refused. -/
theorem onRequest_of_down (hdown : s.shutdownRequested = true) (hmethod : method ≠ "shutdown")
    (now : Nat) (params : JsonValue) :
    s.onRequest now method params = (s, .error .shuttingDown) :=
  if_pos (by simp [hdown, hmethod])

/-- What a request does to a session. -/
theorem onRequest_eq (now : Nat) (method : String) (params : JsonValue) (s : Session) :
    ∃ cache, Asked now s cache ∧ (s.onRequest now method params).1 =
      { s with cache, shutdownRequested := s.shutdownRequested || method = "shutdown" } := by
  unfold onRequest
  by_cases hrefused : (s.shutdownRequested && method != "shutdown") = true
  · rw [if_pos hrefused]
    rw [Bool.and_eq_true] at hrefused
    exact ⟨s.cache, .never, by rw [hrefused.1, Bool.true_or, ← hrefused.1]⟩
  · rw [if_neg hrefused]
    have hshutdown : Decode.request method params = some (.ok .shutdown) ↔ method = "shutdown" :=
      Decode.request_eq_shutdown_iff
    cases hdecoded : Decode.request method params with
    | none => exact ⟨s.cache, .never, by simp [← hshutdown, hdecoded]⟩
    | some decoded =>
      cases decoded with
      | error fault => exact ⟨s.cache, .never, by simp [← hshutdown, hdecoded]⟩
      | ok request =>
        obtain ⟨cache, hcache, heq⟩ := answer_eq now request s
        exact ⟨cache, hcache, by simpa [← hshutdown, hdecoded] using heq⟩

/-- The number of the error with which a request is answered. -/
theorem code_of_onRequest {e : RequestError} (h : (s.onRequest now method params).2 = .error e) :
    e.code = if s.shutdownRequested = false ∧ method ∉ requestMethods then
      RequestError.methodNotFound else RequestError.internalError := by
  rw [RequestError.code_eq]
  unfold onRequest at h
  by_cases hrefused : (s.shutdownRequested && method != "shutdown") = true
  · rw [if_pos hrefused] at h
    cases h
    rw [Bool.and_eq_true] at hrefused
    simp [hrefused.1]
  · rw [if_neg hrefused] at h
    cases hdecoded : Decode.request method params with
    | none =>
      have hmethod := Decode.request_eq_none_iff.1 hdecoded
      have hup : s.shutdownRequested = false := by
        by_contra hdown
        rw [Bool.not_eq_false] at hdown
        have hshutdown : method = "shutdown" := by simpa [hdown] using hrefused
        exact hmethod (hshutdown ▸ by decide)
      rw [hdecoded] at h
      cases h
      rw [if_pos ⟨hup, hmethod⟩]
    | some decoded =>
      have hknown : ¬ Decode.request method params = none := by simp [hdecoded]
      rw [if_neg fun hunknown => hknown (Decode.request_eq_none_iff.2 hunknown.2)]
      rw [hdecoded] at h
      cases decoded with
      | error fault =>
        cases h
        rfl
      | ok request =>
        obtain ⟨error, rfl⟩ := answer_error h
        rfl

/-- The session has published the diagnostics of one version of a document, if that is wanted. -/
def PublishesOnce (wanted : Bool) (uri : String) (version : Int) (sent : List Outgoing) : Prop :=
  if wanted then ∃ diagnostics, sent = [.published uri (some version) diagnostics] else sent = []

/-- The cache is asked for a version of a document whose diagnostics are published. -/
theorem publish_eq (now : Nat) (uri : String) (d : Snapshot) (s : Session) :
    (s.publish now uri d).1 = (if s.settings.publishes then
      { s with cache := (s.cache.get (fun t => some (analyze s.engine t)) now uri d.version d.text).1 }
      else s) ∧
    PublishesOnce s.settings.publishes uri d.version (s.publish now uri d).2 := by
  unfold publish PublishesOnce
  split
  · exact ⟨rfl, _, rfl⟩
  · exact ⟨rfl, rfl⟩

/-- A notification does not change the settings, nor whether the session is shut down. -/
theorem onNotification_frame (now : Nat) (s : Session) (n : Notification) :
    (s.onNotification now n).1.settings = s.settings ∧
      (s.onNotification now n).1.shutdownRequested = s.shutdownRequested := by
  have hstore (uri : String) (d : Snapshot) : (s.store now uri d).1.settings = s.settings ∧
      (s.store now uri d).1.shutdownRequested = s.shutdownRequested := by
    rw [store, (publish_eq ..).1]
    split
    · exact ⟨rfl, rfl⟩
    · exact ⟨rfl, rfl⟩
  cases n with
  | opened uri text version => exact hstore uri ⟨text, version⟩
  | changed uri text version =>
    cases text with
    | none => exact ⟨rfl, rfl⟩
    | some text => exact hstore uri ⟨text, version⟩
  | closed uri => exact ⟨rfl, rfl⟩
  | exit => exact ⟨rfl, rfl⟩

end Session

/-- Whether the message is the request to shut down. -/
def Message.isShutdown : Message → Bool
  | .request _ method _ => method = "shutdown"
  | _ => false

namespace Session

variable {s : Session}

/-- A message never changes the settings, and shuts the session down only if it asks for that. -/
theorem handle_frame (now : Nat) (s : Session) (m : Message) :
    (s.handle now m).1.settings = s.settings ∧
      (s.handle now m).1.shutdownRequested = (s.shutdownRequested || m.isShutdown) := by
  cases m with
  | request id method params =>
    obtain ⟨cache, -, heq⟩ := onRequest_eq now method params s
    rw [handle]
    simp only [heq, Message.isShutdown, and_self]
  | notification method params =>
    rw [show (Message.notification method params).isShutdown = false from rfl, Bool.or_false, handle]
    split
    · exact onNotification_frame now s _
    · exact ⟨rfl, rfl⟩
  | response => exact ⟨rfl, (Bool.or_false _).symm⟩

/-! ## Runs -/

/-- The session after messages one after another, each with its time of arrival. -/
def after (s : Session) (messages : List (Nat × Message)) : Session :=
  messages.foldl (fun s m => (s.handle m.1 m.2).1) s

theorem sent_append (s : Session) (xs ys : List (Nat × Message)) :
    s.sent (xs ++ ys) = s.sent xs ++ (s.after xs).sent ys := by
  induction xs generalizing s with
  | nil => rfl
  | cons x xs ih =>
    rw [List.cons_append, sent, sent, ih, List.cons_append]
    rfl

theorem after_frame (s : Session) (messages : List (Nat × Message)) :
    (s.after messages).settings = s.settings ∧ (s.after messages).shutdownRequested
      = (s.shutdownRequested || messages.any (·.2.isShutdown)) := by
  induction messages generalizing s with
  | nil => exact ⟨rfl, (Bool.or_false _).symm⟩
  | cons m rest ih =>
    obtain ⟨hsettings, hdown⟩ := handle_frame m.1 s m.2
    obtain ⟨hsettings', hdown'⟩ := ih (s.handle m.1 m.2).1
    exact ⟨hsettings'.trans hsettings, by rw [List.any_cons, ← Bool.or_assoc, ← hdown, ← hdown']; rfl⟩

/-! ## The protocol -/

end Session

/-- The identifier of a request. -/
def Message.requestId? : Message → Option JsonValue
  | .request id _ _ => some id
  | _ => none

/-- The identifier of the request that is responded to. -/
def Outgoing.requestId? : Outgoing → Option JsonValue
  | .answer id _ | .failure id _ => some id
  | .published .. => none

/-- What is sent at a notification that is understood, and at no other. -/
def Notification.Sends (publishes : Bool) (sent : List Outgoing) : Notification → Prop
  | .opened uri _ version | .changed uri (some _) version =>
    Session.PublishesOnce publishes uri version sent
  | .closed uri => sent = [.published uri none []]
  | .changed _ none _ | .exit => sent = []

/-- Notifications are not responded to. -/
theorem Notification.Sends.requestIds {publishes : Bool} {sent : List Outgoing} {n : Notification}
    (h : n.Sends publishes sent) : sent.filterMap Outgoing.requestId? = [] := by
  have honce {uri : String} {version : Int} (h : Session.PublishesOnce publishes uri version sent) :
      sent.filterMap Outgoing.requestId? = [] := by
    unfold Session.PublishesOnce at h
    split at h
    · obtain ⟨diagnostics, rfl⟩ := h
      rfl
    · rw [h, List.filterMap_nil]
  cases n with
  | opened uri text version => exact honce h
  | changed uri text version =>
    cases text with
    | none => rw [show sent = [] from h, List.filterMap_nil]
    | some text => exact honce h
  | closed uri =>
    rw [show sent = [.published uri none []] from h]
    rfl
  | exit => rw [show sent = [] from h, List.filterMap_nil]

namespace Session

/-- What the protocol asks of the step that a session takes at a message. Of the session before it
is known whether it was shut down, and whether it publishes diagnostics. -/
def Proper (down publishes : Bool) (s : Session) (step : Session × List Outgoing) : Message → Prop
  | .request id method _ => ∃ result, step.2 = [reply id result] ∧
      (∀ e, result = .error e → e.code = if down = false ∧ method ∉ requestMethods then
        RequestError.methodNotFound else RequestError.internalError) ∧
      (down = true → method ≠ "shutdown" → (∃ e, result = .error e) ∧
        step.1.documents = s.documents ∧ step.1.cache = s.cache)
  | .notification method params =>
    (method ∉ documentMethods → step.2 = []) ∧
      (Decode.notification method params = none → step.2 = []) ∧
      ∀ n, Decode.notification method params = some n → n.Sends publishes step.2
  | .response => step.2 = []

theorem onNotification_sends (now : Nat) (s : Session) (n : Notification) :
    n.Sends s.settings.publishes (s.onNotification now n).2 := by
  have hstore (uri : String) (d : Snapshot) :
      PublishesOnce s.settings.publishes uri d.version (s.store now uri d).2 :=
    (publish_eq now uri d { s with documents := s.documents.put uri d.text d.version }).2
  cases n with
  | opened uri text version => exact hstore uri ⟨text, version⟩
  | changed uri text version =>
    cases text with
    | none => rfl
    | some text => exact hstore uri ⟨text, version⟩
  | closed uri => rfl
  | exit => rfl

theorem handle_proper (now : Nat) (s : Session) (m : Message) :
    Proper s.shutdownRequested s.settings.publishes s (s.handle now m) m := by
  cases m with
  | request id method params =>
    refine ⟨(s.onRequest now method params).2, rfl, fun e he => code_of_onRequest he,
      fun hdown hmethod => ?_⟩
    rw [handle, onRequest_of_down hdown hmethod]
    exact ⟨⟨_, rfl⟩, rfl, rfl⟩
  | notification method params =>
    rw [Proper, handle]
    cases hn : Decode.notification method params with
    | none =>
      refine ⟨fun _ => rfl, fun _ => rfl, ?_⟩
      rintro _ ⟨⟩
    | some n =>
      refine ⟨fun hmethod => ?_, ?_, ?_⟩
      · rw [Decode.notification_of_not_mem hmethod hn]
        rfl
      · rintro ⟨⟩
      · rintro _ ⟨⟩
        exact onNotification_sends now s n
  | response => rfl

/-- A request is responded to once, and nothing else is. -/
theorem requestIds_handle (now : Nat) (s : Session) (m : Message) :
    (s.handle now m).2.filterMap Outgoing.requestId? = m.requestId?.toList := by
  cases m with
  | request id method params =>
    obtain ⟨result, hsent, -⟩ := handle_proper now s (.request id method params)
    rw [hsent]
    cases result with
    | error e => rfl
    | ok value => rfl
  | notification method params =>
    rw [handle]
    cases Decode.notification method params with
    | none => rfl
    | some n => exact (onNotification_sends now s n).requestIds
  | response => rfl

theorem requestIds_sent (s : Session) (messages : List (Nat × Message)) :
    (s.sent messages).flatten.filterMap Outgoing.requestId?
      = (messages.map (·.2)).filterMap Message.requestId? := by
  induction messages generalizing s with
  | nil => rfl
  | cons m rest ih =>
    rw [sent, List.flatten_cons, List.filterMap_append, requestIds_handle, ih, List.map_cons,
      List.filterMap_cons]
    cases m.2.requestId? with
    | none => rfl
    | some id => rfl

/-- **Messages are handled by the protocol.** A session with any settings responds to the requests
among any messages one by one, in their order and under their identifiers. At any further message,
it takes a step that is proper for a session which is shut down if one of the messages has asked for
that, and which publishes diagnostics if the settings say so. -/
theorem conversation (settings : Settings) (messages : List (Nat × Message)) :
    ((start settings).sent messages).flatten.filterMap Outgoing.requestId?
        = (messages.map (·.2)).filterMap Message.requestId? ∧
      ∀ now m, (start settings).sent (messages ++ [(now, m)])
          = (start settings).sent messages ++ [(((start settings).after messages).handle now m).2] ∧
        Proper (messages.any (·.2.isShutdown)) settings.publishes ((start settings).after messages)
          (((start settings).after messages).handle now m) m := by
  refine ⟨requestIds_sent _ messages, fun now m => ⟨sent_append _ messages [(now, m)], ?_⟩⟩
  obtain ⟨hsettings, hdown⟩ := after_frame (start settings) messages
  have hproper := handle_proper now ((start settings).after messages) m
  rwa [hsettings, hdown] at hproper

end Session
end PipelineLang.Server
