import GameRelay.Proofs.Frame.Response
import GameRelay.Proofs.Inbound.Alone

/-!
# Replies carry the id of their request

The replies of a connection stand in the order of the lines that are requests. Each
has the id of its request, and goes over the link as it is unless a floating-point
number is in the id or in the status.
-/

set_option autoImplicit false

namespace GameRelay.Inbound

open GameRelay.Frame GameRelay.Json GameRelay.Text

def accepted (parts : List (List UInt8)) : List (List UInt8) :=
  parts.filter fun line => (requestOf? line).isSome

/-! ## The reply to a request -/

section
variable {σ : Type} (consumer : Consumer σ) (state : σ) (r : Request)

theorem id_respond : (respond consumer state r).response.id = r.id := by
  unfold respond
  split
  · rfl
  · rename_i call hcall
    cases h : (consumer.handle state call.notice).2 <;> simp [h, Call.respond, Response.ok,
      Response.failed]

/-- Only a status has a result. -/
theorem result_respond (h : r.method ≠ Method.status) :
    (respond consumer state r).response.result = .null := by
  unfold respond
  split
  · rfl
  · rename_i call hcall
    have hcall' : call ≠ .status := by
      rintro rfl
      have hasks := asks_of_ok hcall
      cases hasks with
      | status hmethod => exact h hmethod
    cases hreaction : (consumer.handle state call.notice).2 with
    | returned value => cases call <;> simp_all [Call.respond, Response.ok, Call.result]
    | panicked task text => simp [hreaction, Call.respond, Response.failed]

end

theorem accepted_cons_none {line : List UInt8} (h : requestOf? line = none)
    (parts : List (List UInt8)) : accepted (line :: parts) = accepted parts := by
  simp [accepted, h]

theorem accepted_cons_some {line : List UInt8} {r : Request} (h : requestOf? line = some r)
    (parts : List (List UInt8)) : accepted (line :: parts) = line :: accepted parts := by
  simp [accepted, h]

/-- The i-th reply answers the i-th request. -/
theorem reply_of_serveLines {σ : Type} (consumer : Consumer σ) (state : σ)
    (parts : List (List UInt8)) {i : Nat} {line : List UInt8} {reply : Response}
    (hline : (accepted parts)[i]? = some line)
    (hreply : (serveLines consumer state parts).responses[i]? = some reply) :
    ∃ request state', requestOf? line = some request ∧
      reply = (respond consumer state' request).response := by
  induction parts generalizing i state with
  | nil => simp [accepted] at hline
  | cons first parts ih =>
    cases hfirst : decodeLine first with
    | error what => simp [serveLines, Incoming.ofLine, hfirst] at hreply
    | ok text =>
      rcases incoming_cases hfirst with ⟨hblank, hnone⟩ | ⟨e, he, hnone⟩ | ⟨r, hr, hsome⟩
      · rw [accepted_cons_none hnone] at hline
        simp only [serveLines, hblank] at hreply
        exact ih state hline hreply
      · rw [accepted_cons_none hnone] at hline
        simp only [serveLines, he, ServedStream.reporting] at hreply
        exact ih state hline hreply
      · rw [accepted_cons_some hsome] at hline
        simp only [serveLines, hr, ServedStream.after] at hreply
        cases i with
        | zero =>
          obtain rfl : first = line := Option.some.inj hline
          obtain rfl := Option.some.inj hreply
          exact ⟨r, state, hsome, rfl⟩
        | succ i => exact ih _ hline hreply

/-- As many replies as there are requests, if no line stops the connection. -/
theorem length_serveLines {σ : Type} (consumer : Consumer σ) (state : σ) (parts : List (List UInt8))
    (htext : ∀ line ∈ parts, ∃ text, decodeLine line = .ok text) :
    (serveLines consumer state parts).responses.length = (accepted parts).length := by
  induction parts generalizing state with
  | nil => rfl
  | cons first parts ih =>
    obtain ⟨text, hfirst⟩ := htext first List.mem_cons_self
    have hrest := fun state => ih state fun line hline => htext line (List.mem_cons_of_mem _ hline)
    rcases incoming_cases hfirst with ⟨hblank, hnone⟩ | ⟨e, he, hnone⟩ | ⟨r, hr, hsome⟩
    · simp only [serveLines, hblank, accepted_cons_none hnone, hrest]
    · simp only [serveLines, he, ServedStream.reporting, accepted_cons_none hnone, hrest]
    · simp only [serveLines, hr, ServedStream.after, accepted_cons_some hsome, List.length_cons,
        hrest]

structure Echoes (line : List UInt8) (reply : Response) : Prop where
  repeats : ∃ request, requestOf? line = some request ∧ reply.id = request.id ∧
    (request.id.FloatFree →
      (request.method = Method.status → Readable (depthLimit - 1) reply.result) → reply.Carried)
  called : ∀ method argument n, line = encode (Request.call method argument n).line →
    reply.callId? = some n

theorem echoes_respond {σ : Type} (consumer : Consumer σ) (state : σ) {line : List UInt8}
    {r : Request} (h : requestOf? line = some r) :
    Echoes line (respond consumer state r).response := by
  have hid := id_respond consumer state r
  obtain ⟨text, htext, hparse⟩ := parse_of_requestOf? h
  have hformed := (Request.wellFormed_of_parse hparse).2
  constructor
  · refine ⟨r, h, hid, ?_⟩
    intro hfree hstatus
    have hresult : Readable (depthLimit - 1) (respond consumer state r).response.result := by
      by_cases hmethod : r.method = Method.status
      · exact hstatus hmethod
      · rw [result_respond consumer state r hmethod]
        exact ⟨trivial, trivial, by decide⟩
    exact Response.carried_of_readable (hid ▸ ⟨hfree, hformed.ordered, hformed.depth⟩) hresult
  · rintro method argument n rfl
    rw [decodeLine_encode] at htext
    obtain rfl := Except.ok.inj htext
    have hnumber : Readable (depthLimit - 1) (Request.call method argument n).id :=
      readable_int _ (by decide)
    rw [Response.callId?, hid, Request.id_of_parse_line hnumber hparse]
    exact Value.word?_ofUInt64 n

/-- A call of ours is accepted as it was made. -/
theorem requestOf?_call (method : String) {argument : Value}
    (h : Readable (depthLimit - 2) argument) (n : UInt64) :
    requestOf? (encode (Request.call method argument n).line) =
      some (Request.call method argument n) := by
  have hparams : Readable (depthLimit - 1) (Request.call method argument n).params := by
    refine ⟨⟨h.free, trivial⟩, ⟨h.ordered, trivial⟩, ?_⟩
    have hdepth := h.depth
    simp only [Request.call, Value.depth, Value.depthItems, depthLimit] at hdepth ⊢
    omega
  have hid : Readable (depthLimit - 1) (Request.call method argument n).id :=
    readable_int _ (by decide)
  simp only [requestOf?, decodeLine_encode, Request.parse_line hparams hid]
  rfl

namespace Serving

theorem ended_of_not_isOpen {s : Serving} (h : s.isOpen = false) : s.phase = .ended := by
  unfold isOpen at h
  split at h
  · assumption
  · cases h

theorem run_echoes (events : List ServingEvent) {i : Nat} {line : List UInt8} {reply : Response}
    (hline : (accepted (lines (ServingEvent.received events)))[i]? = some line)
    (hreply : (({} : Serving).run events).written[i]? = some reply) : Echoes line reply := by
  obtain ⟨taken, hfollows⟩ := follows_run False events [] nofun
  rw [List.append_nil] at hfollows
  have htaken : taken <+: lines (ServingEvent.received events) :=
    (List.prefix_append taken _).trans hfollows.stream.isPrefix
  obtain ⟨more, hmore⟩ := (hfollows.alone.isPrefix htaken).1
  have hlt := (List.getElem?_eq_some_iff.mp hreply).1
  have hall : ((({} : Serving).run events).written ++ more)[i]? = some reply :=
    (List.getElem?_append_left hlt).trans hreply
  rw [hmore] at hall
  obtain ⟨request, state, hrequest, rfl⟩ := reply_of_serveLines scripted _ _ hline hall
  exact echoes_respond scripted state hrequest

end Serving

/-- Responses are carried as they are; every line that is accepted has the reply that repeats its
id, and none is left over once an unbroken connection has ended. -/
theorem replies_carried :
    (∀ r : Response, Readable (depthLimit - 1) r.id → Readable (depthLimit - 1) r.result →
      r.Carried) ∧
    (∀ (events : List ServingEvent) (i : Nat) (line : List UInt8)
      (reply : Response), (accepted (lines (ServingEvent.received events)))[i]? = some line →
      (({} : Serving).run events).written[i]? = some reply → Echoes line reply) ∧
    (∀ (events : List ServingEvent), (∀ event ∈ events, event.breaks = false) →
      (∀ line ∈ lines (ServingEvent.received events), ∃ text, decodeLine line = .ok text) →
      (({} : Serving).run events).phase = .ended →
      (({} : Serving).run events).written.length =
        (accepted (lines (ServingEvent.received events))).length) ∧
    ∀ (method : String) (argument : Value) (n : UInt64), Readable (depthLimit - 2) argument →
      requestOf? (encode (Request.call method argument n).line) =
        some (Request.call method argument n) := by
  refine ⟨fun r hid hresult => Response.carried_of_readable hid hresult,
    fun events i line reply hline hreply => Serving.run_echoes events hline hreply, ?_,
    fun method argument n h => requestOf?_call method h n⟩
  intro events hcalm htext hended
  obtain ⟨taken, hfollows⟩ := Serving.follows_run True events [] fun _ => hcalm
  rw [List.append_nil] at hfollows
  rw [← (hfollows.complete trivial hended).responses]
  exact length_serveLines scripted _ _ htext

def askedForStatus : List ServingEvent :=
  [.arrive ((encode (Request.call Method.status .null 7).line).take 3), .read,
    .arrive ((encode (Request.call Method.status .null 7).line).drop 3), .finish .closed, .read,
    .handled (.returned (.bool true)), .write, .read]

theorem replies_carried_status :
    (Response.failed (.number (.ofUInt64 7)) "rpc: can't find method \"é\n\"").Carried ∧
    (∃ reply, (({} : Serving).run askedForStatus).written[0]? = some reply ∧
      Echoes (encode (Request.call Method.status .null 7).line) reply) ∧
    (({} : Serving).run askedForStatus).written.length =
      (accepted (lines (ServingEvent.received askedForStatus))).length ∧
    requestOf? (encode (Request.call Method.status .null 7).line) =
      some (Request.call Method.status .null 7) := by
  have hended : (({} : Serving).run askedForStatus).phase = .ended :=
    Serving.ended_of_not_isOpen (by decide +kernel)
  have hbytes : ServingEvent.received askedForStatus =
      encode (Request.call Method.status .null 7).line := by decide +kernel
  have hreply : (({} : Serving).run askedForStatus).written[0]?.isSome = true := by
    decide +kernel
  obtain ⟨reply, hreply⟩ := Option.isSome_iff_exists.mp hreply
  refine ⟨replies_carried.1 _ ⟨trivial, trivial, by decide⟩ ⟨trivial, trivial, by decide⟩,
    ⟨reply, hreply, replies_carried.2.1 askedForStatus 0 _ _ (by decide +kernel) hreply⟩,
    replies_carried.2.2.1 askedForStatus (by decide) ?_ hended,
    replies_carried.2.2.2 Method.status .null 7 ⟨trivial, trivial, by decide⟩⟩
  intro line hline
  rw [hbytes] at hline
  exact decodeLine_of_mem_lines hline

end GameRelay.Inbound
