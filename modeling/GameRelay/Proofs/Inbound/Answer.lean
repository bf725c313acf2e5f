import GameRelay.Inbound.Serving
import GameRelay.Proofs.Json.Extension.Record

/-!
# Requests and their answers

A request asks for one callback at most: the notice of a game whose identity it
carries, or the status. An exchange is a request with the callback that ran for
it and with its reply, and `Sound` says which exchanges there may be.
-/

set_option autoImplicit false

namespace GameRelay.Inbound

open GameRelay.Frame GameRelay.Json GameRelay.Text

inductive Asks (r : Request) : Notice → Prop where
  | connected (game : Identity) : r.method = Method.gameConnected →
      Identity.ofValue r.argument = .ok game → Asks r (.connected game.name)
  | closed (game : Identity) : r.method = Method.gameClosed →
      Identity.ofValue r.argument = .ok game → Asks r (.closed game.name)
  | status : r.method = Method.status → Asks r .status

theorem identity_of_map {r : Request} {make : Identity → Call} {call : Call}
    (h : (Call.identity r).map make = .ok call) :
    ∃ game, Identity.ofValue r.argument = .ok game ∧ make game = call := by
  unfold Call.identity at h
  cases hgame : Identity.ofValue r.argument with
  | ok game =>
    rw [hgame] at h
    exact ⟨game, rfl, Except.ok.inj h⟩
  | error what =>
    rw [hgame] at h
    exact nomatch (h : (Except.error _ : Except Rejection Call) = .ok call)

theorem asks_of_ok {r : Request} {call : Call} (h : Call.ofRequest r = .ok call) :
    Asks r call.notice := by
  unfold Call.ofRequest at h
  split at h
  · rename_i hmethod
    obtain ⟨game, hgame, rfl⟩ := identity_of_map h
    exact .connected game hmethod hgame
  · split at h
    · rename_i hmethod
      obtain ⟨game, hgame, rfl⟩ := identity_of_map h
      exact .closed game hmethod hgame
    · split at h
      · rename_i hmethod
        obtain rfl := Except.ok.inj h
        exact .status hmethod
      · simp at h

theorem ok_of_asks {r : Request} {notice : Notice} (h : Asks r notice) :
    ∃ call, Call.ofRequest r = .ok call ∧ call.notice = notice := by
  cases h with
  | connected game hmethod hgame =>
    refine ⟨.gameConnected game, ?_, rfl⟩
    rw [Call.ofRequest, if_pos hmethod, Call.identity, hgame]
    rfl
  | closed game hmethod hgame =>
    have hconnected : r.method ≠ Method.gameConnected := hmethod ▸ by decide
    refine ⟨.gameClosed game, ?_, rfl⟩
    rw [Call.ofRequest, if_neg hconnected, if_pos hmethod, Call.identity, hgame]
    rfl
  | status hmethod =>
    have hconnected : r.method ≠ Method.gameConnected := hmethod ▸ by decide
    have hclosed : r.method ≠ Method.gameClosed := hmethod ▸ by decide
    refine ⟨.status, ?_, rfl⟩
    rw [Call.ofRequest, if_neg hconnected, if_neg hclosed, if_pos hmethod]

/-- A request that is turned down asks for nothing. -/
theorem not_asks_of_error {r : Request} {why : Rejection} (h : Call.ofRequest r = .error why)
    (notice : Notice) : ¬ Asks r notice := by
  intro hasks
  obtain ⟨call, hcall, -⟩ := ok_of_asks hasks
  simp [hcall] at h

structure Exchange where
  request : Request
  callback : Option (Notice × Reaction)
  response : Response

namespace Exchange

inductive Sound : Exchange → Prop where
  | acknowledged (r : Request) (notice : Notice) (value : Value) : Asks r notice →
      notice ≠ .status → Sound ⟨r, some (notice, .returned value), ⟨r.id, .null, none⟩⟩
  | told (r : Request) (value : Value) : Asks r .status →
      Sound ⟨r, some (.status, .returned value), ⟨r.id, value, none⟩⟩
  | panicked (r : Request) (notice : Notice) (task : String) (text : Option String)
      (message : String) : Asks r notice →
      Sound ⟨r, some (notice, .panicked task text), ⟨r.id, .null, some message⟩⟩
  /-- Nothing that is asked of us can be made of the request. -/
  | refused (r : Request) (message : String) : (∀ notice, ¬ Asks r notice) →
      Sound ⟨r, none, ⟨r.id, .null, some message⟩⟩

theorem sound_of_call {r : Request} {call : Call} (h : Call.ofRequest r = .ok call)
    (reaction : Reaction) :
    Sound ⟨r, some (call.notice, reaction), call.respond r reaction⟩ := by
  have hasks := asks_of_ok h
  cases reaction with
  | panicked task text => exact .panicked r call.notice task text _ hasks
  | returned value =>
    cases call with
    | gameConnected game => exact .acknowledged r (.connected game.name) value hasks (by simp)
    | gameClosed game => exact .acknowledged r (.closed game.name) value hasks (by simp)
    | status => exact .told r value hasks

theorem sound_of_error {r : Request} {why : Rejection} (h : Call.ofRequest r = .error why) :
    Sound ⟨r, none, .failed r.id why.message⟩ :=
  .refused r why.message (not_asks_of_error h)

end Exchange

/-! ## Which lines are requests -/

def requestOf? (bytes : List UInt8) : Option Request :=
  match decodeLine bytes with
  | .ok text => (Request.parse text).toOption
  | .error _ => none

theorem parse_of_requestOf? {line : List UInt8} {r : Request} (h : requestOf? line = some r) :
    ∃ text, decodeLine line = .ok text ∧ Request.parse text = .ok r := by
  unfold requestOf? at h
  cases hline : decodeLine line with
  | error what => simp [hline] at h
  | ok text =>
    cases hparse : Request.parse text with
    | error e => simp [hline, hparse, Except.toOption] at h
    | ok r' =>
      obtain rfl : r' = r := by simpa [hline, hparse, Except.toOption] using h
      exact ⟨text, rfl, hparse⟩

/-- A text that opens no bracket is no record. -/
theorem parse_error_of_head {schema : Schema} {text : String}
    (hlist : (skipSpace text.toList).head? ≠ some '[')
    (hobject : (skipSpace text.toList).head? ≠ some '\x7b') :
    ∃ e, schema.parse text = .error e := by
  have hread : ∀ fuel, ∃ fault, schema.read fuel text.toList = .error fault := by
    intro fuel
    unfold Schema.read
    split
    · rename_i h
      simp [h] at hlist
    · rename_i h
      simp [h] at hobject
    · exact readOther_error _ _
  obtain ⟨fault, hfault⟩ := hread (2 * text.toList.length + 1)
  refine ⟨fault.locate text, ?_⟩
  simp only [Schema.parse, readWith, hfault]
  rfl

theorem not_blank_of_bracket {c : Char} (h : c = '[' ∨ c = '\x7b') : isBlankChar c = false := by
  rcases h with rfl | rfl <;> decide

/-- A blank line is no request. -/
theorem parse_of_blank {text : String} (h : isBlank text.toList = true) :
    ∃ e, Request.parse text = .error e := by
  have hhead : ∀ c, (skipSpace text.toList).head? = some c → isBlankChar c = true := by
    intro c hc
    have hmem : c ∈ text.toList :=
      (List.dropWhile_sublist isSpace).subset (List.mem_of_mem_head? hc)
    exact List.all_eq_true.mp h c hmem
  have hbracket : ∀ c, c = '[' ∨ c = '\x7b' → (skipSpace text.toList).head? ≠ some c := by
    intro c hc hopen
    have := hhead c hopen
    simp [not_blank_of_bracket hc] at this
  obtain ⟨e, he⟩ : ∃ e, Request.schema.parse text = .error e :=
    parse_error_of_head (hbracket _ (.inl rfl)) (hbracket _ (.inr rfl))
  exact ⟨e, by rw [Request.parse, he]; rfl⟩

/-- What can become of a line that is text. -/
theorem incoming_cases {bytes : List UInt8} {text : String} (h : decodeLine bytes = .ok text) :
    (Incoming.ofLine bytes = .blank ∧ requestOf? bytes = none) ∨
      (∃ e, Incoming.ofLine bytes = .notRequest e ∧ requestOf? bytes = none) ∨
      ∃ r, Incoming.ofLine bytes = .request r ∧ requestOf? bytes = some r := by
  by_cases hblank : isBlank text.toList = true
  · obtain ⟨e, he⟩ := parse_of_blank hblank
    exact .inl ⟨by simp [Incoming.ofLine, h, hblank], by simp [requestOf?, h, he, Except.toOption]⟩
  · cases hparse : Request.parse text with
    | error e =>
      exact .inr (.inl ⟨e, by simp [Incoming.ofLine, h, hblank, hparse],
        by simp [requestOf?, h, hparse, Except.toOption]⟩)
    | ok r =>
      exact .inr (.inr ⟨r, by simp [Incoming.ofLine, h, hblank, hparse],
        by simp [requestOf?, h, hparse, Except.toOption]⟩)

end GameRelay.Inbound
