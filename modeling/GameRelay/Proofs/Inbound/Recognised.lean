import GameRelay.Proofs.Frame.Members
import GameRelay.Proofs.Inbound.Answer

/-!
# Which calls of the relay are recognised

The method alone tells what is asked for. The two notices need the identity of a game as
their argument: an object with these members, or a list of the name and the password. The
argument is the first item of a list of parameters, or the bare parameters.
-/

set_option autoImplicit false

namespace GameRelay.Frame

open GameRelay.Json

/-! ## Which values are identities -/

inductive Identity.Named : Value → Identity → Prop where
  /-- Other members may be there, and the password may be absent. -/
  | object {ms : List (String × Value)} {g : Identity} : From ms g → Named (.object ms) g
  | name (name : String) : Named (.list [.text name]) (.named name)
  | both (name password : String) : Named (.list [.text name, .text password]) ⟨name, password⟩

theorem Identity.ofValue_object_iff {ms : List (String × Value)} {g : Identity} :
    ofValue (.object ms) = .ok g ↔ From ms g := by
  rw [from_iff, ← Json.ofValue_object_iff (by decide)]
  exact map_eq_ok_iff_of_inverse (fun _ => rfl) fun _ => rfl

theorem Identity.ofValue_list_cons {first : Value} {rest : List Value} {g : Identity}
    (h : ofValue (.list (first :: rest)) = .ok g) : ∃ name, first = .text name := by
  cases first with
  | text name => exact ⟨name, rfl⟩
  | null | bool | number | list | object => cases h

/-- By position, and no item may be left over. -/
theorem Identity.ofValue_list_iff {items : List Value} {g : Identity} :
    ofValue (.list items) = .ok g ↔
      items = [.text g.name] ∧ g.password = "" ∨ items = [.text g.name, .text g.password] := by
  constructor
  · intro h
    match items with
    | [] => cases h
    | [first] =>
      obtain ⟨name, rfl⟩ := ofValue_list_cons h
      obtain rfl := Except.ok.inj h
      exact .inl ⟨rfl, rfl⟩
    | [first, second] =>
      obtain ⟨name, rfl⟩ := ofValue_list_cons h
      cases second with
      | text password =>
        obtain rfl := Except.ok.inj h
        exact .inr rfl
      | null | bool | number | list | object => cases h
    | first :: second :: third :: rest =>
      obtain ⟨name, rfl⟩ := ofValue_list_cons h
      cases second with
      | text | null | bool | number | list | object => cases h
  · obtain ⟨name, password⟩ := g
    rintro (⟨rfl, rfl⟩ | rfl) <;> rfl

theorem Identity.ofValue_iff {v : Value} {g : Identity} : ofValue v = .ok g ↔ Named v g := by
  constructor
  · intro h
    cases v with
    | object ms => exact .object (ofValue_object_iff.mp h)
    | list items =>
      obtain ⟨name, password⟩ := g
      rcases ofValue_list_iff.mp h with ⟨rfl, rfl⟩ | rfl
      · exact .name name
      · exact .both name password
    | null | bool | number | text => cases h
  · intro h
    cases h with
    | object hfrom => exact ofValue_object_iff.mpr hfrom
    | name name => rfl
    | both name password => rfl

theorem Identity.ofValue_error_iff {v : Value} :
    (∃ what, ofValue v = .error what) ↔ ∀ g, ¬ Named v g := by
  simp only [← ofValue_iff]
  cases ofValue v <;> simp

theorem Request.argument_of_bare {r : Request} (h : ∀ items, r.params ≠ .list items) :
    r.argument = r.params := by
  unfold argument
  split
  · rename_i hparams
    exact absurd hparams (h _)
  · rename_i hparams
    exact absurd hparams (h _)
  · rfl

end GameRelay.Frame

namespace GameRelay.Inbound

open GameRelay.Frame GameRelay.Json

/-! ## Which requests are calls -/

def knownMethods : List String := [Method.gameConnected, Method.gameClosed, Method.status]

theorem head?_append {lead : String} {c : Char} (h : lead.toList.head? = some c) (rest : String) :
    (lead ++ rest).toList.head? = some c := by
  rw [String.toList_append, List.head?_append, h]
  rfl

/-- The two texts differ in their first character. -/
theorem message_invalidParams_ne (method other : String) (what : Mismatch) :
    (Rejection.invalidParams method what).message ≠ s!"rpc: can't find method {other}" := by
  have hi : "invalid params for ".toList.head? = some 'i' := rfl
  have hr : "rpc: can't find method ".toList.head? = some 'r' := rfl
  have hinvalid : (Rejection.invalidParams method what).message.toList.head? = some 'i' :=
    head?_append (head?_append (head?_append hi _) _) _
  have hunknown : s!"rpc: can't find method {other}".toList.head? = some 'r' :=
    head?_append hr _
  intro h
  rw [h, hunknown] at hinvalid
  cases hinvalid

namespace Call

section
variable {r : Request}

theorem ofRequest_connected (h : r.method = Method.gameConnected) :
    ofRequest r = (identity r).map .gameConnected := by
  rw [ofRequest, if_pos h]

theorem ofRequest_closed (h : r.method = Method.gameClosed) :
    ofRequest r = (identity r).map .gameClosed := by
  have hconnected : r.method ≠ Method.gameConnected := h ▸ by decide
  rw [ofRequest, if_neg hconnected, if_pos h]

theorem ofRequest_status (h : r.method = Method.status) : ofRequest r = .ok .status := by
  have hconnected : r.method ≠ Method.gameConnected := h ▸ by decide
  have hclosed : r.method ≠ Method.gameClosed := h ▸ by decide
  rw [ofRequest, if_neg hconnected, if_neg hclosed, if_pos h]

theorem ofRequest_unknown (h : r.method ∉ knownMethods) :
    ofRequest r = .error (.unknownMethod r.method) := by
  simp only [knownMethods, List.mem_cons, List.not_mem_nil, or_false, not_or] at h
  rw [ofRequest, if_neg h.1, if_neg h.2.1, if_neg h.2.2]

theorem identity_ok {g : Identity} (h : Identity.Named r.argument g) : identity r = .ok g := by
  rw [identity, Identity.ofValue_iff.mpr h]
  rfl

theorem identity_error (h : ∀ g, ¬ Identity.Named r.argument g) :
    ∃ what, identity r = .error (.invalidParams r.method what) := by
  obtain ⟨what, hwhat⟩ := Identity.ofValue_error_iff.mpr h
  exact ⟨what, by rw [identity, hwhat]; rfl⟩

theorem identity_cases (r : Request) :
    (∃ g, identity r = .ok g ∧ Identity.Named r.argument g) ∨
      ∃ what, identity r = .error (.invalidParams r.method what) ∧
        ∀ g, ¬ Identity.Named r.argument g := by
  by_cases h : ∃ g, Identity.Named r.argument g
  · obtain ⟨g, hg⟩ := h
    exact .inl ⟨g, identity_ok hg, hg⟩
  · have hnone : ∀ g, ¬ Identity.Named r.argument g := fun g hg => h ⟨g, hg⟩
    obtain ⟨what, hwhat⟩ := identity_error hnone
    exact .inr ⟨what, hwhat, hnone⟩

end

inductive Becomes (r : Request) : Except Rejection Call → Prop where
  | connected (g : Identity) : r.method = Method.gameConnected → Identity.Named r.argument g →
      Becomes r (.ok (.gameConnected g))
  | closed (g : Identity) : r.method = Method.gameClosed → Identity.Named r.argument g →
      Becomes r (.ok (.gameClosed g))
  | status : r.method = Method.status → Becomes r (.ok .status)
  | invalid (what : Mismatch) : r.method = Method.gameConnected ∨ r.method = Method.gameClosed →
      (∀ g, ¬ Identity.Named r.argument g) → Becomes r (.error (.invalidParams r.method what))
  | unknown : r.method ∉ knownMethods → Becomes r (.error (.unknownMethod r.method))

theorem ofRequest_becomes (r : Request) : Becomes r (ofRequest r) := by
  by_cases hknown : r.method ∈ knownMethods
  · simp only [knownMethods, List.mem_cons, List.not_mem_nil, or_false] at hknown
    rcases hknown with hconnected | hclosed | hstatus
    · rw [ofRequest_connected hconnected]
      rcases identity_cases r with ⟨g, hg, hnamed⟩ | ⟨what, hwhat, hnone⟩
      · rw [hg]
        exact .connected g hconnected hnamed
      · rw [hwhat]
        exact .invalid what (.inl hconnected) hnone
    · rw [ofRequest_closed hclosed]
      rcases identity_cases r with ⟨g, hg, hnamed⟩ | ⟨what, hwhat, hnone⟩
      · rw [hg]
        exact .closed g hclosed hnamed
      · rw [hwhat]
        exact .invalid what (.inr hclosed) hnone
    · rw [ofRequest_status hstatus]
      exact .status hstatus
  · rw [ofRequest_unknown hknown]
    exact .unknown hknown

section
variable {r : Request}

theorem becomes_of_eq {outcome : Except Rejection Call} (h : ofRequest r = outcome) :
    Becomes r outcome :=
  h ▸ ofRequest_becomes r

theorem ofRequest_status_iff : ofRequest r = .ok .status ↔ r.method = Method.status := by
  constructor
  · intro h
    cases becomes_of_eq h with
    | status hmethod => exact hmethod
  · exact ofRequest_status

theorem ofRequest_connected_iff {g : Identity} :
    ofRequest r = .ok (.gameConnected g) ↔
      r.method = Method.gameConnected ∧ Identity.Named r.argument g := by
  constructor
  · intro h
    cases becomes_of_eq h with
    | connected _ hmethod hnamed => exact ⟨hmethod, hnamed⟩
  · rintro ⟨hmethod, hnamed⟩
    rw [ofRequest_connected hmethod, identity_ok hnamed]
    rfl

theorem ofRequest_closed_iff {g : Identity} :
    ofRequest r = .ok (.gameClosed g) ↔
      r.method = Method.gameClosed ∧ Identity.Named r.argument g := by
  constructor
  · intro h
    cases becomes_of_eq h with
    | closed _ hmethod hnamed => exact ⟨hmethod, hnamed⟩
  · rintro ⟨hmethod, hnamed⟩
    rw [ofRequest_closed hmethod, identity_ok hnamed]
    rfl

theorem ofRequest_invalid_iff :
    (∃ what, ofRequest r = .error (.invalidParams r.method what)) ↔
      (r.method = Method.gameConnected ∨ r.method = Method.gameClosed) ∧
        ∀ g, ¬ Identity.Named r.argument g := by
  constructor
  · rintro ⟨what, h⟩
    cases becomes_of_eq h with
    | invalid _ hmethod hnone => exact ⟨hmethod, hnone⟩
  · rintro ⟨hmethod, hnone⟩
    obtain ⟨what, hwhat⟩ := identity_error hnone
    refine ⟨what, ?_⟩
    rcases hmethod with hconnected | hclosed
    · rw [ofRequest_connected hconnected, hwhat]
      rfl
    · rw [ofRequest_closed hclosed, hwhat]
      rfl

theorem ofRequest_unknown_iff :
    (∃ why, ofRequest r = .error why ∧
      why.message = s!"rpc: can't find method {r.method}") ↔ r.method ∉ knownMethods := by
  constructor
  · rintro ⟨why, h, hmessage⟩
    cases becomes_of_eq h with
    | invalid what => exact absurd hmessage (message_invalidParams_ne _ _ what)
    | unknown hmethod => exact hmethod
  · intro hmethod
    exact ⟨_, ofRequest_unknown hmethod, rfl⟩

end

/-- Nothing but the method and the argument counts. -/
theorem ofRequest_congr {r r' : Request} (hmethod : r'.method = r.method)
    (hargument : r'.argument = r.argument) : ofRequest r' = ofRequest r := by
  simp only [ofRequest, identity, hmethod, hargument]

structure Recognised (r : Request) : Prop where
  /-- The argument of a status request is not looked at. -/
  status_iff : ofRequest r = .ok .status ↔ r.method = Method.status
  connected_iff : ∀ g : Identity, ofRequest r = .ok (.gameConnected g) ↔
    r.method = Method.gameConnected ∧ Identity.Named r.argument g
  closed_iff : ∀ g : Identity, ofRequest r = .ok (.gameClosed g) ↔
    r.method = Method.gameClosed ∧ Identity.Named r.argument g
  /-- Everything else is turned down: a notice without a game, -/
  invalid_iff : (∃ what, ofRequest r = .error (.invalidParams r.method what)) ↔
    (r.method = Method.gameConnected ∨ r.method = Method.gameClosed) ∧
      ∀ g, ¬ Identity.Named r.argument g
  /-- and whatever is none of the three methods, of which the relay is told so. -/
  unknown_iff : (∃ why, ofRequest r = .error why ∧
    why.message = s!"rpc: can't find method {r.method}") ↔ r.method ∉ knownMethods
  id_irrelevant : ∀ id : Value, ofRequest { r with id } = ofRequest r
  /-- Only the first item of a list of parameters counts. -/
  rest_irrelevant : ∀ first rest, r.params = .list (first :: rest) →
    ∀ other, ofRequest { r with params := .list (first :: other) } = ofRequest r
  /-- An argument that is no list may stand bare or in a list. -/
  bare : (∀ items, r.params ≠ .list items) →
    ofRequest { r with params := .list [r.params] } = ofRequest r

theorem ofRequest_recognised (r : Request) : Recognised r where
  status_iff := ofRequest_status_iff
  connected_iff _ := ofRequest_connected_iff
  closed_iff _ := ofRequest_closed_iff
  invalid_iff := ofRequest_invalid_iff
  unknown_iff := ofRequest_unknown_iff
  id_irrelevant _ := ofRequest_congr rfl rfl
  rest_irrelevant first rest hparams other := by
    have hargument : r.argument = first := by rw [Request.argument, hparams]
    exact ofRequest_congr rfl hargument.symm
  bare hbare := ofRequest_congr rfl (Request.argument_of_bare hbare).symm

end Call

end GameRelay.Inbound
