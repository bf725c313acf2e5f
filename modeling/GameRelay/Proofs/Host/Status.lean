import GameRelay.Host.Status
import GameRelay.Proofs.Inbound.Requests
import GameRelay.Proofs.Text.Order

/-!
# The status tells what was acknowledged

A game is in the status if the last notice about it said that it is connected. A
notice that was acknowledged has been heard, so whoever asks for the status after
reading an acknowledgement finds it there, whichever connections the two went over.
-/

set_option autoImplicit false

namespace GameRelay.Host

open GameRelay.Frame GameRelay.Inbound GameRelay.Json GameRelay.Text

/-! ## The names of a status -/

def about? : Notice → Option String
  | .connected name | .closed name => some name
  | .status => none

def latest? (name : String) (history : List Notice) : Option Notice :=
  (history.filter fun notice => about? notice == some name).getLast?

theorem latest?_cons_of_about {name : String} {notice : Notice} (h : about? notice = some name)
    (history : List Notice) :
    latest? name (notice :: history) = some ((latest? name history).getD notice) := by
  simp [latest?, h, List.getLast?_cons]

theorem latest?_cons_of_ne {name : String} {notice : Notice} (h : about? notice ≠ some name)
    (history : List Notice) : latest? name (notice :: history) = latest? name history := by
  simp [latest?, h]

theorem mem_hear_of_about {name : String} {notice : Notice} (h : about? notice = some name)
    (s : Status) : name ∈ (s.hear notice).connectedGames ↔ notice = .connected name := by
  cases notice with
  | connected n =>
    obtain rfl : n = name := by simpa [about?] using h
    simp [Status.hear, Status.connect, mem_insertName]
  | closed n =>
    obtain rfl : n = name := by simpa [about?] using h
    simp [Status.hear, Status.close]
  | status => simp [about?] at h

theorem mem_hear_of_ne {name : String} {notice : Notice} (h : about? notice ≠ some name)
    (s : Status) : name ∈ (s.hear notice).connectedGames ↔ name ∈ s.connectedGames := by
  cases notice with
  | connected n =>
    have hne : name ≠ n := by
      rintro rfl
      simp [about?] at h
    simp [Status.hear, Status.connect, mem_insertName, hne]
  | closed n =>
    have hne : name ≠ n := by
      rintro rfl
      simp [about?] at h
    simp [Status.hear, Status.close, hne]
  | status => rfl

/-- A name is there if the last notice about it connected it, or if it was there before and
there was none. -/
theorem mem_foldl_hear (name : String) (history : List Notice) (s : Status) :
    name ∈ (history.foldl Status.hear s).connectedGames ↔
      latest? name history = some (.connected name) ∨
        latest? name history = none ∧ name ∈ s.connectedGames := by
  induction history generalizing s with
  | nil => simp [latest?]
  | cons notice rest ih =>
    rw [List.foldl_cons, ih]
    by_cases h : about? notice = some name
    · rw [latest?_cons_of_about h, mem_hear_of_about h]
      cases latest? name rest <;> simp
    · rw [latest?_cons_of_ne h, mem_hear_of_ne h]

theorem pairwise_insertName (name : String) {names : List String} (h : names.Pairwise (· < ·)) :
    (insertName name names).Pairwise (· < ·) := by
  induction names with
  | nil => simp [insertName]
  | cons n rest ih =>
    obtain ⟨hhead, hrest⟩ := List.pairwise_cons.mp h
    rw [insertName]
    split
    · rename_i hlt
      refine List.pairwise_cons.mpr ⟨?_, h⟩
      intro m hm
      rcases List.mem_cons.mp hm with rfl | hm
      · exact hlt
      · exact String.lt_trans hlt (hhead m hm)
    · split
      · rename_i hlt
        refine List.pairwise_cons.mpr ⟨?_, ih hrest⟩
        intro m hm
        rcases (mem_insertName name m rest).mp hm with rfl | hm
        · exact hlt
        · exact hhead m hm
      · exact h

theorem pairwise_hear {s : Status} (h : s.connectedGames.Pairwise (· < ·)) (notice : Notice) :
    (s.hear notice).connectedGames.Pairwise (· < ·) := by
  cases notice with
  | connected name => exact pairwise_insertName name h
  | closed name => exact h.filter _
  | status => exact h

theorem pairwise_foldl_hear {s : Status} (h : s.connectedGames.Pairwise (· < ·))
    (history : List Notice) :
    (history.foldl Status.hear s).connectedGames.Pairwise (· < ·) := by
  induction history generalizing s with
  | nil => exact h
  | cons notice rest ih => exact ih (pairwise_hear h notice)

/-! ## The status of a host behind its listener -/

/-- What the reply to a request for the status says: `before` leads up to the moment at which
the request was read, `between` from there to the moment at which its handler ran. -/
structure Reflects (c j : Nat) (r : Request) (response : Response)
    (before between : List ListenerEvent) : Prop where
  handled : Listener.Handled consumer (Listener.opened {}) c j r .status before between
  names : ∃ names : List String,
    response = .ok r.id (.object [("connected_games", .list (names.map .text))]) ∧
    (names.map encode).Pairwise (· < ·) ∧
    ∀ name, name ∈ names ↔ latest? name (((Listener.opened {}).run consumer
      (before ++ .read c :: between)).heard.map Prod.snd) = some (.connected name)
  /-- On every connection the notices that were replied to before the request was read were
  heard, first and in this order. -/
  acknowledged : ∀ (d : Nat) (s : Serving),
    ((Listener.opened {}).run consumer before).connections[d]? = some s →
    (((Listener.opened {}).requestsOn consumer d before).take s.written.length).filterMap
        noticeOf? <+:
      ((Listener.opened {}).run consumer (before ++ .read c :: between)).heardOn d

structure Faithful (events : List ListenerEvent) (l : Listener Status) : Prop where
  /-- The replies of a connection are those to its first requests. -/
  counted : ∀ (c : Nat) (s : Serving), l.connections[c]? = some s →
    s.written.length ≤ ((Listener.opened {}).requestsOn consumer c events).length
  reflects : ∀ (c j : Nat) (s : Serving) (r : Request) (response : Response),
    l.connections[c]? = some s →
    ((Listener.opened {}).requestsOn consumer c events)[j]? = some r →
    r.method = Method.status → s.written[j]? = some response →
    ∃ before between after, events = before ++ .read c :: (between ++ .handle c :: after) ∧
      Reflects c j r response before between

theorem state_of_run (events : List ListenerEvent) :
    ((Listener.opened {}).run consumer events).state =
      (((Listener.opened {}).run consumer events).heard.map Prod.snd).foldl Status.hear {} :=
  (Listener.Merged.run ⟨rfl, by simp [Listener.opened]⟩ events).state

theorem heardOn_earlier {consumer : Consumer Status} {l : Listener Status} {d : Nat} {s : Serving}
    (hs : l.connections[d]? = some s) (events : List ListenerEvent) :
    l.heardOn d <+: (l.run consumer events).heardOn d := by
  rw [Listener.run_heardOn hs]
  exact List.prefix_append _ _

theorem run_faithful (events : List ListenerEvent) :
    Faithful events ((Listener.opened {}).run consumer events) := by
  constructor
  · intro c s hs
    exact (Listener.run_told consumer {} events hs).account.acknowledged.1
  · intro c j s r response hs hr hmethod hresponse
    obtain ⟨call, hcall, hnotice⟩ := ok_of_asks (.status hmethod)
    obtain rfl : call = .status := by cases call <;> simp [Call.notice] at hnotice ⊢
    have hwritten : (s.written ++ s.phase.reply?.toList)[j]? = some response := by
      rw [List.getElem?_append_left (List.getElem?_eq_some_iff.mp hresponse).1, hresponse]
    obtain ⟨before, between, after, hevents, hhandled, heq⟩ :=
      (Listener.run_told consumer {} events hs).answered j r .status response hr hcall hwritten
    refine ⟨before, between, after, hevents, hhandled, ?_, ?_⟩
    · refine ⟨_, heq, ?_, ?_⟩
      · rw [state_of_run]
        rw [List.pairwise_map]
        exact (pairwise_foldl_hear (by simp) _).imp encode_lt_encode
      · intro name
        rw [state_of_run, mem_foldl_hear]
        simp
    · intro d s' hs'
      have hbefore := (Listener.run_told consumer {} before hs').account.acknowledged.2
      rw [Listener.run_append]
      exact hbefore.trans (heardOn_earlier hs' _)

/-- Two games are connected, each over a connection of its own. The status is asked for over the
first one, before the second game has been acknowledged there. -/
def twoGames : List ListenerEvent :=
  [.accept, .accept,
    .arrive 0 (encode "[\"ClientRPCMethods.GameConnected\",[[\"b\"]],1]\n"),
    .arrive 1 (encode "[\"ClientRPCMethods.GameConnected\",[[\"a\"]],2]\n"),
    .read 0, .handle 0, .write 0, .read 1, .handle 1,
    .arrive 0 (encode "[\"ClientRPCMethods.Status\",null,3]\n"), .read 0, .handle 0, .write 0]

example : ((Listener.opened {}).run consumer twoGames).connections.map
    (fun s => s.written.map Response.line) =
      [["\x7b\"id\":1,\"result\":null,\"error\":null\x7d\n",
        "\x7b\"id\":3,\"result\":\x7b\"connected_games\":[\"a\",\"b\"]\x7d," ++
          "\"error\":null\x7d\n"], []] := by
  decide +kernel

end GameRelay.Host
