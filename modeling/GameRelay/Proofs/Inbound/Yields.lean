import GameRelay.Proofs.Inbound.Listener

/-!
# Lines served in one go

Serving more lines goes on from where the first ones have left the consumer. A
consumer that answers as another one did gives the same replies.
-/

set_option autoImplicit false

namespace GameRelay.Inbound

open GameRelay.Frame GameRelay.Text

variable {σ : Type}

/-! ## Lines served in one go -/

section
variable (consumer : Consumer σ)

theorem serveLines_append (state : σ) (first more : List (List UInt8))
    (htext : ∀ line ∈ first, ∃ text, decodeLine line = .ok text) :
    serveLines consumer state (first ++ more) =
      ⟨(serveLines consumer (serveLines consumer state first).state more).state,
        (serveLines consumer state first).responses ++
          (serveLines consumer (serveLines consumer state first).state more).responses,
        (serveLines consumer state first).notices ++
          (serveLines consumer (serveLines consumer state first).state more).notices,
        (serveLines consumer state first).reports ++
          (serveLines consumer (serveLines consumer state first).state more).reports⟩ := by
  induction first generalizing state with
  | nil => rfl
  | cons line first ih =>
    obtain ⟨text, htextLine⟩ := htext line List.mem_cons_self
    have hrest := fun state => ih state fun l hl => htext l (List.mem_cons_of_mem _ hl)
    rw [List.cons_append]
    simp only [serveLines]
    rcases incoming_cases htextLine with ⟨hblank, -⟩ | ⟨e, he, -⟩ | ⟨r, hr, -⟩
    · simp only [hblank]
      exact hrest state
    · simp only [he, hrest state, ServedStream.reporting, List.cons_append]
    · simp only [hr, hrest, ServedStream.after, List.cons_append, List.append_assoc]

/-- Serving more lines goes on from what was served before, even if a line stops it. -/
theorem serveLines_isPrefix (state : σ) (first more : List (List UInt8)) :
    (serveLines consumer state first).responses <+:
        (serveLines consumer state (first ++ more)).responses ∧
      (serveLines consumer state first).notices <+:
        (serveLines consumer state (first ++ more)).notices := by
  induction first generalizing state with
  | nil => exact ⟨List.nil_prefix, List.nil_prefix⟩
  | cons line first ih =>
    rw [List.cons_append]
    simp only [serveLines]
    cases Incoming.ofLine line with
    | blank => exact ih state
    | notRequest e => exact ih state
    | malformed what => exact ⟨List.nil_prefix, List.nil_prefix⟩
    | request r =>
      obtain ⟨hresponses, hnotices⟩ := ih (respond consumer state r).state
      exact ⟨List.cons_prefix_cons.mpr ⟨rfl, hresponses⟩,
        (List.prefix_append_right_inj _).mpr hnotices⟩

end

/-! ## Callbacks as a consumer ran them -/

/-- The callbacks ran as they do from `state` on, and leave the consumer in the last state. -/
def Ran (consumer : Consumer σ) : σ → List (Notice × Reaction) → σ → Prop
  | state, [], last => state = last
  | state, callback :: rest, last =>
    (consumer.handle state callback.1).2 = callback.2 ∧
      Ran consumer (consumer.handle state callback.1).1 rest last

def scripted : Consumer (List Reaction) where
  handle script _ := (script.tail, script.headD (.returned .null))

theorem ran_scripted (ran : List (Notice × Reaction)) (more : List Reaction) :
    Ran scripted (ran.map Prod.snd ++ more) ran more := by
  induction ran with
  | nil => rfl
  | cons callback ran ih => exact ⟨rfl, ih⟩

theorem Ran.concat {consumer : Consumer σ} {state last : σ} {ran : List (Notice × Reaction)}
    (h : Ran consumer state ran last) (notice : Notice) :
    Ran consumer state (ran ++ [(notice, (consumer.handle last notice).2)])
      (consumer.handle last notice).1 := by
  induction ran generalizing state with
  | nil =>
    obtain rfl : state = last := h
    exact ⟨rfl, rfl⟩
  | cons callback ran ih => exact ⟨h.1, ih h.2⟩

theorem Ran.unique {consumer : Consumer σ} {state last last' : σ} {ran : List (Notice × Reaction)}
    (h : Ran consumer state ran last) (h' : Ran consumer state ran last') : last = last' := by
  induction ran generalizing state with
  | nil => exact Eq.trans (Eq.symm h) h'
  | cons callback ran ih => exact ih h.2 h'.2

/-- A consumer comes to the same for the same notices. -/
theorem Ran.determined {consumer : Consumer σ} {state last last' : σ}
    {ran ran' : List (Notice × Reaction)} (h : Ran consumer state ran last)
    (h' : Ran consumer state ran' last') (hnotices : ran.map Prod.fst = ran'.map Prod.fst) :
    ran = ran' := by
  induction ran generalizing state ran' with
  | nil => exact (List.map_eq_nil_iff.mp hnotices.symm).symm
  | cons callback ran ih =>
    cases ran' with
    | nil => simp at hnotices
    | cons callback' ran' =>
      obtain ⟨notice, reaction⟩ := callback
      obtain ⟨notice', reaction'⟩ := callback'
      simp only [List.map_cons, List.cons.injEq] at hnotices
      obtain ⟨rfl, hrest⟩ := hnotices
      have hreaction : reaction = reaction' := h.1.symm.trans h'.1
      rw [hreaction, ih h.2 h'.2 hrest]

theorem ran_append {consumer : Consumer σ} {state last : σ} {ran more : List (Notice × Reaction)} :
    Ran consumer state (ran ++ more) last ↔
      ∃ middle, Ran consumer state ran middle ∧ Ran consumer middle more last := by
  induction ran generalizing state with
  | nil => exact ⟨fun h => ⟨state, rfl, h⟩, fun ⟨middle, hfirst, h⟩ => Eq.symm hfirst ▸ h⟩
  | cons callback ran ih =>
    rw [List.cons_append]
    constructor
    · rintro ⟨hreaction, h⟩
      obtain ⟨middle, hran, hmore⟩ := ih.mp h
      exact ⟨middle, ⟨hreaction, hran⟩, hmore⟩
    · rintro ⟨middle, ⟨hreaction, hran⟩, hmore⟩
      exact ⟨hreaction, ih.mpr ⟨middle, hran, hmore⟩⟩

/-! ## Where a connection is with the lines it has read -/

theorem text_of_incoming {line : List UInt8} (h : ∀ what, Incoming.ofLine line ≠ .malformed what) :
    ∃ text, decodeLine line = .ok text := by
  cases hline : decodeLine line with
  | ok text => exact ⟨text, rfl⟩
  | error what => exact absurd (by rw [Incoming.ofLine, hline]) (h what)

structure Yields (consumer : Consumer σ) (start : σ) (taken : List (List UInt8)) (last : σ)
    (written : List Response) (notices : List Notice) : Prop where
  state : (serveLines consumer start taken).state = last
  responses : (serveLines consumer start taken).responses = written
  notices : (serveLines consumer start taken).notices = notices

section
variable {consumer : Consumer σ} {start last : σ} {taken : List (List UInt8)}
  {line : List UInt8} {written : List Response} {notices : List Notice}

theorem yields_nil (consumer : Consumer σ) (start : σ) :
    Yields consumer start [] start [] [] := ⟨rfl, rfl, rfl⟩

theorem Yields.one_more (h : Yields consumer start taken last written notices)
    (htext : ∀ line ∈ taken, ∃ text, decodeLine line = .ok text) (line : List UInt8) :
    Yields consumer start (taken ++ [line]) (serveLines consumer last [line]).state
      (written ++ (serveLines consumer last [line]).responses)
      (notices ++ (serveLines consumer last [line]).notices) := by
  have happend := serveLines_append consumer start taken [line] htext
  constructor
  · rw [happend, h.state]
  · rw [happend, h.state, h.responses]
  · rw [happend, h.state, h.notices]

/-- A line that is no request changes nothing. -/
theorem Yields.passed (h : Yields consumer start taken last written notices)
    (htext : ∀ line ∈ taken, ∃ text, decodeLine line = .ok text)
    (hline : ∀ r, Incoming.ofLine line ≠ .request r) :
    Yields consumer start (taken ++ [line]) last written notices := by
  have hmore := h.one_more htext line
  simp only [serveLines] at hmore
  cases hincoming : Incoming.ofLine line with
  | request r => exact absurd hincoming (hline r)
  | blank => simpa [hincoming] using hmore
  | notRequest e => simpa [hincoming, ServedStream.reporting] using hmore
  | malformed what => simpa [hincoming] using hmore

/-- A line that is no text keeps everything behind it from being served. -/
theorem Yields.stopped (h : Yields consumer start taken last written notices)
    (htext : ∀ line ∈ taken, ∃ text, decodeLine line = .ok text) {what : Malformed}
    (hline : Incoming.ofLine line = .malformed what) (more : List (List UInt8)) :
    Yields consumer start (taken ++ line :: more) last written notices := by
  have happend := serveLines_append consumer start taken (line :: more) htext
  simp only [serveLines, hline, List.append_nil] at happend
  constructor
  · rw [happend, h.state]
  · rw [happend, h.responses]
  · rw [happend, h.notices]

theorem Yields.request (h : Yields consumer start taken last written notices)
    (htext : ∀ line ∈ taken, ∃ text, decodeLine line = .ok text) {r : Request}
    (hline : Incoming.ofLine line = .request r) :
    Yields consumer start (taken ++ [line]) (respond consumer last r).state
      (written ++ [(respond consumer last r).response])
      (notices ++ (respond consumer last r).notices) := by
  simpa [serveLines, hline, ServedStream.after] using h.one_more htext line

end

theorem forall_concat {α : Type} {P : α → Prop} {xs : List α} (hxs : ∀ x ∈ xs, P x) {x : α}
    (hx : P x) : ∀ y ∈ xs ++ [x], P y := by
  intro y hy
  rcases List.mem_append.mp hy with hy | hy
  · exact hxs y hy
  · exact List.mem_singleton.mp hy ▸ hx

end GameRelay.Inbound
