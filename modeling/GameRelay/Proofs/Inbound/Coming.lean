import GameRelay.Proofs.Inbound.Cut
import GameRelay.Proofs.Inbound.Service

/-!
# What is still to come of a connection

What a connection has come to, put before what is still to come of the lines that it
has not read, is what serving all lines in one go comes to. No step changes this
sum.
-/

set_option autoImplicit false

namespace GameRelay.Inbound

open GameRelay.Frame GameRelay.Text

variable {σ : Type}

def ServedStream.behind (rest : ServedStream σ) (written : List Response) (notices : List Notice)
    (reports : List Report) : ServedStream σ :=
  ⟨rest.state, written ++ rest.responses, notices ++ rest.notices, reports ++ rest.reports⟩

theorem ServingEvent.received_append_quiet (events : List ServingEvent) {more : List ServingEvent}
    (hmore : ∀ bytes, .arrive bytes ∉ more) :
    received (events ++ more) = received events := by
  fun_induction received events with
  | case1 =>
    rw [List.nil_append]
    fun_induction received more with
    | case1 | case3 => rfl
    | case2 bytes => exact absurd List.mem_cons_self (hmore bytes)
    | case4 event rest _ _ ih => exact ih fun bytes he => hmore bytes (List.mem_cons_of_mem _ he)
  | case2 bytes rest ih => rw [List.cons_append, received, ih]
  | case3 => rfl
  | case4 event rest harrive hfinish ih =>
    rw [List.cons_append, received]
    · exact ih
    · exact harrive
    · exact hfinish

namespace Serving

/-! ## What a connection reports -/

def said (s : Serving) : ServingEvent → List Report
  | .read => s.read.2
  | .handled reaction => (s.settle reaction).2
  | .writeFailed error => (s.failWrite error).2
  | .arrive _ | .finish _ | .write => []

def reports : Serving → List ServingEvent → List Report
  | _, [] => []
  | s, event :: rest => s.said event ++ reports (s.step event) rest

theorem reports_append (s : Serving) (events more : List ServingEvent) :
    s.reports (events ++ more) =
      s.reports events ++ (s.run events).reports more := by
  induction events generalizing s with
  | nil => rfl
  | cons event rest ih => simp [reports, run, ih]

/-! ## What is still to come -/

def answerTo (consumer : Consumer σ) (state : σ) (r : Request) (call : Call) :
    Answer σ :=
  ⟨(consumer.handle state call.notice).1,
    call.respond r (consumer.handle state call.notice).2, [call.notice],
    (consumer.handle state call.notice).2.reports r⟩

def toCome (consumer : Consumer σ) (state : σ) (left : List (List UInt8)) :
    Phase → ServedStream σ
  | .reading => serveLines consumer state left
  | .calling r call =>
    (serveLines consumer (answerTo consumer state r call).state left).after
      (answerTo consumer state r call)
  | .replying response => (serveLines consumer state left).behind [response] [] []
  | .ended => ⟨state, [], [], []⟩

/-- A connection to which `future` is still to arrive, with the callbacks that ran and what was
reported: together with what is still to come it is what serving `whole` comes to. -/
structure Comes (consumer : Consumer σ) (start : σ) (whole future : List UInt8)
    (ran : List (Notice × Reaction)) (told : List Report) (last : σ) (s : Serving) : Prop where
  callbacks : Ran consumer start ran last
  total : ∃ taken left, Stream.Holds whole future taken s.stream ∧ taken ++ left = lines whole ∧
    serve consumer start whole =
      (toCome consumer last left s.phase).behind s.written (ran.map Prod.fst) told

section
variable {consumer : Consumer σ} {start last : σ} {whole future : List UInt8}
  {ran : List (Notice × Reaction)} {told : List Report} {s : Serving}

theorem comes_fresh (consumer : Consumer σ) (start : σ) (whole : List UInt8) :
    Comes consumer start whole whole [] [] start {} :=
  ⟨rfl, [], lines whole, Stream.holds_fresh whole, rfl, rfl⟩

/-- Reading takes from what is left what it reports or begins to answer. -/
theorem Comes.read (h : Comes consumer start whole future ran told last s) :
    Comes consumer start whole future ran (told ++ s.read.2) last s.read.1 := by
  obtain ⟨hran, taken, left, hholds, hleft, htotal⟩ := h
  obtain ⟨stream, phase, written⟩ := s
  refine ⟨hran, ?_⟩
  cases phase with
  | calling | replying | ended =>
    exact ⟨taken, left, hholds, hleft, by simpa [Serving.read] using htotal⟩
  | reading =>
    rcases hread : stream.read with ⟨reading, stream'⟩
    cases reading with
    | nothing =>
      simp only [Serving.read, hread, List.append_nil]
      exact ⟨taken, left, hholds, hleft, htotal⟩
    | ended why =>
      obtain ⟨hholds', rfl, hall⟩ := hholds.ended hread
      have hnothing : taken ++ left = taken ++ [] := by rw [hleft, hall, List.append_nil]
      obtain rfl := List.append_cancel_left hnothing
      simp only [Serving.read, hread]
      exact ⟨taken, [], hholds', hleft, by simpa [toCome, serveLines] using htotal⟩
    | line bytes =>
      obtain ⟨rest, rfl, hholds', hleft'⟩ := hholds.next hleft hread
      simp only [Serving.read, hread]
      simp only [toCome, serveLines] at htotal
      refine ⟨taken ++ [bytes], rest, ?_⟩
      cases hline : Incoming.ofLine bytes with
      | blank =>
        simp only [hline] at htotal
        exact ⟨hholds', hleft', by simpa [toCome] using htotal⟩
      | notRequest e =>
        simp only [hline] at htotal
        exact ⟨hholds', hleft',
          by simpa [toCome, ServedStream.behind, ServedStream.reporting] using htotal⟩
      | malformed what =>
        simp only [hline] at htotal
        exact ⟨hholds', hleft', by simpa [toCome, ServedStream.behind] using htotal⟩
      | request r =>
        simp only [hline, respond] at htotal
        cases hcall : Call.ofRequest r with
        | ok call =>
          simp only [hcall] at htotal ⊢
          exact ⟨hholds', hleft', by simpa [toCome, answerTo] using htotal⟩
        | error why =>
          simp only [hcall] at htotal ⊢
          exact ⟨hholds', hleft',
            by simpa [toCome, ServedStream.behind, ServedStream.after] using htotal⟩

/-- One event that does not break the connection. -/
theorem Comes.step {event : ServingEvent} {rest : List ServingEvent} (hcalm : event.breaks = false)
    {final : σ} (hran : Ran consumer start (ran ++ (s.callback? event).toList) final)
    (h : Comes consumer start whole (ServingEvent.received (event :: rest)) ran told last s) :
    Comes consumer start whole (ServingEvent.received rest)
      (ran ++ (s.callback? event).toList) (told ++ s.said event) final
      (s.step event) := by
  by_cases hhandled : s.callback? event = none
  · rw [hhandled, Option.toList_none, List.append_nil] at hran ⊢
    obtain rfl := h.callbacks.unique hran
    cases event with
    | read => exact h.read
    | arrive bytes =>
      obtain ⟨hran, taken, left, hholds, hleft, htotal⟩ := h
      rw [said, List.append_nil]
      exact ⟨hran, taken, left, hholds.arrive rfl, hleft, htotal⟩
    | finish why =>
      obtain ⟨hran, taken, left, hholds, hleft, htotal⟩ := h
      rw [said, List.append_nil]
      cases why with
      | closed => exact ⟨hran, taken, left, hholds.finish rfl, hleft, htotal⟩
      | broken error => simp [ServingEvent.breaks] at hcalm
    | handled reaction =>
      obtain ⟨hran, taken, left, hholds, hleft, htotal⟩ := h
      obtain ⟨stream, phase, written⟩ := s
      cases phase with
      | calling r call => simp [callback?, waiting?] at hhandled
      | reading | replying | ended =>
        simp only [said, settle, List.append_nil]
        exact ⟨hran, taken, left, hholds, hleft, htotal⟩
    | write =>
      obtain ⟨hran, taken, left, hholds, hleft, htotal⟩ := h
      obtain ⟨stream, phase, written⟩ := s
      rw [said, List.append_nil]
      cases phase with
      | replying response =>
        exact ⟨hran, taken, left, hholds, hleft,
          by simpa [Serving.step, write, toCome, ServedStream.behind] using htotal⟩
      | reading | calling | ended => exact ⟨hran, taken, left, hholds, hleft, htotal⟩
    | writeFailed error => simp [ServingEvent.breaks] at hcalm
  · obtain ⟨stream, phase, written⟩ := s
    cases event with
    | handled reaction =>
      cases phase with
      | calling r call =>
        have hcallback : callback? ⟨stream, .calling r call, written⟩ (.handled reaction) =
            some (call.notice, reaction) := rfl
        rw [hcallback, Option.toList_some] at hran ⊢
        obtain ⟨middle, hmiddle, hreaction, hfinal⟩ := ran_append.mp hran
        obtain rfl := h.callbacks.unique hmiddle
        obtain rfl : (consumer.handle last call.notice).2 = reaction := hreaction
        obtain rfl : (consumer.handle last call.notice).1 = final := hfinal
        obtain ⟨hran', taken, left, hholds, hleft, htotal⟩ := h
        refine ⟨hran, taken, left, hholds, hleft, ?_⟩
        simpa [said, settle, Serving.step, toCome, ServedStream.behind, ServedStream.after,
          answerTo] using htotal
      | reading | replying | ended => exact absurd rfl hhandled
    | arrive | finish | read | write | writeFailed => exact absurd rfl hhandled

/-- Any number of events. -/
theorem Comes.run (events rest : List ServingEvent) (hcalm : ∀ event ∈ events, event.breaks = false)
    {final : σ} (hran : Ran consumer start (ran ++ s.callbacks events) final)
    (h : Comes consumer start whole (ServingEvent.received (events ++ rest)) ran told
      last s) :
    Comes consumer start whole (ServingEvent.received rest)
      (ran ++ s.callbacks events) (told ++ s.reports events) final
      (s.run events) := by
  induction events generalizing s ran told last with
  | nil =>
    rw [Serving.callbacks, List.append_nil] at hran ⊢
    obtain rfl := h.callbacks.unique hran
    rw [Serving.reports, List.append_nil]
    exact h
  | cons event events ih =>
    rw [Serving.callbacks, ← List.append_assoc] at hran ⊢
    rw [Serving.reports, ← List.append_assoc]
    obtain ⟨middle, hfirst, -⟩ := ran_append.mp hran
    have hstep := h.step (hcalm event List.mem_cons_self) hfirst
    exact ih (fun e he => hcalm e (List.mem_cons_of_mem _ he)) hran hstep

/-- A connection that was served to its end has come to what serving its bytes in one go comes
to, with a consumer that makes of its callbacks what became of them. -/
theorem served_of_run (consumer : Consumer σ) (start last : σ) (events : List ServingEvent)
    (hcalm : ∀ event ∈ events, event.breaks = false)
    (hran : Ran consumer start (({} : Serving).callbacks events) last)
    (hended : (({} : Serving).run events).phase = .ended) :
    serve consumer start (ServingEvent.received events) =
      ⟨last, (({} : Serving).run events).written,
        (({} : Serving).callbacks events).map Prod.fst,
        ({} : Serving).reports events⟩ := by
  have hcomes := Comes.run events [] hcalm hran
    (comes_fresh consumer start (ServingEvent.received (events ++ [])))
  obtain ⟨-, taken, left, -, -, htotal⟩ := hcomes
  rw [List.append_nil] at htotal
  rw [htotal, hended]
  simp [toCome, ServedStream.behind]

end

end Serving

end GameRelay.Inbound
