import GameRelay.Proofs.Text.Lines

/-!
# A stream while it is read

Bytes go on to arrive while lines are taken. What was taken and what is ready are
the first lines of the whole stream, and all of them once the stream has ended.
-/

set_option autoImplicit false

namespace GameRelay.Text

/-- A stream of which `taken` was read, and to which `future` is still to arrive: its lines
are those of `whole`. -/
inductive Stream.Holds (whole : List UInt8) :
    List UInt8 → List (List UInt8) → Stream → Prop where
  | unended (arrived future : List UInt8) (taken ready : List (List UInt8)) :
      arrived ++ future = whole → taken ++ ready = (({} : Splitter).feed arrived).2 →
      Holds whole future taken ⟨(({} : Splitter).feed arrived).1, ready, none⟩
  | closed (future : List UInt8) (taken ready : List (List UInt8)) : taken ++ ready = lines whole →
      Holds whole future taken ⟨{}, ready, some .closed⟩

namespace Stream

theorem holds_fresh (whole : List UInt8) : Holds whole whole [] {} :=
  .unended [] whole [] [] rfl rfl

section
variable {whole future after bytes : List UInt8} {taken : List (List UInt8)} {s s' : Stream}

theorem Holds.arrive (h : Holds whole future taken s) (hfuture : future = bytes ++ after) :
    Holds whole after taken (s.arrive bytes) := by
  cases h with
  | unended arrived future taken ready hwhole htaken =>
    have hfeed := Splitter.feed_append {} arrived bytes
    have hstream : Stream.arrive ⟨(({} : Splitter).feed arrived).1, ready, none⟩ bytes =
        ⟨(({} : Splitter).feed (arrived ++ bytes)).1,
          ready ++ ((({} : Splitter).feed arrived).1.feed bytes).2, none⟩ := by
      rw [hfeed]
      rfl
    rw [hstream]
    apply Holds.unended
    · rw [List.append_assoc, ← hfuture, hwhole]
    · rw [hfeed, ← List.append_assoc, htaken]
  | closed future taken ready hlines => exact .closed after taken ready hlines

theorem Holds.finish (h : Holds whole future taken s) (hfuture : future = []) :
    Holds whole after taken (s.finish .closed) := by
  cases h with
  | unended arrived future taken ready hwhole htaken =>
    obtain rfl : arrived = whole := by rw [← hwhole, hfuture, List.append_nil]
    have hlines := Splitter.feed_lines {} (by simp) arrived
    apply Holds.closed
    rw [← List.append_assoc, htaken]
    exact hlines
  | closed future taken ready hlines => exact .closed after taken ready hlines

theorem Holds.isPrefix (h : Holds whole future taken s) : taken ++ s.ready <+: lines whole := by
  cases h with
  | unended arrived future taken ready hwhole htaken =>
    rw [← hwhole]
    exact htaken ▸ Splitter.feed_isPrefix arrived future
  | closed future taken ready hlines => exact hlines ▸ List.prefix_rfl

theorem Holds.line (h : Holds whole future taken s) (hread : s.read = (.line bytes, s')) :
    Holds whole future (taken ++ [bytes]) s' ∧ bytes ∈ lines whole := by
  have hfirst := h.isPrefix
  obtain ⟨splitter, ready, ending⟩ := s
  cases ready with
  | nil => cases ending <;> simp [Stream.read] at hread
  | cons line rest =>
    obtain ⟨rfl, rfl⟩ : line = bytes ∧ (⟨splitter, rest, ending⟩ : Stream) = s' := by
      simpa [Stream.read] using hread
    refine ⟨?_, hfirst.subset (by simp)⟩
    cases h with
    | unended arrived _ _ _ hwhole htaken =>
      exact .unended arrived future _ rest hwhole (by simpa using htaken)
    | closed _ _ _ hlines => exact .closed future _ rest (by simpa using hlines)

theorem Holds.ended {why : Ending} (h : Holds whole future taken s)
    (hread : s.read = (.ended why, s')) :
    Holds whole future taken s' ∧ why = .closed ∧ taken = lines whole := by
  cases h with
  | unended arrived future taken ready hwhole htaken =>
    cases ready <;> simp [Stream.read] at hread
  | closed future taken ready hlines =>
    cases ready with
    | cons line rest => simp [Stream.read] at hread
    | nil =>
      obtain ⟨rfl, rfl⟩ : Ending.closed = why ∧ _ = s' := by simpa [Stream.read] using hread
      exact ⟨.closed future taken [] hlines, rfl, by simpa using hlines⟩

/-- The next line of the stream is the first one that is left. -/
theorem Holds.next {left : List (List UInt8)} (h : Holds whole future taken s)
    (hleft : taken ++ left = lines whole) (hread : s.read = (.line bytes, s')) :
    ∃ rest, left = bytes :: rest ∧ Holds whole future (taken ++ [bytes]) s' ∧
      (taken ++ [bytes]) ++ rest = lines whole := by
  obtain ⟨hline, -⟩ := h.line hread
  obtain ⟨rest, hrest⟩ := (List.prefix_append (taken ++ [bytes]) _).trans hline.isPrefix
  refine ⟨rest, ?_, hline, hrest⟩
  have hsame : taken ++ left = taken ++ bytes :: rest := by
    rw [hleft, ← hrest, List.append_assoc, List.singleton_append]
  exact List.append_cancel_left hsame

/-- Finding the end takes nothing from the stream. -/
theorem eq_of_read_ended {why : Ending} (hread : s.read = (.ended why, s')) : s' = s := by
  obtain ⟨splitter, ready, ending⟩ := s
  cases ready with
  | cons line rest => simp [Stream.read] at hread
  | nil =>
    cases ending with
    | none => simp [Stream.read] at hread
    | some e =>
      obtain ⟨-, rfl⟩ : e = why ∧ (⟨splitter, [], some e⟩ : Stream) = s' := by
        simpa [Stream.read] using hread
      rfl

theorem ready_of_read_line (hread : s.read = (.line bytes, s')) :
    s.ready = bytes :: s'.ready ∧ s'.ending = s.ending := by
  obtain ⟨splitter, ready, ending⟩ := s
  cases ready with
  | nil => cases ending <;> simp [Stream.read] at hread
  | cons line rest =>
    obtain ⟨rfl, rfl⟩ : line = bytes ∧ (⟨splitter, rest, ending⟩ : Stream) = s' := by
      simpa [Stream.read] using hread
    exact ⟨rfl, rfl⟩

/-- A reader need not wait for a stream that has ended. -/
theorem found_of_ended {why : Ending} (h : s.ending = some why) : s.read.1 ≠ .nothing := by
  obtain ⟨splitter, ready, ending⟩ := s
  obtain rfl : ending = some why := h
  cases ready <;> simp [Stream.read]

/-- What would arrive after the end does not matter. -/
theorem Holds.of_ended {why : Ending} (h : Holds whole future taken s)
    (hended : s.ending = some why) : Holds whole after taken s := by
  cases h with
  | unended => simp at hended
  | closed future taken ready hlines => exact .closed after taken ready hlines

end

/-! ## Streams that may break -/

/-- The stream holds its lines, or it broke and lost those that were not complete. -/
def Fed (whole future : List UInt8) (taken : List (List UInt8)) (s : Stream) : Prop :=
  Holds whole future taken s ∨
    ∃ error, s.ending = some (.broken error) ∧ taken ++ s.ready <+: lines whole

section
variable {whole future after bytes : List UInt8} {taken : List (List UInt8)} {s s' : Stream}

theorem Fed.isPrefix (h : Fed whole future taken s) : taken ++ s.ready <+: lines whole := by
  rcases h with h | ⟨error, -, h⟩
  · exact h.isPrefix
  · exact h

theorem Fed.arrive (h : Fed whole future taken s) (hfuture : future = bytes ++ after) :
    Fed whole after taken (s.arrive bytes) := by
  rcases h with h | ⟨error, hended, h⟩
  · exact .inl (h.arrive hfuture)
  · have hsame : s.arrive bytes = s := by simp [Stream.arrive, hended]
    rw [hsame]
    exact .inr ⟨error, hended, h⟩

theorem Fed.finish (h : Fed whole future taken s) (hfuture : future = []) (why : Ending) :
    Fed whole after taken (s.finish why) := by
  rcases h with h | ⟨error, hended, h⟩
  · cases why with
    | closed => exact .inl (h.finish hfuture)
    | broken error =>
      have hfirst := h.isPrefix
      cases h with
      | unended arrived future taken ready hwhole htaken => exact .inr ⟨error, rfl, hfirst⟩
      | closed future taken ready hlines => exact .inl (.closed after taken ready hlines)
  · have hsame : s.finish why = s := by simp [Stream.finish, hended]
    rw [hsame]
    exact .inr ⟨error, hended, h⟩

theorem Fed.line (h : Fed whole future taken s) (hread : s.read = (.line bytes, s')) :
    Fed whole future (taken ++ [bytes]) s' := by
  rcases h with h | ⟨error, hended, h⟩
  · exact .inl (h.line hread).1
  · obtain ⟨splitter, ready, ending⟩ := s
    cases ready with
    | nil => cases ending <;> simp [Stream.read] at hread
    | cons line rest =>
      obtain ⟨rfl, rfl⟩ : line = bytes ∧ (⟨splitter, rest, ending⟩ : Stream) = s' := by
        simpa [Stream.read] using hread
      exact .inr ⟨error, hended, by simpa using h⟩

/-- The end of a stream is found without a further line. -/
theorem Fed.ended {why : Ending} (h : Fed whole future taken s)
    (hread : s.read = (.ended why, s')) : Fed whole future taken s' :=
  eq_of_read_ended hread ▸ h

end

end Stream

end GameRelay.Text
