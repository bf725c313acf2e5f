import GameRelay.Proofs.Link.Shutdown
import GameRelay.Proofs.Text.Stream

/-!
# What a link hears of its stream

A link that never fails to write hears the lines of its stream in order, and that
it is shut down once they are at an end.
-/

set_option autoImplicit false

namespace GameRelay.Outbound

open GameRelay.Frame GameRelay.Json GameRelay.Text

namespace LinkEvent

def received : List LinkEvent → List UInt8
  | [] => []
  | .transport (.arrive bytes) :: rest => bytes ++ received rest
  | .transport (.finish _) :: _ => []
  | _ :: rest => received rest

theorem received_quiet {event : LinkEvent} (rest : List LinkEvent)
    (harrive : ∀ bytes, event ≠ .transport (.arrive bytes))
    (hfinish : ∀ why, event ≠ .transport (.finish why)) :
    received (event :: rest) = received rest := by
  cases event with
  | start | call | discard => rfl
  | transport step =>
    cases step with
    | arrive bytes => exact absurd rfl (harrive bytes)
    | finish why => exact absurd rfl (hfinish why)
    | read | hand | write | writeFailed | closeQueue => rfl

theorem received_append_quiet (events : List LinkEvent) {more : List LinkEvent}
    (harrive : ∀ bytes, .transport (.arrive bytes) ∉ more)
    (hfinish : ∀ why, .transport (.finish why) ∉ more) :
    received (events ++ more) = received events := by
  have hmore : received more = [] := by
    induction more with
    | nil => rfl
    | cons event more ih =>
      rw [received_quiet more (fun bytes he => harrive bytes (he ▸ List.mem_cons_self))
        fun why he => hfinish why (he ▸ List.mem_cons_self)]
      exact ih (fun bytes he => harrive bytes (List.mem_cons_of_mem _ he))
        fun why he => hfinish why (List.mem_cons_of_mem _ he)
  fun_induction received events with
  | case1 => exact hmore
  | case2 bytes rest ih => rw [List.cons_append, received, ih]
  | case3 => rfl
  | case4 event rest harrive hfinish ih =>
    rw [List.cons_append, received_quiet _ (fun bytes he => harrive bytes he)
      fun why he => hfinish why he, ih]

def breaks : LinkEvent → Bool
  | .transport (.finish (.broken _)) => true
  | _ => false

def failsWrite : LinkEvent → Bool
  | .transport (.writeFailed _) => true
  | _ => false

end LinkEvent

def hears : List (List UInt8) → List Heard
  | [] => [.shutDown]
  | line :: rest =>
    match decodeLine line with
    | .ok text => .line text :: hears rest
    | .error _ => [.shutDown]

namespace Link

/-! ## The reader -/

inductive ReadStep (l l' : Link) : Prop where
  | nothing : (l.reader = .idle → l.incoming.read.1 = .nothing) → l' = l → ReadStep l l'
  | line (bytes : List UInt8) (text : String) : l.incoming.read = (.line bytes, l'.incoming) →
      decodeLine bytes = .ok text → l.reader = .idle → l'.reader ≠ .ended →
      l'.heard = l.heard ++ [.line text] → ReadStep l l'
  | malformed (bytes : List UInt8) (what : Malformed) :
      l.incoming.read = (.line bytes, l'.incoming) → decodeLine bytes = .error what →
      l.reader = .idle → l'.reader = .ended → l'.heard = l.heard ++ [.shutDown] → ReadStep l l'
  | ended (why : Ending) : l.incoming.read = (.ended why, l'.incoming) → l.reader = .idle →
      l'.reader = .ended → l'.heard = l.heard ++ [.shutDown] → ReadStep l l'

theorem complete_stream (l : Link) (response : Response) :
    (l.complete response).incoming = l.incoming ∧ (l.complete response).heard = l.heard ∧
      (l.reader ≠ .ended → (l.complete response).reader ≠ .ended) := by
  unfold complete
  split
  · exact ⟨rfl, rfl, id⟩
  · split
    · exact ⟨rfl, rfl, id⟩
    · exact ⟨rfl, rfl, fun _ => by simp⟩

theorem read_readStep (l : Link) : ReadStep l l.read := by
  unfold read
  split
  · rename_i hidle
    split
    · rename_i hread
      exact .nothing (fun _ => congrArg Prod.fst hread) rfl
    · rename_i bytes incoming hread
      unfold readLine
      split
      · rename_i what hbytes
        exact .malformed bytes what hread hbytes hidle rfl rfl
      · rename_i text hbytes
        split
        · rename_i response _
          obtain ⟨hincoming, hheard, hreader⟩ :=
            complete_stream (({ l with incoming } : Link).hear (.line text)) response
          have hopen : (({ l with incoming } : Link).hear (.line text)).reader ≠ .ended := by
            simp [hear, hidle]
          exact .line bytes text (hincoming ▸ hread) hbytes hidle (hreader hopen) hheard
        · exact .line bytes text hread hbytes hidle (by simp [report, hear, hidle]) rfl
    · rename_i hread
      exact .ended .closed (Stream.eq_of_read_ended hread ▸ hread) hidle rfl rfl
    · rename_i error _ hread
      exact .ended (.broken error) (Stream.eq_of_read_ended hread ▸ hread) hidle rfl rfl
  · rename_i hbusy
    exact .nothing (fun hidle => absurd hidle hbusy) rfl

@[simp] theorem cancel_incoming (l : Link) (id : UInt64) :
    (l.cancel id).incoming = l.incoming := by
  unfold cancel; split <;> rfl

/-- Whatever is not about the stream leaves it alone, and what has been heard of it. -/
theorem quiet_of_move {l l' : Link} {event : LinkEvent} (h : l.Move event l')
    (hread : event ≠ .transport .read) (hwrite : event.failsWrite = false)
    (harrive : ∀ bytes, event ≠ .transport (.arrive bytes))
    (hfinish : ∀ why, event ≠ .transport (.finish why)) :
    l'.incoming = l.incoming ∧ l'.heard = l.heard ∧
      (l'.reader ≠ .ended → l.reader ≠ .ended) := by
  cases h with
  | overheard | taken | readEnded => exact absurd rfl hread
  | writeFailed => simp [LinkEvent.failsWrite] at hwrite
  | arrived bytes => exact absurd rfl (harrive bytes)
  | finished why => exact absurd rfl (hfinish why)
  | handed k response hr => exact ⟨rfl, rfl, fun _ => by simp [hr]⟩
  | discarded => exact ⟨rfl, rfl, fun hopen => absurd rfl hopen⟩
  | registered | left => simp [enter, setStage]
  | none | started | refused | queued | notQueued | collected | disconnected | abandoned | wrote
  | queueClosed => exact ⟨rfl, rfl, id⟩

/-! ## Every moment of a stream -/

structure Listens (calm : Prop) (whole future : List UInt8) (taken : List (List UInt8))
    (l : Link) : Prop where
  stream : Stream.Fed whole future taken l.incoming
  unbroken : calm → Stream.Holds whole future taken l.incoming
  /-- All that was taken has been heard. -/
  reading : l.reader ≠ .ended → ∀ more, hears (taken ++ more) = l.heard ++ hears more
  heard : ∃ first, first <+: lines whole ∧ (calm → first = lines whole) ∧ l.heard <+: hears first

section
variable {calm : Prop} {whole future : List UInt8} {taken : List (List UInt8)} {l : Link}

theorem listens_fresh (calm : Prop) (whole : List UInt8) :
    Listens calm whole whole [] {} where
  stream := .inl (Stream.holds_fresh whole)
  unbroken _ := Stream.holds_fresh whole
  reading _ _ := rfl
  heard := ⟨lines whole, List.prefix_rfl, fun _ => rfl, List.nil_prefix⟩

theorem Listens.heardFirst {l' : Link} (htaken : taken <+: lines whole)
    (h : ∀ more, hears (taken ++ more) = l'.heard ++ hears more) :
    ∃ first, first <+: lines whole ∧ (calm → first = lines whole) ∧ l'.heard <+: hears first := by
  obtain ⟨more, hmore⟩ := htaken
  refine ⟨lines whole, List.prefix_rfl, fun _ => rfl, ?_⟩
  rw [← hmore, h more]
  exact List.prefix_append _ _

theorem Listens.read (h : Listens calm whole future taken l) :
    ∃ more, Listens calm whole future (taken ++ more) l.read := by
  have hstep := read_readStep l
  generalize l.read = l' at hstep
  cases hstep with
  | nothing _ hsame => exact ⟨[], by simpa [hsame] using h⟩
  | line bytes text hread hbytes hidle hopen hheard =>
    have hstream := h.stream.line hread
    have hreading : ∀ more, hears ((taken ++ [bytes]) ++ more) = l'.heard ++ hears more := by
      intro more
      rw [List.append_assoc, h.reading (by simp [hidle]), hheard, List.append_assoc]
      simp [hears, hbytes]
    have htaken := (List.prefix_append (taken ++ [bytes]) _).trans hstream.isPrefix
    exact ⟨[bytes], hstream, fun hcalm => ((h.unbroken hcalm).line hread).1, fun _ => hreading,
      Listens.heardFirst htaken hreading⟩
  | malformed bytes what hread hbytes hidle hended hheard =>
    have hstream := h.stream.line hread
    obtain ⟨more, hmore⟩ := (List.prefix_append (taken ++ [bytes]) _).trans hstream.isPrefix
    have hlog : l'.heard = hears (lines whole) := by
      rw [← hmore, List.append_assoc, h.reading (by simp [hidle]), hheard]
      simp [hears, hbytes]
    exact ⟨[bytes], hstream, fun hcalm => ((h.unbroken hcalm).line hread).1,
      fun hopen => absurd hended hopen,
      lines whole, List.prefix_rfl, fun _ => rfl, hlog ▸ List.prefix_rfl⟩
  | ended why hread hidle hended hheard =>
    have hstream := h.stream.ended hread
    have hlog : l'.heard = hears taken := by
      have hreading := h.reading (by simp [hidle]) []
      rw [List.append_nil] at hreading
      rw [hreading, hheard, hears]
    have htaken := (List.prefix_append taken _).trans h.stream.isPrefix
    refine ⟨[], ?_⟩
    rw [List.append_nil]
    exact ⟨hstream, fun hcalm => ((h.unbroken hcalm).ended hread).1,
      fun hopen => absurd hended hopen,
      taken, htaken, fun hcalm => ((h.unbroken hcalm).ended hread).2.2, hlog ▸ List.prefix_rfl⟩

theorem Listens.of_quiet {l' : Link} (h : Listens calm whole future taken l)
    (hquiet : l'.incoming = l.incoming ∧ l'.heard = l.heard ∧
      (l'.reader ≠ .ended → l.reader ≠ .ended)) : Listens calm whole future taken l' := by
  obtain ⟨hincoming, hheard, hreader⟩ := hquiet
  exact ⟨hincoming ▸ h.stream, fun hcalm => hincoming ▸ h.unbroken hcalm,
    fun hopen => hheard ▸ h.reading (hreader hopen), hheard ▸ h.heard⟩

theorem Listens.step {event : LinkEvent} {rest : List LinkEvent}
    (hcalm : calm → event.breaks = false) (hwrite : event.failsWrite = false)
    (h : Listens calm whole (LinkEvent.received (event :: rest)) taken l) :
    ∃ more, Listens calm whole (LinkEvent.received rest) (taken ++ more) (l.step event) := by
  by_cases hread : event = .transport .read
  · subst hread
    exact h.read
  refine ⟨[], ?_⟩
  rw [List.append_nil]
  by_cases harrive : ∃ bytes, event = .transport (.arrive bytes)
  · obtain ⟨bytes, rfl⟩ := harrive
    exact ⟨h.stream.arrive rfl, fun hc => (h.unbroken hc).arrive rfl, h.reading, h.heard⟩
  by_cases hfinish : ∃ why, event = .transport (.finish why)
  · obtain ⟨why, rfl⟩ := hfinish
    refine ⟨h.stream.finish rfl why, ?_, h.reading, h.heard⟩
    intro hc
    cases why with
    | closed => exact (h.unbroken hc).finish rfl
    | broken error => simp [LinkEvent.breaks, hc] at hcalm
  · have harrive : ∀ bytes, event ≠ .transport (.arrive bytes) := fun bytes he =>
      harrive ⟨bytes, he⟩
    have hfinish : ∀ why, event ≠ .transport (.finish why) := fun why he => hfinish ⟨why, he⟩
    rw [LinkEvent.received_quiet rest harrive hfinish] at h
    exact h.of_quiet (quiet_of_move (step_move l event) hread hwrite harrive hfinish)

theorem Listens.run (events rest : List LinkEvent)
    (hcalm : calm → ∀ event ∈ events, event.breaks = false)
    (hwrites : ∀ event ∈ events, event.failsWrite = false)
    (h : Listens calm whole (LinkEvent.received (events ++ rest)) taken l) :
    ∃ more, Listens calm whole (LinkEvent.received rest) (taken ++ more) (l.run events) := by
  induction events generalizing l taken with
  | nil => exact ⟨[], by simpa [Link.run] using h⟩
  | cons event events ih =>
    obtain ⟨first, hstep⟩ := h.step (fun hc => hcalm hc event List.mem_cons_self)
      (hwrites event List.mem_cons_self)
    obtain ⟨more, hmore⟩ := ih (fun hc e he => hcalm hc e (List.mem_cons_of_mem _ he))
      (fun e he => hwrites e (List.mem_cons_of_mem _ he)) hstep
    exact ⟨first ++ more, by simpa [Link.run] using hmore⟩

end

end Link

end GameRelay.Outbound
