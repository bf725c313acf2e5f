import GameRelay.Outbound.Link

/-!
# What one step does to a link

`Move` lists the steps of a link by what they need and what they leave, so that
no fact about links has to look into the step function again. A step that is not
possible where it is asked for is the first of them.
-/

set_option autoImplicit false

namespace GameRelay.Outbound

open GameRelay.Frame GameRelay.Json GameRelay.Text

def answer? (id : UInt64) (text : String) : Option Response :=
  match Response.parse text with
  | .ok response => if response.callId? = some id then some response else none
  | .error _ => none

theorem answer?_eq_some_iff {id : UInt64} {text : String} {response : Response} :
    answer? id text = some response ↔
      Response.parse text = .ok response ∧ response.callId? = some id := by
  unfold answer?
  cases Response.parse text with
  | error error => simp
  | ok r =>
    simp only [Option.ite_none_right_eq_some, Option.some.injEq, Except.ok.injEq]
    constructor
    · rintro ⟨hid, rfl⟩
      exact ⟨rfl, hid⟩
    · rintro ⟨rfl, hid⟩
      exact ⟨hid, rfl⟩

theorem answer?_of_parse {text : String} {response : Response}
    (hp : Response.parse text = .ok response) (id : UInt64) :
    answer? id text = if response.callId? = some id then some response else none := by
  simp [answer?, hp]

theorem answer?_of_error {text : String} {error : ParseError}
    (hp : Response.parse text = .error error) (id : UInt64) : answer? id text = none := by
  simp [answer?, hp]

namespace Link

def Reads (l : Link) (text : String) : Prop :=
  l.reader = .idle ∧
    ∃ bytes incoming, l.incoming.read = (.line bytes, incoming) ∧ decodeLine bytes = .ok text

inductive Move (l : Link) : LinkEvent → Link → Prop where
  | none (event : LinkEvent) : Move l event l
  | started (method : String) (argument : Argument) (want : Want) : l.dropped = false →
      Move l (.start method argument want) (l.start method argument want)
  | refused (k : Nat) (c : Call) : l.calls[k]? = some c → c.stage = .numbered →
      l.shutDown = true →
      Move l (.call k .register) (l.setStage k (.ended (some (.error .shutdown))))
  | registered (k : Nat) (c : Call) : l.calls[k]? = some c → c.stage = .numbered →
      l.shutDown = false →
      Move l (.call k .register)
        { l.enter c.id k with
          calls := (l.enter c.id k).calls.modify k fun call =>
            { call with stage := .registered, since := some (l.enter c.id k).heard.length } }
  | queued (k : Nat) (c : Call) : l.calls[k]? = some c → c.stage = .registered →
      l.writer ≠ .ended →
      Move l (.call k .queue)
        { l.setStage k .waiting with
          queued := l.queued ++ [k], unwritten := l.unwritten ++ encode c.line }
  | notQueued (k : Nat) (c : Call) : l.calls[k]? = some c → c.stage = .registered →
      l.writer = .ended →
      Move l (.call k .queue) (l.setStage k (.leaving (some (.error .shutdown))))
  | collected (k : Nat) (c : Call) (response : Response) : l.calls[k]? = some c →
      c.stage = .waiting → c.mailbox = .answered response →
      Move l (.call k .collect) (l.setStage k (.leaving (some (response.outcome c.want))))
  | disconnected (k : Nat) (c : Call) : l.calls[k]? = some c → c.stage = .waiting →
      c.mailbox = .cut →
      Move l (.call k .collect) (l.setStage k (.leaving (some (.error .disconnected))))
  | abandoned (k : Nat) (c : Call) : l.calls[k]? = some c → c.stage = .waiting →
      Move l (.call k .abandon) (l.setStage k (.leaving none))
  | left (k : Nat) (c : Call) (outcome : Option Outcome) : l.calls[k]? = some c →
      c.stage = .leaving outcome →
      Move l (.call k .leave) ((l.cancel c.id).setStage k (.ended outcome))
  | arrived (bytes : List UInt8) :
      Move l (.transport (.arrive bytes)) { l with incoming := l.incoming.arrive bytes }
  | finished (why : Ending) :
      Move l (.transport (.finish why)) { l with incoming := l.incoming.finish why }
  /-- The line is no response, has no id of a call or names no call in the table. -/
  | overheard (text : String) (incoming : Stream) (reports : List LinkReport) : l.Reads text →
      (∀ id, answer? id text ≠ none → l.table.lookup id = none) →
      Move l (.transport .read)
        { l with incoming, reports, heard := l.heard ++ [.line text] }
  | taken (text : String) (incoming : Stream) (response : Response) (id : UInt64) (k : Nat) :
      l.Reads text → answer? id text = some response → l.table.lookup id = some k →
      Move l (.transport .read)
        { l with
          incoming
          heard := l.heard ++ [.line text]
          table := l.table.filter fun entry => entry.1 != id
          reader := .handing k response }
  /-- The link has ended or broken, or a line is not text. -/
  | readEnded (incoming : Stream) (reports : List LinkReport) : l.reader = .idle →
      (∀ text, ¬ l.Reads text) →
      Move l (.transport .read) { l.shut with incoming, reports, reader := .ended }
  | handed (k : Nat) (response : Response) : l.reader = .handing k response →
      Move l (.transport .hand)
        { l with
          reader := .idle
          calls := l.calls.modify k fun c => { c with mailbox := .answered response } }
  | wrote (count : Nat) : l.writer = .running →
      Move l (.transport (.write count))
        { l with
          written := l.written ++ l.unwritten.take count
          unwritten := l.unwritten.drop count }
  | writeFailed (error : SystemError) : l.writer = .running → l.unwritten ≠ [] →
      Move l (.transport (.writeFailed error))
        { l.shut.report (.writeFailed error) with writer := .failed }
  | queueClosed : l.writer = .failed →
      Move l (.transport .closeQueue) { l with writer := .ended }
  | discarded : l.calls.all Call.isOver = true →
      Move l .discard { l with reader := .ended, writer := .ended, dropped := true }

/-! ## Every step is one of them -/

theorem register_move {l : Link} {k : Nat} {c : Call} (hk : l.calls[k]? = some c)
    (hs : c.stage = .numbered) : l.Move (.call k .register) (l.register k c) := by
  unfold register
  split
  · rename_i hshut
    exact .refused k c hk hs hshut
  · rename_i hshut
    exact .registered k c hk hs (by simpa using hshut)

theorem queue_move {l : Link} {k : Nat} {c : Call} (hk : l.calls[k]? = some c)
    (hs : c.stage = .registered) : l.Move (.call k .queue) (l.queue k c) := by
  unfold queue
  split
  · rename_i hw
    exact .notQueued k c hk hs hw
  · rename_i hw
    exact .queued k c hk hs hw

theorem collect_move {l : Link} {k : Nat} {c : Call} (hk : l.calls[k]? = some c)
    (hs : c.stage = .waiting) : l.Move (.call k .collect) (l.collect k c) := by
  unfold collect
  split
  · exact .none _
  · rename_i response hm
    exact .collected k c response hk hs hm
  · rename_i hm
    exact .disconnected k c hk hs hm

theorem callStep_move (l : Link) (k : Nat) (step : CallStep) :
    l.Move (.call k step) (l.callStep k step) := by
  unfold callStep
  split
  · exact .none _
  · rename_i c hk
    split
    · rename_i hs
      exact register_move hk hs
    · rename_i hs
      exact queue_move hk hs
    · rename_i hs
      exact collect_move hk hs
    · rename_i hs
      exact .abandoned k c hk hs
    · rename_i outcome hs
      exact .left k c outcome hk hs
    · exact .none _

theorem complete_move {l : Link} {text : String} {response : Response} (incoming : Stream)
    (hreads : l.Reads text) (hp : Response.parse text = .ok response) :
    l.Move (.transport .read)
      ((({ l with incoming } : Link).hear (.line text)).complete response) := by
  have hanswer := answer?_of_parse hp
  unfold complete
  split
  · rename_i hid
    apply Move.overheard text incoming _ hreads
    intro id hne
    simp [hanswer, hid] at hne
  · rename_i id hid
    split
    · rename_i hl
      apply Move.overheard text incoming _ hreads
      intro i hne
      obtain rfl : id = i := by simpa [hanswer, hid] using hne
      exact hl
    · rename_i k hl
      exact .taken text incoming response id k hreads (by simp [hanswer, hid]) hl

theorem readLine_move {l : Link} {bytes : List UInt8} {incoming : Stream}
    (hidle : l.reader = .idle) (hread : l.incoming.read = (.line bytes, incoming)) :
    l.Move (.transport .read) (({ l with incoming } : Link).readLine bytes) := by
  unfold readLine
  split
  · rename_i what hbytes
    apply Move.readEnded incoming _ hidle
    rintro text ⟨-, bytes', incoming', hread', htext⟩
    obtain ⟨hline, -⟩ := Prod.mk.inj (hread.symm.trans hread')
    rw [← Reading.line.inj hline, hbytes] at htext
    simp at htext
  · rename_i text htext
    have hreads : l.Reads text := ⟨hidle, bytes, incoming, hread, htext⟩
    split
    · rename_i response hp
      exact complete_move incoming hreads hp
    · rename_i error hp
      apply Move.overheard text incoming _ hreads
      intro id hne
      exact absurd (answer?_of_error hp id) hne

theorem read_move (l : Link) : l.Move (.transport .read) l.read := by
  have hno : ∀ why incoming, l.incoming.read = (.ended why, incoming) →
      ∀ text, ¬ l.Reads text := by
    rintro why incoming hread text ⟨-, bytes, incoming', hread', -⟩
    rw [hread] at hread'
    simp at hread'
  unfold read
  split
  · rename_i hidle
    split
    · exact .none _
    · rename_i bytes incoming hread
      exact readLine_move hidle hread
    · rename_i hread
      exact .readEnded _ _ hidle (hno _ _ hread)
    · rename_i hread
      exact .readEnded _ _ hidle (hno _ _ hread)
  · exact .none _

theorem transport_move (l : Link) (event : TransportEvent) :
    l.Move (.transport event) (l.transport event) := by
  cases event with
  | arrive bytes => exact .arrived bytes
  | finish why => exact .finished why
  | read => exact read_move l
  | hand =>
    simp only [transport, hand]
    split
    · rename_i k response hr
      exact .handed k response hr
    · exact .none _
  | write count =>
    simp only [transport, write]
    split
    · rename_i hw
      exact .wrote count hw
    · exact .none _
  | writeFailed error =>
    simp only [transport, failWrite]
    split
    · rename_i hw hu
      exact .writeFailed error hw (by simp [hu])
    · exact .none _
  | closeQueue =>
    simp only [transport, closeQueue]
    split
    · rename_i hw
      exact .queueClosed hw
    · exact .none _

theorem step_move (l : Link) (event : LinkEvent) : l.Move event (l.step event) := by
  cases event with
  | start method argument want =>
    simp only [step]
    split
    · exact .none _
    · rename_i hd
      exact .started method argument want (by simpa using hd)
  | call k step => exact callStep_move l k step
  | transport event => exact transport_move l event
  | discard =>
    simp only [step, discard]
    split
    · rename_i hall
      exact .discarded hall
    · exact .none _

end Link

end GameRelay.Outbound
