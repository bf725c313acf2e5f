import GameRelay.Proofs.Link.Move
import Mathlib.Data.List.Nodup

/-!
# Calls as their link has them

A call is seen together with its place in the table, the response that the
reader has in hand for it and the lines that were queued for it. `Change` lists
all that can happen to it in one step. Facts about calls follow from this list;
nothing here bounds the number of calls, so that another call of the same id may
push a call out of the table.
-/

set_option autoImplicit false

namespace GameRelay.Outbound

open GameRelay.Frame GameRelay.Json GameRelay.Text

def Stage.isEntered : Stage → Bool
  | .registered | .waiting | .leaving _ => true
  | .numbered | .ended _ => false

structure Slot where
  number : Nat
  call : Call
  listed : Bool
  /-- The reader has taken it out of the table to hand it this response. -/
  inHand : Option Response
  lines : Nat

namespace Link

def inHand? (l : Link) (k : Nat) : Option Response :=
  match l.reader with
  | .handing j response => if j = k then some response else none
  | _ => none

def slot (l : Link) (k : Nat) (c : Call) : Slot where
  number := k
  call := c
  listed := decide ((c.id, k) ∈ l.table)
  inHand := l.inHand? k
  lines := l.queued.count k

structure Coherent (l : Link) : Prop where
  entries : ∀ e ∈ l.table, ∃ c, l.calls[e.2]? = some c ∧ c.id = e.1 ∧ c.stage.isEntered = true
  keys : (l.table.map Prod.fst).Nodup
  shut : l.shutDown = true → l.table = []

end Link

inductive Change (l l' : Link) (s : Slot) : Slot → Prop where
  | same : l'.heard = l.heard → l'.shutDown = l.shutDown → Change l l' s s
  | overheard (text : String) : l'.heard = l.heard ++ [.line text] →
      l'.shutDown = l.shutDown → (s.listed = true → answer? s.call.id text = none) →
      Change l l' s s
  | answered (text : String) (response : Response) : l'.heard = l.heard ++ [.line text] →
      l'.shutDown = l.shutDown → answer? s.call.id text = some response → s.listed = true →
      Change l l' s { s with listed := false, inHand := some response }
  | cutOff : l'.heard = l.heard ++ [.shutDown] → l'.shutDown = true → s.listed = true →
      Change l l' s
        { s with listed := false, call := { s.call with mailbox := s.call.mailbox.cutOff } }
  | passedBy : l'.heard = l.heard ++ [.shutDown] → l'.shutDown = true → s.listed = false →
      Change l l' s s
  | handed (response : Response) : l'.heard = l.heard → l'.shutDown = l.shutDown →
      s.inHand = some response →
      Change l l' s
        { s with inHand := none, call := { s.call with mailbox := .answered response } }
  | refused : l'.heard = l.heard → l'.shutDown = l.shutDown → l.shutDown = true →
      s.call.stage = .numbered →
      Change l l' s { s with call := { s.call with stage := .ended (some (.error .shutdown)) } }
  | registered : l'.heard = l.heard → l'.shutDown = l.shutDown → l.shutDown = false →
      s.call.stage = .numbered →
      Change l l' s
        { s with
          listed := true
          call := { s.call with stage := .registered, since := some l.heard.length } }
  | queued : l'.heard = l.heard → l'.shutDown = l.shutDown → s.call.stage = .registered →
      Change l l' s { s with lines := s.lines + 1, call := { s.call with stage := .waiting } }
  | notQueued : l'.heard = l.heard → l'.shutDown = l.shutDown → l.writer = .ended →
      s.call.stage = .registered →
      Change l l' s { s with call := { s.call with stage := .leaving (some (.error .shutdown)) } }
  | collected (response : Response) : l'.heard = l.heard → l'.shutDown = l.shutDown →
      s.call.stage = .waiting → s.call.mailbox = .answered response →
      Change l l' s
        { s with
          call := { s.call with stage := .leaving (some (response.outcome s.call.want)) } }
  | disconnected : l'.heard = l.heard → l'.shutDown = l.shutDown → s.call.stage = .waiting →
      s.call.mailbox = .cut →
      Change l l' s
        { s with call := { s.call with stage := .leaving (some (.error .disconnected)) } }
  | abandoned : l'.heard = l.heard → l'.shutDown = l.shutDown → s.call.stage = .waiting →
      Change l l' s { s with call := { s.call with stage := .leaving none } }
  | left (outcome : Option Outcome) : l'.heard = l.heard → l'.shutDown = l.shutDown →
      s.call.stage = .leaving outcome → ∀ mailbox,
      (mailbox = s.call.mailbox ∨ mailbox = s.call.mailbox.cutOff) →
      Change l l' s
        { s with listed := false, call := { s.call with stage := .ended outcome, mailbox } }
  /-- Another call of the same id has taken the entry out. -/
  | pushedOut (j : Nat) (other : Call) : l'.heard = l.heard → l'.shutDown = l.shutDown →
      j ≠ s.number → l.calls[j]? = some other → other.id = s.call.id → s.listed = true →
      Change l l' s
        { s with listed := false, call := { s.call with mailbox := s.call.mailbox.cutOff } }
  /-- The connection is dropped, and with it a response that nobody waits for. -/
  | dropped : l'.heard = l.heard → l'.shutDown = l.shutDown → s.call.isOver = true →
      Change l l' s { s with inHand := none }

def Changes (l l' : Link) : Prop :=
  ∀ k c, l.calls[k]? = some c →
    ∃ c', l'.calls[k]? = some c' ∧ Change l l' (l.slot k c) (l'.slot k c')

namespace Link

theorem inHand?_eq_some_iff {l : Link} {k : Nat} {response : Response} :
    l.inHand? k = some response ↔ l.reader = .handing k response := by
  unfold inHand?
  split
  · rename_i j r hr
    by_cases hjk : j = k
    · simp [hr, hjk]
    · simp [hr, hjk]
  · rename_i hno
    constructor
    · intro h
      simp at h
    · intro h
      exact absurd h (hno k response)

theorem slot_eq {l l' : Link} {k : Nat} {c : Call}
    (htable : (c.id, k) ∈ l'.table ↔ (c.id, k) ∈ l.table) (hreader : l'.reader = l.reader)
    (hqueued : l'.queued = l.queued) : l'.slot k c = l.slot k c := by
  simp [slot, inHand?, htable, hreader, hqueued]

/-- A step that touches neither the calls nor the table nor what the table has heard. -/
theorem changes_same {l l' : Link} (hcalls : l'.calls = l.calls) (htable : l'.table = l.table)
    (hreader : l'.reader = l.reader) (hqueued : l'.queued = l.queued)
    (hheard : l'.heard = l.heard) (hshut : l'.shutDown = l.shutDown) : Changes l l' := by
  intro k c hk
  have hslot : l'.slot k c = l.slot k c := slot_eq (by rw [htable]) hreader hqueued
  exact ⟨c, hcalls ▸ hk, hslot ▸ .same hheard hshut⟩

/-! ## The table -/

theorem mem_of_lookup {table : List (UInt64 × Nat)} {id : UInt64} {k : Nat}
    (h : table.lookup id = some k) : (id, k) ∈ table := by
  obtain ⟨before, after, rfl, -⟩ := List.lookup_eq_some_iff.mp h
  simp

theorem Coherent.entry_unique {l : Link} (h : l.Coherent) {id : UInt64} {j k : Nat}
    (hj : (id, j) ∈ l.table) (hk : (id, k) ∈ l.table) : j = k := by
  have := List.inj_on_of_nodup_map h.keys hj hk rfl
  exact congrArg Prod.snd this

theorem Coherent.lookup_iff {l : Link} (h : l.Coherent) {id : UInt64} {k : Nat} :
    l.table.lookup id = some k ↔ (id, k) ∈ l.table := by
  constructor
  · exact mem_of_lookup
  · intro hk
    cases hl : l.table.lookup id with
    | none => simpa using List.lookup_eq_none_iff.mp hl _ hk
    | some j => rw [h.entry_unique (mem_of_lookup hl) hk]

theorem mem_filter_id {table : List (UInt64 × Nat)} {id : UInt64} {e : UInt64 × Nat} :
    e ∈ table.filter (fun entry => entry.1 != id) ↔ e ∈ table ∧ e.1 ≠ id := by
  simp

theorem mem_cancel (l : Link) (id : UInt64) (e : UInt64 × Nat) :
    e ∈ (l.cancel id).table ↔ e ∈ l.table ∧ e.1 ≠ id := by
  unfold cancel
  split
  · rename_i h
    constructor
    · intro he
      have hne : id ≠ e.1 := by simpa using List.lookup_eq_none_iff.mp h e he
      exact ⟨he, Ne.symm hne⟩
    · exact And.left
  · exact mem_filter_id

@[simp] theorem cancel_heard (l : Link) (id : UInt64) : (l.cancel id).heard = l.heard := by
  unfold cancel; split <;> rfl

@[simp] theorem cancel_shutDown (l : Link) (id : UInt64) :
    (l.cancel id).shutDown = l.shutDown := by
  unfold cancel; split <;> rfl

@[simp] theorem cancel_reader (l : Link) (id : UInt64) : (l.cancel id).reader = l.reader := by
  unfold cancel; split <;> rfl

@[simp] theorem cancel_queued (l : Link) (id : UInt64) : (l.cancel id).queued = l.queued := by
  unfold cancel; split <;> rfl

@[simp] theorem cancel_nextId (l : Link) (id : UInt64) : (l.cancel id).nextId = l.nextId := by
  unfold cancel; split <;> rfl

@[simp] theorem cancel_bytes (l : Link) (id : UInt64) :
    (l.cancel id).written = l.written ∧ (l.cancel id).unwritten = l.unwritten := by
  unfold cancel; split <;> exact ⟨rfl, rfl⟩

/-- Taking an id out of the table cuts off the call that is in the table under it. -/
theorem cancel_call {l : Link} (h : l.Coherent) (id : UInt64) {k : Nat} {c : Call}
    (hk : l.calls[k]? = some c) :
    (l.cancel id).calls[k]? =
      some (if (id, k) ∈ l.table then { c with mailbox := c.mailbox.cutOff } else c) := by
  unfold cancel
  split
  · rename_i hl
    have hn : (id, k) ∉ l.table := fun he => by
      simpa using List.lookup_eq_none_iff.mp hl _ he
    simp [hk, hn]
  · rename_i j hl
    have hj := h.lookup_iff.mp hl
    by_cases hjk : j = k
    · subst hjk
      simp [cut, hk, hj]
    · have hn : (id, k) ∉ l.table := fun he => hjk (h.entry_unique hj he)
      simp [cut, hk, hn, hjk]

theorem cut_foldl_call (table : List (UInt64 × Nat)) (calls : List Call) {k : Nat} {c : Call}
    (hk : calls[k]? = some c) :
    (table.foldl (fun calls entry => cut calls entry.2) calls)[k]? =
      some (if k ∈ table.map Prod.snd then { c with mailbox := c.mailbox.cutOff } else c) := by
  induction table generalizing calls c with
  | nil => simp [hk]
  | cons e rest ih =>
    rw [List.foldl_cons]
    by_cases he : e.2 = k
    · rw [ih (c := { c with mailbox := c.mailbox.cutOff }) _ (by simp [cut, he, hk])]
      have hm : c.mailbox.cutOff.cutOff = c.mailbox.cutOff := by cases c.mailbox <;> rfl
      simp [he, hm]
    · have hm : k ∈ (e :: rest).map Prod.snd ↔ k ∈ rest.map Prod.snd := by
        simp only [List.map_cons, List.mem_cons, Ne.symm he, false_or]
      rw [ih (c := c) _ (by simp [cut, he, hk])]
      simp only [hm]

theorem Coherent.listed_iff {l : Link} (h : l.Coherent) {k : Nat} {c : Call}
    (hk : l.calls[k]? = some c) : (c.id, k) ∈ l.table ↔ k ∈ l.table.map Prod.snd := by
  constructor
  · intro he
    exact List.mem_map.mpr ⟨_, he, rfl⟩
  · intro he
    obtain ⟨⟨id, j⟩, hmem, rfl⟩ := List.mem_map.mp he
    obtain ⟨c', hc', rfl, -⟩ := h.entries _ hmem
    have : c' = c := Option.some.inj (hc'.symm.trans hk)
    exact this ▸ hmem

/-- The table is emptied, and whoever waits in it is cut off. -/
theorem shut_call {l : Link} (h : l.Coherent) {k : Nat} {c : Call} (hk : l.calls[k]? = some c) :
    l.shut.calls[k]? =
      some (if (c.id, k) ∈ l.table then { c with mailbox := c.mailbox.cutOff } else c) := by
  simp only [shut, cut_foldl_call l.table l.calls hk, h.listed_iff hk]

end Link

end GameRelay.Outbound
