import GameRelay.Proofs.Caller.Late
import GameRelay.Proofs.Link.Wire

/-!
# What a caller has sent

A line is queued behind all that were queued before, on whatever link, and only by
the call of the task that has the lock.
-/

set_option autoImplicit false

namespace GameRelay.Outbound

open GameRelay.Frame GameRelay.Text

namespace Link

theorem lineBytes_of_run {l : Link} (h : l.Coherent) (events : List LinkEvent) {k : Nat}
    (hk : k < l.calls.length) : (l.run events).lineBytes k = l.lineBytes k := by
  induction events generalizing l with
  | nil => rfl
  | cons event rest ih =>
    have hk' := Nat.lt_of_lt_of_le hk (length_le_step l event)
    exact (ih (step_coherent h event) hk').trans (lineBytes_of_step h event hk)

end Link

/-! ## The order of the lines -/

theorem linesFrom_append (links more : List Link) (n : Nat) :
    linesFrom n (links ++ more) = linesFrom n links ++ linesFrom (n + links.length) more := by
  induction links generalizing n with
  | nil => rfl
  | cons l rest ih =>
    rw [List.cons_append, linesFrom, linesFrom, ih, List.append_assoc, List.length_cons,
      Nat.add_right_comm, Nat.add_assoc]

theorem linesFrom_set {links : List Link} {i : Nat} (hi : i < links.length) (l : Link) :
    linesFrom 0 (links.set i l) = linesFrom 0 (links.take i) ++
      (l.queued.map (fun k => (i, k)) ++ linesFrom (i + 1) (links.drop (i + 1))) := by
  rw [List.set_eq_take_append_cons_drop, if_pos hi, linesFrom_append, List.length_take,
    Nat.min_eq_left (Nat.le_of_lt hi), Nat.zero_add, linesFrom]

namespace Caller

section
variable {c c' : Caller} {i : Nat} {l l' : Link}

theorem lines_of_set (hl : c.links[i]? = some l) (hlinks : c'.links = c.links.set i l')
    (hqueued : l'.queued = l.queued) : c'.lines = c.lines := by
  obtain ⟨hi, hget⟩ := List.getElem?_eq_some_iff.mp hl
  have hsame := linesFrom_set hi l
  rw [← hget, List.set_getElem_self, hget] at hsame
  rw [lines, lines, hlinks, linesFrom_set hi, hqueued, hsame]

/-- The lines of the last link come behind all others. -/
theorem lines_of_set_last (hl : c.links[i]? = some l) (hlast : c.links.length = i + 1)
    (hlinks : c'.links = c.links.set i l') {k : Nat} (hqueued : l'.queued = l.queued ++ [k]) :
    c'.lines = c.lines ++ [(i, k)] := by
  obtain ⟨hi, hget⟩ := List.getElem?_eq_some_iff.mp hl
  have hsame := linesFrom_set hi l
  have hdrop : c.links.drop (i + 1) = [] := List.drop_eq_nil_of_le (Nat.le_of_eq hlast)
  rw [← hget, List.set_getElem_self, hget, hdrop] at hsame
  rw [lines, lines, hlinks, linesFrom_set hi, hqueued, hdrop, hsame]
  simp [linesFrom]

theorem lines_of_append (hlinks : c'.links = c.links ++ [l]) (hqueued : l.queued = []) :
    c'.lines = c.lines := by
  rw [lines, lines, hlinks, linesFrom_append]
  simp [linesFrom, hqueued]

theorem queued_of_start (l : Link) (method : String) (argument : Argument) (want : Want) :
    (l.step (.start method argument want)).queued = l.queued := by
  rw [Link.step]
  split <;> rfl

end

/-- One step queues nothing, or the line of the call that the holder of the lock is at. -/
theorem lines_of_step {c : Caller} (h : c.Guarded) (event : CallerEvent) :
    (c.step event).lines = c.lines ∨ ∃ (t : Nat) (task : Task) (line : Nat × Nat),
      c.holder = some t ∧ c.tasks[t]? = some task ∧ task.progress.call? = some line ∧
      (c.step event).lines = c.lines ++ [line] := by
  cases step_relinked c event with
  | same hlinks => exact .inl (by rw [lines, hlinks, lines])
  | installed hlinks => exact .inl (lines_of_append hlinks rfl)
  | redialed task spec _ _ hlinks =>
    exact .inl (lines_of_append hlinks (queued_of_start _ _ _ _))
  | began task spec l _ _ _ hl hlinks =>
    exact .inl (lines_of_set hl hlinks (queued_of_start _ _ _ _))
  | went i l linkEvent hl _ hlinks =>
    have hmove := Link.step_move l linkEvent
    generalize hl' : l.step linkEvent = l' at hmove hlinks
    cases hmove with
    | queued k call hk hs =>
      have hcall : c.call? i k = some call := call?_eq_some_iff.mpr ⟨l, hl, hk⟩
      have hgoing : call.isOver = false := by simp [Call.isOver, hs]
      obtain ⟨rfl, t, task, hheld, ht, hat⟩ := holder_of_going h hcall hgoing
      exact .inr ⟨t, task, (c.installed, k), hheld, ht, hat,
        lines_of_set_last hl h.sane.linked.last hlinks rfl⟩
    | registered | left => exact .inl (lines_of_set hl hlinks (by simp [Link.enter, Link.setStage]))
    | none | started | refused | notQueued | collected | disconnected | abandoned | arrived
    | finished | overheard | taken | readEnded | handed | wrote | writeFailed | queueClosed
    | discarded => exact .inl (lines_of_set hl hlinks rfl)

/-! ## The bytes of the lines -/

def lineAt (c : Caller) (line : Nat × Nat) : List UInt8 :=
  ((c.links[line.1]?).map fun l => l.lineBytes line.2).getD []

def sent (c : Caller) : List (List UInt8) := c.lines.map c.lineAt

theorem lineAt_of_mem {c : Caller} {i k : Nat} {l : Link} (hl : c.links[i]? = some l) :
    c.lineAt (i, k) = l.lineBytes k := by
  simp [lineAt, hl]

theorem lineAt_of_linksLast {c c' : Caller} (h : c.Linked) (hlast : c.LinksLast c')
    {line : Nat × Nat} (hline : line ∈ c.lines) : c'.lineAt line = c.lineAt line := by
  obtain ⟨l, hl, hk⟩ := queued_of_mem_lines hline
  obtain ⟨events, hl'⟩ := hlast line.1 l hl
  have htidy := tidy_of_linked h hl
  exact (lineAt_of_mem hl').trans ((Link.lineBytes_of_run htidy.coherent events
    (htidy.queued line.2 hk)).trans (lineAt_of_mem hl).symm)

theorem sent_of_step {c : Caller} (h : c.Guarded) (event : CallerEvent) :
    c.sent <+: (c.step event).sent := by
  have hsame : c.lines.map (c.step event).lineAt = c.sent :=
    List.map_congr_left fun line hline =>
      lineAt_of_linksLast h.sane.linked (step_lasts c event).links hline
  rcases lines_of_step h event with hlines | ⟨t, task, line, -, -, -, hlines⟩
  · have hsent : (c.step event).sent = c.sent := by rw [← hsame, sent, hlines]
    exact hsent ▸ List.prefix_rfl
  · have hsent : (c.step event).sent = c.sent ++ [(c.step event).lineAt line] := by
      rw [← hsame, sent, hlines, List.map_append, List.map_singleton]
    rw [hsent]
    exact List.prefix_append _ _

theorem links_drop {c : Caller} {l : Link} (hl : c.links[c.installed]? = some l) :
    c.drop.links = c.links.set c.installed l.discard := by
  simp [drop, onLink, hl, Link.step]

/-- A link that was dropped with its caller has had a run as well. -/
theorem reached_drop {c : Caller} (h : c.Linked) :
    ∀ l ∈ c.drop.links, ∃ events, l = ({} : Link).run events := by
  obtain ⟨l, hl, -⟩ := installed_link h
  intro l' hl'
  rcases List.mem_or_eq_of_mem_set (links_drop hl ▸ hl') with hl' | rfl
  · exact h.reached l' hl'
  · obtain ⟨events, rfl⟩ := h.reached l (List.mem_of_getElem? hl)
    exact ⟨events ++ [LinkEvent.discard], (Link.run_append _ events [.discard]).symm⟩

/-- Where nothing was asked for, going away closes the one link that there is. -/
theorem drop_unused {c : Caller} (h : c.Sane) (hnil : c.tasks = []) (hinstalled : c.installed = 0) :
    ∃ l, c.drop.links = [l] ∧ l.dropped = true ∧ l.reader = .ended ∧ l.writer = .ended := by
  obtain ⟨l, hl, -⟩ := installed_link h.linked
  have hone : c.links = [l] := by
    obtain ⟨l', hlinks⟩ := List.length_eq_one_iff.mp (by rw [h.linked.last, hinstalled])
    simpa [hlinks, hinstalled] using hl
  have hcalls : l.calls = [] := by
    apply List.eq_nil_of_length_eq_zero
    by_contra hne
    obtain ⟨t, task, ht, -⟩ :=
      h.made _ 0 (isSome_call?_iff.mpr ⟨l, hl, Nat.pos_of_ne_zero hne⟩)
    simp [hnil] at ht
  refine ⟨l.discard, ?_, ?_⟩
  · rw [links_drop hl, hinstalled, hone, List.set_cons_zero]
  · simp [Link.discard, hcalls]

/-- What was sent is not touched when the caller goes away. -/
theorem sent_drop {c : Caller} (h : c.Linked) : c.drop.sent = c.sent := by
  obtain ⟨l, hl, -⟩ := installed_link h
  have hlinks := links_drop hl
  have hqueued : l.discard.queued = l.queued := by
    rw [Link.discard]
    split <;> rfl
  have hdiscard : c.drop.links = c.links.set c.installed (l.step .discard) := hlinks
  have hlast : c.LinksLast c.drop := linksLast_of_set hl hdiscard
  rw [sent, sent, lines_of_set hl hlinks hqueued]
  exact List.map_congr_left fun line hline => lineAt_of_linksLast h hlast hline

theorem flatMap_linesFrom {c : Caller} (before links : List Link) (h : c.links = before ++ links) :
    (linesFrom before.length links).flatMap c.lineAt =
      links.flatMap fun l => l.queued.flatMap l.lineBytes := by
  induction links generalizing before with
  | nil => rfl
  | cons l rest ih =>
    have hl : c.links[before.length]? = some l := by simp [h]
    have hown : (l.queued.map fun k => (before.length, k)).flatMap c.lineAt =
        l.queued.flatMap l.lineBytes := by
      rw [List.flatMap_map]
      congr 1
      funext k
      exact lineAt_of_mem hl
    have hrest := ih (before ++ [l]) (by simpa using h)
    rw [List.length_append, List.length_singleton] at hrest
    rw [linesFrom, List.flatMap_append, hown, hrest, List.flatMap_cons]

/-- The writers of the links were given these lines and no other byte. -/
theorem bytes_of_sent {c : Caller} (h : ∀ l ∈ c.links, ∃ events, l = ({} : Link).run events) :
    (c.links.flatMap fun l => l.written ++ l.unwritten) = c.sent.flatten := by
  have hsent := flatMap_linesFrom (c := c) [] c.links rfl
  rw [sent, ← List.flatMap_def]
  refine Eq.trans ?_ hsent.symm
  rw [List.flatMap_def, List.flatMap_def]
  congr 1
  apply List.map_congr_left
  intro l hl
  obtain ⟨events, rfl⟩ := h l hl
  exact (Link.run_tidy Link.fresh_tidy events).bytes

/-- The line of a task about a game, if it has one. -/
theorem line_of_game {c : Caller} (h : c.Sane) {task : Task} (htask : task ∈ c.tasks)
    {method : String} {g : Identity} (hspec : task.ask.call? = some (.game method g)) :
    ∃ id, ((c.linesOf task).map c.lineAt).Sublist
      [encode (Request.call method g.toValue id).line] := by
  obtain ⟨t, ht⟩ := List.mem_iff_getElem?.mp htask
  have hcourse := h.course t task ht
  have honce := (lines_of_course h.linked hcourse).1
  cases hlines : c.linesOf task with
  | nil => exact ⟨0, List.nil_sublist _⟩
  | cons line rest =>
    obtain rfl : rest = [] := by simpa [hlines] using honce
    obtain ⟨hline, hmem⟩ := mem_linesOf.mp (hlines ▸ List.mem_singleton_self line)
    obtain ⟨spec, hspec', call, hcall, rfl⟩ := made_of_course hcourse hmem
    obtain ⟨l, hl, hqueued⟩ := queued_of_mem_lines hline
    have hk : l.calls[line.2]? = some call := by
      obtain ⟨l', hl', hk⟩ := call?_eq_some_iff.mp hcall
      obtain rfl := Option.some.inj (hl.symm.trans hl')
      exact hk
    have hgame : call.spec = .game method g := Option.some.inj (hspec'.symm.trans hspec)
    have hmethod : call.method = method := congrArg CallSpec.method hgame
    obtain ⟨events, rfl⟩ := h.linked.reached l (List.mem_of_getElem? hl)
    have htext := Link.line_of_queued events hk hqueued (congrArg CallSpec.argument hgame)
    have hbytes : c.lineAt line = encode call.line :=
      (lineAt_of_mem hl).trans (Link.lineBytes_eq hk)
    rw [hmethod] at htext
    exact ⟨call.id, by rw [List.map_singleton, hbytes, htext]⟩

end Caller

end GameRelay.Outbound
