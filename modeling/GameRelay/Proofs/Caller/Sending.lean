import GameRelay.Proofs.Caller.Steps
import GameRelay.Proofs.Link.Delivery

/-!
# A request is sent at most once

All lines that were ever queued are counted, over every link of a caller. Each
is that of an attempt of one task; a task has at most one, and what it returns
tells whether there was one.
-/

set_option autoImplicit false

namespace GameRelay.Outbound

open GameRelay.Frame GameRelay.Json

/-! ## The queued lines of all links -/

def linesFrom : Nat → List Link → List (Nat × Nat)
  | _, [] => []
  | i, l :: rest => l.queued.map (fun k => (i, k)) ++ linesFrom (i + 1) rest

theorem le_of_mem_linesFrom {links : List Link} {n : Nat} {line : Nat × Nat}
    (h : line ∈ linesFrom n links) : n ≤ line.1 := by
  induction links generalizing n with
  | nil => simp [linesFrom] at h
  | cons l rest ih =>
    rcases List.mem_append.mp h with h | h
    · obtain ⟨k, -, rfl⟩ := List.mem_map.mp h
      exact Nat.le_refl n
    · have := ih h
      omega

theorem count_linesFrom (links : List Link) (n i k : Nat) :
    (linesFrom n links).count (n + i, k) =
      match links[i]? with
      | some l => l.queued.count k
      | none => 0 := by
  induction links generalizing n i with
  | nil => simp [linesFrom]
  | cons l rest ih =>
    rw [linesFrom, List.count_append]
    cases i with
    | zero =>
      have hrest : (linesFrom (n + 1) rest).count (n + 0, k) = 0 :=
        List.count_eq_zero.mpr fun h => by
          have := le_of_mem_linesFrom h
          simp only at this
          omega
      have hown : (l.queued.map fun k => (n, k)).count (n + 0, k) = l.queued.count k := by
        rw [List.count, List.countP_map, List.count]
        congr 1
        funext j
        simp
      rw [hrest, hown]
      rfl
    | succ i =>
      have hown : (l.queued.map fun k => (n, k)).count (n + (i + 1), k) = 0 :=
        List.count_eq_zero.mpr fun h => by
          obtain ⟨j, -, hj⟩ := List.mem_map.mp h
          have := congrArg Prod.fst hj
          simp only at this
          omega
      rw [hown, Nat.zero_add, show n + (i + 1) = n + 1 + i by omega, ih (n + 1) i]
      rfl

namespace Caller

def lines (c : Caller) : List (Nat × Nat) := linesFrom 0 c.links

def linesOf (c : Caller) (task : Task) : List (Nat × Nat) :=
  c.lines.filter fun line => decide (.attempt line.1 line.2 ∈ task.history)

theorem count_lines {c : Caller} {i : Nat} {l : Link} (hl : c.links[i]? = some l) (k : Nat) :
    c.lines.count (i, k) = l.queued.count k := by
  have := count_linesFrom c.links 0 i k
  rwa [Nat.zero_add, hl] at this

theorem queued_of_mem_lines {c : Caller} {i k : Nat} (h : (i, k) ∈ c.lines) :
    ∃ l, c.links[i]? = some l ∧ k ∈ l.queued := by
  have hcount := count_linesFrom c.links 0 i k
  rw [Nat.zero_add] at hcount
  cases hl : c.links[i]? with
  | none =>
    rw [hl] at hcount
    exact absurd h (List.count_eq_zero.mp hcount)
  | some l =>
    have hk : k ∈ l.queued := by
      by_contra hk
      rw [hl] at hcount
      exact List.count_eq_zero.mp (hcount.trans (List.count_eq_zero.mpr hk)) h
    exact ⟨l, rfl, hk⟩

theorem mem_linesOf {c : Caller} {task : Task} {line : Nat × Nat} :
    line ∈ c.linesOf task ↔ line ∈ c.lines ∧ .attempt line.1 line.2 ∈ task.history := by
  simp [linesOf]

theorem linesOf_eq_nil {c : Caller} {task : Task} (h : ∀ i k, .attempt i k ∉ task.history) :
    c.linesOf task = [] :=
  List.filter_eq_nil_iff.mpr fun line _ => by simp [h]

theorem length_linesOf_one {c : Caller} {task : Task} {i k : Nat}
    (h : ∀ j n, .attempt j n ∈ task.history ↔ j = i ∧ n = k) :
    (c.linesOf task).length = c.lines.count (i, k) := by
  rw [linesOf, ← List.countP_eq_length_filter, List.count]
  congr 1
  funext line
  simp only [h]
  rw [Bool.eq_iff_iff]
  simp [Prod.ext_iff]

theorem length_filter_two (lines : List (Nat × Nat)) {a b : Nat × Nat} (h : a ≠ b) :
    (lines.filter fun line => decide (line = a ∨ line = b)).length =
      lines.count a + lines.count b := by
  induction lines with
  | nil => rfl
  | cons line rest ih =>
    rw [List.filter_cons, List.count_cons, List.count_cons]
    by_cases ha : line = a
    · have hb : line ≠ b := fun hb => h (ha.symm.trans hb)
      simp only [ha, true_or, decide_true, if_true, List.length_cons, ih, beq_self_eq_true,
        beq_eq_false_iff_ne.mpr (ha ▸ hb), Bool.false_eq_true, if_false]
      omega
    · by_cases hb : line = b
      · subst hb
        simp only [or_true, decide_true, if_true, List.length_cons, ih, beq_self_eq_true,
          beq_eq_false_iff_ne.mpr ha, Bool.false_eq_true, if_false]
        omega
      · simpa [ha, hb] using ih

theorem length_linesOf_two {c : Caller} {task : Task} (i k i' k' : Nat) (hne : i ≠ i')
    (h : ∀ j n, .attempt j n ∈ task.history ↔ (j = i ∧ n = k) ∨ (j = i' ∧ n = k')) :
    (c.linesOf task).length = c.lines.count (i, k) + c.lines.count (i', k') := by
  rw [← length_filter_two c.lines fun hline => hne (congrArg Prod.fst hline), linesOf]
  congr 2
  funext line
  simp [h, Prod.ext_iff]

/-! ## The lines of an attempt -/

section
variable {c : Caller} {spec : CallSpec} {i k : Nat}

theorem counted_of_call (h : c.Linked) {l : Link} {call : Call} (hl : c.links[i]? = some l)
    (hk : l.calls[k]? = some call) : (l.slot k call).Counted l := by
  obtain ⟨events, rfl⟩ := h.reached l (List.mem_of_getElem? hl)
  exact Link.run_counted events k call hk

theorem lines_of_call (h : c.Linked) {call : Call} (hcall : c.call? i k = some call) :
    call.stage.lines? = some (c.lines.count (i, k)) := by
  obtain ⟨l, hl, hk⟩ := call?_eq_some_iff.mp hcall
  rw [count_lines hl]
  exact (counted_of_call h hl hk).lines

theorem lines_of_returned (h : c.Linked) {o : Outcome} (hreturned : c.Returned spec i k o) :
    Outcome.lines? o = some (c.lines.count (i, k)) := by
  obtain ⟨call, hcall, -, hs⟩ := hreturned
  have := lines_of_call h hcall
  rwa [hs] at this

theorem lines_of_refused (h : c.Linked)
    (hrefused : c.Returned spec i k (.error .shutdown)) : c.lines.count (i, k) = 0 :=
  (Option.some.inj (lines_of_returned h hrefused)).symm

theorem lines_of_made (h : c.Linked) (hmade : c.Made spec i k) : c.lines.count (i, k) ≤ 1 := by
  obtain ⟨call, hcall, -⟩ := hmade
  exact lines?_le_one (lines_of_call h hcall)

/-- Only the last attempt of a task has queued anything. -/
theorem lines_of_tried (h : c.Linked) {task : Task} {budget : Budget}
    (htried : c.Tried spec budget i k task.history) :
    (c.linesOf task).length = c.lines.count (i, k) := by
  obtain ⟨ask, progress, history⟩ := task
  cases htried with
  | first _ _ hmade => exact length_linesOf_one (by simp)
  | again i₀ k₀ _ _ hrefused hne hmade =>
    rw [length_linesOf_two i₀ k₀ i k hne (by simp),
      lines_of_refused h hrefused, Nat.zero_add]

end

theorem lines_of_course {c : Caller} (h : c.Linked) {task : Task}
    (hcourse : c.Course task.ask task.progress task.history) :
    (c.linesOf task).length ≤ 1 ∧ ∀ o, task.progress = .done (.outcome o) →
      Outcome.lines? o = some (c.linesOf task).length := by
  obtain ⟨ask, progress, history⟩ := task
  have hnone : ∀ task : Task, (∀ i k, .attempt i k ∉ task.history) →
      (c.linesOf task).length = 0 := fun task hno => by rw [linesOf_eq_nil hno]; rfl
  cases hcourse with
  | waiting | replacing | abandoned =>
    exact ⟨by rw [hnone _ (by simp)]; omega, by simp⟩
  | replaced succeeded => exact ⟨by rw [hnone _ (by simp)]; omega, by simp⟩
  | calling spec budget i k _ _ htried | leaving spec budget i k _ _ htried
  | abandonedCall spec budget i k _ _ htried =>
    rw [lines_of_tried h htried]
    exact ⟨lines_of_made h htried.made, by simp⟩
  | returned spec budget i k _ o _ htried hreturned =>
    rw [lines_of_tried h htried]
    constructor
    · exact lines_of_made h htried.made
    · intro o' ho'
      obtain rfl : o = o' := by simpa using ho'
      exact lines_of_returned h hreturned
  | refused spec i k _ hrefused | abandonedDial spec i k _ hrefused =>
    rw [length_linesOf_one (i := i) (k := k) (by simp), lines_of_refused h hrefused]
    exact ⟨Nat.zero_le 1, by simp⟩
  | lost spec i k _ hrefused =>
    rw [length_linesOf_one (i := i) (k := k) (by simp), lines_of_refused h hrefused]
    constructor
    · omega
    · intro o ho
      obtain rfl : Except.error RelayError.lostConnection = o := by simpa using ho
      rfl

structure SentOnce (c : Caller) : Prop where
  /-- What the writer of a link was given is the lines that are counted, in order. -/
  bytes : ∀ l ∈ c.links, l.written ++ l.unwritten = l.queued.flatMap l.lineBytes
  /-- Each line is that of one task. -/
  owner : ∀ line ∈ c.lines, ∃ (t : Nat) (task : Task), c.tasks[t]? = some task ∧
    line ∈ c.linesOf task ∧
    ∀ (u : Nat) (other : Task), c.tasks[u]? = some other → line ∈ c.linesOf other → u = t
  /-- A task never has two, be it on one link or on two. -/
  once : ∀ task ∈ c.tasks, (c.linesOf task).length ≤ 1
  /-- It has as many as what it returns tells. -/
  returned : ∀ task ∈ c.tasks, ∀ o, task.progress = .done (.outcome o) →
    Outcome.lines? o = some (c.linesOf task).length

/-- At any moment of a caller, whatever has happened to its links. -/
theorem run_sentOnce (events : List CallerEvent) : (({} : Caller).run events).SentOnce := by
  have h := run_sane fresh_sane events
  generalize ({} : Caller).run events = c at h
  have hcourse : ∀ task ∈ c.tasks, c.Course task.ask task.progress task.history := by
    intro task htask
    obtain ⟨t, ht⟩ := List.mem_iff_getElem?.mp htask
    exact h.course t task ht
  constructor
  case bytes =>
    intro l hl
    obtain ⟨i, hi⟩ := List.mem_iff_getElem?.mp hl
    exact (tidy_of_linked h.linked hi).bytes
  case owner =>
    rintro ⟨i, k⟩ hline
    obtain ⟨l, hl, hk⟩ := queued_of_mem_lines hline
    have hlt := (tidy_of_linked h.linked hl).queued k hk
    obtain ⟨t, task, ht, hmem⟩ := h.made i k (isSome_call?_iff.mpr ⟨l, hl, hlt⟩)
    have hown : ∀ (u : Nat) (other : Task), c.tasks[u]? = some other →
        (i, k) ∈ c.linesOf other → u = t := by
      intro u other hu hother
      exact h.own u t other task i k hu ht (mem_linesOf.mp hother).2 hmem
    exact ⟨t, task, ht, mem_linesOf.mpr ⟨hline, hmem⟩, hown⟩
  case once =>
    intro task htask
    exact (lines_of_course h.linked (hcourse task htask)).1
  case returned =>
    intro task htask
    exact (lines_of_course h.linked (hcourse task htask)).2

end Caller

end GameRelay.Outbound
