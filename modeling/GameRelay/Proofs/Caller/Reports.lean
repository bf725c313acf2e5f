import GameRelay.Outbound.Caller

/-!
# What was reported stays reported

A step of a caller adds to its reports, at most, and takes none of them back.
-/

set_option autoImplicit false

namespace GameRelay.Outbound.Caller

open GameRelay.Frame

section
variable (c : Caller) (t : Nat)

theorem reports_onLink (i : Nat) (event : LinkEvent) :
    c.reports <+: (c.onLink i event).reports := by
  unfold onLink
  split
  · exact List.prefix_rfl
  · exact List.prefix_append ..

theorem reports_attempt (budget : Budget) (spec : CallSpec) :
    c.reports <+: (c.attempt t budget spec).reports :=
  reports_onLink (c.record t _) _ _

theorem reports_settle (method : String) (budget : Budget) (o : Outcome) :
    c.reports <+: (c.settle t method budget o).reports := by
  unfold settle
  split
  · exact List.prefix_rfl
  · split
    · exact List.prefix_rfl
    · exact List.prefix_append ..

theorem reports_dialed (task : Task) (result : Except RelayError Unit) :
    c.reports <+: (c.dialed t task result).reports := by
  unfold dialed
  split
  · split
    · have hinstalled : c.reports <+:
          ((c.record t (.dial true)).install.report .reconnected).reports := List.prefix_append ..
      exact hinstalled.trans (reports_attempt ..)
    · exact (List.prefix_append ..).trans (List.prefix_append ..)
  · split
    · exact List.prefix_rfl
    · exact List.prefix_append ..
  · exact List.prefix_rfl

theorem reports_advance (task : Task) : c.reports <+: (c.advance t task).reports := by
  unfold advance
  split
  · split
    · split
      · exact reports_settle ..
      · exact List.prefix_rfl
    · split
      · exact reports_onLink ..
      · exact List.prefix_rfl
    · exact List.prefix_rfl
  · split
    · exact reports_onLink ..
    · exact List.prefix_rfl
    · exact List.prefix_rfl
  · exact List.prefix_rfl

theorem reports_onTask {f : Task → Caller} (hf : ∀ task, c.reports <+: (f task).reports) :
    c.reports <+: (c.onTask t f).reports := by
  unfold onTask
  split
  · exact hf _
  · exact List.prefix_rfl

theorem reports_of_step (event : CallerEvent) : c.reports <+: (c.step event).reports := by
  cases event with
  | ask what => exact List.prefix_rfl
  | acquire t =>
    apply reports_onTask
    intro task
    split
    · unfold acquire
      simp only
      split
      · exact reports_attempt { c with holder := some t } t _ _
      · exact List.prefix_rfl
    · exact List.prefix_rfl
  | advance t => exact reports_onTask c t (reports_advance c t)
  | dialed t result => exact reports_onTask c t fun task => reports_dialed c t task result
  | abandon t =>
    apply reports_onTask
    intro task
    unfold abandon
    split
    · exact List.prefix_rfl
    · split
      · exact reports_onLink ..
      · exact List.prefix_rfl
    · exact List.prefix_rfl
    · exact List.prefix_rfl
  | transport i event => exact reports_onLink ..
  | reap i =>
    simp only [step]
    split
    · exact List.prefix_rfl
    · exact reports_onLink ..

end

end GameRelay.Outbound.Caller
