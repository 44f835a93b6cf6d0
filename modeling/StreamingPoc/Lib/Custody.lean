import Mathlib.Logic.Function.Basic
import Mathlib.Logic.Relation

/-!
# Custody of resources

A custody map gives each resource at most one place, so exclusive ownership
holds by its type. `Tracks` says that a concrete "is kept at" relation is the
graph of such a map; the three lemmas after it are the three ways a step may
change custody.
-/
namespace StreamingPoc.Lib

variable {β π : Type} [DecidableEq β]

abbrev Custody (β π : Type) := β → Option π

/-- One change of custody. -/
inductive Transfer : Custody β π → Custody β π → Prop where
  | create (o : Custody β π) (b : β) (p : π) (unknown : o b = none) :
      Transfer o (Function.update o b (some p))
  | move (o : Custody β π) (b : β) (p q : π) (kept : o b = some p) :
      Transfer o (Function.update o b (some q))
  | lose (o : Custody β π) (b : β) (p : π) (kept : o b = some p) :
      Transfer o (Function.update o b none)

/-- `keptAt` is the graph of the custody map. -/
def Tracks (keptAt : β → π → Prop) (o : Custody β π) : Prop :=
  ∀ b p, keptAt b p ↔ o b = some p

namespace Tracks

variable {keptAt keptAt' : β → π → Prop} {o : Custody β π}

omit [DecidableEq β] in
theorem exclusive (tracks : Tracks keptAt o) {b : β} {p q : π}
    (atP : keptAt b p) (atQ : keptAt b q) : p = q := by
  rw [tracks] at atP atQ
  exact Option.some.inj (atP.symm.trans atQ)

omit [DecidableEq β] in
theorem congr (tracks : Tracks keptAt o) (same : ∀ b p, keptAt' b p ↔ keptAt b p) :
    Tracks keptAt' o :=
  fun b p => (same b p).trans (tracks b p)

/-- `b` is now at `q` and nowhere else; all other resources stay. -/
theorem put (tracks : Tracks keptAt o) (b : β) (q : π)
    (after : ∀ x p, keptAt' x p ↔ if x = b then p = q else keptAt x p) :
    Tracks keptAt' (Function.update o b (some q)) := by
  intro x p
  rw [after, Function.update_apply]
  split
  · rw [Option.some.injEq, eq_comm]
  · exact tracks x p

/-- `b` is no longer kept anywhere; all other resources stay. -/
theorem drop (tracks : Tracks keptAt o) (b : β)
    (after : ∀ x p, keptAt' x p ↔ x ≠ b ∧ keptAt x p) :
    Tracks keptAt' (Function.update o b none) := by
  intro x p
  rw [after, Function.update_apply]
  split
  · rename_i same
    simp [same]
  · rename_i other
    simpa [other] using tracks x p

end Tracks

end StreamingPoc.Lib
