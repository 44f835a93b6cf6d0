import Mathlib.Data.List.Basic
import Mathlib.Logic.Function.Basic

/-!
# Linearizability

Clients call operations of a shared object and get results; the calls overlap. A
history of calls and returns is linearizable if each call can be given one moment
between its beginning and its return at which it takes effect, so that the
effects in turn are a run of the object used by one client alone. `apply s op r t`
says that `op` on the object in state `s` may have the result `r` and leave `t`.
-/
namespace StreamingPoc.Lib

variable {κ ω ρ τ : Type}

inductive Item (κ ω ρ : Type) where
  | call (c : κ) (op : ω)
  | effect (c : κ) (op : ω) (result : ρ)
  | ret (c : κ) (result : ρ)
  deriving DecidableEq, Repr

def Item.client : Item κ ω ρ → κ
  | .call c _ | .effect c _ _ | .ret c _ => c

/-- What the clients see. -/
def Item.visible : Item κ ω ρ → Bool
  | .effect _ _ _ => false
  | _ => true

/-- A client between its calls, in a call that has not taken effect, and in one that has. -/
inductive Phase (ω ρ : Type) where
  | idle
  | called (op : ω)
  | done (result : ρ)
  deriving DecidableEq, Repr

inductive Phase.Next : Phase ω ρ → Item κ ω ρ → Phase ω ρ → Prop where
  | call (c : κ) (op : ω) : Phase.Next .idle (.call c op) (.called op)
  | effect (c : κ) (op : ω) (result : ρ) : Phase.Next (.called op) (.effect c op result) (.done result)
  | ret (c : κ) (result : ρ) : Phase.Next (.done result) (.ret c result) .idle

/-- The items of one client, whose calls take effect once and return what the effect gave. -/
inductive Alternates : List (Item κ ω ρ) → Phase ω ρ → Prop where
  | nil : Alternates [] .idle
  | snoc {items : List (Item κ ω ρ)} {item : Item κ ω ρ} {p q : Phase ω ρ} (before : Alternates items p)
      (next : Phase.Next p item q) : Alternates (items ++ [item]) q

/-- The effects are a run of the object. -/
inductive Legal (apply : τ → ω → ρ → τ → Prop) (init : τ) : List (Item κ ω ρ) → τ → Prop where
  | nil : Legal apply init [] init
  | visible {items : List (Item κ ω ρ)} {item : Item κ ω ρ} {s : τ} (before : Legal apply init items s)
      (seen : item.visible) : Legal apply init (items ++ [item]) s
  | effect {items : List (Item κ ω ρ)} {s t : τ} {c : κ} {op : ω} {result : ρ}
      (before : Legal apply init items s) (applied : apply s op result t) :
      Legal apply init (items ++ [.effect c op result]) t

variable [DecidableEq κ]

def Linearizable (apply : τ → ω → ρ → τ → Prop) (init : τ) (history : List (Item κ ω ρ)) : Prop :=
  ∃ items : List (Item κ ω ρ), items.filter Item.visible = history ∧
    (∃ s, Legal apply init items s) ∧ ∀ c, ∃ p, Alternates (items.filter fun item => item.client = c) p

/-- What a simulation keeps: effects are placed in the history so far, after which
the object is in state `s` and the clients are in `phases`. -/
structure Explains (apply : τ → ω → ρ → τ → Prop) (init : τ) (history items : List (Item κ ω ρ)) (s : τ)
    (phases : κ → Phase ω ρ) : Prop where
  history : items.filter Item.visible = history
  legal : Legal apply init items s
  alternates : ∀ c, Alternates (items.filter fun item => item.client = c) (phases c)

namespace Explains

variable {apply : τ → ω → ρ → τ → Prop} {init s t : τ} {history items : List (Item κ ω ρ)}
  {phases : κ → Phase ω ρ}

theorem start : Explains apply init ([] : List (Item κ ω ρ)) [] init fun _ => .idle :=
  ⟨rfl, .nil, fun _ => .nil⟩

theorem linearizable (explains : Explains apply init history items s phases) : Linearizable apply init history :=
  ⟨items, explains.history, ⟨s, explains.legal⟩, fun c => ⟨phases c, explains.alternates c⟩⟩

/-- Only the client of an item moves on. -/
theorem alternates_snoc (explains : Explains apply init history items s phases) {item : Item κ ω ρ} {q : Phase ω ρ}
    (next : Phase.Next (phases item.client) item q) (c : κ) :
    Alternates ((items ++ [item]).filter fun other => other.client = c)
      (Function.update phases item.client q c) := by
  rw [List.filter_append]
  by_cases mine : c = item.client
  · subst mine
    rw [Function.update_self, List.filter_cons_of_pos (by simp), List.filter_nil]
    exact .snoc (explains.alternates item.client) next
  · rw [Function.update_of_ne mine, List.filter_cons_of_neg (by simpa using Ne.symm mine), List.filter_nil,
      List.append_nil]
    exact explains.alternates c

theorem call (explains : Explains apply init history items s phases) {c : κ} (idle : phases c = .idle) (op : ω) :
    Explains apply init (history ++ [.call c op]) (items ++ [.call c op]) s
      (Function.update phases c (.called op)) := by
  have next : Phase.Next (phases c) (Item.call c op : Item κ ω ρ) (.called op) := idle ▸ .call c op
  refine ⟨?_, .visible explains.legal rfl, explains.alternates_snoc next⟩
  rw [List.filter_append, explains.history]
  rfl

theorem effect (explains : Explains apply init history items s phases) {c : κ} {op : ω}
    (called : phases c = .called op) {result : ρ} (applied : apply s op result t) :
    Explains apply init history (items ++ [.effect c op result]) t
      (Function.update phases c (.done result)) := by
  have next : Phase.Next (phases c) (Item.effect c op result) (.done result) := called ▸ .effect c op result
  refine ⟨?_, .effect explains.legal applied, explains.alternates_snoc next⟩
  rw [List.filter_append, explains.history]
  exact List.append_nil _

theorem ret (explains : Explains apply init history items s phases) {c : κ} {result : ρ}
    (done : phases c = .done result) :
    Explains apply init (history ++ [.ret c result]) (items ++ [.ret c result]) s
      (Function.update phases c .idle) := by
  have next : Phase.Next (phases c) (Item.ret c result : Item κ ω ρ) .idle := done ▸ .ret c result
  refine ⟨?_, .visible explains.legal rfl, explains.alternates_snoc next⟩
  rw [List.filter_append, explains.history]
  rfl

/-- A call that takes effect and returns at once. -/
theorem finish (explains : Explains apply init history items s phases) {c : κ} {op : ω}
    (called : phases c = .called op) {result : ρ} (applied : apply s op result t) :
    ∃ items', Explains apply init (history ++ [.ret c result]) items' t (Function.update phases c .idle) := by
  have done : Function.update phases c (.done result) c = .done result := Function.update_self ..
  have ended := (explains.effect called applied).ret done
  rw [Function.update_idem] at ended
  exact ⟨_, ended⟩

end Explains

end StreamingPoc.Lib
