/-
Sinks that stand for another.

A caller does not have to hand over the state that entries go to.  It may lend out a
larger state for what is kept at one place in it, and then the entries go there; or it
may hand over an object that brings its own way of taking an entry along, so that this is
known only when an entry arrives.
-/
import TensorText.Entry

namespace TensorText

/-- A place in the states of a type `ρ`, at which they keep a `σ`. -/
structure Place (ρ σ : Type) where
  /-- What is kept at the place. -/
  get : ρ → σ
  /-- The state with something else at the place. -/
  set : ρ → σ → ρ
  get_set : ∀ r s, get (set r s) = s
  set_get : ∀ r, set r (get r) = r
  set_set : ∀ r s s', set (set r s) s' = set r s'

/-- The first of two states, as a place in both together. -/
def Place.first {σ τ : Type} : Place (σ × τ) σ where
  get r := r.1
  set r s := (s, r.2)
  get_set _ _ := rfl
  set_get _ := rfl
  set_set _ _ _ := rfl

/-- A state that is lent out for what it keeps at one place. -/
structure Borrowed (ρ σ : Type) where
  place : Place ρ σ
  whole : ρ

namespace Borrowed

variable {ρ σ : Type}

/-- What was borrowed. -/
def target (b : Borrowed ρ σ) : σ := b.place.get b.whole

/-- The loan after its target was replaced. -/
def put (b : Borrowed ρ σ) (s : σ) : Borrowed ρ σ := { b with whole := b.place.set b.whole s }

instance [Sink σ] : Sink (Borrowed ρ σ) := ⟨fun b e => b.put (Sink.push b.target e)⟩

end Borrowed

/-- A state together with its own way of taking an entry. -/
structure Receiver (σ : Type) where
  receive : σ → Entry → σ
  state : σ

instance {σ : Type} : Sink (Receiver σ) := ⟨fun r e => { r with state := r.receive r.state e }⟩

end TensorText
