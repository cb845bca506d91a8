import Bhasha.Heap.Basic

/-!
Giving frames back.

Frames are given back in two ways. A full collection keeps the frames that can be reached from
given roots and gives back all others. A release looks at a few candidates only, and at one
result that has to outlive them: it keeps the candidates that the result reaches through
candidates, and gives back the other candidates.

Both follow references from frame to frame inside a set of handles, and both want the handles
that are not reached. That search is `unreached`. Each of its steps takes one handle out of the
set, so the size of the set bounds the steps.
-/

namespace Bhasha.Heap

/-- The environments that the frame of a handle refers to; a stale handle refers to none. -/
def references (h : Heap) (env : Env) : List Env :=
  match h.frame? env with
  | some frame => frame.references
  | none => []

/-- The members of `left` that cannot be reached from `pending` through members of `left`, after
no more than a given number of steps. -/
def unreachedWithin (h : Heap) : Nat → List Env → List Env → List Env
  | 0, left, _ => left
  | n + 1, left, pending =>
    -- skip what lies outside the set or was reached before
    match pending.dropWhile (!left.contains ·) with
    | [] => left
    | env :: pending =>
      unreachedWithin h n (left.filter (· != env)) (h.references env ++ pending)

/-- The members of a set of handles that cannot be reached from given handles through members of
the set. -/
def unreached (h : Heap) (within starts : List Env) : List Env :=
  h.unreachedWithin within.length within starts

/-- Give the frame of a handle back: its slot is emptied and counts one generation more. A stale
handle changes nothing. -/
def reclaim (h : Heap) (env : Env) : Heap :=
  if h.contains env then
    { slots := h.slots.setIfInBounds env.index
        { generation := env.generation + 1, frame := none }
      free := env.index :: h.free }
  else
    h

/-- Give the frames of several handles back, one after the other. -/
def reclaimAll (h : Heap) (envs : List Env) : Heap :=
  envs.foldl reclaim h

/-- The handles that have a frame, in the order of the slots. -/
def live (h : Heap) : List Env :=
  h.slots.toList.zipIdx.filterMap fun (slot, index) =>
    if slot.frame.isSome then some ⟨index, slot.generation⟩ else none

/-- Give back every frame that cannot be reached from the roots; yields their number. -/
def collect (h : Heap) (roots : List Env) : Nat × Heap :=
  let garbage := h.unreached h.live roots
  (garbage.length, h.reclaimAll garbage)

/-- Give back the candidates that the result does not reach through candidates; yields the others,
in the order given. -/
def release (h : Heap) (candidates : List Env) (result : Value) : List Env × Heap :=
  let dead := h.unreached candidates result.captured
  (candidates.filter (!dead.contains ·), h.reclaimAll dead)

end Bhasha.Heap
