import Bhasha.Value.Basic

/-!
The heap of environments.

An environment is a frame of bindings with a handle to the frame around it. Frames live in the
slots of a heap. A slot whose frame was given back is used again, the one freed last first; to
keep old handles from finding the new frame, a slot counts its generations, and a handle is
good only for the generation it was made in.
-/

namespace Bhasha

/-- The bindings of one environment. -/
structure Frame where
  /-- The bound names with their values, each name once, in the order of their first binding. -/
  bindings : List (String × Value) := []
  /-- The environment around this one. -/
  parent : Option Env := none
deriving Inhabited

namespace Frame

/-- The value bound to a name in this frame. -/
def get? (f : Frame) (name : String) : Option Value :=
  f.bindings.lookup name

/-- The bindings with one name bound anew, in its old place if it had one. -/
def rebind (name : String) (value : Value) : List (String × Value) → List (String × Value)
  | [] => [(name, value)]
  | (other, old) :: rest =>
    if other = name then (name, value) :: rest else (other, old) :: rebind name value rest

/-- Binding a name anew changes what is bound to that name and nothing else. -/
theorem lookup_rebind (name other : String) (value : Value) (bs : List (String × Value)) :
    (rebind name value bs).lookup other = if other = name then some value else bs.lookup other := by
  induction bs with
  | nil =>
    by_cases h : other = name
    · simp [rebind, h]
    · simp [rebind, List.lookup_cons, beq_false_of_ne h, h]
  | cons b rest ih =>
    obtain ⟨key, old⟩ := b
    by_cases hk : key = name
    · -- the name is bound here
      subst hk
      by_cases h : other = key
      · simp [rebind, h]
      · simp [rebind, List.lookup_cons, beq_false_of_ne h, h]
    · -- the name is bound further on, if at all
      rw [rebind, if_neg hk, List.lookup_cons, List.lookup_cons, ih]
      by_cases h : other = key
      · subst h
        simp [hk]
      · simp [beq_false_of_ne h]

/-- The frame with a name bound to a value. -/
def set (f : Frame) (name : String) (value : Value) : Frame :=
  { f with bindings := rebind name value f.bindings }

/-- A frame after a binding: the name has the new value, and every other name its old one. -/
theorem get?_set (f : Frame) (name other : String) (value : Value) :
    (f.set name value).get? other = if other = name then some value else f.get? other :=
  lookup_rebind name other value f.bindings

/-- The environments that a frame refers to: the one around it, and those held by its values. -/
def references (f : Frame) : List Env :=
  f.parent.toList ++ f.bindings.flatMap (·.2.captured)

end Frame

/-- A slot of the heap. -/
structure Slot where
  /-- How often the slot was emptied, in 32 bits. -/
  generation : UInt32 := 0
  /-- The frame in the slot, if it is in use. -/
  frame : Option Frame
deriving Inhabited

/-- A heap of environments. -/
structure Heap where
  /-- The slots. -/
  slots : Array Slot := #[]
  /-- The slots not in use, the one emptied last first. -/
  free : List Nat := []
deriving Inhabited

namespace Heap

/-- The heap without frames. -/
def empty : Heap := {}

/-- The frame of a handle, unless the handle is stale. -/
def frame? (h : Heap) (env : Env) : Option Frame :=
  match h.slots[env.index]? with
  | some slot => if slot.generation = env.generation then slot.frame else none
  | none => none

/-- Whether a handle has a frame. -/
def contains (h : Heap) (env : Env) : Bool :=
  (h.frame? env).isSome

/-- The environment around that of a handle. -/
def parent? (h : Heap) (env : Env) : Option Env :=
  (h.frame? env).bind Frame.parent

/-- The number of frames. -/
def size (h : Heap) : Nat :=
  h.slots.size - h.free.length

/-- Whether there is no frame. -/
def isEmpty (h : Heap) : Bool :=
  h.size == 0

/-- A new frame without bindings, in the slot emptied last or else in a new one. -/
def allocate (h : Heap) (parent : Option Env) : Env × Heap :=
  let frame : Frame := { parent }
  match h.free with
  | index :: free =>
    let generation := (h.slots.getD index { frame := none }).generation
    (⟨index, generation⟩,
      { slots := h.slots.setIfInBounds index { generation, frame := some frame }, free })
  | [] => (⟨h.slots.size, 0⟩, { h with slots := h.slots.push { frame := some frame } })

/-- The heap with the frame of a handle replaced; a stale handle changes nothing. -/
def setFrame (h : Heap) (env : Env) (frame : Frame) : Heap :=
  if h.contains env then
    { h with
      slots := h.slots.setIfInBounds env.index
        { generation := env.generation, frame := some frame } }
  else
    h

/-- Bind a name in the frame of a handle itself; a stale handle changes nothing. -/
def set (h : Heap) (env : Env) (name : String) (value : Value) : Heap :=
  match h.frame? env with
  | some frame => h.setFrame env (frame.set name value)
  | none => h

/-- The value of a name in the environment of a handle or in the nearest one around it, looking
at no more than a given number of frames. A stale handle ends the search. -/
def getWithin (h : Heap) : Nat → Env → String → Option Value
  | 0, _, _ => none
  | n + 1, env, name =>
    match h.frame? env with
    | none => none
    | some frame =>
      match frame.get? name with
      | some value => some value
      | none =>
        match frame.parent with
        | some parent => getWithin h n parent name
        | none => none

/-- The value of a name in the environment of a handle or in the nearest one around it. No frame
is met twice on the way outward, so there are no more to look at than slots. -/
def get? (h : Heap) (env : Env) (name : String) : Option Value :=
  h.getWithin h.slots.size env name

end Heap

end Bhasha
