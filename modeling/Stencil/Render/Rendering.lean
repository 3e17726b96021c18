import Stencil.Render.Fault

/-!
# Renderings as journals with a result

A rendering notes what it does, step by step, and ends with a value or a fault. What it noted up to
a fault stays noted.
-/

namespace Stencil

/-- A step that a rendering notes. -/
inductive Event where
  /-- A tag is looked at. -/
  | visit (tag : Tag)
  /-- A loop has no children. -/
  | emptyLoop (name : String)
  /-- A loop begins its rounds. -/
  | loop (name : String) (rounds : Nat)
  /-- A file to include cannot be read; nothing is rendered in its place. -/
  | missingFile (path : Path) (why : FileFault)
  /-- A file of so many octets is included. -/
  | includedFile (path : Path) (size : Nat)
  /-- Rendered content of so many octets is bound to a variable. -/
  | boundContent (name : String) (size : Nat)
  deriving DecidableEq, Repr

/-- The steps noted so far, and the result. -/
structure Rendering (α : Type) where
  events : List Event
  result : Except RenderFault α

namespace Rendering

variable {α β : Type}

/-- Goes on with the value, if there is one. -/
def andThen (x : Rendering α) (f : α → Rendering β) : Rendering β :=
  match x.result with
  | .ok a =>
    let y := f a
    ⟨x.events ++ y.events, y.result⟩
  | .error e => ⟨x.events, .error e⟩

instance : Monad Rendering where
  pure a := ⟨[], .ok a⟩
  bind := andThen

/-- Notes a step. -/
def note (e : Event) : Rendering Unit := ⟨[e], .ok ()⟩

/-- Stops. -/
def fail (e : RenderFault) : Rendering α := ⟨[], .error e⟩

/-- Takes over a result without noting anything. -/
def ofResult (r : Except RenderFault α) : Rendering α := ⟨[], r⟩

/-! ## The result alone -/

@[simp] theorem result_pure (a : α) : (pure a : Rendering α).result = .ok a := rfl

@[simp] theorem result_note (e : Event) : (note e).result = .ok () := rfl

@[simp] theorem result_fail (e : RenderFault) : (fail e : Rendering α).result = .error e := rfl

@[simp] theorem result_ofResult (r : Except RenderFault α) : (ofResult r).result = r := rfl

/-- What a rendering notes has no part in how it goes on. -/
@[simp] theorem result_bind (x : Rendering α) (f : α → Rendering β) :
    (x >>= f).result = x.result >>= fun a => (f a).result := by
  obtain ⟨es, _ | a⟩ := x <;> rfl

theorem events_note_bind (e : Event) (f : Unit → Rendering α) :
    (note e >>= f).events = e :: (f ()).events := rfl

@[simp] theorem ok_bind (a : α) (f : α → Except RenderFault β) : (.ok a >>= f) = f a := rfl

@[simp] theorem error_bind (e : RenderFault) (f : α → Except RenderFault β) :
    (.error e >>= f) = .error e := rfl

@[simp] theorem map_ok (f : α → β) (a : α) : (.ok a : Except RenderFault α).map f = .ok (f a) := rfl

@[simp] theorem map_error (f : α → β) (e : RenderFault) :
    (.error e : Except _ α).map f = .error e := rfl

end Rendering

end Stencil
