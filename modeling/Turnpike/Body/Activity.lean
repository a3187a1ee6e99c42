import Turnpike.Body.Incoming

/-!
What a handler does with the body of its request, as a value: each step tells what it wants and how
it goes on from the answer.
-/

namespace Turnpike

inductive Activity (α : Type) where
  | done (result : α)
  | frame (next : Answer → Activity α)
  | read (next : Answer → Activity α)
  /-- Asks once for the next piece with data, without waiting. -/
  | poll (next : Option Answer → Activity α)
  | gather (limit : Option Nat) (next : Bytes → BodyReader.Stop → Activity α)
  | inspect (next : BodyView → Activity α)
  | pause (next : Activity α)
  /-- Gives way while the other end, whose peer may be slow, comes no further than so many steps. -/
  | wait (steps : Nat) (next : Activity α)
  | release (next : Activity α)

namespace Activity

def bind : Activity α → (α → Activity β) → Activity β
  | .done result, f => f result
  | .frame next, f => .frame fun answer => (next answer).bind f
  | .read next, f => .read fun answer => (next answer).bind f
  | .poll next, f => .poll fun answer => (next answer).bind f
  | .gather limit next, f => .gather limit fun data stop => (next data stop).bind f
  | .inspect next, f => .inspect fun view => (next view).bind f
  | .pause next, f => .pause (next.bind f)
  | .wait steps next, f => .wait steps (next.bind f)
  | .release next, f => .release (next.bind f)

def map (f : α → β) (activity : Activity α) : Activity β := activity.bind fun result => .done (f result)

/-- Runs an activity on a body.  Without a result it waits for a piece that cannot arrive. -/
def run [Incoming ι] : Activity α → BodyReader ι → Option α × BodyReader ι
  | .done result, reader => (some result, reader)
  | .frame next, reader =>
    match reader.frame with
    | none => (none, reader)
    | some (answer, rest) => (next answer).run rest
  | .read next, reader =>
    match reader.read with
    | none => (none, reader)
    | some (answer, rest) => (next answer).run rest
  | .poll next, reader =>
    let polled := reader.pollData
    (next polled.1.answer?).run polled.2
  | .gather limit next, reader =>
    match reader.gather limit with
    | none => (none, reader)
    | some (data, stop, rest) => (next data stop).run rest
  | .inspect next, reader => (next reader.view).run reader
  | .pause next, reader => next.run reader.serve
  | .wait steps next, reader => next.run (reader.advance steps)
  | .release next, reader => next.run reader.release

@[simp] theorem done_bind (result : α) (f : α → Activity β) : (done result).bind f = f result := rfl

@[simp] theorem bind_done (activity : Activity α) : activity.bind done = activity := by
  induction activity <;> simp_all [bind]

theorem bind_assoc (activity : Activity α) (f : α → Activity β) (g : β → Activity γ) :
    (activity.bind f).bind g = activity.bind fun result => (f result).bind g := by
  induction activity <;> simp_all [bind]

theorem run_bind [Incoming ι] (activity : Activity α) (f : α → Activity β) (reader : BodyReader ι) :
    (activity.bind f).run reader =
      match activity.run reader with
      | (some result, rest) => (f result).run rest
      | (none, rest) => (none, rest) := by
  induction activity generalizing reader with
  | done result => rfl
  | frame next ih =>
    simp only [bind, run]
    cases reader.frame with
    | none => rfl
    | some found => exact ih found.1 found.2
  | read next ih =>
    simp only [bind, run]
    cases reader.read with
    | none => rfl
    | some found => exact ih found.1 found.2
  | poll next ih => exact ih _ _
  | gather limit next ih =>
    simp only [bind, run]
    cases reader.gather limit with
    | none => rfl
    | some found => exact ih found.1 found.2.1 found.2.2
  | inspect next ih => exact ih _ _
  | pause next ih => exact ih _
  | wait steps next ih => exact ih _
  | release next ih => exact ih _

/-- Runs an activity on a body in memory and tells what it leaves unread. -/
def runOn (body : Bytes) (activity : Activity α) : Option α × Option Bytes :=
  let ran := activity.run (.start (StoredBody.ofBytes body))
  (ran.1, ran.2.body.data)

end Activity

end Turnpike
