import ChangeWatch.Host.Basic

/-!
Reading members of values and calling them. Strings, lists and maps answer by themselves; objects
answer through the application.
-/
namespace ChangeWatch.Value

/-- Reads a named member. A map answers null for a name it lacks, except that strings, lists and maps
all have a `length`. -/
def readField (host : Host σ) (receiver : Value) (name : String) : Access σ Value :=
  match receiver with
  | object ref => host.readField ref name
  | map _ entries =>
    match Entries.get? entries name with
    | some value => pure value
    | none => pure (if name = "length" then ofNat entries.length else null)
  | str s =>
    if name = "length" then pure (ofNat s.length)
    else throw (.unknownField receiver.kind.name name)
  | list _ items =>
    if name = "length" then pure (ofNat items.length)
    else throw (.unknownField receiver.kind.name name)
  | _ => throw (.unknownField receiver.kind.name name)

/-- The position in a list that a key means: an integer, or a whole float from zero up. The inner
answer is missing when no list is long enough. -/
def position? : Value → Option (Option Nat)
  | int n => some (if 0 ≤ n.toInt then some n.toInt.toNat else none)
  | float x => (naturalOfFloat? x).map some
  | _ => none

/-- Reads an indexed member. Lists take positions and answer null outside their range; maps and
objects take any key by its text. -/
def readKeyed (host : Host σ) (receiver key : Value) : Access σ Value :=
  match receiver with
  | list _ items =>
    match position? key with
    | some index => pure ((index.bind (items[·]?)).getD null)
    | none => throw (.unknownField receiver.kind.name key.display)
  | map _ entries => pure ((Entries.get? entries key.display).getD null)
  | object ref => host.readKeyed ref key
  | _ => throw (.unknownField receiver.kind.name key.display)

/-- Calls a named member. -/
def invoke (host : Host σ) (receiver : Value) (name : String) (args : List Value) :
    Access σ Value :=
  match receiver with
  | object ref => host.invoke ref name args
  | _ => do
    match ← readField host receiver name with
    | function f => host.call f args
    | found => throw (.notCallable name found.kind)

end ChangeWatch.Value
