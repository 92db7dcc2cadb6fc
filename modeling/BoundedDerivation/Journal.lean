import BoundedDerivation.Config
import BoundedDerivation.Error
import BoundedDerivation.Target

/-! The journal: events worth telling while grammars are built and searched, and computations
that may fail but keep what they have told. -/
namespace BoundedDerivation

/-- Flaws of a matrix that lenient validation lets pass. -/
inductive MatrixWarning where
  | undeclaredLeft (rule : Rule)
  | undeclaredRight (symbol : Char) (rule : Rule)
  deriving DecidableEq

inductive Event where
  | loading (json : Bool)
  | warning (warning : MatrixWarning)
  | searchStarted (kind : Kind) (start : Word) (target : Target) (config : Config)
  | depthReached (word : Word) (depth : Nat)
  | exhausted (word : Word) (depth : Nat)
  | pruned (word : Word) (limit : Nat)
  | found (steps visited : Nat) (word : Word)
  | notFound (visited : Nat)
  deriving DecidableEq

namespace Event

inductive Level where
  | trace
  | debug
  | warn
  deriving DecidableEq

def Level.name : Level → String
  | trace => "TRACE"
  | debug => "DEBUG"
  | warn => "WARN"

def level : Event → Level
  | loading _ | searchStarted .. | found .. | notFound _ => .debug
  | warning _ => .warn
  | depthReached .. | exhausted .. | pruned .. => .trace

def message : Event → String
  | loading _ => "loading grammar"
  | warning (.undeclaredLeft _) => "matrix rewrites an undeclared non-terminal"
  | warning (.undeclaredRight ..) => "matrix introduces an undeclared symbol"
  | searchStarted .. => "starting derivation search"
  | depthReached .. => "depth bound reached"
  | exhausted .. => "backtracking"
  | pruned .. => "pruned by length bound"
  | found .. => "derivation found"
  | notFound _ => "no derivation within bounds"

/-- The particulars of an event, each under its name. -/
def fields : Event → List (String × String)
  | loading json => [("json", toString json)]
  | warning (.undeclaredLeft rule) =>
    [("symbol", rule.left.toString), ("rule", String.ofList rule.written)]
  | warning (.undeclaredRight symbol rule) =>
    [("symbol", symbol.toString), ("rule", String.ofList rule.written)]
  | searchStarted kind start target config =>
    [("kind", kind.name), ("start", String.ofList start), ("target", target.display),
      ("max_depth", toString config.maxDepth), ("max_length", toString config.maxLength)]
  | depthReached word depth | exhausted word depth =>
    [("word", String.ofList word), ("depth", toString depth)]
  | pruned word limit => [("word", String.ofList word), ("limit", toString limit)]
  | found steps visited word =>
    [("steps", toString steps), ("visited", toString visited), ("word", String.ofList word)]
  | notFound visited => [("visited", toString visited)]

end Event

/-- A computation that may fail. Its events are kept either way, oldest first. -/
structure Checked (α : Type) where
  events : List Event
  result : Except GrammarError α

namespace Checked

protected def pure {α : Type} (value : α) : Checked α := ⟨[], .ok value⟩

protected def bind {α β : Type} (first : Checked α) (next : α → Checked β) : Checked β :=
  match first.result with
  | .error error => ⟨first.events, .error error⟩
  | .ok value =>
    let later := next value
    ⟨first.events ++ later.events, later.result⟩

instance : Monad Checked where
  pure := Checked.pure
  bind := Checked.bind

@[simp] theorem bind_ok {α β : Type} (events : List Event) (value : α) (next : α → Checked β) :
    (⟨events, .ok value⟩ : Checked α) >>= next =
      ⟨events ++ (next value).events, (next value).result⟩ := rfl

@[simp] theorem bind_error {α β : Type} (events : List Event) (error : GrammarError)
    (next : α → Checked β) :
    (⟨events, .error error⟩ : Checked α) >>= next = ⟨events, .error error⟩ := rfl

@[simp] theorem pure_def {α : Type} (value : α) : (pure value : Checked α) = ⟨[], .ok value⟩ := rfl

/-- A sequence succeeds when both of its parts do. -/
theorem result_bind_eq_ok {α β : Type} {first : Checked α} {next : α → Checked β} {value : β} :
    (first >>= next).result = .ok value ↔
      ∃ a, first.result = .ok a ∧ (next a).result = .ok value := by
  obtain ⟨events, result⟩ := first
  cases result <;> simp

def fail {α : Type} (error : GrammarError) : Checked α := ⟨[], .error error⟩

def tell (event : Event) : Checked Unit := ⟨[event], .ok ()⟩

def ofExcept {α : Type} (result : Except GrammarError α) : Checked α := ⟨[], result⟩

instance : MonadLift (Except GrammarError) Checked := ⟨ofExcept⟩

end Checked
end BoundedDerivation
