import Custody.Program.Access
import Custody.Program.Span

/-! The ledger of scoped access: which tokens are alive, and which variables they hold. A variable
cannot be used while a token holds it, and a token cannot leave its construct. -/

namespace Custody

/-- A binding: its name and the depth of the scope that declares it. Depth tells a binding from the
one it shadows. -/
structure Binding where
  name : String
  depth : Nat
  deriving DecidableEq

namespace Binding

def render (binding : Binding) : String :=
  s!"{binding.name}@{binding.depth}"

end Binding

/-- A token and the variable it stands for. -/
structure Token where
  key : Binding
  source : Binding
  access : Access
  span : Span
  deriving DecidableEq

/-- One access that holds a variable. -/
structure Hold where
  token : Binding
  access : Access
  deriving DecidableEq

/-- What is done with the value of a binding. -/
inductive Use where
  | read
  | write
  | give
  /-- Passed on. A transient argument is lent for the call, any other changes its owner. -/
  | argument (transient : Bool)
  /-- Kept in a binding that is declared at `depth`. -/
  | store (depth : Nat)
  deriving DecidableEq

/-- How a token would leave its construct. -/
inductive Escape where
  | returned
  | returnedUnhijacked
  | passedOn
  | storedOutside
  | outlived
  deriving DecidableEq

namespace Escape

def render : Escape → String
  | returned => "returned from a routine that is not usurping"
  | returnedUnhijacked => "returned from a usurping routine, which may only return hijacked tokens"
  | passedOn => "passed to a parameter that takes ownership"
  | storedOutside => "stored into a binding that outlives it"
  | outlived => "used after its construct ended"

instance : ToString Escape := ⟨render⟩

end Escape

/-- The ways to break the rules of the ledger. -/
inductive Violation where
  | conflict (source token : String) (access : Access)
  | held (source token : String) (access : Access)
  | escape (token : String) (reason : Escape)
  | readOnly (token : String) (access : Access)
  deriving DecidableEq

namespace Violation

def message : Violation → String
  | conflict source token access => s!"'{source}' is already {access} as '{token}'"
  | held source token access => s!"'{source}' cannot be used while {access} as '{token}'"
  | escape token reason => s!"token '{token}' {reason}"
  | readOnly token access =>
      s!"token '{token}' is only {access} and cannot be written through"

end Violation

/-- The live tokens, and for each variable that is held the accesses that hold it, oldest first. -/
structure Ledger where
  tokens : List Token := []
  holds : List (Binding × List Hold) := []
  deriving DecidableEq

namespace Ledger

def isEmpty (ledger : Ledger) : Bool :=
  ledger.tokens.isEmpty && ledger.holds.isEmpty

/-- The live token of a binding. -/
def token? (ledger : Ledger) (key : Binding) : Option Token :=
  ledger.tokens.find? (·.key == key)

/-- The accesses that hold a variable. -/
def holdsOf (ledger : Ledger) (source : Binding) : List Hold :=
  (ledger.holds.lookup source).getD []

def isHeld (ledger : Ledger) (source : Binding) : Bool :=
  ledger.holds.any (·.1 == source)

/-- The newest access that holds a variable. -/
def lastHold? (ledger : Ledger) (source : Binding) : Option Hold :=
  (ledger.holdsOf source).getLast?

/-- Adds an access behind those that hold `source` already. -/
def addHold (source : Binding) (hold : Hold) :
    List (Binding × List Hold) → List (Binding × List Hold)
  | [] => [(source, [hold])]
  | (s, hs) :: rest =>
      if s = source then (s, hs ++ [hold]) :: rest else (s, hs) :: addHold source hold rest

/-- Removes the accesses of `token` from those that hold `source`. A variable that nothing holds any
longer is not listed. -/
def dropHold (source token : Binding) (holds : List (Binding × List Hold)) :
    List (Binding × List Hold) :=
  holds.filterMap fun (s, hs) =>
    if s = source then
      match hs.filter (·.token != token) with
      | [] => none
      | h :: rest => some (s, h :: rest)
    else some (s, hs)

/-- Opens an access to `source`, whose token is declared at `depth`. It fails if an access that
cannot go together with it is open. -/
def begin (ledger : Ledger) (source : Binding) (name : String) (access : Access) (depth : Nat)
    (span : Span) : Except Violation Binding × Ledger :=
  match (ledger.holdsOf source).find? (fun hold => !hold.access.compatible access) with
  | some hold => (.error (.conflict source.name hold.token.name hold.access), ledger)
  | none =>
      let key : Binding := ⟨name, depth⟩
      (.ok key,
        { tokens := ledger.tokens.filter (·.key != key) ++ [⟨key, source, access, span⟩]
          holds := addHold source ⟨key, access⟩ ledger.holds })

/-- Ends the access of a token and gives the token back, if it was alive. -/
def finish (ledger : Ledger) (key : Binding) : Option Token × Ledger :=
  match ledger.token? key with
  | none => (none, ledger)
  | some token =>
      (some token,
        { tokens := ledger.tokens.filter (·.key != key)
          holds := dropHold token.source key ledger.holds })

/-- Ends the accesses of several tokens. -/
def finishAll (ledger : Ledger) : List Binding → List Token × Ledger
  | [] => ([], ledger)
  | key :: keys =>
      let (ended, ledger) := ledger.finish key
      let (others, ledger) := ledger.finishAll keys
      (ended.toList ++ others, ledger)

/-- Ends every access whose token is declared at `depth` or deeper. -/
def retire (ledger : Ledger) (depth : Nat) : List Token × Ledger :=
  ledger.finishAll ((ledger.tokens.map (·.key)).filter (depth ≤ ·.depth))

/-- The rules for the use of a token that is declared at `tokenDepth`, seen from `depth`. -/
def checkTokenUse (name : String) (access : Access) (tokenDepth depth : Nat) (use : Use)
    (usurping : Bool) : Except Violation Unit :=
  if depth < tokenDepth then .error (.escape name .outlived)
  else
    match use with
    | .read => .ok ()
    | .write => if access.writes then .ok () else .error (.readOnly name access)
    | .give =>
        if !usurping then .error (.escape name .returned)
        else if access = .hijacking then .ok ()
        else .error (.escape name .returnedUnhijacked)
    | .argument true => .ok ()
    | .argument false => .error (.escape name .passedOn)
    | .store target => if tokenDepth ≤ target then .ok () else .error (.escape name .storedOutside)

/-- The rules for the use of a binding: it must not be held, and a live token keeps the rules for
tokens. -/
def checkUse (ledger : Ledger) (key : Binding) (depth : Nat) (use : Use) (usurping : Bool) :
    Except Violation Unit :=
  match ledger.lastHold? key with
  | some hold => .error (.held key.name hold.token.name hold.access)
  | none =>
      match ledger.token? key with
      | some token => checkTokenUse key.name token.access token.key.depth depth use usurping
      | none => .ok ()

end Ledger

end Custody
