/-! The modes of the place that is being checked: how many blocks of each kind are open around it.
-/

namespace Custody

inductive Mode where
  | danger
  | mayhem
  | whenGuard
  | usurping
  deriving DecidableEq

/-- What an operation can ask of the place where it stands. -/
inductive ModeRequirement where
  | dangerOrMayhem
  | outsideWhenGuard
  deriving DecidableEq

namespace ModeRequirement

def render : ModeRequirement → String
  | dangerOrMayhem => "an enclosing danger! or mayhem! block"
  | outsideWhenGuard => "a context outside of when guards"

instance : ToString ModeRequirement := ⟨render⟩

/-- The text of a violation on its own. -/
def message (requirement : ModeRequirement) : String :=
  s!"requires {requirement}"

end ModeRequirement

/-- For each mode, the number of open blocks. -/
structure Modes where
  danger : Nat := 0
  mayhem : Nat := 0
  whenGuard : Nat := 0
  usurping : Nat := 0
  deriving DecidableEq

namespace Modes

def count (modes : Modes) : Mode → Nat
  | .danger => modes.danger
  | .mayhem => modes.mayhem
  | .whenGuard => modes.whenGuard
  | .usurping => modes.usurping

def update (modes : Modes) (f : Nat → Nat) : Mode → Modes
  | .danger => { modes with danger := f modes.danger }
  | .mayhem => { modes with mayhem := f modes.mayhem }
  | .whenGuard => { modes with whenGuard := f modes.whenGuard }
  | .usurping => { modes with usurping := f modes.usurping }

def enter (modes : Modes) (mode : Mode) : Modes :=
  modes.update (· + 1) mode

def leave (modes : Modes) (mode : Mode) : Modes :=
  modes.update (· - 1) mode

def isActive (modes : Modes) (mode : Mode) : Bool :=
  0 < modes.count mode

def isUnsafe (modes : Modes) : Bool :=
  modes.isActive .danger || modes.isActive .mayhem

def isClear (modes : Modes) : Bool :=
  modes == {}

def satisfies (modes : Modes) : ModeRequirement → Bool
  | .dangerOrMayhem => modes.isUnsafe
  | .outsideWhenGuard => !modes.isActive .whenGuard

@[simp] theorem leave_enter (modes : Modes) (mode : Mode) :
    (modes.enter mode).leave mode = modes := by
  cases mode <;> rfl

@[simp] theorem isActive_enter (modes : Modes) (mode : Mode) :
    (modes.enter mode).isActive mode = true := by
  cases mode <;> simp [enter, update, isActive, count]

theorem count_enter (modes : Modes) (mode other : Mode) :
    (modes.enter mode).count other = modes.count other + if mode = other then 1 else 0 := by
  cases mode <;> cases other <;> simp [enter, update, count]

end Modes

end Custody
