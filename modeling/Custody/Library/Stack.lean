/-! Depth-first searches keep the paths they are inside of on a stack, outermost first. A path is
entered only if it is one of finitely many and is not on the stack yet, so the room that is left on
the stack bounds the search. -/

namespace Custody

/-- Going to `path`, which is on the stack, closes this cycle. -/
def cycleThrough (stack : List String) (path : String) : List String :=
  stack.dropWhile (· != path) ++ [path]

/-- How many of the paths are not on the stack. -/
def roomLeft (paths stack : List String) : Nat :=
  paths.countP (· ∉ stack)

theorem roomLeft_cons (p : String) (paths stack : List String) :
    roomLeft (p :: paths) stack = roomLeft paths stack + if p ∈ stack then 0 else 1 := by
  by_cases h : p ∈ stack <;> simp [roomLeft, h]

theorem roomLeft_append_le (paths stack : List String) (path : String) :
    roomLeft paths (stack ++ [path]) ≤ roomLeft paths stack := by
  apply List.countP_mono_left
  intro q _ hq
  simp at hq ⊢
  exact hq.1

/-- Entering a path leaves less room. -/
theorem roomLeft_append_lt {paths stack : List String} {path : String} (hmem : path ∈ paths)
    (hnew : path ∉ stack) : roomLeft paths (stack ++ [path]) < roomLeft paths stack := by
  induction paths with
  | nil => simp at hmem
  | cons p rest ih =>
      have hle := roomLeft_append_le rest stack path
      rw [roomLeft_cons, roomLeft_cons]
      by_cases hp : p = path
      · subst hp
        simp [hnew]
        omega
      · have hlt := ih (by simpa [Ne.symm hp] using hmem)
        by_cases hs : p ∈ stack <;> simp [hs, hp] <;> omega

end Custody
