import Custody.Proofs.Library.Outcome
import Mathlib.Data.List.TakeWhile

/-! Which paths are being loaded matters only for the paths that a load comes to. A path at the bottom
of the stack makes no difference if it is in the store, where it is found before the stack is looked
at, or if nothing that is loaded leads to it. -/

namespace Custody.Store

variable {answers : String → Except LoadError Program} {fetch : Fetch} {store : Store}

/-- Coming to one of these paths, both stacks close the same cycle or none. -/
def Alike (relevant : String → Prop) (stack stack' : List String) : Prop :=
  ∀ path, relevant path → stack.dropWhile (· != path) = stack'.dropWhile (· != path)

namespace Alike

variable {relevant fewer : String → Prop} {stack stack' : List String} {path : String}

theorem refl (stack : List String) : Alike relevant stack stack :=
  fun _ _ => rfl

theorem mono (h : Alike relevant stack stack') (hfewer : ∀ p, fewer p → relevant p) :
    Alike fewer stack stack' :=
  fun p hp => h p (hfewer p hp)

theorem mem_iff (h : Alike relevant stack stack') (hpath : relevant path) :
    path ∈ stack ↔ path ∈ stack' := by
  have hcut : ∀ stack : List String, path ∈ stack ↔ stack.dropWhile (· != path) ≠ [] := by
    intro stack
    constructor
    · intro hmem
      obtain ⟨rest, heq⟩ := dropWhile_ne_eq_cons hmem
      simp [heq]
    · intro hne
      by_contra hnot
      refine hne (List.dropWhile_eq_nil_iff.2 fun p hp => ?_)
      have hother : p ≠ path := fun heq => hnot (heq ▸ hp)
      simpa using hother
  rw [hcut, hcut, h path hpath]

theorem cycleThrough_eq (h : Alike relevant stack stack') (hpath : relevant path) :
    cycleThrough stack path = cycleThrough stack' path := by
  rw [cycleThrough, cycleThrough, h path hpath]

theorem append (h : Alike relevant stack stack') (path : String) :
    Alike relevant (stack ++ [path]) (stack' ++ [path]) := by
  intro p hp
  rw [List.dropWhile_append, List.dropWhile_append, h p hp]

theorem drop_bottom (h : ¬relevant path) : Alike relevant [path] [] := by
  intro p hp
  have hne : path ≠ p := by
    rintro rfl
    exact h hp
  simp [hne]

theorem add_bottom (h : ¬relevant path) : Alike relevant [] [path] :=
  fun p hp => (drop_bottom h p hp).symm

end Alike

/-! ### Loading with another stack -/

theorem Steps.absent {after : Store} (h : Steps fetch store after) (path : String)
    (hnew : after.get? path = none) : store.get? path = none := by
  cases hknown : store.get? path with
  | none => rfl
  | some module => cases hnew.symm.trans (h.get? hknown)

mutual

/-- Only the paths that are not in the store are looked for on the stack. -/
theorem Loads.restack {stack stack' : List String} {path : String} {store after : Store}
    {result : Except LoadError Module} (h : Loads fetch stack path store result after)
    (halike : Alike (store.get? · = none) stack stack') :
    Loads fetch stack' path store result after :=
  match h with
  | .known hknown => .known hknown
  | .circular hnew hmem => by
      rw [halike.cycleThrough_eq hnew]
      exact .circular hnew ((halike.mem_iff hnew).1 hmem)
  | .refused hnew hout hfetch =>
      .refused hnew (fun hmem => hout ((halike.mem_iff hnew).2 hmem)) hfetch
  | .blocked hnew hout hfetch himports =>
      .blocked hnew (fun hmem => hout ((halike.mem_iff hnew).2 hmem)) hfetch
        (himports.restack (halike.append path))
  | .loaded hnew hout hfetch himports =>
      .loaded hnew (fun hmem => hout ((halike.mem_iff hnew).2 hmem)) hfetch
        (himports.restack (halike.append path))

theorem LoadsAll.restack {stack stack' paths : List String} {store after : Store}
    {outcome : Except LoadError Unit} (h : LoadsAll fetch stack paths store outcome after)
    (halike : Alike (store.get? · = none) stack stack') :
    LoadsAll fetch stack' paths store outcome after :=
  match h with
  | .nil => .nil
  | .failed hfirst => .failed (hfirst.restack halike)
  | .cons hfirst hrest =>
      .cons (hfirst.restack halike) (hrest.restack (halike.mono hfirst.traced.1.steps.absent))

end

mutual

/-- Without memory, only the paths that the imports lead to are looked for on the stack. -/
theorem Yields.restack {stack stack' : List String} {path : String}
    {result : Except LoadError Module} (h : Yields answers stack path result)
    (halike : Alike (Reaches answers path) stack stack') : Yields answers stack' path result :=
  match h with
  | .circular hmem => by
      rw [halike.cycleThrough_eq .refl]
      exact .circular ((halike.mem_iff .refl).1 hmem)
  | .refused hout hanswer =>
      .refused (fun hmem => hout ((halike.mem_iff .refl).2 hmem)) hanswer
  | .blocked hout hanswer himports =>
      .blocked (fun hmem => hout ((halike.mem_iff .refl).2 hmem)) hanswer
        (himports.restack fun dependency hdep =>
          (halike.append path).mono fun _ hp => .head ⟨_, hanswer, hdep⟩ hp)
  | .loaded hout hanswer himports =>
      .loaded (fun hmem => hout ((halike.mem_iff .refl).2 hmem)) hanswer
        (himports.restack fun dependency hdep =>
          (halike.append path).mono fun _ hp => .head ⟨_, hanswer, hdep⟩ hp)

theorem YieldsAll.restack {stack stack' paths : List String} {outcome : Except LoadError Unit}
    (h : YieldsAll answers stack paths outcome)
    (halike : ∀ path ∈ paths, Alike (Reaches answers path) stack stack') :
    YieldsAll answers stack' paths outcome :=
  match h with
  | .nil => .nil
  | .failed hfirst => .failed (hfirst.restack (halike _ List.mem_cons_self))
  | .cons hfirst hrest =>
      .cons (hfirst.restack (halike _ List.mem_cons_self))
        (hrest.restack fun path hpath => halike path (List.mem_cons_of_mem _ hpath))

end

end Custody.Store
