import Custody.Library.Path
import Mathlib.Data.List.Basic

/-! The segments of a path. Splitting a path and joining its segments undo each other, and a walk
along the segments of a specifier leaves only segments that name something. -/

namespace Custody

namespace Text

variable {mark : Char}

theorem splitAt_mark (cs : List Char) : splitAt mark (mark :: cs) = [] :: splitAt mark cs := by
  simp [splitAt]

theorem splitAt_cons_of_ne {c : Char} (hc : c ≠ mark) (cs : List Char) :
    ∃ part parts, splitAt mark cs = part :: parts ∧
      splitAt mark (c :: cs) = (c :: part) :: parts := by
  cases hsplit : splitAt mark cs with
  | nil => exact absurd hsplit (splitAt_ne_nil mark cs)
  | cons part parts => exact ⟨part, parts, rfl, by simp [splitAt, hc, hsplit]⟩

/-- A mark between two texts keeps their parts apart. -/
theorem splitAt_append (front back : List Char) :
    splitAt mark (front ++ mark :: back) = splitAt mark front ++ splitAt mark back := by
  induction front with
  | nil => rw [List.nil_append, splitAt_mark]; rfl
  | cons c front ih =>
      by_cases hc : c = mark
      · subst hc
        rw [List.cons_append, splitAt_mark, splitAt_mark, ih, List.cons_append]
      · obtain ⟨part, parts, hfront, hcons⟩ := splitAt_cons_of_ne hc front
        obtain ⟨part', parts', hwhole, hcons'⟩ :=
          splitAt_cons_of_ne hc (front ++ mark :: back)
        rw [hwhole, hfront, List.cons_append] at ih
        obtain ⟨rfl, rfl⟩ := List.cons.inj ih
        rw [List.cons_append, hcons', hcons, List.cons_append]

theorem notMem_of_mem_splitAt {cs part : List Char} (h : part ∈ splitAt mark cs) : mark ∉ part := by
  induction cs generalizing part with
  | nil => simp_all [splitAt]
  | cons c cs ih =>
      by_cases hc : c = mark
      · subst hc
        rw [splitAt_mark] at h
        rcases List.mem_cons.1 h with rfl | h
        · simp
        · exact ih h
      · obtain ⟨first, rest, hsplit, hcons⟩ := splitAt_cons_of_ne hc cs
        rw [hsplit] at ih
        rw [hcons] at h
        rcases List.mem_cons.1 h with rfl | h
        · simp [Ne.symm hc, ih List.mem_cons_self]
        · exact ih (List.mem_cons_of_mem _ h)

theorem splitAt_of_notMem {cs : List Char} (h : mark ∉ cs) : splitAt mark cs = [cs] := by
  induction cs with
  | nil => rfl
  | cons c cs ih =>
      obtain ⟨hc, hcs⟩ : mark ≠ c ∧ mark ∉ cs := by simpa using h
      simp [splitAt, Ne.symm hc, ih hcs]

theorem joinWith_cons {parts : List (List Char)} (hne : parts ≠ []) (part : List Char) :
    joinWith mark (part :: parts) = part ++ mark :: joinWith mark parts := by
  cases parts with
  | nil => exact absurd rfl hne
  | cons next rest => rfl

/-- Parts without a mark are found again. -/
theorem splitAt_joinWith {parts : List (List Char)} (hne : parts ≠ [])
    (hparts : ∀ part ∈ parts, mark ∉ part) : splitAt mark (joinWith mark parts) = parts := by
  induction parts with
  | nil => exact absurd rfl hne
  | cons part rest ih =>
      obtain ⟨hpart, hrest⟩ := List.forall_mem_cons.1 hparts
      by_cases hnil : rest = []
      · subst hnil
        exact splitAt_of_notMem hpart
      · rw [joinWith_cons hnil, splitAt_append, ih hnil hrest, splitAt_of_notMem hpart]
        rfl

/-- The length of the parts with a mark behind each of them. -/
def extent : List (List Char) → Nat
  | [] => 0
  | part :: parts => part.length + 1 + extent parts

@[simp] theorem extent_nil : extent [] = 0 := rfl

@[simp] theorem extent_cons (part : List Char) (parts : List (List Char)) :
    extent (part :: parts) = part.length + 1 + extent parts := rfl

@[simp] theorem extent_append (front back : List (List Char)) :
    extent (front ++ back) = extent front + extent back := by
  induction front with
  | nil => simp
  | cons part front ih =>
      rw [List.cons_append, extent_cons, extent_cons, ih]
      omega

theorem extent_reverse (parts : List (List Char)) : extent parts.reverse = extent parts := by
  induction parts with
  | nil => rfl
  | cons part parts ih =>
      rw [List.reverse_cons, extent_append, ih, extent_cons, extent_cons, extent_nil]
      omega

theorem length_joinWith {parts : List (List Char)} (hne : parts ≠ []) :
    (joinWith mark parts).length + 1 = extent parts := by
  induction parts with
  | nil => exact absurd rfl hne
  | cons part rest ih =>
      by_cases hnil : rest = []
      · subst hnil
        simp [joinWith]
      · rw [joinWith_cons hnil, List.length_append, List.length_cons, extent_cons, ih hnil]
        omega

theorem extent_splitAt (cs : List Char) : extent (splitAt mark cs) = cs.length + 1 := by
  rw [← length_joinWith (splitAt_ne_nil mark cs), joinWith_splitAt]

theorem dropEndWhile_sublist (p : Char → Bool) (cs : List Char) :
    (dropEndWhile p cs).Sublist cs := by
  rw [dropEndWhile, ← List.reverse_sublist, List.reverse_reverse]
  exact List.dropWhile_sublist _

theorem trim_sublist (cs : List Char) : (trim cs).Sublist cs :=
  (dropEndWhile_sublist isBlank _).trans (List.dropWhile_sublist _)

end Text

namespace Path

/-! ### Walks -/

/-- A segment that names something: it is not empty, and it does not stand for the directory itself
or for the one around it. -/
def IsOrdinary (segment : Segment) : Prop :=
  segment ≠ [] ∧ segment ≠ ['.'] ∧ segment ≠ ['.', '.']

instance (segment : Segment) : Decidable (IsOrdinary segment) :=
  inferInstanceAs (Decidable (_ ∧ _ ∧ _))

variable {here there : List Segment} {segment : Segment}

theorem skipped_or_up_or_isOrdinary (segment : Segment) :
    (segment = [] ∨ segment = ['.']) ∨ segment = ['.', '.'] ∨ IsOrdinary segment := by
  unfold IsOrdinary
  tauto

theorem walk_skipped (h : segment = [] ∨ segment = ['.']) (here rest : List Segment) :
    walk here (segment :: rest) = walk here rest := by
  rw [walk.eq_def]
  simp only [if_pos h]

theorem walk_up_root (rest : List Segment) :
    walk [] (['.', '.'] :: rest) = .error .escapesRoot := rfl

theorem walk_up (top : Segment) (below rest : List Segment) :
    walk (top :: below) (['.', '.'] :: rest) = walk below rest := rfl

theorem walk_ordinary (h : IsOrdinary segment) (here rest : List Segment) :
    walk here (segment :: rest) = walk (segment :: here) rest := by
  have hskip : ¬ (segment = [] ∨ segment = ['.']) := not_or.2 ⟨h.1, h.2.1⟩
  rw [walk.eq_def]
  simp only [if_neg hskip, if_neg h.2.2]

theorem walk_append (here first rest : List Segment) :
    walk here (first ++ rest) = walk here first >>= fun there => walk there rest := by
  induction first generalizing here with
  | nil => rfl
  | cons segment first ih =>
      rw [List.cons_append]
      rcases skipped_or_up_or_isOrdinary segment with hskip | rfl | hordinary
      · rw [walk_skipped hskip, walk_skipped hskip, ih]
      · cases here with
        | nil => rfl
        | cons top below => rw [walk_up, walk_up, ih]
      · rw [walk_ordinary hordinary, walk_ordinary hordinary, ih]

/-- Segments that name something are all entered. -/
theorem walk_of_isOrdinary {segments : List Segment}
    (h : ∀ segment ∈ segments, IsOrdinary segment) (here : List Segment) :
    walk here segments = .ok (segments.reverse ++ here) := by
  induction segments generalizing here with
  | nil => rfl
  | cons segment rest ih =>
      obtain ⟨hsegment, hrest⟩ := List.forall_mem_cons.1 h
      rw [walk_ordinary hsegment, ih hrest, List.reverse_cons, List.append_assoc]
      rfl

/-- What a walk leaves is what it started with or what it has entered, and the segments it enters
name something. -/
theorem mem_of_walk {segments : List Segment} (h : walk here segments = .ok there) :
    ∀ segment ∈ there, segment ∈ here ∨ (segment ∈ segments ∧ IsOrdinary segment) := by
  induction segments generalizing here with
  | nil =>
      cases h
      exact fun _ hmem => .inl hmem
  | cons segment rest ih =>
      have hlater : ∀ {other}, other ∈ rest ∧ IsOrdinary other →
          other ∈ segment :: rest ∧ IsOrdinary other :=
        fun hmem => ⟨List.mem_cons_of_mem _ hmem.1, hmem.2⟩
      rcases skipped_or_up_or_isOrdinary segment with hskip | rfl | hordinary
      · rw [walk_skipped hskip] at h
        exact fun other hmem => (ih h other hmem).imp_right hlater
      · cases here with
        | nil => cases h
        | cons top below =>
            rw [walk_up] at h
            exact fun other hmem => (ih h other hmem).imp (List.mem_cons_of_mem _) hlater
      · rw [walk_ordinary hordinary] at h
        intro other hmem
        rcases ih h other hmem with hhere | hrest
        · rcases List.mem_cons.1 hhere with rfl | hhere
          · exact .inr ⟨List.mem_cons_self, hordinary⟩
          · exact .inl hhere
        · exact .inr (hlater hrest)

/-- A walk does not make a path longer. -/
theorem extent_walk {segments : List Segment} (h : walk here segments = .ok there) :
    Text.extent there ≤ Text.extent here + Text.extent segments := by
  induction segments generalizing here with
  | nil =>
      cases h
      simp
  | cons segment rest ih =>
      rw [Text.extent_cons]
      rcases skipped_or_up_or_isOrdinary segment with hskip | rfl | hordinary
      · rw [walk_skipped hskip] at h
        have := ih h
        omega
      · cases here with
        | nil => cases h
        | cons top below =>
            rw [walk_up] at h
            have := ih h
            rw [Text.extent_cons]
            omega
      · rw [walk_ordinary hordinary] at h
        have := ih h
        rw [Text.extent_cons] at this
        omega

/-! ### Extensions -/

/-- The extensions of source files. -/
def extensions : List (List Char) :=
  [['.', 'r', 'f'], ['.', 's', 'f']]

/-- The segment has the extension of a source file behind some name. -/
def HasExtension (segment : Segment) : Prop :=
  ∃ stem, stem ≠ [] ∧ ∃ extension ∈ extensions, segment = stem ++ extension

/-- One extension is dropped if there is one. -/
theorem stripExtension_cases (segment : Segment) :
    (∃ stem, stem ≠ [] ∧ (∃ extension ∈ extensions, segment = stem ++ extension) ∧
      stripExtension segment = stem) ∨
    (¬ HasExtension segment ∧ stripExtension segment = segment) := by
  unfold stripExtension
  split
  · rename_i c cs hreverse
    refine .inl ⟨(c :: cs).reverse, by simp, ⟨['.', 'r', 'f'], by simp [extensions], ?_⟩, rfl⟩
    rw [← List.reverse_inj, hreverse]
    simp
  · rename_i c cs hreverse
    refine .inl ⟨(c :: cs).reverse, by simp, ⟨['.', 's', 'f'], by simp [extensions], ?_⟩, rfl⟩
    rw [← List.reverse_inj, hreverse]
    simp
  · rename_i hrf hsf
    refine .inr ⟨?_, rfl⟩
    rintro ⟨stem, hstem, extension, hextension, rfl⟩
    obtain ⟨c, cs, hcs⟩ : ∃ c cs, stem.reverse = c :: cs :=
      List.exists_cons_of_ne_nil (by simpa using hstem)
    simp only [extensions, List.mem_cons, List.not_mem_nil, or_false] at hextension
    rcases hextension with rfl | rfl
    · exact hrf c cs (by simp [hcs])
    · exact hsf c cs (by simp [hcs])

theorem stripExtension_eq_self_iff : stripExtension segment = segment ↔ ¬ HasExtension segment := by
  rcases stripExtension_cases segment with ⟨stem, hstem, ⟨extension, hextension, rfl⟩, hstrip⟩ | h
  · have hne : extension ≠ [] := by
      rintro rfl
      simp [extensions] at hextension
    rw [hstrip]
    constructor
    · intro hself
      exact absurd (List.self_eq_append_right.1 hself) hne
    · exact fun hnone => absurd ⟨stem, hstem, extension, hextension, rfl⟩ hnone
  · exact ⟨fun _ => h.1, fun _ => h.2⟩

theorem stripExtension_ne_nil (h : segment ≠ []) : stripExtension segment ≠ [] := by
  rcases stripExtension_cases segment with ⟨stem, hstem, -, hstrip⟩ | ⟨-, hstrip⟩
  · rw [hstrip]
    exact hstem
  · rw [hstrip]
    exact h

theorem stripExtension_isPrefix (segment : Segment) : stripExtension segment <+: segment := by
  rcases stripExtension_cases segment with ⟨stem, -, ⟨extension, -, rfl⟩, hstrip⟩ | ⟨-, hstrip⟩
  · rw [hstrip]
    exact List.prefix_append stem extension
  · simp only [hstrip, List.prefix_rfl]

end Path

end Custody
