import Custody.Proofs.Library.Canonical

/-! How specifiers are read. Only the first segment decides whether a specifier is relative, and
trimming does not get past a slash, so neither looks at what stands between the first slash and the
last one. The rest is a walk along the segments. A relative specifier is therefore the absolute one
that spells out the folder of the importer, and parts from which a walk comes back to where it was can
be left out. -/

namespace Custody

namespace Text

variable {c : Char}

theorem dropWhile_append_cons {p : Char → Bool} (hc : p c = false) (front back : List Char) :
    (front ++ c :: back).dropWhile p = front.dropWhile p ++ c :: back := by
  have hstop : ¬ p c = true := by simp [hc]
  rw [List.dropWhile_append]
  split
  next hempty => rw [List.isEmpty_iff.1 hempty, List.dropWhile_cons_of_neg hstop, List.nil_append]
  next => rfl

theorem dropEndWhile_append_cons {p : Char → Bool} (hc : p c = false) (front back : List Char) :
    dropEndWhile p (front ++ c :: back) = front ++ c :: dropEndWhile p back := by
  have hreverse : (front ++ c :: back).reverse = back.reverse ++ c :: front.reverse := by simp
  rw [dropEndWhile, hreverse, dropWhile_append_cons hc]
  simp [dropEndWhile]

/-- Around a character that is no blank, the two ends are trimmed apart from each other. -/
theorem trim_append_cons (hc : isBlank c = false) (front back : List Char) :
    trim (front ++ c :: back) =
      front.dropWhile isBlank ++ c :: dropEndWhile isBlank back := by
  rw [trim, dropWhile_append_cons hc, dropEndWhile_append_cons hc]

theorem dropEndWhile_of_trim {cs : List Char} (h : trim cs = cs) : dropEndWhile isBlank cs = cs := by
  have hle : cs.length ≤ (cs.dropWhile isBlank).length := by
    have hlength := (dropEndWhile_sublist isBlank (cs.dropWhile isBlank)).length_le
    rw [← trim, h] at hlength
    exact hlength
  have hstart : cs.dropWhile isBlank = cs := (List.dropWhile_sublist _).eq_of_length_le hle
  rw [trim, hstart] at h
  exact h

end Text

namespace Path

variable {specifier path middle : List Char}

/-! ### The first segment -/

theorem segments_append (front back : List Char) :
    segments (front ++ '/' :: back) = segments front ++ segments back :=
  Text.splitAt_append front back

theorem segments_ne_nil (path : List Char) : segments path ≠ [] :=
  Text.splitAt_ne_nil '/' path

/-- The first segment is what stands in front of the first slash. -/
theorem head?_segments_eq_some_iff {first : Segment} :
    (segments path).head? = some first ↔
      '/' ∉ first ∧ (path = first ∨ ∃ rest, path = first ++ '/' :: rest) := by
  constructor
  · intro h
    obtain ⟨parts, hparts⟩ := List.head?_eq_some_iff.1 h
    have hjoin := joinWith_segments path
    rw [hparts] at hjoin
    have hmem : first ∈ segments path := List.mem_of_mem_head? h
    refine ⟨Text.notMem_of_mem_splitAt hmem, ?_⟩
    by_cases hnil : parts = []
    · subst hnil
      exact .inl hjoin.symm
    · rw [Text.joinWith_cons hnil] at hjoin
      exact .inr ⟨_, hjoin.symm⟩
  · rintro ⟨hslash, rfl | ⟨rest, rfl⟩⟩
    · rw [segments, Text.splitAt_of_notMem hslash]
      rfl
    · rw [segments_append, segments, Text.splitAt_of_notMem hslash]
      rfl

/-- A dot or two dots, alone or in front of a slash. -/
def Relative (specifier : List Char) : Prop :=
  specifier = ['.'] ∨ specifier = ['.', '.'] ∨ ['.', '/'] <+: specifier ∨
    ['.', '.', '/'] <+: specifier

theorem isRelative_iff_head? :
    isRelative specifier = true ↔ (segments specifier).head? = some ['.'] ∨
      (segments specifier).head? = some ['.', '.'] := by
  unfold isRelative
  split
  next first hfirst => simp [hfirst]
  next hnone => simp [hnone]

theorem isRelative_iff : isRelative specifier = true ↔ Relative specifier := by
  have hdot : '/' ∉ ['.'] := by decide
  have hdots : '/' ∉ ['.', '.'] := by decide
  rw [isRelative_iff_head?, head?_segments_eq_some_iff, head?_segments_eq_some_iff]
  simp only [hdot, hdots, not_false_eq_true, true_and, Relative, List.IsPrefix,
    List.cons_append, List.nil_append, eq_comm]
  tauto

/-- What stands behind a slash does not make a specifier relative. -/
theorem isRelative_append (front back : List Char) :
    isRelative (front ++ '/' :: back) = isRelative front := by
  have hhead : (segments (front ++ '/' :: back)).head? = (segments front).head? := by
    rw [segments_append, List.head?_append_of_ne_nil _ (segments_ne_nil front)]
  rw [Bool.eq_iff_iff, isRelative_iff_head?, isRelative_iff_head?, hhead]

theorem start_append (front back : List Char) (importer : Option (List Char)) :
    start (front ++ '/' :: back) importer = start front importer := by
  unfold start
  rw [isRelative_append]

theorem start_of_not_relative (h : ¬ Relative specifier) (importer : Option (List Char)) :
    start specifier importer = [] := by
  have hnot : ¬ isRelative specifier = true := fun hrelative => h (isRelative_iff.1 hrelative)
  unfold start
  rw [if_neg hnot]

theorem start_of_relative (h : Relative specifier) (path : List Char) :
    start specifier (some path) = (directory path).reverse := by
  unfold start
  rw [if_pos (isRelative_iff.2 h)]

/-! ### Two texts with a slash between them -/

theorem isBlank_slash : Text.isBlank '/' = false := by decide

/-- The front decides where a walk starts, and the back is walked after it. -/
theorem resolveTrimmed_append (front back : List Char) (importer : Option (List Char)) :
    resolveTrimmed (front ++ '/' :: back) importer =
      (walk (start front importer) (segments front) >>= fun there => walk there (segments back)) >>=
        spell := by
  have hne : front ++ '/' :: back ≠ [] := by simp
  rw [resolveTrimmed, if_neg hne, start_append, segments_append, walk_append]

/-! ### Relative specifiers -/

/-- A path without its last segment. -/
def folder (path : List Char) : List Char :=
  Text.joinWith '/' (segments path).dropLast

theorem directory_of_ordinary (h : ∀ segment ∈ segments path, IsOrdinary segment) :
    directory path = (segments path).dropLast := by
  have hfilter : (segments path).filter (!·.isEmpty) = segments path :=
    List.filter_eq_self.2 fun segment hsegment => by simpa using (h segment hsegment).1
  rw [directory, hfilter]

/-- Walking along the folder of a module leads to its directory. -/
theorem walk_folder (h : ∀ segment ∈ segments path, IsOrdinary segment) :
    walk [] (segments (folder path)) = .ok (directory path).reverse := by
  rw [directory_of_ordinary h, folder]
  by_cases hroot : (segments path).dropLast = []
  · rw [hroot]
    rfl
  · have hmem : ∀ segment ∈ (segments path).dropLast, segment ∈ segments path :=
      fun segment hsegment => (List.dropLast_sublist _).subset hsegment
    have hsegments : segments (Text.joinWith '/' (segments path).dropLast) =
        (segments path).dropLast :=
      Text.splitAt_joinWith hroot fun segment hsegment =>
        Text.notMem_of_mem_splitAt (hmem segment hsegment)
    rw [hsegments, walk_of_isOrdinary fun segment hsegment => h segment (hmem segment hsegment),
      List.append_nil]

/-- A relative specifier leads to where the absolute one leads that spells out the folder. -/
theorem resolveTrimmed_of_relative (h : ∀ segment ∈ segments path, IsOrdinary segment)
    (hrelative : Relative specifier) :
    resolveTrimmed specifier (some path) =
      resolveTrimmed ('/' :: (folder path ++ '/' :: specifier)) none := by
  have hne : specifier ≠ [] := by
    rintro rfl
    simp [Relative] at hrelative
  calc resolveTrimmed specifier (some path)
      = walk (directory path).reverse (segments specifier) >>= spell := by
        rw [resolveTrimmed, if_neg hne, start_of_relative hrelative]
    _ = (walk [] (segments (folder path)) >>= fun there => walk there (segments specifier)) >>=
          spell := by
        rw [walk_folder h]
        rfl
    _ = walk [] (segments (folder path ++ '/' :: specifier)) >>= spell := by
        rw [segments_append, walk_append]
    _ = resolveTrimmed ('/' :: (folder path ++ '/' :: specifier)) none :=
        -- nothing stands in front of the first slash, so the walk starts at the root
        (resolveTrimmed_append [] (folder path ++ '/' :: specifier) none).symm

/-- A relative specifier names what the absolute specifier names that has the folder of the importer
in front of it: they lead to the same path or have the same fault. The importer of a specifier that is
not relative does not matter. -/
theorem relative_as_absolute :
    (∀ importer specifier : String,
      (∀ segment ∈ segments importer.toList, IsOrdinary segment) →
      Text.trim specifier.toList = specifier.toList → Relative specifier.toList →
        resolve specifier (some importer) =
          resolve ("/" ++ String.ofList (folder importer.toList) ++ "/" ++ specifier) none) ∧
    ∀ specifier : String, ¬ Relative (Text.trim specifier.toList) →
      ∀ importer other : Option String, resolve specifier importer = resolve specifier other := by
  constructor
  · intro importer specifier hordinary htrim hrelative
    have hlist : ("/" ++ String.ofList (folder importer.toList) ++ "/" ++ specifier).toList =
        [] ++ '/' :: (folder importer.toList ++ '/' :: specifier.toList) := by
      simp [String.toList_append]
    have habsolute : Text.trim ("/" ++ String.ofList (folder importer.toList) ++ "/" ++
        specifier).toList = '/' :: (folder importer.toList ++ '/' :: specifier.toList) := by
      rw [hlist, Text.trim_append_cons isBlank_slash, Text.dropEndWhile_append_cons isBlank_slash,
        Text.dropEndWhile_of_trim htrim]
      rfl
    rw [resolve, resolve, habsolute, htrim]
    exact congrArg _ (resolveTrimmed_of_relative hordinary hrelative)
  · intro specifier hnot importer other
    unfold resolve resolveTrimmed
    rw [start_of_not_relative hnot, start_of_not_relative hnot]

/-- Out of a folder into another one, and out of the root, which is the folder of `main`. -/
theorem relative_as_absolute_upwards :
    resolve "../lib/Io.rf" (some "app/net/http") = .ok "app/lib/Io" ∧
      resolve "/app/net/../lib/Io.rf" none = .ok "app/lib/Io" ∧
      resolve "../x" (some "main") = .error .escapesRoot ∧
      resolve "//../x" none = .error .escapesRoot ∧
      resolve " core/Maybe" (some "app/main") = resolve " core/Maybe" none := by
  have hnested : ∀ segment ∈ segments "app/net/http".toList, IsOrdinary segment := by
    decide +kernel
  have hmain : ∀ segment ∈ segments "main".toList, IsOrdinary segment := by decide +kernel
  have hfound : resolve "../lib/Io.rf" (some "app/net/http") = .ok "app/lib/Io" := by
    decide +kernel
  have hescapes : resolve "../x" (some "main") = .error .escapesRoot := by decide +kernel
  have habsolute := relative_as_absolute.1 "app/net/http" "../lib/Io.rf" hnested
    (by decide +kernel) (isRelative_iff.1 (by decide +kernel))
  have hroot := relative_as_absolute.1 "main" "../x" hmain (by decide +kernel)
    (isRelative_iff.1 (by decide +kernel))
  refine ⟨hfound, habsolute.symm.trans hfound, hescapes, hroot.symm.trans hescapes, ?_⟩
  exact relative_as_absolute.2 " core/Maybe"
    (fun h => absurd (isRelative_iff.2 h) (by decide +kernel)) _ _

/-! ### Parts that lead nowhere -/

/-- From everywhere, a walk along these parts comes back to where it started. -/
def Idle (middle : List Char) : Prop :=
  ∀ here, walk here (segments middle) = .ok here

/-- What stands between two slashes can be left out if it leads nowhere. -/
theorem resolveTrimmed_of_idle (h : Idle middle) (front back : List Char)
    (importer : Option (List Char)) :
    resolveTrimmed (front ++ '/' :: (middle ++ '/' :: back)) importer =
      resolveTrimmed (front ++ '/' :: back) importer := by
  rw [resolveTrimmed_append, resolveTrimmed_append, segments_append]
  congr 2
  funext there
  rw [walk_append, h there]
  rfl

theorem idle_nil : Idle [] :=
  fun here => walk_skipped (.inl rfl) here []

theorem idle_dot : Idle ['.'] :=
  fun here => walk_skipped (.inr rfl) here []

/-- Into a directory and out of it. -/
theorem idle_in_and_out {name : Segment} (hslash : '/' ∉ name) (hname : IsOrdinary name) :
    Idle (name ++ ['/', '.', '.']) := by
  intro here
  have hsegments : segments (name ++ ['/', '.', '.']) = [name, ['.', '.']] := by
    rw [segments_append, segments, Text.splitAt_of_notMem hslash]
    rfl
  rw [hsegments, walk_ordinary hname, walk_up]
  rfl

/-- Blanks at the ends are not in the way. -/
theorem resolve_of_idle {front middle back : String} (h : Idle middle.toList)
    (importer : Option String) :
    resolve (front ++ "/" ++ middle ++ "/" ++ back) importer =
      resolve (front ++ "/" ++ back) importer := by
  have hlong : (front ++ "/" ++ middle ++ "/" ++ back).toList =
      front.toList ++ '/' :: (middle.toList ++ '/' :: back.toList) := by
    simp [String.toList_append]
  have hshort : (front ++ "/" ++ back).toList = front.toList ++ '/' :: back.toList := by
    simp [String.toList_append]
  rw [resolve, resolve, hlong, hshort, Text.trim_append_cons isBlank_slash,
    Text.trim_append_cons isBlank_slash, Text.dropEndWhile_append_cons isBlank_slash,
    resolveTrimmed_of_idle h]

/-- A directory that is entered and left, a doubled slash and a dot between slashes can be left out
anywhere, from every importer: the path is the same, and so is the fault if there is none. -/
theorem redundant_parts_ignored (front back name : String) (importer : Option String)
    (hname : name ≠ "") (hslash : '/' ∉ name.toList) (hdot : name ≠ ".") (hdots : name ≠ "..") :
    resolve (front ++ "/" ++ name ++ "/../" ++ back) importer =
        resolve (front ++ "/" ++ back) importer ∧
      resolve (front ++ "//" ++ back) importer = resolve (front ++ "/" ++ back) importer ∧
      resolve (front ++ "/./" ++ back) importer = resolve (front ++ "/" ++ back) importer := by
  have hordinary : IsOrdinary name.toList := by
    refine ⟨?_, ?_, ?_⟩ <;> intro h
    · exact hname (String.toList_inj.1 h)
    · exact hdot (String.toList_inj.1 h)
    · exact hdots (String.toList_inj.1 h)
  have hidle : Idle (name ++ "/..").toList := by
    rw [String.toList_append]
    exact idle_in_and_out hslash hordinary
  have hidle_nil : Idle "".toList := idle_nil
  have hidle_dot : Idle ".".toList := idle_dot
  have hin : front ++ "/" ++ name ++ "/../" ++ back =
      front ++ "/" ++ (name ++ "/..") ++ "/" ++ back := by
    rw [← String.toList_inj]
    simp [String.toList_append]
  have hdouble : front ++ "//" ++ back = front ++ "/" ++ "" ++ "/" ++ back := by
    rw [← String.toList_inj]
    simp [String.toList_append]
  have hsame : front ++ "/./" ++ back = front ++ "/" ++ "." ++ "/" ++ back := by
    rw [← String.toList_inj]
    simp [String.toList_append]
  rw [hin, hdouble, hsame]
  exact ⟨resolve_of_idle hidle importer, resolve_of_idle hidle_nil importer,
    resolve_of_idle hidle_dot importer⟩

/-- In a relative specifier with blanks at both ends, where the part that is left leads out of the
root, and where nothing else is left. -/
theorem redundant_parts_ignored_at_ends :
    resolve " ./../ x " (some "app/net/http") = .ok "app/ x" ∧
      resolve " ./../.g/../ x " (some "app/net/http") = .ok "app/ x" ∧
      resolve "../.g/../" (some "main") = .error .escapesRoot ∧
      resolve " //" none = .error .namesNothing := by
  have hspaced := redundant_parts_ignored " ./.." " x " ".g" (some "app/net/http")
    (by decide) (by decide) (by decide) (by decide)
  have hroot := redundant_parts_ignored ".." "" ".g" (some "main")
    (by decide) (by decide) (by decide) (by decide)
  have hempty := redundant_parts_ignored " " "" ".g" none
    (by decide) (by decide) (by decide) (by decide)
  have hfound : resolve " ./../ x " (some "app/net/http") = .ok "app/ x" := by decide +kernel
  have hescapes : resolve "../" (some "main") = .error .escapesRoot := by decide +kernel
  have hnothing : resolve " /" none = .error .namesNothing := by decide +kernel
  exact ⟨hfound, hspaced.1.trans hfound, hroot.1.trans hescapes, hempty.2.1.trans hnothing⟩

end Path

end Custody
