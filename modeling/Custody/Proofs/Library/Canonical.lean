import Custody.Proofs.Library.Path

/-! Canonical paths. A path is canonical if every segment names something and the last one has no
extension that would be dropped. Resolving a specifier drops one extension after everything else, and
trims blanks before everything else, so what it gives is canonical up to its last segment, and not
always there: an extension may have another one in front of it, or nothing but dots, and a blank may
come to stand at an end. These are the only exceptions. -/

namespace Custody.Path

/-- The one spelling of a path: no segment is empty or made of dots, and no extension is left. -/
structure Canonical (path : List Char) : Prop where
  ordinary : ∀ segment ∈ segments path, IsOrdinary segment
  bare : ∀ last, (segments path).getLast? = some last → ¬ HasExtension last

/-- The module is in a directory whose segments all name something. -/
def Placed (path : List Char) : Prop :=
  ∀ segment ∈ directory path, IsOrdinary segment

theorem Canonical.placed {path : List Char} (h : Canonical path) : Placed path := by
  intro segment hsegment
  have hmem := (List.dropLast_sublist _).subset hsegment
  exact h.ordinary segment (List.mem_filter.1 hmem).1

/-- Where a specifier leads before its extension is dropped, with the innermost segment first. -/
def place (specifier : List Char) (importer : Option (List Char)) :
    Except PathFault (List Segment) :=
  walk (start specifier importer) (segments specifier)

variable {specifier path : List Char} {importer : Option (List Char)} {there outer : List Segment}
  {last stem : Segment}

theorem joinWith_segments (path : List Char) : Text.joinWith '/' (segments path) = path :=
  Text.joinWith_splitAt '/' path

theorem extent_segments (path : List Char) : Text.extent (segments path) = path.length + 1 :=
  Text.extent_splitAt path

/-- What is resolved is the place that is walked to, less one extension. -/
theorem resolveTrimmed_eq_ok_iff :
    resolveTrimmed specifier importer = .ok path ↔
      specifier ≠ [] ∧ ∃ last outer, place specifier importer = .ok (last :: outer) ∧
        path = Text.joinWith '/' (outer.reverse ++ [stripExtension last]) := by
  unfold resolveTrimmed place
  by_cases hempty : specifier = []
  · simp [hempty]
  · rw [if_neg hempty]
    cases walk (start specifier importer) (segments specifier) with
    | error fault => simp [bind, Except.bind]
    | ok there =>
        cases there with
        | nil => simp [bind, Except.bind, spell]
        | cons last outer => simp [bind, Except.bind, spell, hempty, eq_comm]

/-- The start of a specifier is in the directory of its importer. -/
theorem mem_start (himporter : ∀ path, importer = some path → Placed path) :
    ∀ segment ∈ start specifier importer, IsOrdinary segment ∧ '/' ∉ segment := by
  intro segment hsegment
  unfold start at hsegment
  split at hsegment
  · split at hsegment
    · rename_i path
      rw [List.mem_reverse] at hsegment
      have hmem := List.mem_filter.1 ((List.dropLast_sublist _).subset hsegment)
      exact ⟨himporter path rfl segment hsegment, Text.notMem_of_mem_splitAt hmem.1⟩
    · cases hsegment
  · cases hsegment

theorem mem_place (himporter : ∀ path, importer = some path → Placed path)
    (h : place specifier importer = .ok there) :
    ∀ segment ∈ there, IsOrdinary segment ∧ '/' ∉ segment := by
  intro segment hsegment
  rcases mem_of_walk h segment hsegment with hstart | ⟨hmem, hordinary⟩
  · exact mem_start himporter segment hstart
  · exact ⟨hordinary, Text.notMem_of_mem_splitAt hmem⟩

theorem notMem_stripExtension {c : Char} (h : c ∉ last) : c ∉ stripExtension last :=
  fun hmem => h ((stripExtension_isPrefix last).subset hmem)

/-- The segments of a resolved path are those of the place, up to the extension. -/
theorem segments_joinWith (hplace : ∀ segment ∈ last :: outer, '/' ∉ segment) :
    segments (Text.joinWith '/' (outer.reverse ++ [stripExtension last])) =
      outer.reverse ++ [stripExtension last] := by
  obtain ⟨hlast, houter⟩ := List.forall_mem_cons.1 hplace
  apply Text.splitAt_joinWith
  · simp
  · intro segment hsegment
    rcases List.mem_append.1 hsegment with hmem | hmem
    · exact houter segment (List.mem_reverse.1 hmem)
    · rw [List.mem_singleton.1 hmem]
      exact notMem_stripExtension hlast

/-! ### Resolving once more -/

theorem start_none (specifier : List Char) : start specifier none = [] := by
  unfold start
  split <;> rfl

/-- Without an importer, what is resolved is no longer than the place. -/
theorem length_le_extent_place (h : resolveTrimmed specifier importer = .ok path)
    (hplace : place specifier importer = .ok there) : path.length + 1 ≤ Text.extent there := by
  obtain ⟨-, last, outer, hlast, rfl⟩ := resolveTrimmed_eq_ok_iff.1 h
  obtain rfl : there = last :: outer := by
    rw [hplace] at hlast
    exact Except.ok.inj hlast
  have hle := (stripExtension_isPrefix last).length_le
  rw [Text.length_joinWith (by simp), Text.extent_append, Text.extent_reverse, Text.extent_cons,
    Text.extent_cons, Text.extent_nil]
  omega

theorem length_le_of_resolveTrimmed (h : resolveTrimmed specifier none = .ok path) :
    path.length ≤ specifier.length := by
  obtain ⟨-, last, outer, hplace, -⟩ := resolveTrimmed_eq_ok_iff.1 h
  have hpath := length_le_extent_place h hplace
  have hwalk := extent_walk hplace
  rw [start_none, extent_segments, Text.extent_nil] at hwalk
  omega

theorem place_of_segments (hsegments : segments path = outer ++ [stem])
    (houter : ∀ segment ∈ outer, IsOrdinary segment) :
    place path none = walk outer.reverse [stem] := by
  rw [place, start_none, hsegments, walk_append, walk_of_isOrdinary houter, List.append_nil]
  rfl

/-- A path is resolved to itself if and only if its last segment is canonical as well. -/
theorem resolveTrimmed_self_iff (hsegments : segments path = outer ++ [stem])
    (houter : ∀ segment ∈ outer, IsOrdinary segment) (hstem : stem ≠ []) :
    resolveTrimmed path none = .ok path ↔ IsOrdinary stem ∧ ¬ HasExtension stem := by
  have hplace := place_of_segments hsegments houter
  have hextent : Text.extent outer + (stem.length + 1) = path.length + 1 := by
    have hpath := extent_segments path
    rw [hsegments, Text.extent_append, Text.extent_cons, Text.extent_nil] at hpath
    omega
  rcases skipped_or_up_or_isOrdinary stem with hskip | rfl | hordinary
  · -- a dot at the end leads to the directory, which is shorter
    rw [walk_skipped hskip] at hplace
    refine iff_of_false (fun h => ?_) fun h => ?_
    · have hle := length_le_extent_place h hplace
      rw [Text.extent_reverse] at hle
      omega
    · rcases hskip with rfl | rfl
      · exact hstem rfl
      · exact h.1.2.1 rfl
  · refine iff_of_false (fun h => ?_) fun h => h.1.2.2 rfl
    cases hreverse : outer.reverse with
    | nil =>
        obtain ⟨-, last, rest, hlast, -⟩ := resolveTrimmed_eq_ok_iff.1 h
        rw [hplace, hreverse, walk_up_root] at hlast
        cases hlast
    | cons top below =>
        rw [hreverse, walk_up] at hplace
        have hle := length_le_extent_place h hplace
        rw [← Text.extent_reverse, hreverse, Text.extent_cons] at hextent
        omega
  · rw [walk_ordinary hordinary] at hplace
    have hnonempty : path ≠ [] := by
      rintro rfl
      have hpos : 0 < stem.length := List.length_pos_iff.2 hstem
      simp only [List.length_nil] at hextent
      omega
    rw [resolveTrimmed_eq_ok_iff]
    constructor
    · rintro ⟨-, last, rest, hlast, hpath⟩
      rw [hplace] at hlast
      obtain ⟨rfl, rfl⟩ := List.cons.inj (Except.ok.inj hlast)
      have hmarks : ∀ segment ∈ stem :: outer.reverse, '/' ∉ segment := by
        intro segment hsegment
        have hmem : segment ∈ segments path := by
          rw [hsegments]
          simpa [or_comm] using hsegment
        exact Text.notMem_of_mem_splitAt hmem
      have hsame := segments_joinWith hmarks
      rw [← hpath, hsegments, List.reverse_reverse] at hsame
      have hstrip : stripExtension stem = stem := by simpa using hsame.symm
      exact ⟨hordinary, stripExtension_eq_self_iff.1 hstrip⟩
    · rintro ⟨-, hbare⟩
      refine ⟨hnonempty, stem, outer.reverse, hplace, ?_⟩
      rw [stripExtension_eq_self_iff.2 hbare, List.reverse_reverse, ← hsegments, joinWith_segments]

theorem canonical_iff (hsegments : segments path = outer ++ [stem])
    (houter : ∀ segment ∈ outer, IsOrdinary segment) :
    Canonical path ↔ IsOrdinary stem ∧ ¬ HasExtension stem := by
  constructor
  · intro h
    exact ⟨h.ordinary stem (by simp [hsegments]), h.bare stem (by simp [hsegments])⟩
  · rintro ⟨hordinary, hbare⟩
    constructor
    · rw [hsegments]
      exact List.forall_mem_append.2 ⟨houter, List.forall_mem_singleton.2 hordinary⟩
    · intro last hlast
      rw [hsegments, List.getLast?_concat] at hlast
      cases hlast
      exact hbare

/-! ### Resolved paths -/

theorem resolve_eq_ok {specifier path : String} {importer : Option String} :
    resolve specifier importer = .ok path ↔
      resolveTrimmed (Text.trim specifier.toList) (importer.map (·.toList)) = .ok path.toList := by
  unfold resolve
  cases resolveTrimmed (Text.trim specifier.toList) (importer.map (·.toList)) with
  | error fault => simp [Except.map]
  | ok found =>
      simp only [Except.map, Except.ok.injEq]
      constructor
      · rintro rfl
        exact String.toList_ofList.symm
      · rintro rfl
        exact String.ofList_toList

/-- A path that is resolved to itself has no blanks at its ends. -/
theorem resolve_self_iff (path : String) :
    resolve path none = .ok path ↔
      resolveTrimmed path.toList none = .ok path.toList ∧
        Text.trim path.toList = path.toList := by
  rw [resolve_eq_ok]
  constructor
  · intro h
    have hsublist := Text.trim_sublist path.toList
    have htrim := hsublist.eq_of_length_le (length_le_of_resolveTrimmed h)
    rw [htrim] at h
    exact ⟨h, htrim⟩
  · rintro ⟨h, htrim⟩
    rw [htrim]
    exact h

/-- A resolved path is in a directory whose segments name something, and no segment of it is empty.
It is canonical, and resolved to itself, exactly if what is left of the last segment names something
and has no extension; to be resolved to itself it must also have no blanks at its ends. -/
theorem resolved_canonical_iff {specifier path : String} {importer : Option String}
    (himporter : ∀ module, importer = some module → Placed module.toList)
    (h : resolve specifier importer = .ok path) :
    ∃ last outer,
      place (Text.trim specifier.toList) (importer.map (·.toList)) = .ok (last :: outer) ∧
      (∀ segment ∈ last :: outer, IsOrdinary segment) ∧
      segments path.toList = outer.reverse ++ [stripExtension last] ∧
      (∀ segment ∈ segments path.toList, segment ≠ []) ∧
      Placed path.toList ∧
      (Canonical path.toList ↔
        IsOrdinary (stripExtension last) ∧ ¬ HasExtension (stripExtension last)) ∧
      (resolve path none = .ok path ↔
        Canonical path.toList ∧ Text.trim path.toList = path.toList) := by
  obtain ⟨-, last, outer, hplace, hpath⟩ := resolveTrimmed_eq_ok_iff.1 (resolve_eq_ok.1 h)
  have hplaced : ∀ module, importer.map (·.toList) = some module → Placed module := by
    intro module hmodule
    obtain ⟨text, htext, rfl⟩ := Option.map_eq_some_iff.1 hmodule
    exact himporter text htext
  have hmem := mem_place hplaced hplace
  obtain ⟨hlast, houter⟩ := List.forall_mem_cons.1 hmem
  have houter' : ∀ segment ∈ outer.reverse, IsOrdinary segment :=
    fun segment hsegment => (houter segment (List.mem_reverse.1 hsegment)).1
  have hstem : stripExtension last ≠ [] := stripExtension_ne_nil hlast.1.1
  have hsegments : segments path.toList = outer.reverse ++ [stripExtension last] := by
    rw [hpath]
    exact segments_joinWith fun segment hsegment => (hmem segment hsegment).2
  have hnonempty : ∀ segment ∈ segments path.toList, segment ≠ [] := by
    rw [hsegments]
    exact List.forall_mem_append.2
      ⟨fun segment hsegment => (houter' segment hsegment).1, List.forall_mem_singleton.2 hstem⟩
  have hcanonical := canonical_iff hsegments houter'
  refine ⟨last, outer, hplace, fun segment hsegment => (hmem segment hsegment).1, hsegments,
    hnonempty, ?_, hcanonical, ?_⟩
  · have hfilter : (segments path.toList).filter (!·.isEmpty) = segments path.toList :=
      List.filter_eq_self.2 fun segment hsegment => by simpa using hnonempty segment hsegment
    unfold Placed directory
    rw [hfilter, hsegments, List.dropLast_concat]
    exact houter'
  · rw [resolve_self_iff, hcanonical, resolveTrimmed_self_iff hsegments houter' hstem]

/-- In particular a file next to the importer, written with a doubled slash and its extension. -/
theorem resolved_canonical_iff_relative :
    resolve "./util//Strings.rf" (some "app/main") = .ok "app/util/Strings" ∧
      Canonical "app/util/Strings".toList ∧
      resolve "app/util/Strings" none = .ok "app/util/Strings" := by
  have himporter : ∀ module, some "app/main" = some module → Placed module.toList := by
    intro module hmodule
    obtain rfl := Option.some.inj hmodule
    unfold Placed
    decide +kernel
  have h : resolve "./util//Strings.rf" (some "app/main") = .ok "app/util/Strings" := by
    decide +kernel
  obtain ⟨last, outer, hplace, -, -, -, -, hcanonical, hself⟩ := resolved_canonical_iff himporter h
  have hlast : last = "Strings.rf".toList := by
    have hfound : place (Text.trim "./util//Strings.rf".toList) (some "app/main".toList) =
        .ok ["Strings.rf".toList, "util".toList, "app".toList] := by decide +kernel
    exact (List.cons.inj (Except.ok.inj (hplace.symm.trans hfound))).1
  have hpath : Canonical "app/util/Strings".toList := by
    rw [hcanonical, hlast, ← stripExtension_eq_self_iff]
    decide +kernel
  exact ⟨h, hpath, hself.2 ⟨hpath, by decide +kernel⟩⟩

/-- The exceptions: an extension in front of an extension stays, dots in front of an extension become
a segment of dots, and a blank in front of an extension is trimmed only when the path is resolved
once more. -/
theorem resolved_not_canonical :
    (resolve "lib/Strings.rf.sf" none = .ok "lib/Strings.rf" ∧
      resolve "lib/Strings.rf" none = .ok "lib/Strings") ∧
    (resolve "lib/..rf" none = .ok "lib/." ∧ resolve "lib/." none = .ok "lib") ∧
    (resolve "lib/...rf" none = .ok "lib/.." ∧ resolve "lib/.." none = .error .namesNothing) ∧
    (resolve "lib/Strings .rf" none = .ok "lib/Strings " ∧
      resolve "lib/Strings " none = .ok "lib/Strings") := by
  decide +kernel

end Custody.Path
