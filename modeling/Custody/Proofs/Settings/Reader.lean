import Custody.Proofs.Settings.Document
import Custody.Settings.Reader
import Mathlib.Algebra.Group.Nat.Defs

/-! Reading settings. The readers take what they read from the front of a text and leave less than they
were given, so the bounds that they count down never run out. Every text can be written in quotes, and
all settings in a document. What is read is determined by the values that the lines assign; a
document that assigns anything else than settings is refused. -/

namespace Custody.Settings

/-! ### Readers take from the front -/

/-- What a reader leaves is shorter than what it was given. -/
def Consumes {α : Type} (read : List Char → Option (α × List Char)) : Prop :=
  ∀ {cs a rest}, read cs = some (a, rest) → rest.length < cs.length

theorem length_skipSpaces_le (cs : List Char) : (skipSpaces cs).length ≤ cs.length :=
  (List.dropWhile_sublist _).length_le

theorem length_skipComment_le (cs : List Char) : (skipComment cs).length ≤ cs.length := by
  unfold skipComment
  split
  · exact Nat.le_succ_of_le (List.dropWhile_sublist _).length_le
  · exact Nat.le_refl _

theorem length_lineBreak?_lt {cs rest : List Char} (h : lineBreak? cs = some rest) :
    rest.length < cs.length := by
  unfold lineBreak? at h
  split at h
  · cases h
    exact Nat.lt_succ_self _
  · cases h
    exact Nat.lt_succ_of_lt (Nat.lt_succ_self _)
  · cases h

theorem length_endLine?_lt {cs rest : List Char} (h : endLine? cs = some rest) (hcs : cs ≠ []) :
    rest.length < cs.length := by
  have hle : (skipComment (skipSpaces cs)).length ≤ cs.length :=
    Nat.le_trans (length_skipComment_le _) (length_skipSpaces_le _)
  unfold endLine? at h
  split at h
  · cases h
    exact List.length_pos_of_ne_nil hcs
  · rename_i c cs' hskip
    rw [hskip] at hle
    exact Nat.lt_of_lt_of_le (length_lineBreak?_lt h) hle

section

variable {n : Nat} {read? : Option (List Char × List Char)} {text rest : List Char}

/-- Behind a character, the rest of the text is read. -/
theorem length_lt_of_map_consTo {c : Char} (h : read?.map (consTo c) = some (text, rest))
    (hread : ∀ {text}, read? = some (text, rest) → rest.length < n) : rest.length < n := by
  obtain ⟨⟨text', rest'⟩, heq, hcons⟩ := Option.map_eq_some_iff.1 h
  cases hcons
  exact hread heq

theorem length_lt_of_escape {char? : Option Char}
    (h : (char?.bind fun char => read?.map (consTo char)) = some (text, rest))
    (hread : ∀ {text}, read? = some (text, rest) → rest.length < n) : rest.length < n := by
  obtain ⟨char, -, hmap⟩ := Option.bind_eq_some_iff.1 h
  exact length_lt_of_map_consTo hmap hread

end

theorem consumes_quoted? : Consumes quoted? := by
  intro cs text rest h
  fun_induction quoted? cs generalizing text with
  | case1 rest' =>
      cases h
      exact Nat.lt_succ_self _
  | case2 a b c d rest' ih => exact Nat.lt_add_right 6 (length_lt_of_escape h ih)
  | case3 a b c d e f g h' rest' ih => exact Nat.lt_add_right 10 (length_lt_of_escape h ih)
  | case4 c rest' _ _ ih => exact Nat.lt_add_right 2 (length_lt_of_escape h ih)
  | case5 c rest' _ _ _ _ _ ih => exact Nat.lt_add_right 1 (length_lt_of_map_consTo h ih)
  | case6 => cases h
  | case7 => cases h

theorem consumes_literal? : Consumes literal? := by
  intro cs text rest h
  fun_induction literal? cs generalizing text with
  | case1 rest' =>
      cases h
      exact Nat.lt_succ_self _
  | case2 c rest' _ _ ih => exact Nat.lt_add_right 1 (length_lt_of_map_consTo h ih)
  | case3 => cases h
  | case4 => cases h

theorem consumes_quotedLines? (folding : Bool) : Consumes (quotedLines? folding) := by
  intro cs text rest h
  fun_induction quotedLines? folding cs generalizing text with
  | case1 folding rest' =>
      cases h
      exact Nat.lt_add_right 2 (Nat.lt_succ_self _)
  | case2 folding a b c d rest' ih => exact Nat.lt_add_right 6 (length_lt_of_escape h ih)
  | case3 folding a b c d e f g h' rest' ih => exact Nat.lt_add_right 10 (length_lt_of_escape h ih)
  | case4 rest' ih => exact Nat.lt_add_right 2 (ih h)
  | case5 folding rest' _ ih => exact Nat.lt_add_right 2 (length_lt_of_map_consTo h ih)
  | case6 folding c rest' _ _ char _ ih => exact Nat.lt_add_right 2 (length_lt_of_map_consTo h ih)
  | case7 folding c rest' _ _ _ _ ih => exact Nat.lt_add_right 1 (ih h)
  | case8 => cases h
  | case9 folding c rest' _ _ _ _ _ _ ih => exact Nat.lt_add_right 1 (ih h)
  | case10 folding c rest' _ _ _ _ _ _ _ ih =>
      exact Nat.lt_add_right 1 (length_lt_of_map_consTo h ih)
  | case11 => cases h
  | case12 => cases h

theorem consumes_literalLines? : Consumes literalLines? := by
  intro cs text rest h
  fun_induction literalLines? cs generalizing text with
  | case1 rest' =>
      cases h
      exact Nat.lt_add_right 2 (Nat.lt_succ_self _)
  | case2 rest' ih => exact Nat.lt_add_right 2 (length_lt_of_map_consTo h ih)
  | case3 c rest' _ _ _ ih => exact Nat.lt_add_right 1 (length_lt_of_map_consTo h ih)
  | case4 => cases h
  | case5 => cases h

theorem length_dropFirstBreak_le (cs : List Char) : (dropFirstBreak cs).length ≤ cs.length := by
  unfold dropFirstBreak
  cases hbreak : lineBreak? cs with
  | none => exact Nat.le_refl _
  | some rest => exact Nat.le_of_lt (length_lineBreak?_lt hbreak)

theorem consumes_name? : Consumes name? := by
  intro cs name rest h
  unfold name? at h
  split at h
  · obtain ⟨⟨text, rest'⟩, hread, heq⟩ := Option.map_eq_some_iff.1 h
    cases heq
    exact Nat.lt_succ_of_lt (consumes_quoted? hread)
  · obtain ⟨⟨text, rest'⟩, hread, heq⟩ := Option.map_eq_some_iff.1 h
    cases heq
    exact Nat.lt_succ_of_lt (consumes_literal? hread)
  · split at h
    · cases h
    · rename_i c front hfront
      cases h
      have hlength := congrArg List.length (List.takeWhile_append_dropWhile (p := isKeyChar) (l := cs))
      rw [hfront, List.length_append, List.length_cons] at hlength
      omega

/-! ### Keys -/

section

variable {fuel fuel' : Nat} {cs rest : List Char}

/-- A key is one name, or a name and a key behind a dot. -/
theorem key?_eq_some_iff {tables : List String} {last : String} :
    key? (fuel + 1) cs = some ((tables, last), rest) ↔
      ∃ name behind, name? (skipSpaces cs) = some (name, behind) ∧
        ((∃ inner outer, skipSpaces behind = '.' :: inner ∧ tables = name :: outer ∧
            key? fuel inner = some ((outer, last), rest)) ∨
          (∀ inner, skipSpaces behind ≠ '.' :: inner) ∧ skipSpaces behind = rest ∧ tables = [] ∧
            last = name) := by
  rw [key?]
  constructor
  · intro h
    obtain ⟨⟨name, behind⟩, hname, hrest⟩ := Option.bind_eq_some_iff.1 h
    refine ⟨name, behind, hname, ?_⟩
    dsimp only at hrest
    split at hrest
    · rename_i inner hdot
      obtain ⟨⟨⟨outer, last'⟩, rest'⟩, hkey, heq⟩ := Option.bind_eq_some_iff.1 hrest
      cases heq
      exact .inl ⟨inner, outer, hdot, rfl, hkey⟩
    · rename_i hdot
      cases hrest
      exact .inr ⟨hdot, rfl, rfl, rfl⟩
  · rintro ⟨name, behind, hname, htail⟩
    refine Option.bind_eq_some_iff.2 ⟨(name, behind), hname, ?_⟩
    dsimp only
    rcases htail with ⟨inner, outer, hdot, rfl, hkey⟩ | ⟨hdot, rfl, rfl, rfl⟩
    · rw [hdot]
      exact Option.bind_eq_some_iff.2 ⟨_, hkey, rfl⟩
    · split
      · rename_i inner hinner
        exact absurd hinner (hdot inner)
      · rfl

theorem consumes_key? (fuel : Nat) : Consumes (key? fuel) := by
  induction fuel with
  | zero =>
      intro cs a rest h
      cases h
  | succ fuel ih =>
      rintro cs ⟨tables, last⟩ rest h
      obtain ⟨name, behind, hname, htail⟩ := key?_eq_some_iff.1 h
      have hfirst := consumes_name? hname
      have hspaces := length_skipSpaces_le cs
      have hbehind := length_skipSpaces_le behind
      rcases htail with ⟨inner, outer, hdot, -, hkey⟩ | ⟨-, rfl, -, -⟩
      · have hinner := ih hkey
        rw [hdot, List.length_cons] at hbehind
        omega
      · omega

/-- What is read with some bound is also read with one that is as large as the text is long. -/
theorem key?_of_length_le {key : List String × String} (h : key? fuel cs = some (key, rest))
    (hlength : cs.length ≤ fuel') : key? fuel' cs = some (key, rest) := by
  obtain ⟨tables, last⟩ := key
  induction fuel generalizing fuel' cs tables with
  | zero => cases h
  | succ fuel ih =>
      cases fuel' with
      | zero => exact absurd (consumes_key? _ h) (by omega)
      | succ fuel' =>
          obtain ⟨name, behind, hname, htail⟩ := key?_eq_some_iff.1 h
          refine key?_eq_some_iff.2 ⟨name, behind, hname, htail.imp_left ?_⟩
          rintro ⟨inner, outer, hdot, houter, hkey⟩
          have hfirst := consumes_name? hname
          have hspaces := length_skipSpaces_le cs
          have hbehind := length_skipSpaces_le behind
          rw [hdot, List.length_cons] at hbehind
          exact ⟨inner, outer, hdot, houter, ih (by omega) outer hkey⟩

end

/-! ### Values -/

theorem length_skipFiller_le (fuel : Nat) (cs : List Char) :
    (skipFiller fuel cs).length ≤ cs.length := by
  induction fuel generalizing cs with
  | zero => exact Nat.le_refl _
  | succ fuel ih =>
      have hle : (skipComment (skipSpaces cs)).length ≤ cs.length :=
        Nat.le_trans (length_skipComment_le _) (length_skipSpaces_le _)
      rw [skipFiller]
      split
      · rename_i rest hbreak
        have hbehind := length_lineBreak?_lt hbreak
        have hrest := ih rest
        omega
      · exact hle

theorem consumes_simple? : Consumes simple? := by
  intro cs node rest h
  unfold simple? at h
  split at h
  · rename_i cs
    obtain ⟨read, hread, heq⟩ := Option.map_eq_some_iff.1 h
    cases heq
    exact Nat.lt_add_right 3 (Nat.lt_of_lt_of_le (consumes_quotedLines? false hread)
      (length_dropFirstBreak_le cs))
  · rename_i cs
    obtain ⟨read, hread, heq⟩ := Option.map_eq_some_iff.1 h
    cases heq
    exact Nat.lt_add_right 3 (Nat.lt_of_lt_of_le (consumes_literalLines? hread)
      (length_dropFirstBreak_le cs))
  · obtain ⟨read, hread, heq⟩ := Option.map_eq_some_iff.1 h
    cases heq
    exact Nat.lt_succ_of_lt (consumes_quoted? hread)
  · obtain ⟨read, hread, heq⟩ := Option.map_eq_some_iff.1 h
    cases heq
    exact Nat.lt_succ_of_lt (consumes_literal? hread)
  · cases h
    exact Nat.lt_add_right 3 (Nat.lt_succ_self _)
  · cases h
    exact Nat.lt_add_right 4 (Nat.lt_succ_self _)
  · rename_i cs
    split at h
    · rename_i behind hfiller
      cases h
      have hle := length_skipFiller_le cs.length cs
      rw [hfiller, List.length_cons] at hle
      exact Nat.lt_succ_of_le (Nat.le_of_succ_le hle)
    · cases h
  · cases h

/-- A table in braces has entries between commas. -/
theorem inline?_eq_some_iff {fuel : Nat} {done entries : Entries} {cs rest : List Char} :
    inline? (fuel + 1) done cs = some (entries, rest) ↔
      ∃ tables key behind value behind' done', keyPath? cs = some ((tables, key), '=' :: behind) ∧
        value? fuel (skipSpaces behind) = some (value, behind') ∧
        done.assign tables key value = some done' ∧
        (skipSpaces behind' = '\x7d' :: rest ∧ entries = done' ∨
          ∃ next, skipSpaces behind' = ',' :: next ∧
            inline? fuel done' next = some (entries, rest)) := by
  rw [inline?]
  constructor
  · intro h
    obtain ⟨⟨⟨tables, key⟩, found⟩, hkey, hrest⟩ := Option.bind_eq_some_iff.1 h
    dsimp only at hrest
    split at hrest
    · rename_i behind
      obtain ⟨⟨value, behind'⟩, hvalue, hrest⟩ := Option.bind_eq_some_iff.1 hrest
      obtain ⟨done', hassign, hrest⟩ := Option.bind_eq_some_iff.1 hrest
      refine ⟨tables, key, behind, value, behind', done', hkey, hvalue, hassign, ?_⟩
      dsimp only at hrest
      split at hrest
      · rename_i hclose
        cases hrest
        exact .inl ⟨hclose, rfl⟩
      · rename_i next hcomma
        exact .inr ⟨next, hcomma, hrest⟩
      · cases hrest
    · cases hrest
  · rintro ⟨tables, key, behind, value, behind', done', hkey, hvalue, hassign, htail⟩
    refine Option.bind_eq_some_iff.2 ⟨_, hkey, Option.bind_eq_some_iff.2 ⟨_, hvalue, ?_⟩⟩
    refine Option.bind_eq_some_iff.2 ⟨_, hassign, ?_⟩
    rcases htail with ⟨hclose, rfl⟩ | ⟨next, hcomma, hnext⟩
    · simp only [hclose]
    · simp only [hcomma]
      exact hnext

/-- A value is a table in braces or simple. -/
theorem value?_eq_some_iff {fuel : Nat} {node : Node} {cs rest : List Char} :
    value? (fuel + 1) cs = some (node, rest) ↔
      (∃ inside, cs = '\x7b' :: inside ∧
        (skipSpaces inside = '\x7d' :: rest ∧ node = .table .inline [] ∨
          (∀ behind, skipSpaces inside ≠ '\x7d' :: behind) ∧ ∃ entries,
            inline? fuel [] (skipSpaces inside) = some (entries, rest) ∧
              node = .table .inline entries)) ∨
      (∀ inside, cs ≠ '\x7b' :: inside) ∧ simple? cs = some (node, rest) := by
  by_cases hbrace : ∃ inside, cs = '\x7b' :: inside
  · obtain ⟨inside, rfl⟩ := hbrace
    rw [value?]
    constructor
    · intro h
      refine .inl ⟨inside, rfl, ?_⟩
      split at h
      · rename_i behind hclose
        cases h
        exact .inl ⟨hclose, rfl⟩
      · rename_i hopen
        obtain ⟨⟨entries, behind⟩, hentries, heq⟩ := Option.map_eq_some_iff.1 h
        cases heq
        exact .inr ⟨hopen, entries, hentries, rfl⟩
    · rintro (⟨inside', heq, hinside⟩ | ⟨hsimple, -⟩)
      · cases heq
        rcases hinside with ⟨hclose, rfl⟩ | ⟨hopen, entries, hentries, rfl⟩
        · simp only [hclose]
        · split
          · rename_i behind hclose
            exact absurd hclose (hopen behind)
          · exact Option.map_eq_some_iff.2 ⟨_, hentries, rfl⟩
      · exact absurd rfl (hsimple inside)
  · have hsimple : ∀ inside, cs ≠ '\x7b' :: inside := fun inside heq => hbrace ⟨inside, heq⟩
    rw [value?]
    · constructor
      · exact fun h => .inr ⟨hsimple, h⟩
      · rintro (⟨inside, heq, -⟩ | ⟨-, h⟩)
        · exact absurd heq (hsimple inside)
        · exact h
    · exact hsimple

theorem consumes_value? (fuel : Nat) :
    Consumes (value? fuel) ∧ ∀ done, Consumes (inline? fuel done) := by
  induction fuel with
  | zero =>
      constructor
      · intro cs node rest h
        cases h
      · intro done cs entries rest h
        cases h
  | succ fuel ih =>
      constructor
      · intro cs node rest h
        rcases value?_eq_some_iff.1 h with ⟨inside, rfl, hinside⟩ | ⟨-, hsimple⟩
        · have hspaces := length_skipSpaces_le inside
          rw [List.length_cons]
          rcases hinside with ⟨hclose, -⟩ | ⟨-, entries, hentries, -⟩
          · rw [hclose, List.length_cons] at hspaces
            omega
          · have hrest := ih.2 [] hentries
            omega
        · exact consumes_simple? hsimple
      · intro done cs entries rest h
        obtain ⟨tables, key, behind, value, behind', done', hkey, hvalue, -, htail⟩ :=
          inline?_eq_some_iff.1 h
        have hfirst := consumes_key? _ hkey
        have hspaces := length_skipSpaces_le behind
        have hread := ih.1 hvalue
        have hspaces' := length_skipSpaces_le behind'
        rw [List.length_cons] at hfirst
        rcases htail with ⟨hclose, -⟩ | ⟨next, hcomma, hnext⟩
        · rw [hclose, List.length_cons] at hspaces'
          omega
        · have hrest := ih.2 done' hnext
          rw [hcomma, List.length_cons] at hspaces'
          omega

theorem value?_of_length_le (fuel : Nat) :
    (∀ {cs node rest fuel'}, value? fuel cs = some (node, rest) → cs.length ≤ fuel' →
      value? fuel' cs = some (node, rest)) ∧
    ∀ {done cs entries rest fuel'}, inline? fuel done cs = some (entries, rest) → cs.length ≤ fuel' →
      inline? fuel' done cs = some (entries, rest) := by
  induction fuel with
  | zero =>
      constructor
      · intro cs node rest fuel' h
        cases h
      · intro done cs entries rest fuel' h
        cases h
  | succ fuel ih =>
      constructor
      · intro cs node rest fuel' h hlength
        have hpos := (consumes_value? _).1 h
        cases fuel' with
        | zero => omega
        | succ fuel' =>
            refine value?_eq_some_iff.2 ((value?_eq_some_iff.1 h).imp_left ?_)
            rintro ⟨inside, rfl, hinside⟩
            refine ⟨inside, rfl, hinside.imp_right ?_⟩
            rintro ⟨hopen, entries, hentries, heq⟩
            have hspaces := length_skipSpaces_le inside
            rw [List.length_cons] at hlength
            exact ⟨hopen, entries, ih.2 hentries (by omega), heq⟩
      · intro done cs entries rest fuel' h hlength
        have hpos := (consumes_value? _).2 done h
        cases fuel' with
        | zero => omega
        | succ fuel' =>
            obtain ⟨tables, key, behind, value, behind', done', hkey, hvalue, hassign, htail⟩ :=
              inline?_eq_some_iff.1 h
            have hfirst := consumes_key? _ hkey
            have hspaces := length_skipSpaces_le behind
            rw [List.length_cons] at hfirst
            refine inline?_eq_some_iff.2 ⟨tables, key, behind, value, behind', done', hkey,
              ih.1 hvalue (by omega), hassign, htail.imp_right ?_⟩
            rintro ⟨next, hcomma, hnext⟩
            have hread := (consumes_value? _).1 hvalue
            have hspaces' := length_skipSpaces_le behind'
            rw [hcomma, List.length_cons] at hspaces'
            exact ⟨next, hcomma, ih.2 hnext (by omega)⟩

/-! ### Lines -/

theorem length_endLine?_le {cs rest : List Char} (h : endLine? cs = some rest) :
    rest.length ≤ cs.length := by
  by_cases hcs : cs = []
  · subst hcs
    cases h
    exact Nat.le_refl _
  · exact Nat.le_of_lt (length_endLine?_lt h hcs)

/-- A line is a header or an assignment. -/
theorem line?_eq_some {line : Line} {cs rest : List Char} (h : line? cs = some (line, rest)) :
    (∃ inside tables name behind, cs = '[' :: inside ∧
      keyPath? inside = some ((tables, name), ']' :: behind) ∧ endLine? behind = some rest ∧
      line = .header tables name) ∨
    ∃ tables key behind value behind', keyPath? cs = some ((tables, key), '=' :: behind) ∧
      value? behind.length (skipSpaces behind) = some (value, behind') ∧
      endLine? behind' = some rest ∧ line = .assign tables key value := by
  unfold line? at h
  split at h
  · rename_i inside
    obtain ⟨⟨⟨tables, name⟩, found⟩, hkey, hrest⟩ := Option.bind_eq_some_iff.1 h
    dsimp only at hrest
    split at hrest
    · rename_i behind
      obtain ⟨rest', hend, heq⟩ := Option.bind_eq_some_iff.1 hrest
      cases heq
      exact .inl ⟨inside, tables, name, behind, rfl, hkey, hend, rfl⟩
    · cases hrest
  · obtain ⟨⟨⟨tables, key⟩, found⟩, hkey, hrest⟩ := Option.bind_eq_some_iff.1 h
    dsimp only at hrest
    split at hrest
    · rename_i behind
      obtain ⟨⟨value, behind'⟩, hvalue, hrest⟩ := Option.bind_eq_some_iff.1 hrest
      obtain ⟨rest', hend, heq⟩ := Option.bind_eq_some_iff.1 hrest
      cases heq
      exact .inr ⟨tables, key, behind, value, behind', hkey, hvalue, hend, rfl⟩
    · cases hrest

theorem consumes_line? : Consumes line? := by
  intro cs line rest h
  rcases line?_eq_some h with ⟨inside, tables, name, behind, rfl, hkey, hend, -⟩ |
    ⟨tables, key, behind, value, behind', hkey, hvalue, hend, -⟩
  · have hfirst := consumes_key? _ hkey
    have hrest := length_endLine?_le hend
    simp only [List.length_cons] at hfirst ⊢
    omega
  · have hfirst := consumes_key? _ hkey
    have hspaces := length_skipSpaces_le behind
    have hread := (consumes_value? _).1 hvalue
    have hrest := length_endLine?_le hend
    rw [List.length_cons] at hfirst
    omega

/-- A document has no lines, or a first line with a statement or without one. -/
theorem lines?_eq_some_iff {fuel : Nat} {cs : List Char} (hcs : cs ≠ []) {lines : List Line} :
    lines? (fuel + 1) cs = some lines ↔
      (∃ rest, endLine? cs = some rest ∧ lines? fuel rest = some lines) ∨
        endLine? cs = none ∧ ∃ line rest others, line? (skipSpaces cs) = some (line, rest) ∧
          lines? fuel rest = some others ∧ lines = line :: others := by
  rw [lines?]
  · cases hend : endLine? cs with
    | some rest => simp
    | none =>
        simp only [reduceCtorEq, false_and, exists_false, false_or, true_and]
        constructor
        · intro h
          obtain ⟨⟨line, rest⟩, hline, hrest⟩ := Option.bind_eq_some_iff.1 h
          obtain ⟨others, hothers, heq⟩ := Option.bind_eq_some_iff.1 hrest
          cases heq
          exact ⟨line, rest, others, hline, hothers, rfl⟩
        · rintro ⟨line, rest, others, hline, hothers, rfl⟩
          exact Option.bind_eq_some_iff.2 ⟨_, hline, Option.bind_eq_some_iff.2 ⟨_, hothers, rfl⟩⟩
  · exact hcs

theorem lines?_nil (fuel : Nat) : lines? fuel [] = some [] := by
  rw [lines?]

theorem lines?_of_length_le {fuel fuel' : Nat} {cs : List Char} {lines : List Line}
    (h : lines? fuel cs = some lines) (hlength : cs.length ≤ fuel') : lines? fuel' cs = some lines := by
  induction fuel generalizing fuel' cs lines with
  | zero =>
      cases cs with
      | nil => rw [lines?_nil] at h ⊢; exact h
      | cons c cs => cases h
  | succ fuel ih =>
      by_cases hcs : cs = []
      · rw [hcs, lines?_nil] at h ⊢
        exact h
      · have hpos := List.length_pos_of_ne_nil hcs
        cases fuel' with
        | zero => omega
        | succ fuel' =>
            refine (lines?_eq_some_iff hcs).2 (((lines?_eq_some_iff hcs).1 h).imp ?_ ?_)
            · rintro ⟨rest, hend, hlines⟩
              have hrest := length_endLine?_lt hend hcs
              exact ⟨rest, hend, ih hlines (by omega)⟩
            · rintro ⟨hend, line, rest, others, hline, hothers, heq⟩
              have hrest := consumes_line? hline
              have hspaces := length_skipSpaces_le cs
              exact ⟨hend, line, rest, others, hline, ih hothers (by omega), heq⟩

theorem skipFiller_of_length_le {fuel fuel' : Nat} {cs : List Char} (h : cs.length ≤ fuel)
    (h' : cs.length ≤ fuel') : skipFiller fuel cs = skipFiller fuel' cs := by
  have hnil : ∀ fuel, skipFiller fuel [] = [] := by
    intro fuel
    cases fuel <;> rfl
  induction fuel generalizing fuel' cs with
  | zero => rw [List.length_eq_zero_iff.1 (Nat.le_zero.1 h), hnil, hnil]
  | succ fuel ih =>
      cases fuel' with
      | zero => rw [List.length_eq_zero_iff.1 (Nat.le_zero.1 h'), hnil, hnil]
      | succ fuel' =>
          rw [skipFiller, skipFiller]
          cases hbreak : lineBreak? (skipComment (skipSpaces cs)) with
          | none => rfl
          | some rest =>
              have hrest := length_lineBreak?_lt hbreak
              have hcomment := length_skipComment_le (skipSpaces cs)
              have hspaces := length_skipSpaces_le cs
              exact ih (by omega) (by omega)

/-- The bounds of the readers do not matter: with any that is as large as the text is long, the same is
read. -/
theorem bounds_suffice {fuel : Nat} {cs : List Char} (h : cs.length ≤ fuel) :
    skipFiller fuel cs = skipFiller cs.length cs ∧ key? fuel cs = keyPath? cs ∧
      value? fuel cs = value? cs.length cs ∧ lines? fuel cs = lines? cs.length cs := by
  refine ⟨skipFiller_of_length_le h (Nat.le_refl _), Option.ext fun key => ?_,
    Option.ext fun value => ?_, Option.ext fun lines => ?_⟩
  · exact ⟨fun hkey => key?_of_length_le hkey (Nat.le_refl _), fun hkey => key?_of_length_le hkey h⟩
  · exact ⟨fun hvalue => (value?_of_length_le _).1 hvalue (Nat.le_refl _),
      fun hvalue => (value?_of_length_le _).1 hvalue h⟩
  · exact ⟨fun hlines => lines?_of_length_le hlines (Nat.le_refl _),
      fun hlines => lines?_of_length_le hlines h⟩

/-! ### What documents assign -/

theorem isValue_of_simple? {cs rest : List Char} {node : Node} (h : simple? cs = some (node, rest)) :
    node.isValue = true := by
  unfold simple? at h
  split at h
  iterate 4
    · obtain ⟨read, -, heq⟩ := Option.map_eq_some_iff.1 h
      cases heq
      rfl
  · cases h
    rfl
  · cases h
    rfl
  · split at h
    · cases h
      rfl
    · cases h
  · cases h

theorem isValue_of_value? {fuel : Nat} {cs rest : List Char} {node : Node}
    (h : value? fuel cs = some (node, rest)) : node.isValue = true := by
  cases fuel with
  | zero => cases h
  | succ fuel =>
      rcases value?_eq_some_iff.1 h with ⟨inside, -, ⟨-, rfl⟩ | ⟨-, entries, -, rfl⟩⟩ | ⟨-, hsimple⟩
      · rfl
      · rfl
      · exact isValue_of_simple? hsimple

theorem assignsValue_of_lines? {fuel : Nat} {cs : List Char} {lines : List Line}
    (h : lines? fuel cs = some lines) : ∀ line ∈ lines, line.AssignsValue := by
  induction fuel generalizing cs lines with
  | zero =>
      cases cs with
      | nil =>
          rw [lines?_nil] at h
          cases h
          simp
      | cons c cs => cases h
  | succ fuel ih =>
      by_cases hcs : cs = []
      · rw [hcs, lines?_nil] at h
        cases h
        simp
      · rcases (lines?_eq_some_iff hcs).1 h with ⟨rest, -, hlines⟩ |
          ⟨-, line, rest, others, hline, hothers, rfl⟩
        · exact ih hlines
        · refine List.forall_mem_cons.2 ⟨?_, ih hothers⟩
          rcases line?_eq_some hline with ⟨_, _, _, _, -, -, -, rfl⟩ |
            ⟨_, _, _, _, _, -, hvalue, -, rfl⟩
          · trivial
          · exact isValue_of_value? hvalue

/-- The tables of a document that is read hold what its lines assign. -/
theorem document?_exact {cs : List Char} {entries : Entries} (h : document? cs = some entries) :
    ∃ lines, build [] [] lines = some entries ∧ entries.keys.Nodup ∧
      ((assigned [] lines).map Prod.fst).Nodup ∧
      ∀ path value, entries.value? path = some value ↔ (path, value) ∈ assigned [] lines := by
  obtain ⟨lines, hlines, hbuild⟩ := Option.bind_eq_some_iff.1 h
  obtain ⟨hnodup, hvalues⟩ := build_exact hbuild (assignsValue_of_lines? hlines)
  exact ⟨lines, hbuild, nodup_keys_build hbuild List.nodup_nil, hnodup, hvalues⟩

/-! ### Texts in quotes -/

/-- The last digits of a number to the base 16, the highest first. -/
def hexDigits : (count : Nat) → Nat → List Nat
  | 0, _ => []
  | count + 1, n => hexDigits count (n / 16) ++ [n % 16]

theorem foldl_hexDigits {count n : Nat} (h : n < 16 ^ count) :
    (hexDigits count n).foldl (fun n d => 16 * n + d) 0 = n := by
  induction count generalizing n with
  | zero =>
      rw [Nat.pow_zero, Nat.lt_one_iff] at h
      rw [h]
      rfl
  | succ count ih =>
      have hn : n / 16 < 16 ^ count := by
        rw [Nat.pow_succ] at h
        exact Nat.div_lt_of_lt_mul (Nat.mul_comm _ _ ▸ h)
      rw [hexDigits, List.foldl_append, ih hn]
      exact Nat.div_add_mod n 16

theorem hexDigits_lt {count n d : Nat} (h : d ∈ hexDigits count n) : d < 16 := by
  induction count generalizing n with
  | zero => cases h
  | succ count ih =>
      rcases List.mem_append.1 h with hfront | hlast
      · exact ih hfront
      · rw [List.mem_singleton.1 hlast]
        exact Nat.mod_lt _ (by decide)

theorem hexDigit?_digitChar : ∀ d < 16, hexDigit? (Nat.digitChar d) = some d := by
  decide

theorem mapM_hexDigit? {digits : List Nat} (h : ∀ d ∈ digits, d < 16) :
    (digits.map Nat.digitChar).mapM hexDigit? = some digits := by
  induction digits with
  | nil => rfl
  | cons d digits ih =>
      obtain ⟨hfirst, hrest⟩ := List.forall_mem_cons.1 h
      rw [List.map_cons, List.mapM_cons, hexDigit?_digitChar d hfirst, ih hrest]
      rfl

/-- The character is found again from its code. -/
theorem charOfHex?_hexDigits (c : Char) :
    charOfHex? ((hexDigits 8 c.toNat).map Nat.digitChar) = some c := by
  have hcode : c.toNat < 16 ^ 8 := c.val.toNat_lt
  have hvalid : c.toNat.isValidChar := c.valid
  unfold charOfHex?
  rw [mapM_hexDigit? fun _ => hexDigits_lt]
  dsimp only [Option.bind_eq_bind, Option.bind_some]
  rw [foldl_hexDigits hcode, if_pos hvalid, Char.ofNat_toNat]

/-- Writes a character so that it can stand in quotes. -/
def written (c : Char) : List Char :=
  if isPlain c && c != '"' && c != '\\' then [c]
  else '\\' :: 'U' :: (hexDigits 8 c.toNat).map Nat.digitChar

theorem quoted?_written_append (c : Char) (cs : List Char) :
    quoted? (written c ++ cs) = (quoted? cs).map (consTo c) := by
  unfold written
  split
  · rename_i hc
    simp only [Bool.and_eq_true, bne_iff_ne] at hc
    obtain ⟨⟨hplain, hquote⟩, hbackslash⟩ := hc
    rw [List.singleton_append, quoted?]
    · simp [hplain, hbackslash]
    all_goals simp [hquote, hbackslash]
  · have hread := charOfHex?_hexDigits c
    simp only [hexDigits, List.nil_append, List.cons_append, List.map_cons, List.map_nil] at hread ⊢
    rw [quoted?, hread]
    rfl

/-- Every text can be written in quotes. -/
theorem quoted?_written (text rest : List Char) :
    quoted? (text.flatMap written ++ '"' :: rest) = some (text, rest) := by
  induction text with
  | nil => rw [List.flatMap_nil, List.nil_append, quoted?]
  | cons c text ih =>
      rw [List.flatMap_cons, List.append_assoc, quoted?_written_append, ih]
      rfl

/-! ### Settings -/

def flag? : Node → Option Bool
  | .flag value => some value
  | _ => none

/-- The entry is one of the two settings and has a value that fits. -/
def IsSetting (entry : String × Node) : Prop :=
  entry.1 = "language" ∧ (language? entry.2).isSome = true ∨
    entry.1 = "tolerate_missing_prelude" ∧ (flag? entry.2).isSome = true

/-- The settings that the entries say. What they do not say is as in `settings`. -/
def withEntries (settings : Settings) (entries : Entries) : Settings where
  language := ((entries.get? "language").bind language?).getD settings.language
  toleratesMissingPrelude :=
    ((entries.get? "tolerate_missing_prelude").bind flag?).getD settings.toleratesMissingPrelude

theorem withEntry?_eq_some_iff {settings settings' : Settings} {entry : String × Node} :
    withEntry? settings entry = some settings' ↔
      IsSetting entry ∧ settings.withEntries [entry] = settings' := by
  obtain ⟨key, node⟩ := entry
  unfold withEntry? IsSetting withEntries
  simp only [Entries.get?_cons]
  by_cases hlanguage : key = "language"
  · subst hlanguage
    cases hnode : language? node <;> simp [hnode, Entries.get?_nil]
  · by_cases hflag : key = "tolerate_missing_prelude"
    · subst hflag
      cases node <;> simp [flag?, Entries.get?_nil]
    · simp [hlanguage, hflag]

/-- Entries with other keys do not interfere. -/
theorem withEntries_cons {entries : Entries} {entry : String × Node} (h : entry.1 ∉ entries.keys)
    (hentry : IsSetting entry) (settings : Settings) :
    settings.withEntries (entry :: entries) = (settings.withEntries [entry]).withEntries entries := by
  obtain ⟨key, node⟩ := entry
  rcases hentry with ⟨rfl, hnode⟩ | ⟨rfl, hnode⟩
  · obtain ⟨language, hlanguage⟩ := Option.isSome_iff_exists.1 hnode
    have hnone : entries.get? "language" = none := Entries.get?_eq_none h
    simp [withEntries, Entries.get?_cons, Entries.get?_nil, hnone, hlanguage]
  · obtain ⟨value, hvalue⟩ := Option.isSome_iff_exists.1 hnode
    have hnone : entries.get? "tolerate_missing_prelude" = none := Entries.get?_eq_none h
    simp [withEntries, Entries.get?_cons, Entries.get?_nil, hnone, hvalue]

/-- Entries are read one after the other, but since their keys are distinct the order is of no
consequence. -/
theorem foldlM_eq_some_iff {entries : Entries} (hkeys : entries.keys.Nodup)
    {settings settings' : Settings} :
    entries.foldlM withEntry? settings = some settings' ↔
      (∀ entry ∈ entries, IsSetting entry) ∧ settings.withEntries entries = settings' := by
  induction entries generalizing settings with
  | nil => simp [withEntries, Entries.get?_nil]
  | cons entry entries ih =>
      obtain ⟨hfirst, hrest⟩ := List.nodup_cons.1 hkeys
      rw [List.foldlM_cons, List.forall_mem_cons]
      constructor
      · intro h
        obtain ⟨between, hentry, hentries⟩ := Option.bind_eq_some_iff.1 h
        obtain ⟨hsetting, rfl⟩ := withEntry?_eq_some_iff.1 hentry
        obtain ⟨hsettings, rfl⟩ := (ih hrest).1 hentries
        exact ⟨⟨hsetting, hsettings⟩, withEntries_cons hfirst hsetting settings⟩
      · rintro ⟨⟨hsetting, hsettings⟩, rfl⟩
        refine Option.bind_eq_some_iff.2
          ⟨_, withEntry?_eq_some_iff.2 ⟨hsetting, rfl⟩, (ih hrest).2 ⟨hsettings, ?_⟩⟩
        exact (withEntries_cons hfirst hsetting settings).symm

/-- Settings can be read from a text if and only if it is a document that assigns nothing but settings;
what it does not assign stays at its default. -/
theorem ofText?_eq_some_iff {text : String} {settings : Settings} :
    ofText? text = some settings ↔
      ∃ entries, document? text.toList = some entries ∧ (∀ entry ∈ entries, IsSetting entry) ∧
        withEntries {} entries = settings := by
  unfold ofText?
  constructor
  · intro h
    obtain ⟨entries, hdocument, hfold⟩ := Option.bind_eq_some_iff.1 h
    obtain ⟨-, -, hkeys, -⟩ := document?_exact hdocument
    exact ⟨entries, hdocument, (foldlM_eq_some_iff hkeys).1 hfold⟩
  · rintro ⟨entries, hdocument, hsettings⟩
    obtain ⟨-, -, hkeys, -⟩ := document?_exact hdocument
    exact Option.bind_eq_some_iff.2 ⟨entries, hdocument, (foldlM_eq_some_iff hkeys).2 hsettings⟩

/-- Writes settings as a document. -/
def toText (settings : Settings) : String :=
  let language := match settings.language with
    | .razorForge => "razorforge"
    | .suflae => "suflae"
  "language = \"" ++ language ++ "\"\ntolerate_missing_prelude = " ++
    toString settings.toleratesMissingPrelude ++ "\n"

theorem ofText?_toText (settings : Settings) : ofText? settings.toText = some settings := by
  rcases settings with ⟨_ | _, _ | _⟩ <;> decide +kernel

end Custody.Settings
