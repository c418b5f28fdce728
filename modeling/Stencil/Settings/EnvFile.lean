import Stencil.Text.Blank

/-!
# Environment files

A file of settings has one assignment to a line, `NAME=value`, between blank lines and lines that
begin with a number sign. Blanks around name and value do not count, a number sign after a blank
begins a remark, and a value in quotes is what stands between them, over several lines if need be.
A name can stand in single quotes. A line with a name alone takes the value of the name away, and a
line of any other form does nothing.
-/

namespace Stencil.EnvFile

/-! ### Lines -/

/-- The text without the mark of its encoding at the beginning. -/
def dropMark : Text → Text
  | '\uFEFF' :: r => r
  | r => r

/-- The text with a line feed for every line break. -/
def unifyBreaks : Text → Text
  | '\r' :: '\n' :: r => '\n' :: unifyBreaks r
  | '\r' :: r => '\n' :: unifyBreaks r
  | c :: r => c :: unifyBreaks r
  | [] => []

/-- The rest of a line. -/
def line (s : Text) : Text := s.takeWhile (· != '\n')

def dropLine (s : Text) : Text := (s.dropWhile (· != '\n')).drop 1

/-- The text without the blanks at its beginning that stand in the same line. -/
def dropBlanks (s : Text) : Text := s.dropWhile fun c => Text.isBlank c && c != '\n'

/-- What follows a line of which nothing but blanks and a remark is left. -/
def dropEnd? (s : Text) : Option Text :=
  match dropBlanks s with
  | [] => some []
  | c :: r => if c = '\n' ∨ c = '#' then some (dropLine (c :: r)) else none

def dropRemark : Text → Text
  | [] => []
  | c :: r =>
    if Text.isBlank c && ((Text.trimLeft r).head? == some '#') then [] else c :: dropRemark r

/-! ### Assignments -/

/-- The character that a letter after a backslash stands for between double quotes. -/
def escaped? : Char → Option Char
  | '\\' => some '\\'
  | '\x27' => some '\x27'
  | '\x22' => some '\x22'
  | 'a' => some '\x07'
  | 'b' => some '\x08'
  | 'f' => some '\x0c'
  | 'n' => some '\n'
  | 'r' => some '\r'
  | 't' => some '\t'
  | 'v' => some '\x0b'
  | _ => none

/-- What a character after a backslash stands for between quotes. Between single quotes a
backslash only escapes a quote or a backslash. -/
def unescape (quote c : Char) : Text :=
  let meant := if quote = '\x22' then escaped? c else if c = '\\' ∨ c = '\x27' then some c else none
  match meant with
  | some e => [e]
  | none => ['\\', c]

/-- What stands before the closing quote, and what follows the quote. -/
def quoted? (quote : Char) : Text → Option (Text × Text)
  | [] => none
  | '\\' :: c :: r => (quoted? quote r).map fun p => (unescape quote c ++ p.1, p.2)
  | c :: r => if c = quote then some ([], r) else (quoted? quote r).map fun p => (c :: p.1, p.2)

def value? (s : Text) : Option (Text × Text) :=
  match dropBlanks s with
  | '\x22' :: r => quoted? '\x22' r
  | '\x27' :: r => quoted? '\x27' r
  | _ => some (Text.trim (dropRemark (line s)), s.dropWhile (· != '\n'))

/-- A text without the word that marks the name after it for export. -/
def dropExport (s : Text) : Text :=
  match Text.dropFront? "export".toList s with
  | some (c :: r) => if Text.isBlank c && c != '\n' then dropBlanks r else s
  | _ => s

def isNameChar (c : Char) : Bool := !(c == '=' || c == '#' || Text.isBlank c)

/-- What follows the assignment of a value, and the value, if it ends its line. -/
def assigned (s : Text) : Option Text × Text :=
  match value? s with
  | some (value, rest) =>
    match dropEnd? rest with
    | some next => (some value, next)
    | none => (none, dropLine rest)
  | none => (none, dropLine s)

def name? (s : Text) : Option (Text × Text) :=
  match s with
  | '\x27' :: r => (Text.cutAfter? '\x27' r).filter fun p => !p.1.isEmpty
  | _ => if (s.takeWhile isNameChar).isEmpty then none
    else some (s.takeWhile isNameChar, s.dropWhile isNameChar)

/-- A name, and the value that is assigned to it if one is. -/
abbrev Assignment := Text × Option Text

/-- The assignment that a text begins with, if it begins with one, and what follows the line. -/
def assignment (s : Text) : Option Assignment × Text :=
  match name? (dropExport s) with
  | none => (none, dropLine (dropExport s))
  | some (name, rest) =>
    match dropBlanks rest with
    | '=' :: r => ((assigned r).1.map fun value => (name, some value), (assigned r).2)
    | rest =>
      match dropEnd? rest with
      | some next => (some (name, none), next)
      | none => (none, dropLine rest)

/-! ### What is read grows shorter -/

theorem length_dropBlanks_le (s : Text) : (dropBlanks s).length ≤ s.length :=
  (List.dropWhile_sublist _).length_le

theorem length_dropLine_le (s : Text) : (dropLine s).length ≤ s.length := by
  have := (List.dropWhile_sublist (· != '\n') (l := s)).length_le
  simp only [dropLine, List.length_drop]
  omega

private theorem length_dropLine_lt {s : Text} (h : s ≠ []) : (dropLine s).length < s.length := by
  have := (List.dropWhile_sublist (· != '\n') (l := s)).length_le
  have := List.length_pos_iff.2 h
  simp only [dropLine, List.length_drop]
  omega

theorem length_le_of_dropEnd? {s rest : Text} (h : dropEnd? s = some rest) :
    rest.length ≤ s.length := by
  have hle := length_dropBlanks_le s
  unfold dropEnd? at h
  generalize dropBlanks s = t at h hle
  cases t with
  | nil => simp [← Option.some.inj h]
  | cons c r =>
    simp only at h
    split at h
    · rw [← Option.some.inj h]
      exact Nat.le_trans (length_dropLine_le _) hle
    · simp at h

private theorem length_le_of_quoted? {quote : Char} {s value rest : Text}
    (h : quoted? quote s = some (value, rest)) : rest.length ≤ s.length := by
  fun_induction quoted? quote s generalizing value with
  | case1 => simp at h
  | case2 c r ih =>
    obtain ⟨p, hp, heq⟩ := Option.map_eq_some_iff.1 h
    obtain ⟨_, rfl⟩ := Prod.mk.inj heq
    have := ih hp
    simp only [List.length_cons]
    omega
  | case3 r =>
    obtain ⟨_, rfl⟩ := Prod.mk.inj (Option.some.inj h)
    simp
  | case4 c r _ _ ih =>
    obtain ⟨p, hp, heq⟩ := Option.map_eq_some_iff.1 h
    obtain ⟨_, rfl⟩ := Prod.mk.inj heq
    have := ih hp
    simp only [List.length_cons]
    omega

private theorem length_le_of_value? {s value rest : Text} (h : value? s = some (value, rest)) :
    rest.length ≤ s.length := by
  have hle := length_dropBlanks_le s
  unfold value? at h
  split at h
  · next heq =>
    have := length_le_of_quoted? h
    simp only [heq, List.length_cons] at hle
    omega
  · next heq =>
    have := length_le_of_quoted? h
    simp only [heq, List.length_cons] at hle
    omega
  · obtain ⟨_, rfl⟩ := Prod.mk.inj (Option.some.inj h)
    exact (List.dropWhile_sublist _).length_le

private theorem length_assigned_le (s : Text) : (assigned s).2.length ≤ s.length := by
  unfold assigned
  split
  · next value rest h =>
    have hrest := length_le_of_value? h
    split
    · next hend => exact Nat.le_trans (length_le_of_dropEnd? hend) hrest
    · exact Nat.le_trans (length_dropLine_le _) hrest
  · exact length_dropLine_le _

private theorem length_dropExport_le (s : Text) : (dropExport s).length ≤ s.length := by
  unfold dropExport
  split
  · next c r h =>
    have hs := congrArg List.length (Text.dropFront?_eq_some_iff.1 h)
    have hr := length_dropBlanks_le r
    simp only [List.length_append, List.length_cons] at hs
    split <;> omega
  · exact Nat.le_refl _

private theorem length_lt_of_name? {s name rest : Text} (h : name? s = some (name, rest)) :
    rest.length < s.length := by
  unfold name? at h
  split at h
  · obtain ⟨hcut, _⟩ := Option.filter_eq_some_iff.1 h
    have := Text.length_lt_of_cutAfter? hcut
    simp only [List.length_cons]
    omega
  · split at h
    · simp at h
    · next hname =>
      obtain ⟨_, rfl⟩ := Prod.mk.inj (Option.some.inj h)
      have hsplit :=
        congrArg List.length (List.takeWhile_append_dropWhile (p := isNameChar) (l := s))
      have hpos := List.length_pos_iff.2 fun h => hname (List.isEmpty_iff.2 h)
      simp only [List.length_append] at hsplit
      omega

private theorem length_assignment_lt {s : Text} (h : s ≠ []) :
    (assignment s).2.length < s.length := by
  have hpos := List.length_pos_iff.2 h
  have hle := length_dropExport_le s
  unfold assignment
  split
  · by_cases hs : dropExport s = []
    · simpa [hs, dropLine] using hpos
    · exact Nat.lt_of_lt_of_le (length_dropLine_lt hs) hle
  · next name rest hname =>
    have hrest := length_lt_of_name? hname
    have hblank := length_dropBlanks_le rest
    split
    · next r heq =>
      have := length_assigned_le r
      simp only [heq, List.length_cons] at hblank
      show (assigned r).2.length < s.length
      omega
    · split
      · next after hend =>
        have := length_le_of_dropEnd? hend
        show after.length < s.length
        omega
      · have := length_dropLine_le (dropBlanks rest)
        show (dropLine _).length < s.length
        omega

/-- The assignments of a text whose lines end in line feeds. -/
def assignmentsFrom (s : Text) : List Assignment :=
  match _h : Text.trimLeft s with
  | [] => []
  | c :: r =>
    let p := assignment (c :: r)
    p.1.toList ++ assignmentsFrom p.2
termination_by s.length
decreasing_by
  have hlt := length_assignment_lt (List.cons_ne_nil c r)
  have hle := Text.length_trimLeft_le s
  rw [_h] at hle
  omega

def assignments (s : Text) : List Assignment := assignmentsFrom (unifyBreaks (dropMark s))

end Stencil.EnvFile
