/-
# OpencodeCloud.Library.Ini -- `configparser` without interpolation

A file of sections and options as `ConfigParser(interpolation=None)` writes and reads it. `write` puts a
tab before every further line of a value; `read` takes a line that is indented deeper than its option for
a further line of the value, whatever it looks like, so a value cannot pass for an option or a section.
White space around a line, lines that look like comments and empty lines at the end are lost
(`settled`).

A text file is read with universal newlines, which `write` knows nothing of: behind a carriage return
there is no tab, and what stands there is read as a line of the file. `read_write` is about values
without one.
-/
import Mathlib
import OpencodeCloud.Library.Text

namespace OpencodeCloud.Library.Ini

/-! ## §A Files -/

/-- A section with its options, in the order of the file. -/
abbrev Section := Text × List (Text × Text)

abbrev Document := List Section

/-- What `read` raises; a `ParsingError` comes at the end of the file. -/
inductive Error where
  | missingSectionHeader | duplicateSection | duplicateOption | parsing
  deriving Repr, DecidableEq

/-- The section whose options every section has. -/
def defaultSection : Text := "DEFAULT".toList

/-! ## §B Writing -/

/-- `value.replace("\n", "\n\t")` -/
def indented (value : Text) : Text := value.flatMap fun c => if c = '\n' then ['\n', '\t'] else [c]

/-- The text before a value. -/
def leader (name : Text) : Text := name ++ " = ".toList

def writeOption (o : Text × Text) : Text := leader o.1 ++ indented o.2 ++ ['\n']

/-- `_write_section` -/
def writeSection (s : Section) : Text :=
  '[' :: (s.1 ++ "]\n".toList) ++ s.2.flatMap writeOption ++ ['\n']

/-- `write` -/
def write (d : Document) : Text := d.flatMap writeSection

/-! ## §C Reading -/

/-- An option with the lines of its value, the last one first. -/
structure Reading where
  parent : Text
  name : Text
  lines : List Text
  deriving DecidableEq

/-- The state of the loop over the lines. The option whose value goes on is the newest one, if there is
one in the current section (`goesOn`). -/
structure Reader where
  sections : List Text
  current : Option Text
  options : List Reading
  goesOn : Bool
  indent : Nat
  bogus : Bool

def Reader.empty : Reader := ⟨[], none, [], false, 0, false⟩

/-- A line that is a comment as a whole. -/
def isComment (value : Text) : Bool := value.head? == some '#' || value.head? == some ';'

def isDelimiter (c : Char) : Bool := c == '=' || c == ':'

/-- `SECTCRE`: a bracket, and what comes before the last closing one. -/
def header (value : Text) : Option Text :=
  match value with
  | '[' :: rest =>
    let name := (rest.rdropWhile (· != ']')).dropLast
    if name.isEmpty then none else some name
  | _ => none

/-- `OPTCRE`: what comes before and after the first delimiter. -/
def splitOption (value : Text) : Option (Text × Text) :=
  match value.dropWhile (!isDelimiter ·) with
  | [] => none
  | _ :: rest => some (rstrip (value.takeWhile (!isDelimiter ·)), strip rest)

/-- Where the text of a line begins. -/
def indentation (line : Text) : Nat := (line.takeWhile isSpace).length

namespace Reader

variable (optionxform : Text → Text) (r : Reader)

/-- A further line of the value that is being read. -/
def extend (value : Text) : Reader :=
  match r.options with
  | [] => r
  | o :: os => { r with options := { o with lines := value :: o.lines } :: os }

/-- A section header. -/
def enter (name : Text) : Except Error Reader :=
  if name = defaultSection then .ok { r with current := some name, goesOn := false }
  else if r.sections.contains name then .error .duplicateSection
  else .ok { r with sections := r.sections ++ [name], current := some name, goesOn := false }

/-- An option of the current section. -/
def assign (parent : Text) (o : Text × Text) : Except Error Reader :=
  let name := optionxform o.1
  if r.options.any fun p => p.parent == parent && p.name == name then .error .duplicateOption
  else
    .ok { r with
      options := ⟨parent, name, [o.2]⟩ :: r.options
      goesOn := !name.isEmpty
      bogus := r.bogus || o.1.isEmpty }

/-- A line that begins something. -/
def begin (value : Text) : Except Error Reader :=
  match header value, r.current with
  | some name, _ => r.enter name
  | none, none => .error .missingSectionHeader
  | none, some parent =>
    match splitOption value with
    | none => .ok { r with bogus := true }
    | some o => r.assign optionxform parent o

/-- One round of `_read`. -/
def step (line : Text) : Except Error Reader :=
  let value := strip line
  if isComment value then .ok r
  else if value.isEmpty then .ok (if r.goesOn then r.extend [] else r)
  else if r.goesOn && decide (r.indent < indentation line) then .ok (r.extend value)
  else { r with indent := indentation line }.begin optionxform value

/-- The loop over the lines. -/
def steps : Reader → List Text → Except Error Reader
  | r, [] => .ok r
  | r, line :: lines => do
    let r ← r.step optionxform line
    steps r lines

end Reader

/-- The lines of a text file, without their line feeds. -/
def linesFrom : Text → Text → List Text
  | seen, [] => if seen.isEmpty then [] else [seen]
  | seen, c :: rest => if c = '\n' then seen :: linesFrom [] rest else linesFrom (seen ++ [c]) rest

/-- `"\n".join(lines).rstrip()` -/
def joined (lines : List Text) : Text := rstrip (List.intercalate ['\n'] lines)

/-- An option of a file that was read. -/
structure Entry where
  parent : Text
  name : Text
  value : Text
  deriving DecidableEq

/-- What a parser holds after `read`: the sections, and the options in the order of the file. -/
structure Parsed where
  sections : List Text
  entries : List Entry
  deriving DecidableEq

/-- `_join_multiline_values` -/
def Reader.parsed (r : Reader) : Parsed :=
  ⟨r.sections, r.options.reverse.map fun o => ⟨o.parent, o.name, joined o.lines.reverse⟩⟩

/-- `read`, of the contents of the file. -/
def read (optionxform : Text → Text) (text : Text) : Except Error Parsed := do
  let r ← Reader.empty.steps optionxform (linesFrom [] (universalNewlines text))
  if r.bogus then .error .parsing else .ok r.parsed

/-- `get`: the option of the section, or of the default section. -/
def Parsed.get (optionxform : Text → Text) (p : Parsed) (parent name : Text) : Option Text :=
  if p.sections.contains parent || parent == defaultSection then
    let find := fun parent => (p.entries.find? fun e => e.parent == parent && e.name == optionxform name)
    ((find parent).or (find defaultSection)).map (·.value)
  else none

/-! ## §D What is left of a value -/

/-- The first line of a value, and the others. -/
def valueLines : Text → Text × List Text
  | [] => ([], [])
  | c :: cs =>
    let (first, others) := valueLines cs
    if c = '\n' then ([], first :: others) else (c :: first, others)

/-- The lines of a value as they are read back. -/
def keptLines (value : Text) : List Text :=
  strip (valueLines value).1 ::
    ((valueLines value).2.map strip).filter fun line => !isComment line

/-- The value as it is read back. -/
def settled (value : Text) : Text := joined (keptLines value)

/-! ## §E White space -/

/-- The end of a text, character by character. -/
theorem rstrip_cons (c : Char) (text : Text) :
    rstrip (c :: text) = if isSpace c ∧ rstrip text = [] then [] else c :: rstrip text := by
  induction text using List.reverseRecOn with
  | nil => cases hc : isSpace c <;> simp [rstrip, List.rdropWhile, hc]
  | append_singleton text d ih =>
    unfold rstrip at ih ⊢
    rw [← List.cons_append]
    cases hd : isSpace d with
    | true => rw [List.rdropWhile_concat_pos _ _ _ hd, List.rdropWhile_concat_pos _ _ _ hd, ih]
    | false =>
      rw [List.rdropWhile_concat_neg _ _ _ (by simp [hd]),
        List.rdropWhile_concat_neg _ _ _ (by simp [hd])]
      simp

theorem lstrip_rstrip (text : Text) : lstrip (rstrip text) = rstrip (lstrip text) := by
  induction text with
  | nil => rfl
  | cons c text ih =>
    cases hc : isSpace c with
    | true =>
      have hskip : lstrip (c :: text) = lstrip text := by rw [lstrip, List.dropWhile_cons, hc]; rfl
      rw [hskip, ← ih, rstrip_cons, hc]
      by_cases hnil : rstrip text = []
      · simp [hnil, lstrip]
      · rw [if_neg (by simp [hnil]), lstrip, List.dropWhile_cons, hc]
        rfl
    | false => rw [rstrip_cons, hc, if_neg (by simp), lstrip_cons hc, lstrip_cons hc, rstrip_cons, hc,
        if_neg (by simp)]

@[simp] theorem rstrip_rstrip (text : Text) : rstrip (rstrip text) = rstrip text :=
  List.rdropWhile_idempotent _ _

@[simp] theorem strip_rstrip (text : Text) : strip (rstrip text) = strip text := by
  rw [strip, lstrip_rstrip, rstrip_rstrip, strip]

/-- White space in front is lost. -/
theorem strip_cons_space {c : Char} (h : isSpace c = true) (text : Text) :
    strip (c :: text) = strip text := by
  rw [strip, lstrip, List.dropWhile_cons, h]
  rfl

/-- White space at the end is lost. -/
theorem rstrip_concat_space {c : Char} (h : isSpace c = true) (text : Text) :
    rstrip (text ++ [c]) = rstrip text := by
  rw [rstrip, List.rdropWhile_concat_pos _ _ _ h, rstrip]

/-! ## §F The lines of a file -/

theorem linesFrom_skip {text : Text} (h : '\n' ∉ text) (seen rest : Text) :
    linesFrom seen (text ++ rest) = linesFrom (seen ++ text) rest := by
  induction text generalizing seen with
  | nil => simp
  | cons c text ih =>
    rw [List.mem_cons, not_or] at h
    rw [List.cons_append, linesFrom, if_neg (Ne.symm h.1), ih h.2]
    simp

theorem linesFrom_append {text : Text} (h : '\n' ∉ text) (seen rest : Text) :
    linesFrom seen (text ++ '\n' :: rest) = (seen ++ text) :: linesFrom [] rest := by
  rw [linesFrom_skip h, linesFrom, if_pos rfl]

/-- The lines of a value as it is written. -/
theorem linesFrom_indented (value seen rest : Text) :
    linesFrom seen (indented value ++ '\n' :: rest) =
      (seen ++ (valueLines value).1) ::
        ((valueLines value).2.map ('\t' :: ·) ++ linesFrom [] rest) := by
  induction value generalizing seen with
  | nil => simp [indented, linesFrom, valueLines]
  | cons c cs ih =>
    by_cases hc : c = '\n'
    · subst hc
      have hih := ih ['\t']
      simp only [indented, List.flatMap_cons, if_true, List.cons_append, List.nil_append] at hih ⊢
      rw [linesFrom, if_pos rfl, linesFrom, if_neg (by decide), List.nil_append, hih]
      simp [valueLines]
    · have hih := ih (seen ++ [c])
      simp only [indented, List.flatMap_cons, if_neg hc, List.cons_append, List.nil_append] at hih ⊢
      rw [linesFrom, if_neg hc, hih]
      simp [valueLines, hc]

/-- The lines of an option. -/
def optionLines (o : Text × Text) : List Text :=
  (leader o.1 ++ (valueLines o.2).1) :: (valueLines o.2).2.map ('\t' :: ·)

/-- The lines of a section. -/
def sectionLines (s : Section) : List Text :=
  ('[' :: (s.1 ++ [']'])) :: (s.2.flatMap optionLines ++ [[]])

theorem linesFrom_option {o : Text × Text} (h : '\n' ∉ o.1) (rest : Text) :
    linesFrom [] (writeOption o ++ rest) = optionLines o ++ linesFrom [] rest := by
  have hclean : '\n' ∉ leader o.1 := by
    rw [leader, List.mem_append, not_or]
    exact ⟨h, by decide⟩
  rw [writeOption, List.append_assoc, List.append_assoc, linesFrom_skip hclean, List.nil_append,
    List.singleton_append, linesFrom_indented]
  rfl

theorem linesFrom_options {os : List (Text × Text)} (h : ∀ o ∈ os, '\n' ∉ o.1) (rest : Text) :
    linesFrom [] (os.flatMap writeOption ++ rest) = os.flatMap optionLines ++ linesFrom [] rest := by
  induction os with
  | nil => rfl
  | cons o os ih =>
    rw [List.forall_mem_cons] at h
    rw [List.flatMap_cons, List.flatMap_cons, List.append_assoc, linesFrom_option h.1, ih h.2,
      List.append_assoc]

theorem linesFrom_section {s : Section} (hname : '\n' ∉ s.1) (h : ∀ o ∈ s.2, '\n' ∉ o.1) (rest : Text) :
    linesFrom [] (writeSection s ++ rest) = sectionLines s ++ linesFrom [] rest := by
  have hheader : writeSection s ++ rest =
      ('[' :: (s.1 ++ [']'])) ++ '\n' :: (s.2.flatMap writeOption ++ '\n' :: rest) := by
    simp [writeSection]
  have hclean : '\n' ∉ '[' :: (s.1 ++ [']']) := by simp [hname]
  rw [hheader, linesFrom_append hclean, List.nil_append, linesFrom_options h]
  simp [sectionLines, linesFrom]

/-! ## §G Reading what was written -/

/-- A name that an option can have. -/
structure OptionName (optionxform : Text → Text) (name : Text) : Prop where
  head : ∃ c cs, name = c :: cs ∧ isSpace c = false ∧ c ≠ '[' ∧ c ≠ '#' ∧ c ≠ ';'
  closed : rstrip name = name
  undelimited : ∀ c ∈ name, isDelimiter c = false
  unbroken : '\n' ∉ name ∧ '\r' ∉ name
  folded : optionxform name = name

/-- A section that can be written and read back. -/
structure Writable (optionxform : Text → Text) (s : Section) : Prop where
  named : s.1 ≠ []
  ordinary : s.1 ≠ defaultSection
  unbroken : '\n' ∉ s.1 ∧ '\r' ∉ s.1
  options : ∀ o ∈ s.2, OptionName optionxform o.1
  unique : (s.2.map Prod.fst).Nodup
  values : ∀ o ∈ s.2, '\r' ∉ o.2

/-- The options of a section as they are read back. -/
def entriesOf (s : Section) : List Entry := s.2.map fun o => ⟨s.1, o.1, settled o.2⟩

namespace Reader

variable {optionxform : Text → Text} {r : Reader}

theorem steps_append (lines rest : List Text) :
    r.steps optionxform (lines ++ rest) = (r.steps optionxform lines).bind fun r =>
      r.steps optionxform rest := by
  induction lines generalizing r with
  | nil => rfl
  | cons line lines ih =>
    simp only [List.cons_append, steps]
    cases r.step optionxform line with
    | error e => rfl
    | ok r' => exact ih

/-- A line that begins with a text begins something. -/
theorem step_begins {line value : Text} {c : Char} {cs : Text} (hline : line = c :: cs)
    (hc : isSpace c = false) (hvalue : strip line = value) (hcomment : isComment value = false)
    (hne : value ≠ []) :
    r.step optionxform line = { r with indent := 0 }.begin optionxform value := by
  have hindent : indentation line = 0 := by
    rw [indentation, hline, List.takeWhile_cons, hc]
    rfl
  have hempty : value.isEmpty = false := by simpa using hne
  simp [step, hvalue, hcomment, hempty, hindent]

/-- The first line of an option. -/
theorem step_option {parent : Text} {o : Text × Text} (hname : OptionName optionxform o.1)
    (hcurrent : r.current = some parent)
    (hnew : ∀ p ∈ r.options, ¬(p.parent = parent ∧ p.name = o.1)) (first : Text) :
    r.step optionxform (leader o.1 ++ first) =
      .ok { r with
        options := ⟨parent, o.1, [strip first]⟩ :: r.options
        goesOn := true
        indent := 0 } := by
  obtain ⟨c, cs, ho, hspace, hbracket, hhash, hsemicolon⟩ := hname.head
  have hvalue : strip (leader o.1 ++ first) = o.1 ++ ' ' :: '=' :: rstrip (' ' :: first) := by
    have hline : leader o.1 ++ first = (o.1 ++ [' ']) ++ '=' :: (' ' :: first) := by simp [leader]
    have hfront : lstrip (leader o.1 ++ first) = leader o.1 ++ first := by
      rw [leader, ho]
      exact lstrip_cons hspace _
    rw [strip, hfront, hline, rstrip_append_cons (by decide)]
    simp
  have hcomment : isComment (o.1 ++ ' ' :: '=' :: rstrip (' ' :: first)) = false := by
    simp [isComment, ho, hhash, hsemicolon]
  have hbegins : leader o.1 ++ first = c :: (cs ++ " = ".toList ++ first) := by
    rw [leader, ho]
    simp
  rw [step_begins hbegins hspace hvalue hcomment (by rw [ho]; exact List.cons_ne_nil _ _)]
  have hheader : header (o.1 ++ ' ' :: '=' :: rstrip (' ' :: first)) = none := by
    rw [ho, List.cons_append, header]
    intro rest hrest
    exact hbracket (List.cons.inj hrest).1
  have hsplit : splitOption (o.1 ++ ' ' :: '=' :: rstrip (' ' :: first)) =
      some (o.1, strip first) := by
    have hbefore : ∀ c ∈ o.1 ++ [' '], (!isDelimiter c) = true := by
      intro c hc
      rcases List.mem_append.1 hc with hc | hc
      · rw [hname.undelimited c hc]; rfl
      · rw [List.mem_singleton.1 hc]; rfl
    have hline : o.1 ++ ' ' :: '=' :: rstrip (' ' :: first) =
        (o.1 ++ [' ']) ++ '=' :: rstrip (' ' :: first) := by simp
    rw [splitOption, hline, List.dropWhile_append_of_pos hbefore, List.takeWhile_append_of_pos hbefore]
    have hdelimiter : (!isDelimiter '=') = false := by decide
    rw [List.dropWhile_cons, List.takeWhile_cons, hdelimiter]
    simp only [Bool.false_eq_true, if_false, List.append_nil]
    rw [rstrip_concat_space (by decide), hname.closed, strip_rstrip, strip_cons_space (by decide)]
  have hany : (r.options.any fun p => p.parent == parent && p.name == o.1) = false := by
    rw [List.any_eq_false]
    intro p hp h
    exact hnew p hp (by simpa using h)
  have hempty : o.1.isEmpty = false := by rw [ho]; rfl
  simp [begin, hheader, hsplit, hcurrent, assign, hname.folded, hany, hempty]

/-- A further line of a value. -/
theorem step_further (hon : r.goesOn = true) (hindent : r.indent = 0) (line : Text) :
    r.step optionxform ('\t' :: line) =
      .ok (if isComment (strip line) then r else r.extend (strip line)) := by
  have hstrip : strip ('\t' :: line) = strip line := strip_cons_space (by decide) line
  have hdeeper : r.indent < indentation ('\t' :: line) := by
    have htab : isSpace '\t' = true := by decide
    rw [hindent, indentation, List.takeWhile_cons, htab]
    exact Nat.succ_pos _
  simp only [step, hstrip, hon, hdeeper]
  by_cases hcomment : isComment (strip line) = true
  · simp [hcomment]
  · by_cases hempty : strip line = []
    · simp [hempty, isComment]
    · simp [hcomment, hempty]

/-- All further lines of a value: the comments are skipped. -/
theorem steps_further {o : Reading} {os : List Reading} (hon : r.goesOn = true)
    (hindent : r.indent = 0) (hoptions : r.options = o :: os) (lines : List Text) :
    r.steps optionxform (lines.map ('\t' :: ·)) =
      .ok { r with options :=
        { o with lines := ((lines.map strip).filter (!isComment ·)).reverse ++ o.lines } :: os } := by
  induction lines generalizing r o with
  | nil => cases r; simp_all [steps]
  | cons line lines ih =>
    simp only [List.map_cons, steps, step_further hon hindent]
    by_cases hcomment : isComment (strip line) = true
    · simp only [hcomment, if_true]
      rw [show (Except.ok r >>= fun r => r.steps optionxform (lines.map ('\t' :: ·))) =
        r.steps optionxform (lines.map ('\t' :: ·)) from rfl, ih hon hindent hoptions]
      simp [hcomment]
    · simp only [hcomment, Bool.false_eq_true, if_false]
      have hextend : r.extend (strip line) =
          { r with options := { o with lines := strip line :: o.lines } :: os } := by
        simp [extend, hoptions]
      rw [show (Except.ok (r.extend (strip line)) >>= fun r =>
        r.steps optionxform (lines.map ('\t' :: ·))) =
        (r.extend (strip line)).steps optionxform (lines.map ('\t' :: ·)) from rfl, hextend,
        @ih { r with options := { o with lines := strip line :: o.lines } :: os }
          { o with lines := strip line :: o.lines } hon hindent rfl]
      simp [hcomment]

/-- **An option is read** with the lines that are left of its value. -/
theorem steps_option {parent : Text} {o : Text × Text} (hname : OptionName optionxform o.1)
    (hcurrent : r.current = some parent)
    (hnew : ∀ p ∈ r.options, ¬(p.parent = parent ∧ p.name = o.1)) :
    r.steps optionxform (optionLines o) =
      .ok { r with
        options := ⟨parent, o.1, (keptLines o.2).reverse⟩ :: r.options
        goesOn := true
        indent := 0 } := by
  have hrest := @steps_further optionxform
    { r with
      options := ⟨parent, o.1, [strip (valueLines o.2).1]⟩ :: r.options
      goesOn := true
      indent := 0 } _ _ rfl rfl rfl (valueLines o.2).2
  rw [optionLines, steps, step_option hname hcurrent hnew]
  refine hrest.trans ?_
  simp [keptLines]

/-- The options of a section, the last one first. -/
def readings (parent : Text) (os : List (Text × Text)) : List Reading :=
  (os.map fun o => ⟨parent, o.1, (keptLines o.2).reverse⟩).reverse

theorem steps_options {parent : Text} {os : List (Text × Text)}
    (hnames : ∀ o ∈ os, OptionName optionxform o.1) (hcurrent : r.current = some parent)
    (hunique : (os.map Prod.fst).Nodup)
    (hnew : ∀ p ∈ r.options, p.parent = parent → p.name ∉ os.map Prod.fst) :
    ∃ goesOn indent, r.steps optionxform (os.flatMap optionLines) =
      .ok { r with
        options := readings parent os ++ r.options
        goesOn := goesOn
        indent := indent } := by
  induction os generalizing r with
  | nil => exact ⟨r.goesOn, r.indent, rfl⟩
  | cons o os ih =>
    rw [List.forall_mem_cons] at hnames
    rw [List.map_cons, List.nodup_cons] at hunique
    have hfirst := steps_option hnames.1 hcurrent fun p hp h =>
      hnew p hp h.1 (by rw [h.2]; exact List.mem_cons_self)
    obtain ⟨goesOn, indent, hrest⟩ := @ih { r with
        options := ⟨parent, o.1, (keptLines o.2).reverse⟩ :: r.options
        goesOn := true
        indent := 0 } hnames.2 hcurrent hunique.2 fun p hp hparent => by
      rcases List.mem_cons.1 hp with rfl | hp
      · exact hunique.1
      · exact fun hmem => hnew p hp hparent (List.mem_cons_of_mem _ hmem)
    refine ⟨goesOn, indent, ?_⟩
    rw [List.flatMap_cons, steps_append, hfirst]
    refine hrest.trans ?_
    simp [readings]

theorem intercalate_concat_nil (line : Text) (lines : List Text) :
    List.intercalate ['\n'] ((line :: lines) ++ [[]]) =
      List.intercalate ['\n'] (line :: lines) ++ ['\n'] := by
  induction lines generalizing line with
  | nil => rw [List.singleton_append, List.intercalate_cons_cons]; simp
  | cons next lines ih =>
    rw [List.cons_append, List.cons_append, List.intercalate_cons_cons, ← List.cons_append, ih,
      List.intercalate_cons_cons]
    simp

/-- An empty line at the end of a value is lost. -/
theorem joined_concat_nil (lines : List Text) : joined (lines ++ [[]]) = joined lines := by
  cases lines with
  | nil => rfl
  | cons line lines =>
    rw [joined, intercalate_concat_nil, rstrip_concat_space (by decide), joined]

@[simp] theorem extend_nil_parsed : (r.extend []).parsed = r.parsed := by
  unfold extend
  split
  · rfl
  · next o os hoptions => simp [parsed, hoptions, joined_concat_nil]

/-- Every option belongs to a section that is there. -/
def Filed (r : Reader) : Prop := ∀ p ∈ r.options, p.parent ∈ r.sections

/-- An empty line changes nothing that will be left. -/
theorem step_empty :
    ∃ r', r.step optionxform [] = .ok r' ∧ r'.parsed = r.parsed ∧ r'.bogus = r.bogus ∧
      (r.Filed → r'.Filed) := by
  cases hon : r.goesOn with
  | false => exact ⟨r, by simp [step, hon, strip, lstrip, rstrip, isComment], rfl, rfl, id⟩
  | true =>
    refine ⟨r.extend [], by simp [step, hon, strip, lstrip, rstrip, isComment],
      extend_nil_parsed, ?_, fun hfiled => ?_⟩
    · unfold extend
      split <;> rfl
    · unfold extend
      split
      · exact hfiled
      · next o os hoptions =>
        intro p hp
        unfold Filed at hfiled
        rw [hoptions, List.forall_mem_cons] at hfiled
        rcases List.mem_cons.1 hp with rfl | hp
        · exact hfiled.1
        · exact hfiled.2 p hp

/-- The header of a section. -/
theorem step_header {name : Text} (hne : name ≠ []) (hdefault : name ≠ defaultSection)
    (hnew : name ∉ r.sections) :
    r.step optionxform ('[' :: (name ++ [']'])) =
      .ok { r with
        sections := r.sections ++ [name]
        current := some name
        goesOn := false
        indent := 0 } := by
  have hvalue : strip ('[' :: (name ++ [']'])) = '[' :: (name ++ [']']) :=
    strip_between (by decide) (by decide) name
  have hheader : header ('[' :: (name ++ [']'])) = some name := by
    simp [header, hne]
  rw [step_begins rfl (by decide) hvalue (by simp [isComment]) (List.cons_ne_nil _ _)]
  simp [begin, hheader, enter, hdefault, hnew]

/-- **A section is read** with the values that are left of its options. -/
theorem steps_section {s : Section} (hs : Writable optionxform s) (hfiled : r.Filed)
    (hnew : s.1 ∉ r.sections) :
    ∃ r', r.steps optionxform (sectionLines s) = .ok r' ∧
      r'.parsed = ⟨r.sections ++ [s.1], r.parsed.entries ++ entriesOf s⟩ ∧ r'.bogus = r.bogus ∧
      r'.Filed := by
  have hheader := @step_header optionxform r s.1 hs.named hs.ordinary hnew
  obtain ⟨goesOn, indent, hoptions⟩ := @steps_options optionxform
    { r with sections := r.sections ++ [s.1], current := some s.1, goesOn := false, indent := 0 }
    s.1 s.2 hs.options rfl hs.unique fun p hp hparent =>
      absurd (hparent ▸ hfiled p hp) hnew
  obtain ⟨r', hlast, hparsed, hbogus, hkeep⟩ := @step_empty optionxform
    { r with
      sections := r.sections ++ [s.1]
      current := some s.1
      options := readings s.1 s.2 ++ r.options
      goesOn := goesOn
      indent := indent }
  refine ⟨r', ?_, ?_, hbogus, hkeep fun p hp => ?_⟩
  · rw [sectionLines, steps, hheader]
    refine (steps_append _ _).trans ?_
    rw [hoptions]
    simp only [Except.bind, steps, hlast]
    rfl
  · rw [hparsed]
    simp [parsed, readings, entriesOf, settled, Function.comp_def]
  · rcases List.mem_append.1 hp with hp | hp
    · simp only [readings, List.mem_reverse, List.mem_map] at hp
      obtain ⟨o, _, rfl⟩ := hp
      simp
    · exact List.mem_append_left _ (hfiled p hp)

theorem steps_document {d : Document} (hd : ∀ s ∈ d, Writable optionxform s)
    (hunique : (d.map Prod.fst).Nodup) (hfiled : r.Filed)
    (hnew : ∀ s ∈ d, s.1 ∉ r.sections) :
    ∃ r', r.steps optionxform (d.flatMap sectionLines) = .ok r' ∧
      r'.parsed = ⟨r.sections ++ d.map Prod.fst, r.parsed.entries ++ d.flatMap entriesOf⟩ ∧
      r'.bogus = r.bogus := by
  induction d generalizing r with
  | nil => exact ⟨r, rfl, by simp [parsed], rfl⟩
  | cons s d ih =>
    rw [List.forall_mem_cons] at hd hnew
    rw [List.map_cons, List.nodup_cons] at hunique
    obtain ⟨r₁, hfirst, hparsed, hbogus, hfiled₁⟩ := steps_section hd.1 hfiled hnew.1
    have hsections : r₁.sections = r.sections ++ [s.1] := congrArg Parsed.sections hparsed
    obtain ⟨r', hrest, hparsed', hbogus'⟩ := ih hd.2 hunique.2 hfiled₁ fun t ht hmem => by
      rw [hsections] at hmem
      rcases List.mem_append.1 hmem with hmem | hmem
      · exact hnew.2 t ht hmem
      · exact hunique.1 (List.mem_singleton.1 hmem ▸ List.mem_map_of_mem ht)
    refine ⟨r', ?_, ?_, hbogus'.trans hbogus⟩
    · rw [List.flatMap_cons, steps_append, hfirst]
      exact hrest
    · rw [hparsed', hsections, hparsed]
      simp

end Reader

variable {optionxform : Text → Text} {d : Document}

theorem linesFrom_write (hd : ∀ s ∈ d, Writable optionxform s) :
    linesFrom [] (write d) = d.flatMap sectionLines := by
  induction d with
  | nil => rfl
  | cons s d ih =>
    rw [List.forall_mem_cons] at hd
    have hrest := linesFrom_section hd.1.unbroken.1 (fun o ho => (hd.1.options o ho).unbroken.1)
      (write d)
    rw [ih hd.2] at hrest
    rw [List.flatMap_cons, ← hrest, write, List.flatMap_cons, write]

/-- A file has a carriage return only where a value has one. -/
theorem write_return (hd : ∀ s ∈ d, Writable optionxform s) : '\r' ∉ write d := by
  have hindented : ∀ value : Text, '\r' ∉ value → '\r' ∉ indented value := by
    intro value hvalue hmem
    obtain ⟨c, hc, hmem⟩ := List.mem_flatMap.1 hmem
    split at hmem
    · exact absurd hmem (by decide)
    · exact hvalue (List.mem_singleton.1 hmem ▸ hc)
  intro hmem
  obtain ⟨s, hs, hmem⟩ := List.mem_flatMap.1 hmem
  have hw := hd s hs
  have hoptions : '\r' ∉ s.2.flatMap writeOption := by
    intro hmem
    obtain ⟨o, ho, hmem⟩ := List.mem_flatMap.1 hmem
    have hname := (hw.options o ho).unbroken.2
    have hvalue := hindented o.2 (hw.values o ho)
    simp [writeOption, leader, hname, hvalue] at hmem
  have hname := hw.unbroken.2
  simp [writeSection, hname, hoptions] at hmem

/-- **What was written is read back**, with what is left of each value. -/
theorem read_write (hd : ∀ s ∈ d, Writable optionxform s) (hunique : (d.map Prod.fst).Nodup) :
    read optionxform (write d) = .ok ⟨d.map Prod.fst, d.flatMap entriesOf⟩ := by
  obtain ⟨r, hsteps, hparsed, hbogus⟩ := @Reader.steps_document optionxform Reader.empty d hd hunique
    (by intro p hp; cases hp) (by intro s _ hmem; cases hmem)
  rw [read, universalNewlines_of_notMem (write_return hd), linesFrom_write hd, hsteps]
  have hfalse : r.bogus = false := hbogus
  simp only [bind, Except.bind, hfalse, Bool.false_eq_true, if_false]
  rw [hparsed]
  rfl

/-- **Each option is found** with what is left of its value. -/
theorem get_written {s : Section} {o : Text × Text} (hunique : (d.map Prod.fst).Nodup)
    (hs : s ∈ d) (hoptions : (s.2.map Prod.fst).Nodup) (ho : o ∈ s.2)
    (hfolded : optionxform o.1 = o.1) :
    Parsed.get optionxform ⟨d.map Prod.fst, d.flatMap entriesOf⟩ s.1 o.1 = some (settled o.2) := by
  have hcontains : (d.map Prod.fst).contains s.1 = true := by
    simpa using ⟨s.2, hs⟩
  have hentry : (⟨s.1, o.1, settled o.2⟩ : Entry) ∈ d.flatMap entriesOf :=
    List.mem_flatMap.2 ⟨s, hs, List.mem_map_of_mem ho⟩
  cases hfind : (d.flatMap entriesOf).find? fun e => e.parent == s.1 && e.name == optionxform o.1 with
  | none =>
    have hno := List.find?_eq_none.1 hfind _ hentry
    simp [hfolded] at hno
  | some e =>
    have he := List.find?_some hfind
    obtain ⟨s', hs', he'⟩ := List.mem_flatMap.1 (List.mem_of_find?_eq_some hfind)
    obtain ⟨o', ho', rfl⟩ := List.mem_map.1 he'
    simp only [hfolded, Bool.and_eq_true, beq_iff_eq] at he
    obtain rfl := List.inj_on_of_nodup_map hunique hs' hs he.1
    obtain rfl := List.inj_on_of_nodup_map hoptions ho' ho he.2
    simp only [Parsed.get, hcontains, Bool.true_or, if_true, hfind, Option.some_or, Option.map_some]

/-! ## §H The values that are not changed -/

/-- No line has white space around it, no further line is a comment, and no line is empty at the end. -/
def Plain (value : Text) : Prop :=
  strip (valueLines value).1 = (valueLines value).1 ∧
    (∀ line ∈ (valueLines value).2, strip line = line ∧ isComment line = false) ∧
    rstrip value = value

instance (value : Text) : Decidable (Plain value) := inferInstanceAs (Decidable (_ ∧ _ ∧ _))

/-- A value is its lines. -/
theorem intercalate_valueLines (value : Text) :
    List.intercalate ['\n'] ((valueLines value).1 :: (valueLines value).2) = value := by
  induction value with
  | nil => rfl
  | cons c cs ih =>
    by_cases hc : c = '\n'
    · subst hc
      simp only [valueLines, if_true]
      rw [List.intercalate_cons_cons, ih]
      rfl
    · simp only [valueLines, hc, if_false]
      rw [List.intercalate_cons_cons_left, ih]

/-- The length of some lines with their line feeds. -/
def total (lines : List Text) : Nat := (lines.map fun line => line.length + 1).sum

theorem length_intercalate (first : Text) (others : List Text) :
    (List.intercalate ['\n'] (first :: others)).length = first.length + total others := by
  induction others generalizing first with
  | nil => simp [total]
  | cons next others ih =>
    rw [List.intercalate_cons_cons, List.append_assoc, List.length_append, List.length_append, ih]
    simp [total]
    omega

theorem strip_length (text : Text) : (strip text).length ≤ text.length :=
  (strip_isInfix text).length_le

theorem strip_eq_of_length {text : Text} (h : text.length ≤ (strip text).length) :
    strip text = text :=
  (strip_isInfix text).eq_of_length (Nat.le_antisymm (strip_length text) h)

/-- The lines that are left are not longer. -/
theorem total_kept (lines : List Text) :
    total ((lines.map strip).filter (!isComment ·)) ≤ total lines := by
  induction lines with
  | nil => exact Nat.le_refl _
  | cons line lines ih =>
    have hline := strip_length line
    rw [List.map_cons, List.filter_cons]
    unfold total at ih ⊢
    split <;> simp only [List.map_cons, List.sum_cons] <;> omega

/-- Where they are as long, all of them are left, as they are. -/
theorem kept_of_total {lines : List Text}
    (h : total lines ≤ total ((lines.map strip).filter (!isComment ·))) :
    ∀ line ∈ lines, strip line = line ∧ isComment line = false := by
  induction lines with
  | nil => exact fun _ hline => absurd hline List.not_mem_nil
  | cons line lines ih =>
    have hline := strip_length line
    have hrest := total_kept lines
    rw [List.map_cons, List.filter_cons] at h
    unfold total at ih hrest h
    rw [List.forall_mem_cons]
    split at h
    · next hkept =>
      simp only [List.map_cons, List.sum_cons] at h
      have hstrip := @strip_eq_of_length line (by omega)
      rw [hstrip] at hkept
      exact ⟨⟨hstrip, by simpa using hkept⟩, ih (by omega)⟩
    · simp only [List.map_cons, List.sum_cons] at h
      omega

theorem settled_of_plain {value : Text} (h : Plain value) : settled value = value := by
  obtain ⟨hfirst, hothers, hend⟩ := h
  have hkept : ((valueLines value).2.map strip).filter (!isComment ·) = (valueLines value).2 := by
    have hmap : (valueLines value).2.map strip = (valueLines value).2 :=
      (List.map_congr_left (g := id) fun line hline => (hothers line hline).1).trans (List.map_id _)
    rw [hmap, List.filter_eq_self]
    intro line hline
    rw [(hothers line hline).2]
    rfl
  rw [settled, keptLines, hfirst, hkept, joined, intercalate_valueLines, hend]

/-- **A value is read back as it was written** exactly when it is plain. -/
theorem settled_eq_self_iff {value : Text} : settled value = value ↔ Plain value := by
  refine ⟨fun h => ?_, settled_of_plain⟩
  have hend : rstrip value = value := by
    rw [← h, settled, joined, rstrip_rstrip]
  have hlength : value.length ≤
      (strip (valueLines value).1).length + total
        (((valueLines value).2.map strip).filter (!isComment ·)) := by
    calc value.length = (settled value).length := by rw [h]
      _ ≤ (List.intercalate ['\n'] (keptLines value)).length := (rstrip_isPrefix _).length_le
      _ = _ := by rw [keptLines, length_intercalate]
  have hvalue : value.length = (valueLines value).1.length + total (valueLines value).2 := by
    rw [← length_intercalate, intercalate_valueLines]
  have hfirst := strip_length (valueLines value).1
  have hothers := total_kept (valueLines value).2
  exact ⟨strip_eq_of_length (by omega), kept_of_total (by omega), hend⟩

end OpencodeCloud.Library.Ini
