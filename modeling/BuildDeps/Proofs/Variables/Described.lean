import BuildDeps.Proofs.Disk.Walk
import BuildDeps.Proofs.Text.Broken
import BuildDeps.Proofs.Variables.Assigned
import BuildDeps.Variables.Descriptor

/-!
# Descriptors as they are written

A descriptor that assigns variables has a line for each assignment, which may be broken within the
value. Commands, blank lines and comments can stand between these lines, and anything behind the
separator. Reading such a descriptor gives the assignments back.

## Main definitions

* `Descriptor.Assigned` is an assignment on its line, `Descriptor.PassedOver` another line.
* `Descriptor.text` is the text of assignments and other lines.

## Main statements

* `Descriptor.map_text_lines`: the lines of such a text.
* `Descriptor.parse_text`, `Descriptor.collects_read_text`.
-/

namespace BuildDeps.Descriptor

/-- An assignment that can be written on a line, which may be broken within the value. -/
structure Assigned where
  name : Text
  /-- The value up to the first place where its line is broken. -/
  first : Text
  /-- The pieces of the value behind the places where its line is broken. -/
  more : List Text
  fits : Assignment.Fits name (first ++ more.flatten)
  unbroken : (first ++ more.flatten).IsUnbroken
  complete : (first ++ more.flatten).getLast? ≠ some (.char '\\')

/-- A line that assigns nothing: a command, a blank line, or a comment that is not the separator. -/
structure PassedOver where
  line : Text
  unbroken : line.IsUnbroken
  complete : line.getLast? ≠ some (.char '\\')
  passedOver : line.startsWith "\t" = true ∨ line.allBlank = true ∨
    line.trimLeft.startsWith "#" = true ∧ line.startsWith separator = false

/-- A part of a descriptor. -/
inductive Part where
  | assigned (a : Assigned)
  | passedOver (l : PassedOver)

namespace Part

/-- A part up to the first place where its line is broken. -/
def first : Part → Text
  | assigned a => a.name ++ (" = " : Text) ++ a.first
  | passedOver l => l.line

/-- The pieces of a part behind the places where its line is broken. -/
def more : Part → List Text
  | assigned a => a.more
  | passedOver _ => []

/-- What a part assigns. -/
def pair? : Part → Option (Text × Text)
  | assigned a => some (a.name, a.first ++ a.more.flatten)
  | passedOver _ => none

end Part

/-- The text of a descriptor. -/
def text (ps : List Part) : Text :=
  ps.flatMap fun p => Text.broken p.first p.more ++ [.char '\n']

variable {a : Assigned} {l : PassedOver} {p : Part} {ps : List Part} {rest start t : Text}

/-! ## Lines -/

namespace Part

/-- The line of a part in one piece. -/
def line (p : Part) : Text := p.first ++ p.more.flatten

theorem line_assigned (a : Assigned) : (assigned a).line =
    a.name ++ ((" " : Text) ++ .char '=' :: ((" " : Text) ++ (a.first ++ a.more.flatten))) := by
  simp [line, first, more, Text.ofString]

theorem line_passedOver (l : PassedOver) : (passedOver l).line = l.line := by
  simp [line, first, more]

theorem isUnbroken_line (p : Part) : p.line.IsUnbroken := by
  cases p with
  | assigned a =>
      have hname : a.name.IsUnbroken := by
        intro s hs
        have hpart := a.fits.isNamePart s hs
        constructor <;> rintro rfl <;> exact absurd hpart (by decide)
      rw [line_assigned, Text.isUnbroken_append]
      refine ⟨hname, Text.isUnbroken_append.2 ⟨by decide, ?_⟩⟩
      exact List.forall_mem_cons.2
        ⟨by decide, Text.isUnbroken_append.2 ⟨by decide, a.unbroken⟩⟩
  | passedOver l =>
      rw [line_passedOver]
      exact l.unbroken

theorem getLast?_line (p : Part) : p.line.getLast? ≠ some (.char '\\') := by
  cases p with
  | assigned a =>
      show (a.name ++ (" = " : Text) ++ a.first ++ a.more.flatten).getLast? ≠ _
      rw [List.append_assoc (a.name ++ _)]
      by_cases hvalue : a.first ++ a.more.flatten = []
      · rw [hvalue, List.append_nil, List.getLast?_append_of_ne_nil _ (by decide)]
        decide
      · rw [List.getLast?_append_of_ne_nil _ hvalue]
        exact a.complete
  | passedOver l =>
      rw [line_passedOver]
      exact l.complete

end Part

/-- The lines of a descriptor are those of its parts, and then those of the text behind them. -/
theorem map_text_lines (ps : List Part) (rest : Text) :
    (text ps ++ rest).lines.map Line.text = ps.map Part.line ++ rest.lines.map Line.text := by
  induction ps with
  | nil => rfl
  | cons p ps ih =>
      have htext : text (p :: ps) ++ rest =
          Text.broken p.first p.more ++ .char '\n' :: (text ps ++ rest) := by
        simp [text]
      rw [htext, Text.lines_broken p.isUnbroken_line p.getLast?_line, ih]
      rfl

theorem notMem_text (ps : List Part) : Symbol.char '\r' ∉ text ps := by
  intro h
  obtain ⟨p, -, hp⟩ := List.mem_flatMap.1 h
  obtain ⟨hfirst, hmore⟩ := Text.isUnbroken_append.1 p.isUnbroken_line
  have hmem : Symbol.char '\r' ∈ p.first ∨ Symbol.char '\r' ∈ p.more.flatten := by
    simpa [Text.broken] using hp
  rcases hmem with hmem | hmem
  · exact (hfirst _ hmem).2 rfl
  · exact (hmore _ hmem).2 rfl

/-! ## Assignments -/

theorem startsWith_eq_false (hne : start ≠ []) (h : t.head? ≠ start.head?) :
    t.startsWith start = false := by
  rw [← Bool.not_eq_true]
  intro hstart
  obtain ⟨rest, rfl⟩ := List.isPrefixOf_iff_prefix.1 hstart
  exact h (List.head?_append_of_ne_nil _ hne)

namespace Part

theorem head?_line_assigned (a : Assigned) :
    ∀ s ∈ (assigned a).line.head?, s.isNamePart = true := by
  intro s hs
  rw [line_assigned, List.head?_append_of_ne_nil _ a.fits.ne_nil] at hs
  exact a.fits.isNamePart s (List.mem_of_mem_head? hs)

/-- No part is taken for the separator. -/
theorem startsWith_separator (p : Part) : p.line.startsWith separator = false := by
  cases p with
  | assigned a =>
      refine startsWith_eq_false (by decide) fun hhead => ?_
      exact absurd (head?_line_assigned a (.char '#') hhead) (by decide)
  | passedOver l =>
      rw [line_passedOver]
      rcases l.passedOver with htab | hblank | ⟨-, hseparator⟩
      · obtain ⟨rest, hline⟩ := List.isPrefixOf_iff_prefix.1 htab
        rw [← hline]
        rfl
      · refine startsWith_eq_false (by decide) fun hhead => ?_
        have hmem : Symbol.char '#' ∈ l.line := List.mem_of_mem_head? hhead
        exact absurd (List.all_eq_true.1 hblank _ hmem) (by decide)
      · exact hseparator

/-- A part is read as what it assigns, unless it is passed over. -/
theorem parse?_line (p : Part) :
    (if !isIgnored p.line then Assignment.parse? p.line.trimLeft else none) = p.pair? := by
  cases p with
  | assigned a =>
      have hhead := head?_line_assigned a
      have htrim : (assigned a).line.trimLeft = (assigned a).line :=
        Assignment.trimLeft_of_head? fun s hs => Symbol.isBlank_of_isNamePart (hhead s hs)
      have hread : isIgnored (assigned a).line = false := by
        rw [isIgnored, htrim, startsWith_eq_false (by decide) fun h => ?_,
          startsWith_eq_false (by decide) fun h => ?_]
        · rfl
        · exact absurd (hhead (.char '#') h) (by decide)
        · exact absurd (hhead (.char '\t') h) (by decide)
      rw [hread, htrim, line_assigned]
      exact Assignment.parse?_written a.fits (by decide) (by decide)
  | passedOver l =>
      rw [line_passedOver]
      rcases l.passedOver with htab | hblank | ⟨hcomment, -⟩
      · simp [isIgnored, htab, pair?]
      · have htrim : l.line.trimLeft = [] := by
          have hall := Assignment.trimLeft_append hblank []
          rwa [List.append_nil] at hall
        rw [htrim]
        split <;> rfl
      · simp [isIgnored, hcomment, pair?]

end Part

/-- Parts bind what they assign, whatever stands behind the separator. -/
theorem parse_text (ps : List Part) (hrest : rest = [] ∨ rest.startsWith separator = true) :
    parse (text ps ++ rest) = Table.ofList (ps.filterMap Part.pair?) := by
  have hparts : ∀ line ∈ ps.map Part.line, (!line.startsWith separator) = true := by
    intro line hline
    obtain ⟨p, -, rfl⟩ := List.mem_map.1 hline
    rw [p.startsWith_separator]
    rfl
  have hend : (rest.lines.map Line.text).takeWhile (!·.startsWith separator) = [] := by
    rcases hrest with rfl | hrest
    · rfl
    · obtain ⟨behind, rfl⟩ := List.isPrefixOf_iff_prefix.1 hrest
      obtain ⟨k, ks, hlines, hstarts⟩ : ∃ k ks, (separator ++ behind).lines = k :: ks ∧
          separator <+: k.text :=
        Text.exists_lines_of_prefix (by decide) (by decide) (by decide) (by decide) behind
      have hk : k.text.startsWith separator = true := List.isPrefixOf_iff_prefix.2 hstarts
      rw [hlines, List.map_cons, List.takeWhile_cons_of_neg (by simp [hk])]
  rw [parse, map_text_lines, List.takeWhile_append_of_pos hparts, hend, List.append_nil]
  rw [← List.foldl_map (f := Text.trimLeft) (g := Assignment.bind), Assignment.foldl_bind,
    List.filterMap_map, List.filterMap_filter, List.filterMap_map]
  simp only [Function.comp_def, Part.parse?_line]

/-- The assignments of a descriptor are read from its file. -/
theorem collects_read_text {d : Disk} {path : Text} {content : Bytes} (ps : List Part)
    (hrest : rest = [] ∨ rest.startsWith separator = true) (hpath : Symbol.char '\x00' ∉ path)
    (hread : d.read path.encode = .ok content) (hcontent : Text.decode content = text ps ++ rest) :
    ∃ b, read d path = .ok b ∧ b.Collects (ps.filterMap Part.pair?) := by
  have htext : d.textAt path = .ok (text ps ++ rest.unifyLineEnds) := by
    refine Disk.textAt_eq_ok.2 ⟨hpath, content, hread, ?_⟩
    rw [hcontent, Text.unifyLineEnds_append (notMem_text ps)]
  have hend : rest.unifyLineEnds = [] ∨ rest.unifyLineEnds.startsWith separator = true := by
    rcases hrest with rfl | hrest
    · exact .inl rfl
    · obtain ⟨behind, rfl⟩ := List.isPrefixOf_iff_prefix.1 hrest
      rw [Text.unifyLineEnds_append (by decide)]
      exact .inr (List.isPrefixOf_iff_prefix.2 (List.prefix_append _ _))
  refine ⟨Table.ofList (ps.filterMap Part.pair?), ?_, Table.collects_ofList _⟩
  rw [read, htext, ← parse_text ps hend]

/-- Parts of all kinds: broken values, a name that is assigned twice, and lines between them. -/
def trickyParts : List Part :=
  [.assigned ⟨"CC", "a", [" = #", "", "\\b"], ⟨by decide, by decide, by decide⟩, by decide,
      by decide⟩,
   .passedOver ⟨"\tCC = x", by decide, by decide, by decide⟩,
   .passedOver ⟨" \u3000", by decide, by decide, by decide⟩,
   .assigned ⟨"É_1", "", [], ⟨by decide, by decide, by decide⟩, by decide, by decide⟩,
   .passedOver ⟨" ### Dependencies", by decide, by decide, by decide⟩,
   .assigned ⟨"CC", "", ["\\", "\u2028y\t"], ⟨by decide, by decide, by decide⟩, by decide,
      by decide⟩]

/-- A descriptor with these parts, and an assignment behind the separator. -/
def trickyDescriptor : String :=
  "CC = a\\\n = #\\\n\\\n\\b\n\tCC = x\n \u3000\nÉ_1 = \n ### Dependencies\n" ++
    "CC = \\\n\\\\\n\u2028y\t\n### Dependencies\r\nCC = z\n"

/-- A disk with that descriptor. -/
def trickyDisk : Disk where
  entries := Table.ofList [(["Makefile".toUTF8.toList], .file trickyDescriptor.toUTF8.toList)]
  workDir := []

theorem collects_read_text_tricky :
    ("### Dependencies\r\nCC = z\n" : Text).startsWith separator = true ∧
    Symbol.char '\x00' ∉ ("Makefile" : Text) ∧
    trickyDisk.read (Text.encode "Makefile") = .ok trickyDescriptor.toUTF8.toList ∧
    Text.decode trickyDescriptor.toUTF8.toList =
      text trickyParts ++ "### Dependencies\r\nCC = z\n" ∧
    ∃ b, read trickyDisk "Makefile" = .ok b ∧
      b.Collects [("CC", "a = #\\b"), ("É_1", ""), ("CC", "\\\u2028y\t")] := by
  have hrest : ("### Dependencies\r\nCC = z\n" : Text).startsWith separator = true := by decide
  have hpath : Symbol.char '\x00' ∉ ("Makefile" : Text) := by decide
  have hread : trickyDisk.read (Text.encode "Makefile") =
      .ok trickyDescriptor.toUTF8.toList := by decide +kernel
  have hcontent : Text.decode trickyDescriptor.toUTF8.toList =
      text trickyParts ++ "### Dependencies\r\nCC = z\n" := by decide +kernel
  have hpairs : ([("CC", "a = #\\b"), ("É_1", ""), ("CC", "\\\u2028y\t")] : List (Text × Text)) =
      trickyParts.filterMap Part.pair? := by decide
  refine ⟨hrest, hpath, hread, hcontent, ?_⟩
  rw [hpairs]
  exact collects_read_text trickyParts (.inr hrest) hpath hread hcontent

end BuildDeps.Descriptor
